import XmipRuntime.Library.Numbered

/-!
# Numbered queues page by page, and as they go on

What a reader may tell of a numbered queue without reading it whole.  Read a page at a time, from the number after the
last it found, a reader finds everything (`onFrom_page`); and where neither the number the next item gets nor how many
there are has changed, nothing has (`Later.items_eq`), whatever was put in and taken out (`Later`).
-/

namespace Library

namespace Numbered

variable {α : Type}

/-- The items numbered `start` or more, in order. -/
def onFrom (q : Numbered α) (start : Nat) : List (Nat × α) := q.items.filter fun x => decide (start ≤ x.1)

/-- Some numbers never given. -/
def skip (q : Numbered α) (count : Nat) : Numbered α where
  items := q.items
  next := q.next + count
  increasing := q.increasing
  below x hx := Nat.lt_add_right _ (q.below x hx)

/-! ### Page by page -/

variable {q : Numbered α} {start most : Nat} {x : Nat × α}

theorem onFrom_zero : q.onFrom 0 = q.items := List.filter_eq_self.2 fun x _ => by simp

theorem readFrom_zero : q.readFrom 0 most = q.items.take most := by
  unfold readFrom
  rw [show (q.items.filter fun x => decide (0 ≤ x.1)) = q.items from onFrom_zero]

/-- What a page found, and what there is after its last, is what there is from its start on. -/
theorem onFrom_page (h : (q.readFrom start most).getLast? = some x) :
    q.onFrom start = q.readFrom start most ++ q.onFrom (x.1 + 1) := by
  have hpair : (q.onFrom start).Pairwise fun x y => x.1 < y.1 := q.increasing.filter _
  have hrest : q.onFrom (x.1 + 1) = (q.onFrom start).filter fun y => decide (x.1 + 1 ≤ y.1) := by
    unfold onFrom
    have hstart : start ≤ x.1 := (mem_readFrom (List.mem_of_getLast? h)).2
    rw [List.filter_filter]
    refine List.filter_congr fun y _ => ?_
    rw [← Bool.decide_and, decide_eq_decide]
    omega
  obtain ⟨init, hinit⟩ := List.getLast?_eq_some_iff.1 h
  have hsplit : q.onFrom start = q.readFrom start most ++ (q.onFrom start).drop most :=
    (List.take_append_drop most _).symm
  have hpairs := hpair
  rw [hsplit, hinit, List.pairwise_append, List.pairwise_append] at hpairs
  obtain ⟨⟨-, -, hlast⟩, -, hafter⟩ := hpairs
  have hnone : (q.readFrom start most).filter (fun y => decide (x.1 + 1 ≤ y.1)) = [] := by
    refine List.filter_eq_nil_iff.2 fun y hy => ?_
    rw [hinit] at hy
    rcases List.mem_append.1 hy with hy | hy
    · have hlt := hlast y hy x (List.mem_singleton_self x)
      simp only [decide_eq_true_eq]
      omega
    · rw [List.mem_singleton.1 hy]
      simp
  have hall : ((q.onFrom start).drop most).filter (fun y => decide (x.1 + 1 ≤ y.1)) = (q.onFrom start).drop most := by
    refine List.filter_eq_self.2 fun y hy => ?_
    have hlt := hafter x (List.mem_append_right _ (List.mem_singleton_self x)) y hy
    simp only [decide_eq_true_eq]
    omega
  rw [hrest]
  nth_rewrite 1 [hsplit]
  nth_rewrite 2 [hsplit]
  rw [List.filter_append, hnone, hall, List.nil_append]

/-- A page that found fewer than it asked for found everything from its start on. -/
theorem onFrom_of_lt (h : (q.readFrom start most).length < most) : q.onFrom start = q.readFrom start most := by
  unfold readFrom at h ⊢
  rw [List.length_take] at h
  exact (List.take_of_length_le (by unfold onFrom at *; omega)).symm

/-- Nothing is numbered as the next would be. -/
theorem onFrom_of_le (h : q.next ≤ start) : q.onFrom start = [] := by
  refine List.filter_eq_nil_iff.2 fun x hx => ?_
  have hlt := q.below x hx
  simp only [decide_eq_true_eq]
  omega

/-! ### As they go on -/

/-- `now` is what `was` may have become: numbers are only given, and where none was, items were only taken out. -/
structure Later (was now : Numbered α) : Prop where
  next : was.next ≤ now.next
  taken : now.next = was.next → now.items.Sublist was.items

theorem Later.refl (q : Numbered α) : q.Later q := ⟨Nat.le_refl _, fun _ => List.Sublist.refl _⟩

theorem Later.trans {q₁ q₂ q₃ : Numbered α} (h : q₁.Later q₂) (h' : q₂.Later q₃) : q₁.Later q₃ := by
  refine ⟨Nat.le_trans h.next h'.next, fun heq => ?_⟩
  have h₁ := h.next
  have h₂ := h'.next
  exact (h'.taken (by omega)).trans (h.taken (by omega))

theorem later_push (q : Numbered α) (a : α) : q.Later (q.push a) :=
  ⟨Nat.le_succ _, fun h => absurd h (Nat.succ_ne_self _)⟩

theorem later_filter (q : Numbered α) (keep : Nat × α → Bool) : q.Later (q.filter keep) :=
  ⟨Nat.le_refl _, fun _ => List.filter_sublist⟩

theorem later_skip (q : Numbered α) (count : Nat) : q.Later (q.skip count) :=
  ⟨Nat.le_add_right _ _, fun _ => List.Sublist.refl _⟩

/-- Where no number was given, and as many items are there as were, they are those. -/
theorem Later.items_eq {was now : Numbered α} (h : was.Later now) (hnext : now.next = was.next)
    (hcount : now.items.length = was.items.length) : now.items = was.items :=
  (h.taken hnext).eq_of_length hcount

end Numbered

end Library
