import Mathlib.Data.List.Forall2
import Mathlib.Data.List.Perm.Basic

/-!
# One of many

A machine's threads in a list, in no order that means anything: `pick` takes out the one a step is of, and what holds
of them all is said of the list up to permutation.
-/

namespace Library

variable {α : Type}

/-- The one at `i` and the rest. -/
def pick (l : List α) (i : Nat) : Option (α × List α) := l[i]?.map fun a => (a, l.eraseIdx i)

theorem pick_perm {l rest : List α} {i : Nat} {a : α} (h : pick l i = some (a, rest)) : (a :: rest).Perm l := by
  obtain ⟨b, hb, hr⟩ := Option.map_eq_some_iff.1 h
  obtain ⟨hi, rfl⟩ := List.getElem?_eq_some_iff.1 hb
  obtain ⟨rfl, rfl⟩ := Prod.mk.inj hr
  exact List.getElem_cons_eraseIdx_perm hi

/-- The last one. -/
theorem pick_concat (l : List α) (a : α) : pick (l ++ [a]) l.length = some (a, l) := by
  rw [pick, List.getElem?_concat_length, Option.map_some]
  rw [List.eraseIdx_append_of_length_le (Nat.le_refl _), Nat.sub_self, List.eraseIdx_zero, List.tail_cons, List.append_nil]

theorem mem_of_pick {l rest : List α} {i : Nat} {a : α} (h : pick l i = some (a, rest)) : a ∈ l :=
  (pick_perm h).mem_iff.1 (List.mem_cons_self ..)

theorem mem_of_mem_pick {l rest : List α} {i : Nat} {a b : α} (h : pick l i = some (a, rest)) (hb : b ∈ rest) :
    b ∈ l :=
  (pick_perm h).mem_iff.1 (List.mem_cons_of_mem _ hb)

theorem eq_or_mem_of_pick {l rest : List α} {i : Nat} {a b : α} (h : pick l i = some (a, rest)) (hb : b ∈ l) :
    b = a ∨ b ∈ rest :=
  List.mem_cons.1 ((pick_perm h).mem_iff.2 hb)

/-- The total of `f` over all. -/
def total (f : α → Nat) : List α → Nat
  | [] => 0
  | a :: l => f a + total f l

@[simp] theorem total_nil (f : α → Nat) : total f [] = 0 := rfl

@[simp] theorem total_cons (f : α → Nat) (a : α) (l : List α) : total f (a :: l) = f a + total f l := rfl

@[simp] theorem total_snoc (f : α → Nat) (l : List α) (a : α) : total f (l ++ [a]) = total f l + f a := by
  induction l with
  | nil => simp [total]
  | cons b l ih =>
    show f b + total f (l ++ [a]) = f b + total f l + f a
    omega

theorem total_perm {f : α → Nat} {l l' : List α} (h : l.Perm l') : total f l = total f l' := by
  induction h with
  | nil => rfl
  | cons a _ ih => exact congrArg (f a + ·) ih
  | swap a b l =>
    show f b + (f a + total f l) = f a + (f b + total f l)
    omega
  | trans _ _ ih₁ ih₂ => exact ih₁.trans ih₂

/-- A total over all is what it was over the one picked and over the rest. -/
theorem total_of_pick {l rest : List α} {i : Nat} {a : α} (f : α → Nat) (h : pick l i = some (a, rest)) :
    total f l = f a + total f rest :=
  (total_perm (pick_perm h)).symm

theorem total_congr {f g : α → Nat} {l : List α} (h : ∀ a ∈ l, f a = g a) : total f l = total g l := by
  induction l with
  | nil => rfl
  | cons a l ih =>
    show f a + total f l = g a + total g l
    rw [h a (List.mem_cons_self ..), ih fun b hb => h b (List.mem_cons_of_mem _ hb)]

theorem total_le {f g : α → Nat} {l : List α} (h : ∀ a ∈ l, f a ≤ g a) : total f l ≤ total g l := by
  induction l with
  | nil => exact Nat.le_refl _
  | cons a l ih => exact Nat.add_le_add (h a (List.mem_cons_self ..)) (ih fun b hb => h b (List.mem_cons_of_mem _ hb))

/-- What one goes on as weighs no more. -/
theorem total_becomes_le {f : α → Nat} {l rest : List α} {i : Nat} {a b : α} (h : pick l i = some (a, rest))
    (hle : f b ≤ f a) : total f (b :: rest) ≤ total f l := by
  rw [total_of_pick f h]
  exact Nat.add_le_add_right hle _

theorem total_map {β : Type} (f : β → Nat) (g : α → β) (l : List α) : total f (l.map g) = total (fun a => f (g a)) l := by
  induction l with
  | nil => rfl
  | cons a l ih => exact congrArg (f (g a) + ·) ih

theorem total_add (f g : α → Nat) (l : List α) : total (fun a => f a + g a) l = total f l + total g l := by
  induction l with
  | nil => rfl
  | cons a l ih =>
    show f a + g a + total (fun a => f a + g a) l = f a + total f l + (g a + total g l)
    omega

theorem total_eq_zero {f : α → Nat} {l : List α} (h : ∀ a ∈ l, f a = 0) : total f l = 0 := by
  induction l with
  | nil => rfl
  | cons a l ih =>
    show f a + total f l = 0
    rw [h a (List.mem_cons_self ..), ih fun b hb => h b (List.mem_cons_of_mem _ hb)]

theorem exists_pick_of_mem {l : List α} {a : α} (h : a ∈ l) : ∃ i rest, pick l i = some (a, rest) := by
  obtain ⟨i, hi, rfl⟩ := List.getElem_of_mem h
  refine ⟨i, l.eraseIdx i, ?_⟩
  unfold pick
  rw [List.getElem?_eq_getElem hi]
  rfl

theorem length_of_pick {l rest : List α} {i : Nat} {a : α} (h : pick l i = some (a, rest)) :
    l.length = rest.length + 1 :=
  (pick_perm h).length_eq.symm

/-- What `f` is of all is what it is of the one picked and of the rest. -/
theorem filterMap_of_pick {β : Type} {l rest : List α} {i : Nat} {a : α} (f : α → Option β)
    (h : pick l i = some (a, rest)) : (rest.filterMap f ++ (f a).toList).Perm (l.filterMap f) := by
  refine List.Perm.trans ?_ ((pick_perm h).filterMap f)
  refine List.perm_append_comm.trans ?_
  cases hf : f a with
  | none =>
    rw [List.filterMap_cons_none hf]
    exact List.Perm.refl _
  | some b =>
    rw [List.filterMap_cons_some hf]
    exact List.Perm.refl _

section Becomes

variable {β : Type} {f : α → Option β} {l rest : List α} {i : Nat} {a b : α} {c : β}

theorem map_becomes {g : α → β} (h : pick l i = some (a, rest)) (hb : g b = g a) : ((b :: rest).map g).Perm (l.map g) := by
  rw [List.map_cons, hb, ← List.map_cons]
  exact (pick_perm h).map g

/-- One goes on as another: what `f` is of all stays, gains what it is of that one, or loses it. -/
theorem filterMap_becomes (h : pick l i = some (a, rest)) (hb : f b = f a) :
    ((b :: rest).filterMap f).Perm (l.filterMap f) := by
  rw [List.filterMap_cons, hb, ← List.filterMap_cons]
  exact (pick_perm h).filterMap f

theorem filterMap_gains (h : pick l i = some (a, rest)) (ha : f a = none) (hb : f b = some c) :
    ((b :: rest).filterMap f).Perm (c :: l.filterMap f) := by
  have hrest := (pick_perm h).filterMap f
  rw [List.filterMap_cons_none ha] at hrest
  rw [List.filterMap_cons_some hb]
  exact hrest.cons c

theorem filterMap_loses (h : pick l i = some (a, rest)) (ha : f a = some c) (hb : f b = none) :
    (c :: (b :: rest).filterMap f).Perm (l.filterMap f) := by
  have hrest := (pick_perm h).filterMap f
  rw [List.filterMap_cons_some ha] at hrest
  rw [List.filterMap_cons_none hb]
  exact hrest

end Becomes

theorem filterMap_snoc {β : Type} (f : α → Option β) (l : List α) (a : α) :
    (l ++ [a]).filterMap f = l.filterMap f ++ (f a).toList := by
  rw [List.filterMap_append]
  cases hf : f a with
  | none =>
    rw [List.filterMap_cons_none hf]
    rfl
  | some b =>
    rw [List.filterMap_cons_some hf]
    rfl

/-- What is picked of two lists kept side by side is side by side, and so is the rest. -/
theorem pick_forall₂ {β : Type} {R : α → β → Prop} {l rest : List α} {m : List β} (h : List.Forall₂ R l m) {i : Nat} {a : α}
    (hp : pick l i = some (a, rest)) : ∃ b rest', pick m i = some (b, rest') ∧ R a b ∧ List.Forall₂ R rest rest' := by
  induction h generalizing i rest with
  | nil => cases hp
  | @cons x y l m hxy h ih =>
    cases i with
    | zero =>
      cases hp
      exact ⟨y, m, rfl, hxy, h⟩
    | succ i =>
      obtain ⟨b, hb, heq⟩ := Option.map_eq_some_iff.1 hp
      cases heq
      have hrest : pick l i = some (a, l.eraseIdx i) := Option.map_eq_some_iff.2 ⟨a, hb, rfl⟩
      obtain ⟨c, rest', hc, hac, hrests⟩ := ih hrest
      obtain ⟨d, hd, heq⟩ := Option.map_eq_some_iff.1 hc
      cases heq
      exact ⟨c, y :: m.eraseIdx i, Option.map_eq_some_iff.2 ⟨c, hd, rfl⟩, hac, .cons hxy hrests⟩

end Library
