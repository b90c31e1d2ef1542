import Mathlib.Data.List.Basic

/-!
# Numbered queues

A queue whose items are numbered in the order they were put at its end, each number larger than every one before it.
The numbering is a field of the queue, so every operation keeps it: items are put at the end, taken out wherever they
stand, and read from a number on.  The key facts: a read from a number skips nothing up to its last item
(`mem_readFrom_of_le`) and nothing at all where it found fewer than it asked for (`mem_readFrom_of_lt`); the first item
of a kind stays the first until it is taken out (`firstWhere_push`, `firstWhere_filter`); and what is put at the end
comes before nothing that was there (`Ahead.of_grown`).
-/

namespace Library

/-- A queue whose items are numbered as they are put at its end. -/
structure Numbered (α : Type) where
  items : List (Nat × α)
  /-- The number the next item gets. -/
  next : Nat
  increasing : items.Pairwise (fun x y => x.1 < y.1)
  below : ∀ x ∈ items, x.1 < next

namespace Numbered

variable {α : Type}

/-- Nothing in it yet. -/
def empty : Numbered α := ⟨[], 0, List.Pairwise.nil, by simp⟩

instance : Inhabited (Numbered α) := ⟨empty⟩

/-- `a` put at the end, numbered `q.next`. -/
def push (q : Numbered α) (a : α) : Numbered α where
  items := q.items ++ [(q.next, a)]
  next := q.next + 1
  increasing := by
    rw [List.pairwise_append]
    refine ⟨q.increasing, List.pairwise_singleton _ _, ?_⟩
    intro x hx y hy
    simp only [List.mem_singleton] at hy
    exact hy ▸ q.below x hx
  below := by
    intro x hx
    rcases List.mem_append.1 hx with hx | hx
    · have := q.below x hx; omega
    · simp only [List.mem_singleton] at hx; subst hx; exact Nat.lt_succ_self _

/-- What `keep` says stays; the rest is taken out. -/
def filter (q : Numbered α) (keep : Nat × α → Bool) : Numbered α where
  items := q.items.filter keep
  next := q.next
  increasing := q.increasing.filter _
  below := fun x hx => q.below x (List.mem_filter.1 hx).1

/-- Up to `most` items numbered `from` or more, in order. -/
def readFrom (q : Numbered α) (start most : Nat) : List (Nat × α) :=
  (q.items.filter fun x => decide (start ≤ x.1)).take most

/-- The first of the items `p` is true of. -/
def firstWhere (q : Numbered α) (p : α → Bool) : Option (Nat × α) := q.items.find? fun x => p x.2

@[simp] theorem next_push (q : Numbered α) (a : α) : (q.push a).next = q.next + 1 := rfl

@[simp] theorem next_filter (q : Numbered α) (keep : Nat × α → Bool) : (q.filter keep).next = q.next := rfl

@[simp] theorem mem_push {q : Numbered α} {a : α} {x : Nat × α} :
    x ∈ (q.push a).items ↔ x ∈ q.items ∨ x = (q.next, a) := by
  simp [push]

@[simp] theorem mem_filter {q : Numbered α} {keep : Nat × α → Bool} {x : Nat × α} :
    x ∈ (q.filter keep).items ↔ x ∈ q.items ∧ keep x = true := List.mem_filter

theorem mem_readFrom {q : Numbered α} {start most : Nat} {x : Nat × α} (h : x ∈ q.readFrom start most) :
    x ∈ q.items ∧ start ≤ x.1 := by
  have := List.mem_of_mem_take h
  simpa using List.mem_filter.1 this

theorem increasing_readFrom (q : Numbered α) (start most : Nat) :
    (q.readFrom start most).Pairwise fun x y => x.1 < y.1 :=
  (q.increasing.filter _).sublist (List.take_sublist _ _)

/-- A read that found fewer than it asked for found everything from its start on. -/
theorem mem_readFrom_of_lt {q : Numbered α} {start most : Nat} (hlt : (q.readFrom start most).length < most)
    {x : Nat × α} (hx : x ∈ q.items) (hs : start ≤ x.1) : x ∈ q.readFrom start most := by
  unfold readFrom at hlt ⊢
  rw [List.take_of_length_le]
  · exact List.mem_filter.2 ⟨hx, by simpa using hs⟩
  · rw [List.length_take] at hlt; omega

/-- A read skips nothing between its start and an item it found. -/
theorem mem_readFrom_of_le {q : Numbered α} {start most : Nat} {x y : Nat × α} (hy : y ∈ q.readFrom start most)
    (hx : x ∈ q.items) (hs : start ≤ x.1) (hxy : x.1 ≤ y.1) : x ∈ q.readFrom start most := by
  unfold readFrom at hy ⊢
  have hpair : (q.items.filter fun x => decide (start ≤ x.1)).Pairwise (fun x y => x.1 < y.1) := q.increasing.filter _
  have hmem : x ∈ q.items.filter fun x => decide (start ≤ x.1) := List.mem_filter.2 ⟨hx, by simpa using hs⟩
  generalize q.items.filter (fun x => decide (start ≤ x.1)) = l at hy hpair hmem ⊢
  -- an item left out of the first `most` has a larger number than each of them
  rw [← List.take_append_drop most l] at hpair hmem
  rcases List.mem_append.1 hmem with h | h
  · exact h
  · have := (List.pairwise_append.1 hpair).2.2 y hy x h
    omega

/-! ### The first item of a kind -/

theorem firstWhere_push {q : Numbered α} {p : α → Bool} {a : α} {x : Nat × α} (h : q.firstWhere p = some x) :
    (q.push a).firstWhere p = some x := by
  unfold firstWhere at *
  show (q.items ++ [(q.next, a)]).find? _ = some x
  rw [List.find?_append, h, Option.some_or]

theorem firstWhere_eq_none {q : Numbered α} {p : α → Bool} :
    q.firstWhere p = none ↔ ∀ x ∈ q.items, p x.2 = false := by
  simp [firstWhere]

theorem mem_of_firstWhere {q : Numbered α} {p : α → Bool} {x : Nat × α} (h : q.firstWhere p = some x) :
    x ∈ q.items ∧ p x.2 = true := by
  unfold firstWhere at h
  exact ⟨List.mem_of_find?_eq_some h, by simpa using List.find?_some h⟩

/-- The first item of a kind has the smallest number of its kind. -/
theorem firstWhere_le {q : Numbered α} {p : α → Bool} {x y : Nat × α} (h : q.firstWhere p = some x)
    (hy : y ∈ q.items) (hp : p y.2 = true) : x.1 ≤ y.1 := by
  have hinc := q.increasing
  unfold firstWhere at h
  generalize q.items = l at h hy hinc
  induction l with
  | nil => cases hy
  | cons z zs ih =>
    rw [List.pairwise_cons] at hinc
    by_cases hz : p z.2 = true
    · simp only [List.find?_cons, hz, Option.some.injEq] at h
      subst h
      rcases List.mem_cons.1 hy with rfl | hy
      · exact Nat.le_refl _
      · exact Nat.le_of_lt (hinc.1 y hy)
    · simp only [List.find?_cons, hz] at h
      rcases List.mem_cons.1 hy with rfl | hy
      · exact absurd hp hz
      · exact ih h hy hinc.2

/-- The first item of a kind that is not taken out stays the first. -/
theorem firstWhere_filter {q : Numbered α} {p : α → Bool} {keep : Nat × α → Bool} {x : Nat × α}
    (h : q.firstWhere p = some x) (hk : keep x = true) : (q.filter keep).firstWhere p = some x := by
  unfold firstWhere at *
  show (q.items.filter keep).find? _ = some x
  generalize q.items = l at h
  induction l with
  | nil => cases h
  | cons z zs ih =>
    by_cases hz : p z.2 = true
    · simp only [List.find?_cons, hz, Option.some.injEq] at h
      subst h
      simp [List.filter_cons_of_pos hk, hz]
    · simp only [List.find?_cons, hz] at h
      by_cases hkz : keep z = true
      · simp only [List.filter_cons_of_pos hkz, List.find?_cons, hz]
        exact ih h
      · rw [List.filter_cons_of_neg hkz]
        exact ih h

/-- The items are told apart by their numbers. -/
theorem eq_of_number {q : Numbered α} {x y : Nat × α} (hx : x ∈ q.items) (hy : y ∈ q.items) (h : x.1 = y.1) :
    x = y := by
  have hinc := q.increasing
  generalize q.items = l at hx hy hinc
  induction l with
  | nil => cases hx
  | cons z zs ih =>
    rw [List.pairwise_cons] at hinc
    rcases List.mem_cons.1 hx with hxz | hxs <;> rcases List.mem_cons.1 hy with hyz | hys
    · rw [hxz, hyz]
    · have := hinc.1 y hys; subst hxz; omega
    · have := hinc.1 x hxs; subst hyz; omega
    · exact ih hxs hys hinc.2

/-- Taking out the item of a number there is takes out one. -/
theorem length_filter_ne {q : Numbered α} {x : Nat × α} (hx : x ∈ q.items) :
    (q.filter fun y => decide (y.1 ≠ x.1)).items.length + 1 = q.items.length := by
  have hinc := q.increasing
  show (q.items.filter fun y => decide (y.1 ≠ x.1)).length + 1 = q.items.length
  generalize q.items = l at hx hinc
  induction l with
  | nil => cases hx
  | cons z zs ih =>
    rw [List.pairwise_cons] at hinc
    rcases List.mem_cons.1 hx with rfl | hx
    · have : zs.filter (fun y => decide (y.1 ≠ x.1)) = zs := by
        rw [List.filter_eq_self]
        intro y hy
        have := hinc.1 y hy
        simp only [ne_eq, decide_eq_true_eq]
        omega
      rw [List.filter_cons_of_neg (by simp), this, List.length_cons]
    · have hz : z.1 ≠ x.1 := by
        have := hinc.1 x hx
        omega
      rw [List.filter_cons_of_pos (by simpa using hz), List.length_cons, List.length_cons, ih hx hinc.2]

/-! ### Which item comes before which -/

/-- `b` is in the queue, and an `a` comes before every `b` there. -/
def Ahead (q : Numbered α) (a b : α) : Prop :=
  ∃ n, (n, a) ∈ q.items ∧ (∃ k, (k, b) ∈ q.items) ∧ ∀ k, (k, b) ∈ q.items → n < k

instance [DecidableEq α] (q : Numbered α) (a b : α) : Decidable (q.Ahead a b) :=
  decidable_of_iff (∃ x ∈ q.items, x.2 = a ∧ (∃ y ∈ q.items, y.2 = b) ∧ ∀ y ∈ q.items, y.2 = b → x.1 < y.1) (by
    constructor
    · rintro ⟨x, hx, rfl, ⟨y, hy, rfl⟩, hall⟩
      exact ⟨x.1, hx, ⟨y.1, hy⟩, fun k hk => hall _ hk rfl⟩
    · rintro ⟨n, hn, ⟨k, hk⟩, hall⟩
      refine ⟨_, hn, rfl, ⟨_, hk, rfl⟩, ?_⟩
      rintro y hy rfl
      exact hall y.1 hy)

variable {q q' : Numbered α} {a b c : α}

theorem Ahead.trans (h : q.Ahead a b) (h' : q.Ahead b c) : q.Ahead a c := by
  obtain ⟨n, hn, -, hall⟩ := h
  obtain ⟨m, hm, hc, hall'⟩ := h'
  refine ⟨n, hn, hc, ?_⟩
  intro k hk
  have h₁ := hall m hm
  have h₂ := hall' k hk
  omega

theorem Ahead.ne (h : q.Ahead a b) : a ≠ b := by
  rintro rfl
  obtain ⟨n, hn, -, hall⟩ := h
  exact Nat.lt_irrefl n (hall n hn)

/-- Nothing of its kind comes before the first of a kind. -/
theorem not_ahead_of_firstWhere {p : α → Bool} {x : Nat × α} (h : q.firstWhere p = some x) (ha : p a = true) :
    ¬ q.Ahead a x.2 := by
  rintro ⟨n, hn, -, hall⟩
  have h₁ := hall x.1 (mem_of_firstWhere h).1
  have h₂ := firstWhere_le h hn ha
  omega

/-- Taking items out by what they are puts nothing before another. -/
theorem Ahead.of_filter {keep : α → Bool} (h : (q.filter fun x => keep x.2).Ahead a b) : q.Ahead a b := by
  obtain ⟨n, hn, ⟨k, hk⟩, hall⟩ := h
  obtain ⟨hk, hkeep⟩ := mem_filter.1 hk
  refine ⟨n, (mem_filter.1 hn).1, ⟨k, hk⟩, ?_⟩
  exact fun k' hk' => hall k' (mem_filter.2 ⟨hk', hkeep⟩)

/-- Nor does putting items at the end. -/
theorem Ahead.of_grown (hold : ∀ x ∈ q.items, x ∈ q'.items) (hnew : ∀ x ∈ q'.items, x ∈ q.items ∨ q.next ≤ x.1)
    (hb : ∃ k, (k, b) ∈ q.items) (h : q'.Ahead a b) : q.Ahead a b := by
  obtain ⟨n, hn, -, hall⟩ := h
  refine ⟨n, ?_, hb, fun k hk => hall k (hold _ hk)⟩
  rcases hnew _ hn with hn | hn
  · exact hn
  · obtain ⟨k, hk⟩ := hb
    have h₁ := q.below _ hk
    have h₂ := hall k (hold _ hk)
    simp only at h₁ hn
    omega

end Numbered

end Library
