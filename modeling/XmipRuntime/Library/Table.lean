import Mathlib.Data.List.Basic
import Mathlib.Data.List.Nodup

/-!
# Tables

A finite table from keys to values, each key in it at most once: the hash map of a program, with its size.  That no
key is in it twice is a field, so an entry of the list and what `get` answers are the same thing (`mem_iff_get`).
-/

namespace Library

/-- A finite table, each key at most once. -/
structure Table (κ α : Type) where
  entries : List (κ × α)
  nodup : (entries.map Prod.fst).Nodup

namespace Table

variable {κ α : Type} [DecidableEq κ]

/-- Nothing in it. -/
def empty : Table κ α := ⟨[], List.nodup_nil⟩

instance : Inhabited (Table κ α) := ⟨empty⟩

/-- The value at `k`. -/
def get (t : Table κ α) (k : κ) : Option α := (t.entries.find? fun x => decide (x.1 = k)).map Prod.snd

/-- Nothing at `k` any more. -/
def drop (t : Table κ α) (k : κ) : Table κ α where
  entries := t.entries.filter fun x => decide (x.1 ≠ k)
  nodup := t.nodup.sublist (List.filter_sublist.map Prod.fst)

/-- `a` at `k`, whatever was there before. -/
def put (t : Table κ α) (k : κ) (a : α) : Table κ α where
  entries := (k, a) :: (t.drop k).entries
  nodup := by
    rw [List.map_cons, List.nodup_cons]
    refine ⟨?_, (t.drop k).nodup⟩
    intro h
    obtain ⟨x, hx, hk⟩ := List.mem_map.1 h
    simp only [drop, List.mem_filter, decide_eq_true_eq] at hx
    exact hx.2 hk

/-- Only the entries whose value meets `p`. -/
def keep (t : Table κ α) (p : α → Bool) : Table κ α where
  entries := t.entries.filter fun x => p x.2
  nodup := t.nodup.sublist (List.filter_sublist.map Prod.fst)

/-- Every value changed by `f`. -/
def map (t : Table κ α) (f : α → α) : Table κ α where
  entries := t.entries.map fun x => (x.1, f x.2)
  nodup := by
    rw [List.map_map]
    exact t.nodup

/-- How many keys are in it. -/
def size (t : Table κ α) : Nat := t.entries.length

theorem get_eq_some_of_mem {t : Table κ α} {k : κ} {a : α} (h : (k, a) ∈ t.entries) : t.get k = some a := by
  have hnd := t.nodup
  unfold get
  generalize t.entries = l at h hnd
  induction l with
  | nil => cases h
  | cons x xs ih =>
    rw [List.map_cons, List.nodup_cons] at hnd
    rcases List.mem_cons.1 h with rfl | h
    · simp
    · have hne : x.1 ≠ k := fun hk => hnd.1 (hk ▸ List.mem_map.2 ⟨(k, a), h, rfl⟩)
      rw [List.find?_cons_of_neg (by simpa using hne)]
      exact ih h hnd.2

theorem mem_iff_get {t : Table κ α} {k : κ} {a : α} : (k, a) ∈ t.entries ↔ t.get k = some a := by
  constructor
  · exact get_eq_some_of_mem
  · intro h
    obtain ⟨x, hx, rfl⟩ := Option.map_eq_some_iff.1 h
    have hk : x.1 = k := by simpa using List.find?_some hx
    exact hk ▸ List.mem_of_find?_eq_some hx

@[simp] theorem get_empty (k : κ) : (empty : Table κ α).get k = none := rfl

@[simp] theorem get_put_self (t : Table κ α) (k : κ) (a : α) : (t.put k a).get k = some a :=
  get_eq_some_of_mem (List.mem_cons_self ..)

theorem get_drop (t : Table κ α) (k j : κ) : (t.drop k).get j = if j = k then none else t.get j := by
  apply Option.ext
  intro a
  rw [← mem_iff_get]
  split
  · rename_i hj
    subst hj
    simp [drop]
  · rename_i hj
    rw [← mem_iff_get]
    simp [drop, hj]

@[simp] theorem get_drop_self (t : Table κ α) (k : κ) : (t.drop k).get k = none := by
  rw [get_drop, if_pos rfl]

@[simp] theorem get_drop_of_ne (t : Table κ α) {k j : κ} (h : j ≠ k) : (t.drop k).get j = t.get j := by
  rw [get_drop, if_neg h]

theorem get_put (t : Table κ α) (k j : κ) (a : α) : (t.put k a).get j = if j = k then some a else t.get j := by
  by_cases hj : j = k
  · subst hj; simp
  · rw [if_neg hj, ← get_drop_of_ne t hj]
    unfold get put
    rw [List.find?_cons_of_neg (by simpa using fun h => hj h.symm)]

@[simp] theorem get_put_of_ne (t : Table κ α) {k j : κ} (h : j ≠ k) (a : α) : (t.put k a).get j = t.get j := by
  rw [get_put, if_neg h]

theorem get_map (t : Table κ α) (f : α → α) (k : κ) : (t.map f).get k = (t.get k).map f := by
  apply Option.ext
  intro a
  rw [← mem_iff_get, Option.map_eq_some_iff]
  constructor
  · intro h
    obtain ⟨x, hx, he⟩ := List.mem_map.1 h
    obtain ⟨rfl, rfl⟩ := Prod.mk.inj he
    exact ⟨x.2, mem_iff_get.1 hx, rfl⟩
  · rintro ⟨b, hb, rfl⟩
    exact List.mem_map.2 ⟨(k, b), mem_iff_get.2 hb, rfl⟩

theorem get_keep (t : Table κ α) (p : α → Bool) (k : κ) : (t.keep p).get k = (t.get k).filter p := by
  apply Option.ext
  intro a
  rw [← mem_iff_get, Option.filter_eq_some_iff, ← mem_iff_get]
  exact List.mem_filter

/-! ### How many there are -/

theorem drop_eq_self {t : Table κ α} {k : κ} (h : t.get k = none) : (t.drop k).entries = t.entries := by
  unfold drop
  rw [List.filter_eq_self]
  intro x hx
  simp only [ne_eq, decide_eq_true_eq]
  intro hk
  have : t.get x.1 = some x.2 := get_eq_some_of_mem hx
  rw [hk, h] at this
  cases this

theorem size_put_of_none {t : Table κ α} {k : κ} {a : α} (h : t.get k = none) : (t.put k a).size = t.size + 1 := by
  show (t.drop k).entries.length + 1 = t.size + 1
  rw [drop_eq_self h]; rfl

/-- What is at `k` and the rest are all there is. -/
theorem cons_drop_perm {t : Table κ α} {k : κ} {a : α} (h : t.get k = some a) :
    ((k, a) :: (t.drop k).entries).Perm t.entries := by
  have hnd := t.nodup
  have hm := mem_iff_get.2 h
  show ((k, a) :: t.entries.filter fun x => decide (x.1 ≠ k)).Perm t.entries
  generalize t.entries = l at hm hnd
  induction l with
  | nil => cases hm
  | cons x xs ih =>
    rw [List.map_cons, List.nodup_cons] at hnd
    rcases List.mem_cons.1 hm with rfl | hm
    · have : xs.filter (fun x => decide (x.1 ≠ k)) = xs := by
        rw [List.filter_eq_self]
        intro y hy
        simp only [ne_eq, decide_eq_true_eq]
        exact fun hk => hnd.1 (hk ▸ List.mem_map.2 ⟨y, hy, rfl⟩)
      rw [List.filter_cons_of_neg (by simp), this]
    · have hne : x.1 ≠ k := fun hk => hnd.1 (hk ▸ List.mem_map.2 ⟨(k, a), hm, rfl⟩)
      rw [List.filter_cons_of_pos (by simpa using hne)]
      exact (List.Perm.swap _ _ _).trans ((ih hm hnd.2).cons x)

theorem size_drop_of_some {t : Table κ α} {k : κ} {a : α} (h : t.get k = some a) :
    (t.drop k).size + 1 = t.size :=
  (cons_drop_perm h).length_eq

theorem size_drop_le (t : Table κ α) (k : κ) : (t.drop k).size ≤ t.size := List.length_filter_le ..

theorem size_put_le (t : Table κ α) (k : κ) (a : α) : (t.put k a).size ≤ t.size + 1 :=
  Nat.succ_le_succ (size_drop_le t k)

theorem size_put_of_some {t : Table κ α} {k : κ} {a b : α} (h : t.get k = some b) : (t.put k a).size = t.size :=
  size_drop_of_some h

end Table

end Library
