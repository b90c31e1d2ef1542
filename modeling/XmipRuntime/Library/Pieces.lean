import Mathlib.Algebra.Group.Nat.Defs
import Mathlib.Data.List.Basic
import Mathlib.Data.Nat.Basic

/-!
# Lists cut into pieces, and sums of so many bits

A list cut into pieces of one size, the last of them what is left, and one empty piece where there is nothing
(`pieces`): they join to the list, all but the last are full, and there are as many as the size goes into the length,
rounded up.  Beside it the sum a machine makes of two numbers of so many bits (`addBits`).
-/

namespace Library

/-! ### Pieces -/

section Pieces

variable {α : Type}

/-- `l` in pieces of `size`, the last of them what is left. -/
def pieces (size : Nat) (l : List α) : List (List α) :=
  if 0 < size ∧ size < l.length then l.take size :: pieces size (l.drop size) else [l]
termination_by l.length
decreasing_by
  rw [List.length_drop]
  omega

theorem pieces_of_le {size : Nat} {l : List α} (h : l.length ≤ size) : pieces size l = [l] := by
  rw [pieces, if_neg]
  omega

theorem pieces_append {size : Nat} {a l : List α} (hsize : 0 < size) (ha : a.length = size) (hl : l ≠ []) :
    pieces size (a ++ l) = a :: pieces size l := by
  have hpos : 0 < l.length := List.length_pos_iff.2 hl
  rw [pieces, if_pos (by rw [List.length_append]; omega)]
  rw [List.take_left' ha, List.drop_left' ha]

theorem flatten_pieces (size : Nat) (l : List α) : (pieces size l).flatten = l := by
  fun_induction pieces size l with
  | case1 l h ih => rw [List.flatten_cons, ih, List.take_append_drop]
  | case2 l h => simp

/-- All but the last are full. -/
theorem length_of_mem_dropLast_pieces {size : Nat} {l : List α} :
    ∀ a ∈ (pieces size l).dropLast, a.length = size := by
  fun_induction pieces size l with
  | case1 l h ih =>
    intro a ha
    have hne : pieces size (l.drop size) ≠ [] := by
      rw [pieces]
      split <;> simp
    rw [List.dropLast_cons_of_ne_nil hne] at ha
    rcases List.mem_cons.1 ha with rfl | ha
    · rw [List.length_take]
      omega
    · exact ih a ha
  | case2 l h => simp

theorem length_pieces_pos (size : Nat) (l : List α) : 0 < (pieces size l).length := by
  rw [pieces]
  split <;> simp

/-- There are as many as the size goes into the length, rounded up, and one at least. -/
theorem length_pieces {size : Nat} (hsize : 0 < size) (l : List α) :
    (pieces size l).length = max 1 ((l.length + size - 1) / size) := by
  fun_induction pieces size l with
  | case1 l h ih =>
    rw [List.length_cons, ih, List.length_drop]
    have hsplit : (l.length + size - 1) / size = (l.length - size + size - 1) / size + 1 := by
      rw [← Nat.add_div_right _ hsize]
      congr 1
      omega
    have hone : 1 ≤ (l.length - size + size - 1) / size := by
      rw [Nat.le_div_iff_mul_le hsize]
      omega
    omega
  | case2 l h =>
    have hle : (l.length + size - 1) / size ≤ 1 := by
      rw [← Nat.lt_succ_iff, Nat.div_lt_iff_lt_mul hsize]
      omega
    rw [List.length_singleton]
    omega

end Pieces

/-! ### Sums -/

/-- The sum of two numbers of `bits` bits: past them it panics where that is checked for, and wraps where it is not. -/
def addBits (trapping : Bool) (bits a b : Nat) : Option Nat :=
  if a + b < 2 ^ bits then some (a + b) else if trapping then none else some ((a + b) % 2 ^ bits)

/-- A sum is what it is in the numbers of so many bits, and is past them only where that is not checked for. -/
theorem addBits_eq_some_iff {trapping : Bool} {bits a b n : Nat} :
    addBits trapping bits a b = some n ↔ n = (a + b) % 2 ^ bits ∧ (trapping = true → a + b < 2 ^ bits) := by
  unfold addBits
  by_cases hlt : a + b < 2 ^ bits
  · simp only [hlt, if_true, Option.some.injEq, Nat.mod_eq_of_lt hlt, implies_true, and_true]
    exact eq_comm
  · cases trapping with
    | true => simp [hlt]
    | false =>
      simp only [hlt, if_false, Bool.false_eq_true, Option.some.injEq, false_implies, and_true]
      exact eq_comm

end Library
