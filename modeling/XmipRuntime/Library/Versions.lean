import Mathlib.Data.List.Destutter

/-!
# Values numbered by their changes

A value that is changed over and over, each change numbered one more than the last.  `versionOf initial log n` is the
`n`th of them, which no later change alters (`versionOf_append`); `Current` is what holds of the one there is now, and
keeps holding as it is changed (`Current.put`).  Where what differs from the last alone is a change, the changes are
`List.destutter` of all that was put (`destutter_concat_of_eq`, `destutter_concat_of_ne`).
-/

namespace Library

variable {α : Type}

/-- The value numbered `n`: `initial`, and then what the log holds in its order. -/
def versionOf (initial : α) (log : List α) (n : Nat) : Option α := (initial :: log)[n]?

/-- A later change alters no version there was. -/
theorem versionOf_append {initial a : α} {log : List α} {n : Nat} (h : versionOf initial log n = some a)
    (more : List α) : versionOf initial (log ++ more) n = some a := by
  unfold versionOf at h ⊢
  rw [← List.cons_append, List.getElem?_append_left (List.getElem?_eq_some_iff.1 h).1]
  exact h

/-- `value`, numbered `version`, is the last of the changes logged. -/
structure Current (initial : α) (log : List α) (version : Nat) (value : α) : Prop where
  count : version = log.length
  named : versionOf initial log version = some value

theorem Current.start (initial : α) : Current initial [] 0 initial := ⟨rfl, rfl⟩

/-- One more change. -/
theorem Current.put {initial a : α} {log : List α} {n : Nat} (h : Current initial log n a) (b : α) :
    Current initial (log ++ [b]) (n + 1) b := by
  refine ⟨by rw [List.length_append, List.length_singleton, h.count], ?_⟩
  unfold versionOf
  rw [List.getElem?_cons_succ, h.count, List.getElem?_concat_length]

/-- The value there is now is the last logged, or the first where none was. -/
theorem Current.eq_getLastD {initial a : α} {log : List α} {n : Nat} (h : Current initial log n a) :
    a = log.getLastD initial := by
  have hnamed : (initial :: log)[log.length]? = some a := by
    rw [← h.count]
    exact h.named
  cases log using List.reverseRecOn with
  | nil =>
    simp only [List.length_nil, List.getElem?_cons_zero, Option.some.injEq] at hnamed
    exact hnamed.symm
  | append_singleton log b =>
    rw [List.length_append, List.length_singleton, List.getElem?_cons_succ, List.getElem?_concat_length] at hnamed
    rw [List.getLastD_concat]
    exact (Option.some.inj hnamed).symm

/-! ### What differs from the last -/

variable [DecidableEq α]

private theorem destutter'_concat_of_eq {l : List α} {a b : α} (h : l.getLastD b = a) :
    (l ++ [a]).destutter' (· ≠ ·) b = l.destutter' (· ≠ ·) b := by
  induction l generalizing b with
  | nil =>
    rw [List.getLastD_nil] at h
    rw [List.nil_append, List.destutter'_singleton, if_neg (by simp [h])]
    rfl
  | cons c l ih =>
    rw [List.getLastD_cons] at h
    rw [List.cons_append]
    by_cases hbc : b = c
    · subst hbc
      rw [List.destutter'_cons_neg _ (by simp), List.destutter'_cons_neg _ (by simp)]
      exact ih h
    · rw [List.destutter'_cons_pos _ hbc, List.destutter'_cons_pos _ hbc, ih h]

private theorem destutter'_concat_of_ne {l : List α} {a b : α} (h : l.getLastD b ≠ a) :
    (l ++ [a]).destutter' (· ≠ ·) b = l.destutter' (· ≠ ·) b ++ [a] := by
  induction l generalizing b with
  | nil =>
    rw [List.getLastD_nil] at h
    rw [List.nil_append, List.destutter'_singleton, if_pos h]
    rfl
  | cons c l ih =>
    rw [List.getLastD_cons] at h
    rw [List.cons_append]
    by_cases hbc : b = c
    · subst hbc
      rw [List.destutter'_cons_neg _ (by simp), List.destutter'_cons_neg _ (by simp)]
      exact ih h
    · rw [List.destutter'_cons_pos _ hbc, List.destutter'_cons_pos _ hbc, ih h]
      rfl

/-- What is as the last is no change. -/
theorem destutter_concat_of_eq {l : List α} {a : α} (h : l.getLast? = some a) :
    (l ++ [a]).destutter (· ≠ ·) = l.destutter (· ≠ ·) := by
  cases l with
  | nil => exact nomatch h
  | cons b l =>
    rw [List.getLast?_cons, Option.some.injEq] at h
    rw [List.cons_append, List.destutter_cons', List.destutter_cons']
    exact destutter'_concat_of_eq (by rw [List.getLastD_eq_getLast?]; exact h)

/-- What differs from the last, or is the first, is one. -/
theorem destutter_concat_of_ne {l : List α} {a : α} (h : l.getLast? ≠ some a) :
    (l ++ [a]).destutter (· ≠ ·) = l.destutter (· ≠ ·) ++ [a] := by
  cases l with
  | nil => rfl
  | cons b l =>
    rw [List.getLast?_cons, ne_eq, Option.some.injEq] at h
    rw [List.cons_append, List.destutter_cons', List.destutter_cons']
    exact destutter'_concat_of_ne (by rw [List.getLastD_eq_getLast?]; exact h)

/-- The last change is the last that was put. -/
theorem getLast?_destutter (l : List α) : (l.destutter (· ≠ ·)).getLast? = l.getLast? := by
  induction l using List.reverseRecOn with
  | nil => rfl
  | append_singleton l a ih =>
    rw [List.getLast?_concat]
    by_cases hlast : l.getLast? = some a
    · rw [destutter_concat_of_eq hlast, ih, hlast]
    · rw [destutter_concat_of_ne hlast, List.getLast?_concat]

end Library
