import Mathlib.Data.List.Basic

/-!
# What a computation that may fail answered

A computation in `Except` answered or failed at one of its steps: each step is taken off its front, so a proof goes
through a function's exits in the order the function has them.
-/

namespace Library

variable {ε α γ : Type}

theorem answers_iff {x : Except ε α} {f : α → Except ε γ} {b : γ} :
    (x >>= f) = .ok b ↔ ∃ a, x = .ok a ∧ f a = .ok b := by
  constructor
  · intro h
    cases x with
    | error e => cases h
    | ok a => exact ⟨a, rfl, h⟩
  · rintro ⟨a, rfl, h⟩
    exact h

/-- It failed at its first step, or after it. -/
theorem fails_iff {x : Except ε α} {f : α → Except ε γ} {e : ε} :
    (x >>= f) = .error e ↔ x = .error e ∨ ∃ a, x = .ok a ∧ f a = .error e := by
  constructor
  · intro h
    cases x with
    | error e' =>
      cases h
      exact .inl rfl
    | ok a => exact .inr ⟨a, rfl, h⟩
  · rintro (rfl | ⟨a, rfl, h⟩)
    · rfl
    · exact h

theorem map_answers_iff {x : Except ε α} {f : α → γ} {b : γ} : x.map f = .ok b ↔ ∃ a, x = .ok a ∧ f a = b := by
  constructor
  · intro h
    cases x with
    | error e => cases h
    | ok a =>
      cases h
      exact ⟨a, rfl, rfl⟩
  · rintro ⟨a, rfl, rfl⟩
    rfl

theorem mapError_answers_iff {δ : Type} {x : Except ε α} {f : ε → δ} {a : α} : x.mapError f = .ok a ↔ x = .ok a := by
  cases x with
  | error e => simp [Except.mapError]
  | ok b => simp [Except.mapError]

/-! ### Many at once -/

/-- What was answered, in order. -/
def answered (xs : List (Except ε α)) : List α := xs.filterMap Except.toOption

/-- What was said of those that failed, in order. -/
def failed (xs : List (Except ε α)) : List ε :=
  xs.filterMap fun x =>
    match x with
    | .ok _ => none
    | .error e => some e

theorem failed_eq_nil_iff {xs : List (Except ε α)} : failed xs = [] ↔ ∀ x ∈ xs, ∃ a, x = .ok a := by
  unfold failed
  rw [List.filterMap_eq_nil_iff]
  refine forall₂_congr fun x _ => ?_
  cases x with
  | error e => simp
  | ok a => simp

/-- Where each that fails says something, nothing said is none failed. -/
theorem failed_eq_nil_of_flatten {xs : List (Except (List ε) α)} (h : (failed xs).flatten = [])
    (hsaid : ∀ x ∈ xs, ∀ why, x = .error why → why ≠ []) : failed xs = [] := by
  rw [failed_eq_nil_iff]
  intro x hx
  cases x with
  | ok a => exact ⟨a, rfl⟩
  | error why =>
    have hmem : why ∈ failed xs := List.mem_filterMap.2 ⟨_, hx, rfl⟩
    exact absurd (List.flatten_eq_nil_iff.1 h why hmem) (hsaid _ hx why rfl)

section Each

variable {ι : Type} {f : ι → Except ε α} {xs : List ι}

theorem mem_answered_map {a : α} : a ∈ answered (xs.map f) ↔ ∃ x ∈ xs, f x = .ok a := by
  have hok : ∀ y : Except ε α, y.toOption = some a ↔ y = .ok a := by
    intro y
    cases y with
    | error e => simp [Except.toOption]
    | ok b => simp [Except.toOption]
  simp [answered, hok]

theorem answered_cons {x : ι} {a : α} (h : f x = .ok a) : answered ((x :: xs).map f) = a :: answered (xs.map f) := by
  unfold answered
  rw [List.map_cons, h]
  rfl

/-- Where none failed there is an answer to each, in order. -/
theorem map_answered {p : α → γ} {q : ι → γ} (h : failed (xs.map f) = []) (hpq : ∀ x a, f x = .ok a → p a = q x) :
    (answered (xs.map f)).map p = xs.map q := by
  rw [failed_eq_nil_iff, List.forall_mem_map] at h
  induction xs with
  | nil => rfl
  | cons x xs ih =>
    rw [List.forall_mem_cons] at h
    obtain ⟨⟨a, ha⟩, hxs⟩ := h
    rw [answered_cons ha, List.map_cons, List.map_cons, hpq x a ha, ih hxs]

/-- Each with the answer to it. -/
theorem zip_answered (h : failed (xs.map f) = []) :
    (∀ x ∈ xs.zip (answered (xs.map f)), f x.1 = .ok x.2) ∧ (xs.zip (answered (xs.map f))).map Prod.fst = xs := by
  rw [failed_eq_nil_iff, List.forall_mem_map] at h
  induction xs with
  | nil => simp [answered]
  | cons x xs ih =>
    rw [List.forall_mem_cons] at h
    obtain ⟨⟨a, ha⟩, hxs⟩ := h
    obtain ⟨hall, hmap⟩ := ih hxs
    rw [answered_cons ha, List.zip_cons_cons, List.map_cons, List.forall_mem_cons, hmap]
    exact ⟨⟨ha, hall⟩, rfl⟩

end Each

end Library
