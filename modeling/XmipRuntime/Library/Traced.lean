import XmipRuntime.Library.Answers

/-!
# Computations that leave a trace

A computation that does things one after the other and may stop at any of them: what it did, in order, and how it ended.
What it did first is in the trace of everything that follows it, so that a step taken only after another is shown by one
rule, `comesAfter_append`.
-/

namespace Library

/-- What was done, and what was answered or why it stopped. -/
structure Traced (τ ε α : Type) where
  trace : List τ
  answer : Except ε α

namespace Traced

variable {τ ε α γ : Type}

/-- `f` done after `x`, where `x` did not stop. -/
def andThen (x : Traced τ ε α) (f : α → Traced τ ε γ) : Traced τ ε γ :=
  match x.answer with
  | .ok a => ⟨x.trace ++ (f a).trace, (f a).answer⟩
  | .error e => ⟨x.trace, .error e⟩

instance : Monad (Traced τ ε) where
  pure a := ⟨[], .ok a⟩
  bind := andThen

/-- One thing done, with what it answers. -/
def does (t : τ) (answer : Except ε α) : Traced τ ε α := ⟨[t], answer⟩

/-- Nothing done but asked. -/
def asks (answer : Except ε α) : Traced τ ε α := ⟨[], answer⟩

variable {x : Traced τ ε α} {f : α → Traced τ ε γ}

theorem bind_of_ok {a : α} (h : x.answer = .ok a) :
    (x >>= f).trace = x.trace ++ (f a).trace ∧ (x >>= f).answer = (f a).answer := by
  show (andThen x f).trace = _ ∧ (andThen x f).answer = _
  unfold andThen
  rw [h]
  exact ⟨rfl, rfl⟩

theorem bind_of_error {e : ε} (h : x.answer = .error e) :
    (x >>= f).trace = x.trace ∧ (x >>= f).answer = .error e := by
  show (andThen x f).trace = _ ∧ (andThen x f).answer = _
  unfold andThen
  rw [h]
  exact ⟨rfl, rfl⟩

theorem answer_bind_iff {b : γ} : (x >>= f).answer = .ok b ↔ ∃ a, x.answer = .ok a ∧ (f a).answer = .ok b := by
  cases h : x.answer with
  | ok a => simp [(bind_of_ok (f := f) h).2]
  | error e => simp [(bind_of_error (f := f) h).2]

theorem mem_trace_bind {e : τ} : e ∈ (x >>= f).trace ↔ e ∈ x.trace ∨ ∃ a, x.answer = .ok a ∧ e ∈ (f a).trace := by
  cases h : x.answer with
  | ok a => simp [(bind_of_ok (f := f) h).1]
  | error e => simp [(bind_of_error (f := f) h).1]

/-- Each thing done of the kind `q` has one of the kind `p` done before it. -/
def ComesAfter (p q : τ → Prop) (l : List τ) : Prop := ∀ first e last, l = first ++ e :: last → q e → ∃ d ∈ first, p d

theorem comesAfter_append {p q : τ → Prop} {l l' : List τ} (h : ∀ e ∈ l, ¬ q e) (hp : ∃ d ∈ l, p d) :
    ComesAfter p q (l ++ l') := by
  intro first e last heq hq
  obtain ⟨d, hd, hpd⟩ := hp
  rcases List.append_eq_append_iff.1 heq with ⟨rest, rfl, -⟩ | ⟨rest, rfl, hrest⟩
  · exact ⟨d, List.mem_append_left _ hd, hpd⟩
  · cases rest with
    | nil => exact ⟨d, by simpa using hd, hpd⟩
    | cons y rest =>
      obtain ⟨rfl, -⟩ := List.cons.inj hrest
      exact absurd hq (h e (by simp))

end Traced

end Library
