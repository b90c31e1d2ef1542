import Mathlib.Logic.Basic

/-!
# Runs of a machine

A machine is a partial step function: what an action does to a state, where it may be taken there.  `Reach` is every
state reached from an initial one by steps that each meet a condition on the state before them; `Reach.invariant` is
the one induction every safety result of the development goes through, and `runWhere` evaluates a run, so that a
concrete one is shown to be a run by evaluating it (`Reach.of_runWhere`).
-/

namespace Library

variable {σ α : Type}

/-- The states reached from `init` by steps each of which meets `ok` in the state before it. -/
inductive Reach (step : σ → α → Option σ) (ok : σ → α → Prop) (init : σ → Prop) : σ → Prop where
  | start {s : σ} : init s → Reach step ok init s
  | next {s s' : σ} {a : α} : Reach step ok init s → ok s a → step s a = some s' → Reach step ok init s'

/-- No condition on the steps of a run. -/
def Always (_ : σ) (_ : α) : Prop := True

instance (s : σ) (a : α) : Decidable (Always s a) := inferInstanceAs (Decidable True)

variable {step : σ → α → Option σ} {ok : σ → α → Prop} {init : σ → Prop}

/-- What holds at the start and is kept by every step that meets the condition holds in every state reached. -/
theorem Reach.invariant {inv : σ → Prop} (hinit : ∀ s, init s → inv s)
    (hstep : ∀ s a s', inv s → ok s a → step s a = some s' → inv s') {s : σ} (h : Reach step ok init s) : inv s := by
  induction h with
  | start hs => exact hinit _ hs
  | next _ hok hs ih => exact hstep _ _ _ ih hok hs

/-- A run under a stronger condition is a run under a weaker one. -/
theorem Reach.mono {ok' : σ → α → Prop} (hok : ∀ s a, ok s a → ok' s a) {s : σ} (h : Reach step ok init s) :
    Reach step ok' init s := by
  induction h with
  | start hs => exact .start hs
  | next _ h' hs ih => exact .next ih (hok _ _ h') hs

/-- A run from where another came to goes on from it. -/
theorem Reach.trans {s t : σ} (hs : Reach step ok init s) (h : Reach step ok (· = s) t) : Reach step ok init t :=
  h.invariant (fun _ hu => hu ▸ hs) fun _ _ _ hu hok hstep => .next hu hok hstep

/-- The actions `as` taken one after the other from `s`: nothing where one may not be taken, or does not meet `ok`. -/
def runWhere (step : σ → α → Option σ) (ok : σ → α → Prop) [∀ s a, Decidable (ok s a)] : σ → List α → Option σ
  | s, [] => some s
  | s, a :: as => if ok s a then (step s a).bind fun s' => runWhere step ok s' as else none

theorem runWhere_cons_iff [∀ s a, Decidable (ok s a)] {s s' : σ} {a : α} {as : List α} :
    runWhere step ok s (a :: as) = some s' ↔ ok s a ∧ ∃ t, step s a = some t ∧ runWhere step ok t as = some s' := by
  simp only [runWhere]
  split
  · rename_i hok
    rw [Option.bind_eq_some_iff]
    exact ⟨fun h => ⟨hok, h⟩, And.right⟩
  · rename_i hno
    exact ⟨fun h => (nomatch h), fun h => absurd h.1 hno⟩

/-- One run after another. -/
theorem runWhere_append [∀ s a, Decidable (ok s a)] {s t u : σ} {as bs : List α} (h : runWhere step ok s as = some t)
    (h' : runWhere step ok t bs = some u) : runWhere step ok s (as ++ bs) = some u := by
  induction as generalizing s with
  | nil =>
    simp only [runWhere, Option.some.injEq] at h
    exact h ▸ h'
  | cons a as ih =>
    obtain ⟨hok, s', hs', hrun⟩ := runWhere_cons_iff.1 h
    exact runWhere_cons_iff.2 ⟨hok, s', hs', ih hrun⟩

/-- A run evaluated is a run. -/
theorem Reach.of_runWhere [∀ s a, Decidable (ok s a)] {s s' : σ} {as : List α} (hs : Reach step ok init s)
    (h : runWhere step ok s as = some s') : Reach step ok init s' := by
  induction as generalizing s with
  | nil => simp only [runWhere, Option.some.injEq] at h; exact h ▸ hs
  | cons a as ih =>
    obtain ⟨hok, t, ht, hrun⟩ := runWhere_cons_iff.1 h
    exact ih (.next hs hok ht) hrun

/-- What a run evaluated comes to is reached. -/
theorem Reach.exists_of_runWhere (step : σ → α → Option σ) (ok : σ → α → Prop) [∀ s a, Decidable (ok s a)] {s : σ}
    (hs : init s) (as : List α) (p : σ → Bool) (h : (runWhere step ok s as).any p = true) :
    ∃ s', Reach step ok init s' ∧ p s' = true := by
  obtain ⟨s', hs', hp⟩ := (Option.any_eq_true _ _).1 h
  exact ⟨s', .of_runWhere (.start hs) hs', hp⟩

/-- What holds at the start and is kept by every step holds at a run's end. -/
theorem invariant_of_runWhere [∀ s a, Decidable (ok s a)] {inv : σ → Prop}
    (hstep : ∀ s a s', inv s → step s a = some s' → inv s') {s s' : σ} {as : List α} (hs : inv s)
    (h : runWhere step ok s as = some s') : inv s' := by
  have hreach : Reach step ok (fun t => t = s) s' := .of_runWhere (.start rfl) h
  exact hreach.invariant (fun _ heq => heq ▸ hs) fun s a s' hinv _ => hstep s a s' hinv

/-- A run each step of which makes `measure` smaller has no more steps than it was at the start. -/
theorem length_le_of_runWhere [∀ s a, Decidable (ok s a)] {inv : σ → Prop} (measure : σ → Nat)
    (hstep : ∀ s a s', inv s → step s a = some s' → inv s' ∧ measure s' < measure s) {s s' : σ} {as : List α} (hs : inv s)
    (h : runWhere step ok s as = some s') : as.length + measure s' ≤ measure s := by
  induction as generalizing s with
  | nil =>
    simp only [runWhere, Option.some.injEq] at h
    simp [h]
  | cons a as ih =>
    obtain ⟨-, t, ht, hrun⟩ := runWhere_cons_iff.1 h
    obtain ⟨hinv, hlt⟩ := hstep s a t hs ht
    have hrest := ih hinv hrun
    rw [List.length_cons]
    omega

end Library
