import Mathlib.Logic.Basic

/-!
# A machine that ends

A machine that takes one step after the other, each to a next state or to an end.  `Comes` is a whole run of it, to its
end; `Comes.of_decreasing` shows there is one where every step makes something smaller that cannot grow smaller for ever,
and `Comes.invariant` is what a whole run keeps.
-/

namespace Library

variable {σ ε : Type}

/-- The run from `s` ends: in the state `t`, with `e`. -/
inductive Comes (next : σ → σ ⊕ ε) : σ → σ → ε → Prop where
  | ends {s : σ} {e : ε} : next s = .inr e → Comes next s s e
  | goes {s s' t : σ} {e : ε} : next s = .inl s' → Comes next s' t e → Comes next s t e

variable {next : σ → σ ⊕ ε} {s t t' : σ} {e e' : ε}

/-- What every step keeps holds where the run ends, and it ends there. -/
theorem Comes.invariant {inv : σ → Prop} (hstep : ∀ s s', inv s → next s = .inl s' → inv s') (h : Comes next s t e)
    (hs : inv s) : inv t ∧ next t = .inr e := by
  induction h with
  | ends he => exact ⟨hs, he⟩
  | goes hn _ ih => exact ih (hstep _ _ hs hn)

/-- There is one end. -/
theorem Comes.unique (h : Comes next s t e) (h' : Comes next s t' e') : t = t' ∧ e = e' := by
  induction h with
  | ends he =>
    cases h' with
    | ends he' => exact ⟨rfl, Sum.inr.inj (he.symm.trans he')⟩
    | goes hn _ => cases he.symm.trans hn
  | goes hn _ ih =>
    cases h' with
    | ends he' => cases hn.symm.trans he'
    | goes hn' h' =>
      cases Sum.inl.inj (hn.symm.trans hn')
      exact ih h'

/-- A machine whose every step, where `inv` holds, makes `measure` smaller ends. -/
theorem Comes.of_decreasing {α : Type} {r : α → α → Prop} (hr : WellFounded r) {inv : σ → Prop} (measure : σ → α)
    (hstep : ∀ s s', inv s → next s = .inl s' → inv s' ∧ r (measure s') (measure s)) (hs : inv s) :
    ∃ t e, Comes next s t e := by
  induction hm : measure s using hr.induction generalizing s with
  | _ m ih =>
    cases hn : next s with
    | inr e => exact ⟨s, e, .ends hn⟩
    | inl s' =>
      obtain ⟨hs', hlt⟩ := hstep s s' hs hn
      obtain ⟨t, e, h⟩ := ih (measure s') (hm ▸ hlt) hs' rfl
      exact ⟨t, e, .goes hn h⟩

end Library
