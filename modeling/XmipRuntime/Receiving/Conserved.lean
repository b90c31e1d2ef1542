import XmipRuntime.Receiving.Places

/-!
# What a budget holds

A budget (`src/budget.rs`) is one number under one lock, and what its threads hold of it are guards: each a charge, split as
it is handed on, and given back when it is dropped.  A thread for which there is no room sleeps until one that gave a charge
back wakes all that sleep, which it does after it let the lock go.  A step is one hold of the lock, or that wake; a sleeper
may wake by itself at any time, as from any condition variable.

The machine's numbers are of 64 bits.  Where twice the budget is one of them no sum wraps, and what a thread is given is what
`Budget.hold` and `Budget.holdUpTo` say (`Ask.given_hold`, `Ask.given_upTo`).
-/

namespace Receiving.Holding

open Library

/-- What a thread asks a budget for: a charge, or as much as there is room for up to what it wants. -/
inductive Ask where
  | hold (charge : Nat)
  | upTo (wanted : Nat)
  deriving DecidableEq

/-- What it is given where there is room for it now, and the budget then. -/
def Ask.given (b : Budget) : Ask → Option (Nat × Budget)
  | .hold charge =>
    let charge := min charge b.most
    if 0 < b.held ∧ b.most < (b.held + charge) % UInt64.size then none
    else some (charge, { b with held := (b.held + charge) % UInt64.size })
  | .upTo wanted =>
    let wanted := max 1 (min wanted b.most)
    if b.most ≤ b.held then none
    else
      let charge := min wanted (b.most - b.held)
      some (charge, { b with held := (b.held + charge) % UInt64.size })

/-- Where a thread is: outside the budget, about to take the lock to ask, asleep, or with a charge given back and the
sleepers yet to wake. -/
inductive Thread where
  | runs
  | asks (ask : Ask)
  | sleeps (ask : Ask)
  | notifies
  deriving DecidableEq

/-- Awake, to ask again. -/
def Thread.woken : Thread → Thread
  | .sleeps ask => .asks ask
  | t => t

/-- A budget, the charges of the guards held of it, and the threads. -/
structure Sys where
  budget : Budget
  guards : List Nat
  threads : List Thread

/-- A budget of `most`, one at least, and none that asked for any of it. -/
def Starts (most : Nat) (s : Sys) : Prop := s.budget = ⟨max most 1, 0⟩ ∧ s.guards = [] ∧ ∀ t ∈ s.threads, t = .runs

inductive Action where
  | call (k : Nat) (ask : Ask)
  /-- The lock taken by a thread that asks. -/
  | lock (k : Nat)
  /-- A sleeper awake by itself. -/
  | wakes (k : Nat)
  /-- `charge` of the guard `i` split off. -/
  | split (k i charge : Nat)
  | drop (k i : Nat)
  | notify (k : Nat)

namespace Sys

/-- One step. -/
def next (s : Sys) : Action → Option Sys
  | .call k ask => do
    let (t, rest) ← pick s.threads k
    if t = .runs then some { s with threads := .asks ask :: rest } else none
  | .lock k => do
    let (t, rest) ← pick s.threads k
    match t with
    | .asks ask =>
      match ask.given s.budget with
      | some (charge, budget) => some ⟨budget, charge :: s.guards, .runs :: rest⟩
      | none => some { s with threads := .sleeps ask :: rest }
    | _ => none
  | .wakes k => do
    let (t, rest) ← pick s.threads k
    match t with
    | .sleeps ask => some { s with threads := .asks ask :: rest }
    | _ => none
  | .split k i charge => do
    let (t, _) ← pick s.threads k
    let (held, guards) ← pick s.guards i
    if t = .runs then
      let charge := min charge held
      some { s with guards := charge :: (held - charge) :: guards }
    else none
  | .drop k i => do
    let (t, rest) ← pick s.threads k
    let (held, guards) ← pick s.guards i
    if t = .runs then
      if held = 0 then some { s with guards }
      else some ⟨s.budget.release held, guards, .notifies :: rest⟩
    else none
  | .notify k => do
    let (t, rest) ← pick s.threads k
    if t = .notifies then some { s with threads := .runs :: rest.map Thread.woken } else none

end Sys

/-! ### What one ask is given -/

namespace Ask

variable {b b' : Budget} {ask : Ask} {charge wanted given : Nat}

/-- Where twice the budget does not wrap, a hold is given as `Budget.hold` says. -/
theorem given_hold (hheld : b.held ≤ b.most) (hmost : 2 * b.most < UInt64.size) (charge : Nat) :
    (Ask.hold charge).given b = b.hold charge := by
  have hfits : (b.held + min charge b.most) % UInt64.size = b.held + min charge b.most :=
    Nat.mod_eq_of_lt (by omega)
  simp only [Ask.given, Budget.hold, hfits]

theorem given_upTo (hmost : 2 * b.most < UInt64.size) (wanted : Nat) :
    (Ask.upTo wanted).given b = b.holdUpTo wanted := by
  simp only [Ask.given, Budget.holdUpTo]
  split
  · rfl
  · rename_i hroom
    rw [Nat.mod_eq_of_lt (by omega)]

/-- What it is given is held besides, within the budget. -/
theorem given_spec (hheld : b.held ≤ b.most) (hmost : 2 * b.most < UInt64.size) (h : ask.given b = some (given, b')) :
    b'.held = b.held + given ∧ b'.most = b.most ∧ b'.held ≤ b'.most := by
  cases ask with
  | hold charge =>
    rw [given_hold hheld hmost, Budget.hold] at h
    split at h
    · cases h
    · cases h
      refine ⟨rfl, rfl, ?_⟩
      dsimp only
      omega
  | upTo wanted =>
    rw [given_upTo hmost] at h
    obtain ⟨hheld', hmost', -, hle⟩ := Budget.holdUpTo_spec h
    exact ⟨hheld', hmost', hmost' ▸ hle⟩

/-- There is no room for it where more is held. -/
theorem given_eq_none_of_le (hheld : b'.held ≤ b'.most) (hmost : 2 * b'.most < UInt64.size) (hsame : b'.most = b.most)
    (hle : b.held ≤ b'.held) (h : ask.given b = none) : ask.given b' = none := by
  cases ask with
  | hold charge =>
    rw [given_hold (by omega) (by omega), Budget.hold] at h
    rw [given_hold hheld hmost, Budget.hold]
    split at h
    · rw [if_pos (by omega)]
    · cases h
  | upTo wanted =>
    rw [given_upTo (by omega), Budget.holdUpTo] at h
    rw [given_upTo hmost, Budget.holdUpTo]
    dsimp only at h ⊢
    split at h
    · rw [if_pos (by omega)]
    · cases h

/-- A hold of more than the budget is given where nothing is held, and is then all of it. -/
theorem given_alone (hmost : 2 * b.most < UInt64.size) (hheld : b.held ≤ b.most) (hlarge : b.most < charge)
    (h : (Ask.hold charge).given b = some (given, b')) : b.held = 0 ∧ given = b.most := by
  rw [given_hold hheld hmost, Budget.hold] at h
  split at h
  · cases h
  · cases h
    omega

theorem given_upTo_bounds (h : (Ask.upTo wanted).given b = some (given, b')) :
    1 ≤ given ∧ given ≤ max wanted 1 := by
  unfold Ask.given at h
  dsimp only at h
  split at h
  · cases h
  · cases h
    omega

end Ask

/-! ### Every run -/

/-- What holds of a budget at any time: what is held of it is what its guards hold, and no more than the budget; no sum the
machine makes wraps and no charge given back is more than is held; a hold of more than the budget is given where no guard
holds anything, and is the whole of it; as much as there is room for is one at least, and no more than is wanted where one is
wanted; and where a sleeper could be given what it asks, a thread is about to wake it. -/
structure Sys.Conserves (s : Sys) : Prop where
  sums : s.budget.held = total id s.guards
  bounded : s.budget.held ≤ s.budget.most
  noWrap : ∀ charge, s.budget.held + min charge s.budget.most < UInt64.size
  noClamp : ∀ held ∈ s.guards, held ≤ s.budget.held
  alone : ∀ charge given b', (Ask.hold charge).given s.budget = some (given, b') → s.budget.most < charge →
    (∀ held ∈ s.guards, held = 0) ∧ given = s.budget.most
  upTo : ∀ wanted given b', (Ask.upTo wanted).given s.budget = some (given, b') → 1 ≤ given ∧ given ≤ max wanted 1
  awaits : ∀ ask, .sleeps ask ∈ s.threads → (ask.given s.budget).isSome → .notifies ∈ s.threads

/-- What every step keeps. -/
structure Sys.Kept (most : Nat) (s : Sys) : Prop where
  same : s.budget.most = most
  sums : s.budget.held = total id s.guards
  bounded : s.budget.held ≤ most
  awaits : ∀ ask, .sleeps ask ∈ s.threads → (ask.given s.budget).isSome → .notifies ∈ s.threads

namespace Sys

variable {most : Nat} {s s' : Sys} {k i charge : Nat} {t t' : Thread} {ask : Ask} {rest : List Thread}

/-- A step of one thread, that neither was about to wake the sleepers nor falls asleep, and gives nothing back. -/
private theorem awaits_cons (h : ∀ ask, .sleeps ask ∈ s.threads → (ask.given s.budget).isSome → .notifies ∈ s.threads)
    (hpick : pick s.threads k = some (t, rest)) (hwas : t ≠ .notifies) (hnot : ∀ ask, t' ≠ .sleeps ask)
    (hask : .sleeps ask ∈ t' :: rest) (hgiven : (ask.given s.budget).isSome) : .notifies ∈ t' :: rest := by
  rcases List.mem_cons.1 hask with heq | hask
  · exact absurd heq.symm (hnot ask)
  · rcases eq_or_mem_of_pick hpick (h ask (mem_of_mem_pick hpick hask) hgiven) with heq | hmem
    · exact absurd heq.symm hwas
    · exact List.mem_cons_of_mem _ hmem

/-- A thread takes the lock: it is given what it asks, or falls asleep where there is no room for it. -/
private theorem lock_kept (hmost : 2 * most < UInt64.size) (hs : s.Kept most) (h : s.next (.lock k) = some s') :
    s'.Kept most := by
  have hmost' : 2 * s.budget.most < UInt64.size := hs.same ▸ hmost
  have hheld : s.budget.held ≤ s.budget.most := hs.same ▸ hs.bounded
  obtain ⟨⟨t, rest⟩, hpick, h⟩ := Option.bind_eq_some_iff.1 h
  dsimp only at h
  split at h
  · rename_i ask
    split at h
    · rename_i charge budget hgiven
      cases h
      obtain ⟨hheld', hsame, hle⟩ := Ask.given_spec hheld hmost' hgiven
      refine ⟨hsame.trans hs.same, ?_, hs.same ▸ hsame ▸ hle, ?_⟩
      · show budget.held = charge + total id s.guards
        rw [hheld', hs.sums, Nat.add_comm]
      · intro other hother hroom
        refine awaits_cons hs.awaits hpick (by simp) (by simp) hother ?_
        -- More is held now, so what there is room for now there was room for before.
        by_contra hnone
        rw [Option.not_isSome_iff_eq_none] at hnone
        have := Ask.given_eq_none_of_le hle (hsame ▸ hmost') hsame (by omega) hnone
        rw [this] at hroom
        cases hroom
    · rename_i hnone
      cases h
      refine ⟨hs.same, hs.sums, hs.bounded, fun other hother hroom => ?_⟩
      rcases List.mem_cons.1 hother with heq | hother
      · cases heq
        dsimp only at hroom
        rw [hnone] at hroom
        cases hroom
      · rcases eq_or_mem_of_pick hpick (hs.awaits other (mem_of_mem_pick hpick hother) hroom) with heq | hmem
        · cases heq
        · exact List.mem_cons_of_mem _ hmem
  · cases h

/-- A guard is dropped: what it held is given back, and its thread is to wake the sleepers. -/
private theorem drop_kept (hs : s.Kept most) (h : s.next (.drop k i) = some s') : s'.Kept most := by
  obtain ⟨⟨t, rest⟩, hpick, h⟩ := Option.bind_eq_some_iff.1 h
  obtain ⟨⟨held, guards⟩, hguards, h⟩ := Option.bind_eq_some_iff.1 h
  obtain ⟨-, h⟩ := Option.ite_none_right_eq_some.1 h
  have hbounded := hs.bounded
  have hsums := hs.sums.trans (total_of_pick id hguards)
  simp only [id_eq] at hsums
  split at h
  · rename_i hzero
    cases h
    refine ⟨hs.same, ?_, hs.bounded, hs.awaits⟩
    dsimp only
    omega
  · cases h
    refine ⟨hs.same, ?_, ?_, fun _ _ _ => List.mem_cons_self ..⟩
    · dsimp only [Budget.release_held]
      omega
    · dsimp only [Budget.release_held]
      omega

theorem next_kept (hmost : 2 * most < UInt64.size) (hs : s.Kept most) {a : Action} (h : s.next a = some s') :
    s'.Kept most := by
  cases a with
  | call k ask =>
    obtain ⟨⟨t, rest⟩, hpick, h⟩ := Option.bind_eq_some_iff.1 h
    obtain ⟨rfl, h⟩ := Option.ite_none_right_eq_some.1 h
    cases h
    exact ⟨hs.same, hs.sums, hs.bounded, fun _ hask hgiven =>
      awaits_cons hs.awaits hpick (by simp) (by simp) hask hgiven⟩
  | lock k => exact lock_kept hmost hs h
  | wakes k =>
    obtain ⟨⟨t, rest⟩, hpick, h⟩ := Option.bind_eq_some_iff.1 h
    dsimp only at h
    split at h
    · cases h
      exact ⟨hs.same, hs.sums, hs.bounded, fun _ hask hgiven =>
        awaits_cons hs.awaits hpick (by simp) (by simp) hask hgiven⟩
    · cases h
  | split k i charge =>
    obtain ⟨⟨t, rest⟩, -, h⟩ := Option.bind_eq_some_iff.1 h
    obtain ⟨⟨held, guards⟩, hguards, h⟩ := Option.bind_eq_some_iff.1 h
    obtain ⟨-, h⟩ := Option.ite_none_right_eq_some.1 h
    cases h
    refine ⟨hs.same, ?_, hs.bounded, hs.awaits⟩
    have hsums := hs.sums.trans (total_of_pick id hguards)
    show s.budget.held = min charge held + (held - min charge held + total id guards)
    simp only [id_eq] at hsums
    omega
  | drop k i => exact drop_kept hs h
  | notify k =>
    obtain ⟨⟨t, rest⟩, hpick, h⟩ := Option.bind_eq_some_iff.1 h
    obtain ⟨-, h⟩ := Option.ite_none_right_eq_some.1 h
    cases h
    refine ⟨hs.same, hs.sums, hs.bounded, fun ask hask _ => ?_⟩
    -- None is asleep any more.
    rcases List.mem_cons.1 hask with heq | hask
    · cases heq
    · obtain ⟨t, -, ht⟩ := List.mem_map.1 hask
      cases t <;> cases ht

theorem Kept.conserves (hmost : 2 * most < UInt64.size) (hs : s.Kept most) : s.Conserves := by
  have hmost' : 2 * s.budget.most < UInt64.size := hs.same ▸ hmost
  have hheld : s.budget.held ≤ s.budget.most := hs.same ▸ hs.bounded
  have hle : ∀ held ∈ s.guards, held ≤ s.budget.held := by
    intro held hmem
    obtain ⟨i, hi⟩ := List.getElem?_of_mem hmem
    have hpick : pick s.guards i = some (held, s.guards.eraseIdx i) := by rw [pick, hi, Option.map_some]
    have htotal := hs.sums.trans (total_of_pick id hpick)
    simp only [id_eq] at htotal
    omega
  refine ⟨hs.sums, hheld, fun charge => by omega, hle, ?_, fun _ _ _ h => Ask.given_upTo_bounds h, hs.awaits⟩
  intro charge given b' hgiven hlarge
  obtain ⟨hzero, hall⟩ := Ask.given_alone hmost' hheld hlarge hgiven
  refine ⟨fun held hmem => ?_, hall⟩
  have := hle held hmem
  omega

end Sys

/-- In every run of any threads over a budget whose double is of 64 bits, the budget is conserved. -/
theorem budget_conserved (most : Nat) (hmost : 2 * max most 1 < UInt64.size) (s : Sys)
    (h : Reach Sys.next Always (Starts most) s) : s.Conserves := by
  have hstarts : ∀ s, Starts most s → s.Kept (max most 1) := by
    rintro s ⟨hbudget, hguards, hthreads⟩
    refine ⟨by rw [hbudget], by rw [hbudget, hguards]; rfl, by rw [hbudget]; exact Nat.zero_le _, ?_⟩
    intro ask hask _
    cases hthreads _ hask
  exact (Reach.invariant hstarts (fun _ _ _ hs _ h => Sys.next_kept hmost hs h) h).conserves hmost

/-- Two threads of a budget of five: one holds three, and a hold of a thousand waits for it to let go, and holds the five. -/
theorem budget_conserved_large :
    ∃ s, Reach Sys.next Always (Starts 5) s ∧ s.Conserves ∧ s.guards = [5] ∧ s.threads = [.runs, .runs] := by
  obtain ⟨s, hs, hp⟩ := Reach.exists_of_runWhere Sys.next Always
    (show Starts 5 ⟨⟨5, 0⟩, [], [.runs, .runs]⟩ from ⟨rfl, rfl, by decide⟩)
    [.call 0 (.hold 3), .lock 0, .call 1 (.hold 1000), .lock 0, .drop 1 0, .notify 0, .lock 1]
    (fun s => decide (s.guards = [5]) && decide (s.threads = [.runs, .runs])) (by decide +kernel)
  simp only [Bool.and_eq_true, decide_eq_true_eq] at hp
  exact ⟨s, hs, budget_conserved 5 (by decide) s hs, hp.1, hp.2⟩

/-- One that wants nothing of a free budget is given one. -/
theorem upTo_none_given_one :
    ∃ s, Reach Sys.next Always (Starts 5) s ∧ .asks (.upTo 0) ∈ s.threads ∧
      ∃ given b', (Ask.upTo 0).given s.budget = some (given, b') ∧ ¬given ≤ 0 := by
  have hstep : Reach Sys.next Always (Starts 5) ⟨⟨5, 0⟩, [], [.asks (.upTo 0)]⟩ :=
    .next (.start (s := ⟨⟨5, 0⟩, [], [.runs]⟩) ⟨rfl, rfl, by decide⟩) (a := .call 0 (.upTo 0)) trivial rfl
  exact ⟨_, hstep, List.mem_singleton.2 rfl, 1, _, rfl, by decide⟩

end Receiving.Holding
