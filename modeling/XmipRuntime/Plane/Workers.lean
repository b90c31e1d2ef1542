import Mathlib.Data.List.Nodup
import XmipRuntime.Library.Pick
import XmipRuntime.Library.Run

/-!
# The threads a listener keeps

An operate listener answers each connection on a thread, kept for the next connection once one ends
(`src/plane/workers.rs`).  What is shared is read and written at different points: whether it is stopped, the threads that
wait, and the threads to join.  A thread with nothing to do looks under the lock of those that wait whether it is stopped;
whoever gives work looks before it takes that lock, and not again.

The machine is any number of threads that give work, one that stops (`Listener::stop` does it once, `src/plane/listener.rs`)
and the threads kept.  A step is one access of what they share, or what a thread does by itself.  Which of those that wait
takes the next connection does not matter: any may.  A thread that ends may be waited for as long as there is time.
-/

namespace Workers

open Library

/-! ### The machine -/

/-- The most threads that wait. -/
def idleMost : Nat := 8

/-- Where a thread is: started with work; at work; done with it; waiting; taken by a run to hand its work; with work
handed; told that none comes; or ended. -/
inductive Phase where
  | spawned (work : Nat)
  | running (work : Nat)
  | ran
  | idle
  | claimed (work : Nat)
  | handed (work : Nat)
  | dropped
  | ended
  deriving DecidableEq

/-- Where what joins a thread is: with the run that started it; kept; with the stop; or no more. -/
inductive Handle where
  | unlisted (work : Nat)
  | kept
  | taken
  | left
  deriving DecidableEq

structure Thread where
  phase : Phase
  handle : Handle
  deriving DecidableEq

/-- Where a `run` of a work is: to look whether it is stopped; to look who waits; to hand its work to one that did; to
start a thread; to keep what joins it; or back, with whether it runs. -/
inductive Call where
  | asks (work : Nat)
  | checked (work : Nat)
  | claimed (work : Nat)
  | starts (work : Nat)
  | pushes (work : Nat)
  | answered (work : Nat) (runs : Bool)
  deriving DecidableEq

inductive Stop where
  | not | stored | cleared | joining | returned
  deriving DecidableEq

structure State where
  stop : Stop
  threads : List Thread
  calls : List Call
  /-- The works given, and those begun, in order. -/
  given : Nat
  begun : List Nat
  deriving DecidableEq

def Begins (s : State) : Prop := s = ⟨.not, [], [], 0, []⟩

inductive Action where
  | calls
  | checks (i : Nat)
  | pops (i k : Nat)
  | sends (i k : Nat)
  /-- Whether the thread could be started. -/
  | spawns (i : Nat) (started : Bool)
  | pushes (i k : Nat)
  | begins (k : Nat)
  | ends (k : Nat) (panicked : Bool)
  | settles (k : Nat)
  | leaves (k : Nat)
  | stores
  | clears
  | takes
  /-- Whether the time to wait is over. -/
  | looks (k : Nat) (over_ : Bool)
  | returns
  deriving DecidableEq

def Thread.idle (t : Thread) : Nat := if t.phase = .idle then 1 else 0

/-- The work it is to begin. -/
def Thread.pending (t : Thread) : Option Nat :=
  match t.phase with
  | .spawned work | .handed work => some work
  | _ => none

def Thread.claimedBy (t : Thread) : Option Nat :=
  match t.phase with
  | .claimed work => some work
  | _ => none

/-- What waits let go. -/
def Thread.cleared (t : Thread) : Thread := if t.phase = .idle then { t with phase := .dropped } else t

def Thread.retained (t : Thread) : Thread := if t.phase = .ended ∧ t.handle = .kept then { t with handle := .left } else t

def Thread.joined (t : Thread) : Thread := if t.handle = .kept then { t with handle := .taken } else t

def Call.work : Call → Nat
  | .asks work | .checked work | .claimed work | .starts work | .pushes work | .answered work _ => work

/-- The work it handed over. -/
def Call.handed : Call → Option Nat
  | .pushes work | .answered work true => some work
  | _ => none

def Call.claims : Call → Option Nat
  | .claimed work => some work
  | _ => none

/-- It found that it is not stopped, and its work is to be handed over. -/
def Call.toHand : Call → Bool
  | .checked _ | .claimed _ | .starts _ => true
  | _ => false

namespace State

def stopped (s : State) : Bool := decide (s.stop ≠ .not)

def step (s : State) : Action → Option State
  | .calls => some { s with calls := .asks s.given :: s.calls, given := s.given + 1 }
  | .checks i => do
    let (call, calls) ← pick s.calls i
    match call with
    | .asks work => some { s with calls := (if s.stopped then .answered work false else .checked work) :: calls }
    | _ => none
  | .pops i k => do
    let (call, calls) ← pick s.calls i
    match call with
    | .checked work =>
      if total Thread.idle s.threads = 0 then some { s with calls := .starts work :: calls }
      else
        let (t, rest) ← pick s.threads k
        if t.phase = .idle then
          some { s with calls := .claimed work :: calls, threads := { t with phase := .claimed work } :: rest }
        else none
    | _ => none
  | .sends i k => do
    let (call, calls) ← pick s.calls i
    match call with
    | .claimed work =>
      -- The work comes back where the thread ended meanwhile.
      if work ∉ s.threads.filterMap Thread.claimedBy then some { s with calls := .starts work :: calls }
      else
        let (t, rest) ← pick s.threads k
        if t.phase = .claimed work then
          some { s with calls := .answered work true :: calls, threads := { t with phase := .handed work } :: rest }
        else none
    | _ => none
  | .spawns i started => do
    let (call, calls) ← pick s.calls i
    match call with
    | .starts work =>
      if started then
        some { s with calls := .pushes work :: calls, threads := ⟨.spawned work, .unlisted work⟩ :: s.threads }
      else some { s with calls := .answered work false :: calls }
    | _ => none
  | .pushes i k => do
    let (call, calls) ← pick s.calls i
    match call with
    | .pushes work =>
      let (t, rest) ← pick s.threads k
      if t.handle = .unlisted work then
        some { s with
          calls := .answered work true :: calls
          threads := { t with handle := .kept } :: rest.map Thread.retained }
      else none
    | _ => none
  | .begins k => do
    let (t, rest) ← pick s.threads k
    let work ← t.pending
    some { s with threads := { t with phase := .running work } :: rest, begun := s.begun ++ [work] }
  | .ends k panicked => do
    let (t, rest) ← pick s.threads k
    match t.phase with
    | .running _ => some { s with threads := { t with phase := if panicked then .ended else .ran } :: rest }
    | _ => none
  | .settles k => do
    let (t, rest) ← pick s.threads k
    if t.phase = .ran then
      let phase := if s.stopped ∨ idleMost ≤ total Thread.idle s.threads then .ended else .idle
      some { s with threads := { t with phase } :: rest }
    else none
  | .leaves k => do
    let (t, rest) ← pick s.threads k
    if t.phase = .dropped then some { s with threads := { t with phase := .ended } :: rest } else none
  | .stores => if s.stop = .not then some { s with stop := .stored } else none
  | .clears =>
    if s.stop = .stored then some { s with stop := .cleared, threads := s.threads.map Thread.cleared } else none
  | .takes =>
    if s.stop = .cleared then some { s with stop := .joining, threads := s.threads.map Thread.joined } else none
  | .looks k over_ => do
    let (t, rest) ← pick s.threads k
    if s.stop = .joining ∧ t.handle = .taken ∧ (t.phase = .ended ∨ over_ = true) then
      some { s with threads := { t with handle := .left } :: rest }
    else none
  | .returns =>
    if s.stop = .joining ∧ ∀ t ∈ s.threads, t.handle ≠ .taken then some { s with stop := .returned } else none

end State

/-! ### What a step does -/

inductive Taken (s : State) : Action → State → Prop where
  | calls : Taken s .calls { s with calls := .asks s.given :: s.calls, given := s.given + 1 }
  | refused (i work : Nat) (calls : List Call) : pick s.calls i = some (.asks work, calls) → s.stop ≠ .not →
      Taken s (.checks i) { s with calls := .answered work false :: calls }
  | checks (i work : Nat) (calls : List Call) : pick s.calls i = some (.asks work, calls) → s.stop = .not →
      Taken s (.checks i) { s with calls := .checked work :: calls }
  | nobody (i k work : Nat) (calls : List Call) : pick s.calls i = some (.checked work, calls) →
      Taken s (.pops i k) { s with calls := .starts work :: calls }
  | pops (i k work : Nat) (calls : List Call) (t : Thread) (rest : List Thread) :
      pick s.calls i = some (.checked work, calls) → pick s.threads k = some (t, rest) → t.phase = .idle →
      Taken s (.pops i k) { s with
        calls := .claimed work :: calls, threads := { t with phase := .claimed work } :: rest }
  | back (i k work : Nat) (calls : List Call) : pick s.calls i = some (.claimed work, calls) →
      work ∉ s.threads.filterMap Thread.claimedBy → Taken s (.sends i k) { s with calls := .starts work :: calls }
  | sends (i k work : Nat) (calls : List Call) (t : Thread) (rest : List Thread) :
      pick s.calls i = some (.claimed work, calls) → pick s.threads k = some (t, rest) → t.phase = .claimed work →
      Taken s (.sends i k) { s with
        calls := .answered work true :: calls, threads := { t with phase := .handed work } :: rest }
  | spawns (i work : Nat) (calls : List Call) : pick s.calls i = some (.starts work, calls) →
      Taken s (.spawns i true) { s with
        calls := .pushes work :: calls, threads := ⟨.spawned work, .unlisted work⟩ :: s.threads }
  | unstarted (i work : Nat) (calls : List Call) : pick s.calls i = some (.starts work, calls) →
      Taken s (.spawns i false) { s with calls := .answered work false :: calls }
  | pushes (i k work : Nat) (calls : List Call) (t : Thread) (rest : List Thread) :
      pick s.calls i = some (.pushes work, calls) → pick s.threads k = some (t, rest) →
      Taken s (.pushes i k) { s with
        calls := .answered work true :: calls, threads := { t with handle := .kept } :: rest.map Thread.retained }
  | begins (k work : Nat) (t : Thread) (rest : List Thread) : pick s.threads k = some (t, rest) →
      t.pending = some work →
      Taken s (.begins k) { s with threads := { t with phase := .running work } :: rest, begun := s.begun ++ [work] }
  | ends (k work : Nat) (panicked : Bool) (t : Thread) (rest : List Thread) : pick s.threads k = some (t, rest) →
      t.phase = .running work →
      Taken s (.ends k panicked) { s with threads := { t with phase := if panicked then .ended else .ran } :: rest }
  | quits (k : Nat) (t : Thread) (rest : List Thread) : pick s.threads k = some (t, rest) → t.phase = .ran →
      Taken s (.settles k) { s with threads := { t with phase := .ended } :: rest }
  | waits (k : Nat) (t : Thread) (rest : List Thread) : pick s.threads k = some (t, rest) → t.phase = .ran →
      s.stop = .not → total Thread.idle s.threads < idleMost →
      Taken s (.settles k) { s with threads := { t with phase := .idle } :: rest }
  | leaves (k : Nat) (t : Thread) (rest : List Thread) : pick s.threads k = some (t, rest) → t.phase = .dropped →
      Taken s (.leaves k) { s with threads := { t with phase := .ended } :: rest }
  | stores : s.stop = .not → Taken s .stores { s with stop := .stored }
  | clears : s.stop = .stored → Taken s .clears { s with stop := .cleared, threads := s.threads.map Thread.cleared }
  | takes : s.stop = .cleared → Taken s .takes { s with stop := .joining, threads := s.threads.map Thread.joined }
  | looks (k : Nat) (over_ : Bool) (t : Thread) (rest : List Thread) : pick s.threads k = some (t, rest) →
      Taken s (.looks k over_) { s with threads := { t with handle := .left } :: rest }
  | returns : s.stop = .joining → Taken s .returns { s with stop := .returned }

variable {ok : State → Action → Prop} {s s' : State} {a : Action}

theorem taken_of_step (h : s.step a = some s') : Taken s a s' := by
  cases a with
  | calls =>
    cases h
    exact .calls
  | checks i =>
    obtain ⟨⟨call, calls⟩, hcall, h⟩ := Option.bind_eq_some_iff.1 h
    cases call with
    | asks work =>
      cases h
      by_cases hs : s.stop = .not
      · simp only [State.stopped, hs, ne_eq, not_true_eq_false, decide_false, Bool.false_eq_true, if_false]
        exact hs ▸ .checks i work calls hcall hs
      · simp only [State.stopped, hs, ne_eq, not_false_eq_true, decide_true, if_true]
        exact .refused i work calls hcall hs
    | _ => cases h
  | pops i k =>
    obtain ⟨⟨call, calls⟩, hcall, h⟩ := Option.bind_eq_some_iff.1 h
    cases call with
    | checked work =>
      dsimp only at h
      split at h
      · cases h
        exact .nobody i k work calls hcall
      · obtain ⟨⟨t, rest⟩, hk, h⟩ := Option.bind_eq_some_iff.1 h
        dsimp only at h
        split at h
        · rename_i ht
          cases h
          exact .pops i k work calls t rest hcall hk ht
        · cases h
    | _ => cases h
  | sends i k =>
    obtain ⟨⟨call, calls⟩, hcall, h⟩ := Option.bind_eq_some_iff.1 h
    cases call with
    | claimed work =>
      dsimp only at h
      split at h
      · rename_i hnone
        cases h
        exact .back i k work calls hcall hnone
      · obtain ⟨⟨t, rest⟩, hk, h⟩ := Option.bind_eq_some_iff.1 h
        dsimp only at h
        split at h
        · rename_i ht
          cases h
          exact .sends i k work calls t rest hcall hk ht
        · cases h
    | _ => cases h
  | spawns i started =>
    obtain ⟨⟨call, calls⟩, hcall, h⟩ := Option.bind_eq_some_iff.1 h
    cases call with
    | starts work =>
      cases started with
      | true =>
        cases h
        exact .spawns i work calls hcall
      | false =>
        cases h
        exact .unstarted i work calls hcall
    | _ => cases h
  | pushes i k =>
    obtain ⟨⟨call, calls⟩, hcall, h⟩ := Option.bind_eq_some_iff.1 h
    cases call with
    | pushes work =>
      obtain ⟨⟨t, rest⟩, hk, h⟩ := Option.bind_eq_some_iff.1 h
      dsimp only at h
      split at h
      · cases h
        exact .pushes i k work calls t rest hcall hk
      · cases h
    | _ => cases h
  | begins k =>
    obtain ⟨⟨t, rest⟩, hk, h⟩ := Option.bind_eq_some_iff.1 h
    obtain ⟨work, hwork, h⟩ := Option.bind_eq_some_iff.1 h
    cases h
    exact .begins k work t rest hk hwork
  | ends k panicked =>
    obtain ⟨⟨t, rest⟩, hk, h⟩ := Option.bind_eq_some_iff.1 h
    dsimp only at h
    split at h
    · rename_i work ht
      cases h
      exact .ends k work panicked t rest hk ht
    · cases h
  | settles k =>
    obtain ⟨⟨t, rest⟩, hk, h⟩ := Option.bind_eq_some_iff.1 h
    dsimp only at h
    split at h
    · rename_i ht
      split at h
      · cases h
        exact .quits k t rest hk ht
      · rename_i hgoes
        rw [not_or] at hgoes
        cases h
        exact .waits k t rest hk ht (by simpa [State.stopped] using hgoes.1) (Nat.lt_of_not_le hgoes.2)
    · cases h
  | leaves k =>
    obtain ⟨⟨t, rest⟩, hk, h⟩ := Option.bind_eq_some_iff.1 h
    dsimp only at h
    split at h
    · rename_i ht
      cases h
      exact .leaves k t rest hk ht
    · cases h
  | stores =>
    simp only [State.step] at h
    split at h
    · rename_i hs
      cases h
      exact .stores hs
    · cases h
  | clears =>
    simp only [State.step] at h
    split at h
    · rename_i hs
      cases h
      exact .clears hs
    · cases h
  | takes =>
    simp only [State.step] at h
    split at h
    · rename_i hs
      cases h
      exact .takes hs
    · cases h
  | looks k over_ =>
    obtain ⟨⟨t, rest⟩, hk, h⟩ := Option.bind_eq_some_iff.1 h
    dsimp only at h
    split at h
    · cases h
      exact .looks k over_ t rest hk
    · cases h
  | returns =>
    simp only [State.step] at h
    split at h
    · rename_i hs
      cases h
      exact .returns hs.1
    · cases h

section Threads

variable (t : Thread)

/-! What a thread's handle is, and whether it waits, is nothing to its work. -/

theorem retained_pending : t.retained.pending = t.pending := by unfold Thread.retained; split <;> rfl

theorem retained_claimedBy : t.retained.claimedBy = t.claimedBy := by unfold Thread.retained; split <;> rfl

theorem retained_idle : t.retained.idle = t.idle := by unfold Thread.retained; split <;> rfl

theorem joined_pending : t.joined.pending = t.pending := by unfold Thread.joined; split <;> rfl

theorem joined_claimedBy : t.joined.claimedBy = t.claimedBy := by unfold Thread.joined; split <;> rfl

theorem joined_idle : t.joined.idle = t.idle := by unfold Thread.joined; split <;> rfl

theorem cleared_pending : t.cleared.pending = t.pending := by
  unfold Thread.cleared
  split
  · rename_i h
    simp [Thread.pending, h]
  · rfl

theorem cleared_claimedBy : t.cleared.claimedBy = t.claimedBy := by
  unfold Thread.cleared
  split
  · rename_i h
    simp [Thread.claimedBy, h]
  · rfl

theorem cleared_idle : t.cleared.idle = 0 := by
  unfold Thread.cleared
  split
  · rfl
  · rename_i h
    simp [Thread.idle, h]

end Threads

theorem claimedBy_of_pending {t : Thread} {work : Nat} (h : t.pending = some work) : t.claimedBy = none := by
  unfold Thread.pending at h
  unfold Thread.claimedBy
  split at h <;> simp_all

/-! ### What is kept -/

/-- What every step keeps: each work given is one call's; those handed over are each with a thread to begin, or begun,
once; each run that took a thread has one of its own to hand its work; and no more wait than may, none once a stop let
them go. -/
structure Sound (s : State) : Prop where
  given : (s.calls.map Call.work).Perm (List.range s.given)
  once : (s.calls.filterMap Call.handed).Perm (s.threads.filterMap Thread.pending ++ s.begun)
  claims : (s.calls.filterMap Call.claims).Perm (s.threads.filterMap Thread.claimedBy)
  few : total Thread.idle s.threads ≤ idleMost
  cleared : s.stop ≠ .not → s.stop ≠ .stored → total Thread.idle s.threads = 0

theorem begins_sound (h : Begins s) : Sound s := by
  subst h
  exact ⟨.refl _, .refl _, .refl _, Nat.zero_le _, fun _ _ => rfl⟩

/-- A call goes on with its work neither handed over nor a thread taken for it. -/
theorem Sound.call (h : Sound s) {i : Nat} {call call' : Call} {calls : List Call} (hcall : pick s.calls i = some (call, calls))
    (hwork : call'.work = call.work) (hhanded : call'.handed = call.handed) (hclaims : call'.claims = call.claims) :
    Sound { s with calls := call' :: calls } where
  given := (map_becomes hcall hwork).trans h.given
  once := (filterMap_becomes hcall hhanded).trans h.once
  claims := (filterMap_becomes hcall hclaims).trans h.claims
  few := h.few
  cleared := h.cleared

/-- The threads go on with the work they are to begin and the runs they are of, and no more of them wait. -/
theorem Sound.changed (h : Sound s) {threads : List Thread}
    (hpending : (threads.filterMap Thread.pending).Perm (s.threads.filterMap Thread.pending))
    (hclaimed : (threads.filterMap Thread.claimedBy).Perm (s.threads.filterMap Thread.claimedBy))
    (hidle : total Thread.idle threads ≤ total Thread.idle s.threads) : Sound { s with threads } where
  given := h.given
  once := h.once.trans (hpending.symm.append_right _)
  claims := h.claims.trans hclaimed.symm
  few := Nat.le_trans hidle h.few
  cleared hn hs := Nat.le_zero.1 (h.cleared hn hs ▸ hidle)

theorem Sound.thread (h : Sound s) {k : Nat} {t t' : Thread} {rest : List Thread} (hk : pick s.threads k = some (t, rest))
    (hpending : t'.pending = t.pending) (hclaimed : t'.claimedBy = t.claimedBy) (hidle : t'.idle ≤ t.idle) :
    Sound { s with threads := t' :: rest } :=
  h.changed (filterMap_becomes hk hpending) (filterMap_becomes hk hclaimed) (total_becomes_le hk hidle)

/-- Each thread goes on so. -/
theorem Sound.map (h : Sound s) {f : Thread → Thread} (hpending : ∀ t, (f t).pending = t.pending)
    (hclaimed : ∀ t, (f t).claimedBy = t.claimedBy) (hidle : ∀ t, (f t).idle ≤ t.idle) :
    Sound { s with threads := s.threads.map f } := by
  refine h.changed ?_ ?_ ?_
  · rw [List.filterMap_map, show Thread.pending ∘ f = Thread.pending from funext hpending]
  · rw [List.filterMap_map, show Thread.claimedBy ∘ f = Thread.claimedBy from funext hclaimed]
  · rw [total_map]
    exact total_le fun t _ => hidle t

theorem Thread.pending_of_phase {t : Thread} {phase : Phase} (h : t.phase = phase) :
    t.pending = Thread.pending ⟨phase, t.handle⟩ := by
  rw [← h]

theorem Thread.claimedBy_of_phase {t : Thread} {phase : Phase} (h : t.phase = phase) :
    t.claimedBy = Thread.claimedBy ⟨phase, t.handle⟩ := by
  rw [← h]

theorem Thread.idle_of_phase {t : Thread} {phase : Phase} (h : t.phase = phase) :
    t.idle = Thread.idle ⟨phase, t.handle⟩ := by
  rw [← h]

theorem Sound.step (h : Sound s) (ht : Taken s a s') : Sound s' := by
  cases ht with
  | calls =>
    refine ⟨?_, h.once, h.claims, h.few, h.cleared⟩
    rw [List.range_succ]
    exact (h.given.cons _).trans (List.perm_append_singleton _ _).symm
  | refused i work calls hcall => exact h.call hcall rfl rfl rfl
  | checks i work calls hcall => exact h.call hcall rfl rfl rfl
  | nobody i k work calls hcall => exact h.call hcall rfl rfl rfl
  | pops i k work calls t rest hcall hk hidle =>
    have hcalls := filterMap_becomes (f := Call.handed) (b := .claimed work) hcall rfl
    have hthreads := filterMap_becomes (f := Thread.pending) (b := ⟨.claimed work, t.handle⟩) hk
      (Thread.pending_of_phase hidle).symm
    have hclaims := filterMap_gains (f := Call.claims) (b := .claimed work) (c := work) hcall rfl rfl
    have hclaimed := filterMap_gains (f := Thread.claimedBy) (b := ⟨.claimed work, t.handle⟩) (c := work) hk
      (Thread.claimedBy_of_phase hidle) rfl
    have hidle := total_becomes_le (f := Thread.idle) (b := ⟨.claimed work, t.handle⟩) hk (Nat.zero_le _)
    exact ⟨(map_becomes hcall rfl).trans h.given, (hcalls.trans h.once).trans (hthreads.symm.append_right _),
      (hclaims.trans (h.claims.cons work)).trans hclaimed.symm, Nat.le_trans hidle h.few,
      fun hn hs => Nat.le_zero.1 (h.cleared hn hs ▸ hidle)⟩
  | back i k work calls hcall hnone =>
    -- A thread taken is there until its work is handed.
    have hmem : work ∈ s.calls.filterMap Call.claims := List.mem_filterMap.2 ⟨_, mem_of_pick hcall, rfl⟩
    exact absurd (h.claims.mem_iff.1 hmem) hnone
  | sends i k work calls t rest hcall hk hclaimed =>
    have hcalls := filterMap_gains (f := Call.handed) (b := .answered work true) (c := work) hcall rfl rfl
    have hthreads := filterMap_gains (f := Thread.pending) (b := ⟨.handed work, t.handle⟩) (c := work) hk
      (Thread.pending_of_phase hclaimed) rfl
    have hclaims := filterMap_loses (f := Call.claims) (b := .answered work true) (c := work) hcall rfl rfl
    have hclaimed := filterMap_loses (f := Thread.claimedBy) (b := ⟨.handed work, t.handle⟩) (c := work) hk
      (Thread.claimedBy_of_phase hclaimed) rfl
    have hidle := total_becomes_le (f := Thread.idle) (b := ⟨.handed work, t.handle⟩) hk (Nat.zero_le _)
    exact ⟨(map_becomes hcall rfl).trans h.given, (hcalls.trans (h.once.cons work)).trans (hthreads.symm.append_right _),
      ((hclaims.trans h.claims).trans hclaimed.symm).cons_inv, Nat.le_trans hidle h.few,
      fun hn hs => Nat.le_zero.1 (h.cleared hn hs ▸ hidle)⟩
  | spawns i work calls hcall =>
    have hcalls := filterMap_gains (f := Call.handed) (b := .pushes work) (c := work) hcall rfl rfl
    exact ⟨(map_becomes hcall rfl).trans h.given, hcalls.trans (h.once.cons work),
      (filterMap_becomes (f := Call.claims) (b := .pushes work) hcall rfl).trans h.claims,
      by simpa [Thread.idle] using h.few, fun hn hs => by simpa [Thread.idle] using h.cleared hn hs⟩
  | unstarted i work calls hcall => exact h.call hcall rfl rfl rfl
  | pushes i k work calls t rest hcall hk =>
    have hcalled : Sound { s with calls := .answered work true :: calls } := h.call hcall rfl rfl rfl
    have hpending : Thread.pending ∘ Thread.retained = Thread.pending := funext retained_pending
    have hclaimed : Thread.claimedBy ∘ Thread.retained = Thread.claimedBy := funext retained_claimedBy
    refine hcalled.changed ?_ ?_ ?_
    · rw [List.filterMap_cons, List.filterMap_map, hpending, ← List.filterMap_cons]
      exact filterMap_becomes (f := Thread.pending) (b := ⟨t.phase, .kept⟩) hk rfl
    · rw [List.filterMap_cons, List.filterMap_map, hclaimed, ← List.filterMap_cons]
      exact filterMap_becomes (f := Thread.claimedBy) (b := ⟨t.phase, .kept⟩) hk rfl
    · rw [total_cons, total_map, show (fun t => (Thread.retained t).idle) = Thread.idle from funext retained_idle]
      exact total_becomes_le (f := Thread.idle) (b := ⟨t.phase, .kept⟩) hk (Nat.le_refl _)
  | begins k work t rest hk hwork =>
    have hthreads := filterMap_loses (f := Thread.pending) (b := ⟨.running work, t.handle⟩) hk hwork rfl
    have hclaimed : t.claimedBy = none := claimedBy_of_pending hwork
    have hidle := total_becomes_le (f := Thread.idle) (b := ⟨.running work, t.handle⟩) hk (Nat.zero_le _)
    refine ⟨h.given, h.once.trans ?_, h.claims.trans (filterMap_becomes hk hclaimed.symm).symm,
      Nat.le_trans hidle h.few, fun hn hs => Nat.le_zero.1 (h.cleared hn hs ▸ hidle)⟩
    rw [← List.append_assoc]
    refine (hthreads.symm.append_right _).trans ?_
    exact List.perm_append_singleton _ _ |>.symm
  | ends k work panicked t rest hk hphase =>
    refine h.thread hk ?_ ?_ ?_
    · rw [Thread.pending_of_phase hphase]
      cases panicked <;> rfl
    · rw [Thread.claimedBy_of_phase hphase]
      cases panicked <;> rfl
    · cases panicked <;> exact Nat.zero_le _
  | quits k t rest hk hphase =>
    exact h.thread hk (Thread.pending_of_phase hphase).symm (Thread.claimedBy_of_phase hphase).symm (Nat.zero_le _)
  | waits k t rest hk hphase hstop hroom =>
    have htotal := total_of_pick Thread.idle hk
    refine ⟨h.given, h.once.trans ((filterMap_becomes hk (Thread.pending_of_phase hphase).symm).symm.append_right _),
      h.claims.trans (filterMap_becomes hk (Thread.claimedBy_of_phase hphase).symm).symm, ?_,
      fun hn => absurd hstop hn⟩
    simp only [total_cons, Thread.idle, if_true] at *
    omega
  | leaves k t rest hk hphase =>
    exact h.thread hk (Thread.pending_of_phase hphase).symm (Thread.claimedBy_of_phase hphase).symm (Nat.zero_le _)
  | stores hstop => exact ⟨h.given, h.once, h.claims, h.few, fun _ hs => absurd rfl hs⟩
  | clears hstop =>
    have hcleared := h.map cleared_pending cleared_claimedBy fun t => cleared_idle t ▸ Nat.zero_le _
    refine ⟨hcleared.given, hcleared.once, hcleared.claims, hcleared.few, fun _ _ => ?_⟩
    rw [total_map]
    exact total_eq_zero fun t _ => cleared_idle t
  | takes hstop =>
    have hjoined := h.map joined_pending joined_claimedBy fun t => Nat.le_of_eq (joined_idle t)
    refine ⟨hjoined.given, hjoined.once, hjoined.claims, hjoined.few, fun _ _ => hjoined.cleared ?_ ?_⟩
    all_goals exact fun heq => nomatch hstop.symm.trans heq
  | looks k over_ t rest hk => exact h.thread hk rfl rfl (Nat.le_refl _)
  | returns hstop =>
    refine ⟨h.given, h.once, h.claims, h.few, fun _ _ => h.cleared ?_ ?_⟩
    all_goals exact fun heq => nomatch hstop.symm.trans heq

theorem reach_sound (h : Reach State.step ok Begins s) : Sound s :=
  h.invariant (fun _ => begins_sound) fun _ _ _ hs _ hstep => hs.step (taken_of_step hstep)

/-! ### Each once -/

theorem Call.work_of_handed {call : Call} {work : Nat} (h : call.handed = some work) : call.work = work := by
  unfold Call.handed at h
  split at h <;> cases h <;> rfl

theorem handed_sublist (calls : List Call) : (calls.filterMap Call.handed).Sublist (calls.map Call.work) := by
  induction calls with
  | nil => exact .slnil
  | cons call calls ih =>
    cases h : call.handed with
    | none =>
      rw [List.filterMap_cons_none h]
      exact ih.cons _
    | some work =>
      rw [List.filterMap_cons_some h, List.map_cons, Call.work_of_handed h]
      exact ih.cons_cons work

theorem Sound.nodup (h : Sound s) : (s.calls.map Call.work).Nodup := h.given.nodup_iff.2 List.nodup_range

/-- A work is begun once. -/
theorem Sound.begun_nodup (h : Sound s) : s.begun.Nodup :=
  (List.nodup_append.1 (h.once.nodup_iff.1 (h.nodup.sublist (handed_sublist _)))).2.1

theorem step_begins {k work : Nat} {t : Thread} {rest : List Thread} (hk : pick s.threads k = some (t, rest))
    (hwork : t.pending = some work) :
    s.step (.begins k) = some { s with threads := { t with phase := .running work } :: rest, begun := s.begun ++ [work] } := by
  simp only [State.step, hk]
  exact Option.bind_eq_some_iff.2 ⟨_, rfl, Option.bind_eq_some_iff.2 ⟨work, hwork, rfl⟩⟩

/-- A run's answer is whether its work is begun, or is with a thread that may begin it. -/
theorem Sound.answered (h : Sound s) {work : Nat} {runs : Bool} (hcall : Call.answered work runs ∈ s.calls) :
    runs = true ↔ work ∈ s.begun ∨ ∃ k s', s.step (.begins k) = some s' ∧ s'.begun = s.begun ++ [work] := by
  have hmem : runs = true ↔ work ∈ s.calls.filterMap Call.handed := by
    constructor
    · rintro rfl
      exact List.mem_filterMap.2 ⟨_, hcall, rfl⟩
    · intro hhanded
      obtain ⟨call, hin, hof⟩ := List.mem_filterMap.1 hhanded
      have heq := List.inj_on_of_nodup_map h.nodup hin hcall (Call.work_of_handed hof)
      subst heq
      cases runs with
      | true => rfl
      | false => cases hof
  rw [hmem, h.once.mem_iff, List.mem_append, or_comm]
  refine or_congr_right ⟨fun hpending => ?_, ?_⟩
  · obtain ⟨t, ht, hwork⟩ := List.mem_filterMap.1 hpending
    obtain ⟨k, rest, hk⟩ := exists_pick_of_mem ht
    exact ⟨k, _, step_begins hk hwork, rfl⟩
  · rintro ⟨k, s', hstep, hbegun⟩
    cases taken_of_step hstep with
    | begins _ work' t rest hk hwork =>
      obtain rfl := List.singleton_inj.1 (List.append_cancel_left hbegun)
      exact List.mem_filterMap.2 ⟨t, mem_of_pick hk, hwork⟩

/-! ### Once it stopped -/

/-- No run that found it not stopped has its work still to hand over, and no work handed over is still to begin. -/
def Quiet (s : State) : Prop := (∀ call ∈ s.calls, call.toHand = false) ∧ ∀ t ∈ s.threads, t.pending = none

instance (s : State) : Decidable (Quiet s) := inferInstanceAs (Decidable (_ ∧ _))

/-- Where a stop comes back, it is quiet. -/
def Ok (s : State) (a : Action) : Prop := a = .returns → Quiet s

instance (s : State) (a : Action) : Decidable (Ok s a) := inferInstanceAs (Decidable (_ → _))

/-- A thread waits for work, or for that of the run that took it. -/
def State.Waited (s : State) : Prop := ∃ t ∈ s.threads, t.phase = .idle ∨ ∃ work, t.phase = .claimed work

theorem Sound.not_waited (h : Sound s) (hn : s.stop ≠ .not) (hs : s.stop ≠ .stored) (hq : Quiet s) : ¬ s.Waited := by
  rintro ⟨t, ht, hidle | ⟨work, hclaimed⟩⟩
  · obtain ⟨k, rest, hk⟩ := exists_pick_of_mem ht
    have htotal := total_of_pick Thread.idle hk
    rw [h.cleared hn hs, Thread.idle_of_phase hidle] at htotal
    simp only [Thread.idle, if_true] at htotal
    omega
  · have hmem : work ∈ s.threads.filterMap Thread.claimedBy :=
      List.mem_filterMap.2 ⟨t, ht, Thread.claimedBy_of_phase hclaimed⟩
    obtain ⟨call, hcall, hclaims⟩ := List.mem_filterMap.1 (h.claims.mem_iff.2 hmem)
    have hnone := hq.1 call hcall
    unfold Call.claims at hclaims
    split at hclaims <;> cases hclaims
    cases hnone

theorem Quiet.call (h : Quiet s) {i : Nat} {call call' : Call} {calls : List Call} (hcall : pick s.calls i = some (call, calls))
    (hhand : call'.toHand = false) : Quiet { s with calls := call' :: calls } :=
  ⟨List.forall_mem_cons.2 ⟨hhand, fun c hc => h.1 c (mem_of_mem_pick hcall hc)⟩, h.2⟩

theorem Quiet.thread (h : Quiet s) {k : Nat} {t t' : Thread} {rest : List Thread} (hk : pick s.threads k = some (t, rest))
    (hpending : t'.pending = none) : Quiet { s with threads := t' :: rest } :=
  ⟨h.1, List.forall_mem_cons.2 ⟨hpending, fun u hu => h.2 u (mem_of_mem_pick hk hu)⟩⟩

/-- Quiet once a stop came back, it stays so, and nothing begins. -/
theorem Quiet.step (h : Quiet s) (hs : s.stop = .returned) (ht : Taken s a s') :
    Quiet s' ∧ s'.stop = .returned ∧ s'.begun = s.begun := by
  have hstop : ∀ {stop : Stop} {P : Prop}, s.stop = stop → stop ≠ .returned → P :=
    fun heq hne => absurd (heq.symm.trans hs) hne
  have hhand : ∀ {i : Nat} {call : Call} {calls : List Call} {P : Prop}, pick s.calls i = some (call, calls) →
      call.toHand = true → P := fun hcall hto => absurd (h.1 _ (mem_of_pick hcall)) (by rw [hto]; decide)
  cases ht with
  | calls => exact ⟨⟨List.forall_mem_cons.2 ⟨rfl, h.1⟩, h.2⟩, hs, rfl⟩
  | refused i work calls hcall => exact ⟨h.call hcall rfl, hs, rfl⟩
  | checks i work calls hcall hnot => exact hstop hnot (by decide)
  | nobody i k work calls hcall => exact hhand hcall rfl
  | pops i k work calls t rest hcall => exact hhand hcall rfl
  | back i k work calls hcall => exact hhand hcall rfl
  | sends i k work calls t rest hcall => exact hhand hcall rfl
  | spawns i work calls hcall => exact hhand hcall rfl
  | unstarted i work calls hcall => exact hhand hcall rfl
  | pushes i k work calls t rest hcall hk =>
    have hcalled : Quiet { s with calls := .answered work true :: calls } := h.call hcall rfl
    refine ⟨⟨hcalled.1, List.forall_mem_cons.2 ⟨h.2 t (mem_of_pick hk), ?_⟩⟩, hs, rfl⟩
    rintro _ hmem
    obtain ⟨u, hu, rfl⟩ := List.mem_map.1 hmem
    rw [retained_pending]
    exact h.2 u (mem_of_mem_pick hk hu)
  | begins k work t rest hk hwork =>
    have hnone := h.2 t (mem_of_pick hk)
    rw [hwork] at hnone
    cases hnone
  | ends k work panicked t rest hk => exact ⟨h.thread hk (by cases panicked <;> rfl), hs, rfl⟩
  | quits k t rest hk => exact ⟨h.thread hk rfl, hs, rfl⟩
  | waits k t rest hk hphase hnot => exact hstop hnot (by decide)
  | leaves k t rest hk => exact ⟨h.thread hk rfl, hs, rfl⟩
  | stores hnot => exact hstop hnot (by decide)
  | clears hstored => exact hstop hstored (by decide)
  | takes hcleared => exact hstop hcleared (by decide)
  | looks k over_ t rest hk => exact ⟨h.thread hk (h.2 t (mem_of_pick hk)), hs, rfl⟩
  | returns hjoining => exact hstop hjoining (by decide)

/-- Every run from there: none waits and nothing begins. -/
theorem Quiet.run (h : Quiet s) (hsound : Sound s) (hs : s.stop = .returned) (ht : Reach State.step Always (· = s) s') :
    ¬ s'.Waited ∧ s'.begun = s.begun := by
  let inv (t : State) : Prop := Sound t ∧ Quiet t ∧ t.stop = .returned ∧ t.begun = s.begun
  have hrun : inv s' := ht.invariant ?_ ?_
  · obtain ⟨hsound', hquiet, hstop, hbegun⟩ := hrun
    exact ⟨hsound'.not_waited (by rw [hstop]; decide) (by rw [hstop]; decide) hquiet, hbegun⟩
  · rintro _ rfl
    exact ⟨hsound, h, hs, rfl⟩
  · rintro t a t' ⟨hsound', hquiet, hstop, hbegun⟩ - hstep
    have htaken := taken_of_step hstep
    obtain ⟨hquiet', hstop', hbegun'⟩ := hquiet.step hstop htaken
    exact ⟨hsound'.step htaken, hquiet', hstop', hbegun'.trans hbegun⟩

/-- A run that is to start a thread may, and the thread begins its work. -/
theorem starts_begins {init : State → Prop} (hs : Reach State.step Always init s) {i work : Nat} {calls : List Call}
    (hcall : pick s.calls i = some (.starts work, calls)) :
    ∃ t, Reach State.step Always init t ∧ t.begun = s.begun ++ [work] := by
  have hspawns : s.step (.spawns i true) =
      some { s with calls := .pushes work :: calls, threads := ⟨.spawned work, .unlisted work⟩ :: s.threads } := by
    simp only [State.step, hcall]
    rfl
  exact ⟨_, .next (.next hs trivial hspawns) trivial (step_begins (k := 0) rfl rfl), rfl⟩

/-- Not quiet, some thread waits or some run begins work. -/
theorem loud_run (h : Sound s) (hn : s.stop ≠ .not) (hs : s.stop ≠ .stored) (hq : ¬ Quiet s) :
    ∃ t, Reach State.step Always (· = s) t ∧ (t.Waited ∨ t.begun ≠ s.begun) := by
  have hlater : ∀ work : Nat, s.begun ++ [work] ≠ s.begun := fun work heq => by simp at heq
  rw [Quiet, not_and_or, not_forall, not_forall] at hq
  obtain ⟨call, hq⟩ | ⟨t, hq⟩ := hq
  · obtain ⟨hcall, hto⟩ := Classical.not_imp.1 hq
    obtain ⟨i, calls, hi⟩ := exists_pick_of_mem hcall
    cases call with
    | checked work =>
      have hpops : s.step (.pops i 0) = some { s with calls := .starts work :: calls } := by
        simp only [State.step, hi, h.cleared hn hs]
        rfl
      have hs : Reach State.step Always (· = s) { s with calls := .starts work :: calls } :=
        .next (.start rfl) trivial hpops
      obtain ⟨t, ht, hbegun⟩ := starts_begins hs (i := 0) rfl
      exact ⟨t, ht, .inr (hbegun ▸ hlater work)⟩
    | claimed work =>
      have hmem : work ∈ s.calls.filterMap Call.claims := List.mem_filterMap.2 ⟨_, hcall, rfl⟩
      obtain ⟨t, ht, hclaimed⟩ := List.mem_filterMap.1 (h.claims.mem_iff.1 hmem)
      refine ⟨s, .start rfl, .inl ⟨t, ht, .inr ⟨work, ?_⟩⟩⟩
      unfold Thread.claimedBy at hclaimed
      split at hclaimed <;> cases hclaimed
      assumption
    | starts work =>
      have hs : Reach State.step Always (· = s) s := .start rfl
      obtain ⟨t, ht, hbegun⟩ := starts_begins hs hi
      exact ⟨t, ht, .inr (hbegun ▸ hlater work)⟩
    | _ => exact absurd rfl hto
  · obtain ⟨ht, hpending⟩ := Classical.not_imp.1 hq
    obtain ⟨work, hwork⟩ := Option.ne_none_iff_exists'.1 hpending
    obtain ⟨k, rest, hk⟩ := exists_pick_of_mem ht
    exact ⟨_, .next (.start rfl) trivial (step_begins hk hwork), .inr (hlater work)⟩

/-- In every run each work is one run's, begun once where its run answers that it runs and never where it does not, and at
most so many threads wait.  In every run whose stop comes back where it is quiet, no thread waits and nothing begins once
it did; and a stop that comes back has this of every run from there just where it is quiet. -/
theorem stopped_iff :
    ∀ s, Reach State.step Always Begins s →
      ((s.calls.map Call.work).Perm (List.range s.given) ∧
        (∀ work runs, .answered work runs ∈ s.calls →
          (runs = true ↔ work ∈ s.begun ∨ ∃ k s', s.step (.begins k) = some s' ∧ s'.begun = s.begun ++ [work])) ∧
        s.begun.Nodup ∧ total Thread.idle s.threads ≤ idleMost) ∧
      (Reach State.step Ok Begins s → s.stop = .returned → ¬ s.Waited ∧ ∀ k, s.step (.begins k) = none) ∧
      ∀ s', s.step .returns = some s' →
        ((∀ t, Reach State.step Always (· = s') t → ¬ t.Waited ∧ t.begun = s'.begun) ↔ Quiet s) := by
  intro s hs
  refine ⟨?_, fun hs hstop => ?_, fun s' hstep => ?_⟩
  · have h := reach_sound hs
    exact ⟨h.given, fun work runs hcall => h.answered hcall, h.begun_nodup, h.few⟩
  · let inv (s : State) : Prop := Sound s ∧ (s.stop = .returned → Quiet s)
    have hrun : inv s := hs.invariant ?_ ?_
    · obtain ⟨hsound, hquiet⟩ := hrun
      refine ⟨hsound.not_waited (by rw [hstop]; decide) (by rw [hstop]; decide) (hquiet hstop), fun k => ?_⟩
      refine Option.eq_none_iff_forall_ne_some.2 fun s' hstep => ?_
      cases taken_of_step hstep with
      | begins _ work t rest hk hwork =>
        have hnone := (hquiet hstop).2 t (mem_of_pick hk)
        rw [hwork] at hnone
        cases hnone
    · rintro _ rfl
      exact ⟨begins_sound rfl, fun heq => nomatch heq⟩
    · rintro t a t' ⟨hsound, hquiet⟩ hok hstep
      have htaken := taken_of_step hstep
      refine ⟨hsound.step htaken, fun hstop' => ?_⟩
      by_cases hstopped : t.stop = .returned
      · exact ((hquiet hstopped).step hstopped htaken).1
      · cases htaken with
        | returns => exact hok rfl
        | stores => cases hstop'
        | clears => cases hstop'
        | takes => cases hstop'
        | _ => exact absurd hstop' hstopped
  · have hsound := reach_sound hs
    cases taken_of_step hstep with
    | returns hjoining =>
      have hsound' := hsound.step (.returns hjoining)
      constructor
      · intro hall
        by_contra hq
        obtain ⟨t, ht, hloud⟩ := loud_run hsound' (fun heq => nomatch heq) (fun heq => nomatch heq) hq
        obtain ⟨hwaited, hbegun⟩ := hall t ht
        exact hloud.elim hwaited fun hne => hne hbegun
      · exact fun hq t ht => Quiet.run (s := { s with stop := .returned }) hq hsound' rfl ht

/-- A run found it not stopped; it is stopped, the stop comes back, and the run starts a thread for its work. -/
private def checkedBeforeStop : List Action := [.calls, .checks 0, .stores, .clears, .takes, .returns, .pops 0 0, .spawns 0 true]

theorem begins_stopped :
    ∃ s, Reach State.step Always Begins s ∧ (s.stop == .returned && (s.step (.begins 0)).isSome) = true :=
  Reach.exists_of_runWhere State.step Always (show Begins ⟨.not, [], [], 0, []⟩ from rfl) checkedBeforeStop
    (fun s => s.stop == .returned && (s.step (.begins 0)).isSome) (by decide)

/-- A work given, run and waited after, and then a stop. -/
private def ranThenStopped : List Action :=
  [.calls, .checks 0, .pops 0 0, .spawns 0 true, .pushes 0 0, .begins 0, .ends 0 false, .settles 0, .stores, .clears, .leaves 0,
    .takes, .looks 0 false, .returns]

private def made : State := ⟨.not, [], [], 0, []⟩

private def stopped : State := ⟨.returned, [⟨.ended, .left⟩], [.answered 0 true], 1, [0]⟩

theorem stopped_waits_none : ∃ s, Reach State.step Ok Begins s ∧ s.stop = .returned ∧ s.begun = [0] ∧ ¬ s.Waited ∧
    ∀ k, s.step (.begins k) = none := by
  have hok : Reach State.step Ok Begins stopped :=
    .of_runWhere (.start rfl) (show runWhere State.step Ok made ranThenStopped = some stopped by decide)
  exact ⟨stopped, hok, rfl, rfl, (stopped_iff stopped (hok.mono fun _ _ _ => trivial)).2.1 hok rfl⟩

end Workers
