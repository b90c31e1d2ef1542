import XmipRuntime.Library.Pick
import XmipRuntime.Library.Run

/-!
# The threads of a pool

A pool (`src/pool.rs`) runs pieces of work on threads it starts as work waits, up to its most, and that end once they have
waited their idle time while another is left.  What it counts is under one lock; a piece given is notified of after the lock
is let go, and a thread started for it after that.

The machine is a pool, whoever gives it work, and its threads.  A step is one hold of the lock, a notification, a thread
started, or what a thread does outside the lock: a piece run, which returns or panics; or waking, its time over or for
nothing.  A notification wakes one that sleeps, where one does.
-/

namespace Pool

open Library

/-! ### The machine -/

/-- Where a thread is: about to take the lock and look for work; running a piece; waiting; or woken, its time over or not,
to take the lock again. -/
inductive Thread where
  | looking
  | running (piece : Nat)
  | asleep
  | woken (timedOut : Bool)
  deriving DecidableEq

/-- What is left to do of a `run`: to notify, and then to start a thread where it is to; or to start it. -/
inductive Call where
  | notifies (start : Bool)
  | starts
  deriving DecidableEq

structure State where
  queued : List Nat
  /-- The threads and the threads waiting, as the pool counts them. -/
  count : Nat
  waiting : Nat
  closed : Bool
  threads : List Thread
  calls : List Call
  /-- Closed, and its threads not yet notified of it. -/
  closing : Bool
  /-- The pieces given so far; and those run, each with whether it panicked. -/
  given : Nat
  ran : List (Nat × Bool)
  deriving DecidableEq

/-- A pool made, its first thread started. -/
def Begins (s : State) : Prop := s = ⟨[], 1, 0, false, [.looking], [], false, 0, []⟩

inductive Action where
  /-- A piece given. -/
  | run
  /-- The call `i` notifies, and wakes the thread `k`, where one is asleep. -/
  | notifies (i k : Nat)
  | starts (i : Nat)
  /-- The thread `k` takes the lock. -/
  | locks (k : Nat)
  | ends (k : Nat) (panicked : Bool)
  | wakes (k : Nat) (timedOut : Bool)
  | closes
  | notifiesAll
  deriving DecidableEq

def Thread.sleeping : Thread → Nat
  | .asleep => 1
  | _ => 0

def Thread.awoken : Thread → Nat
  | .woken _ => 1
  | _ => 0

/-- To look for work. -/
def Thread.due : Thread → Nat
  | .looking | .woken _ => 1
  | _ => 0

/-- Not asleep. -/
def Thread.up : Thread → Nat
  | .asleep => 0
  | _ => 1

def Thread.notified : Thread → Thread
  | .asleep => .woken false
  | t => t

def Thread.piece : Thread → Option Nat
  | .running piece => some piece
  | _ => none

def Call.toNotify : Call → Nat
  | .notifies _ => 1
  | .starts => 0

def Call.toStart : Call → Nat
  | .notifies true | .starts => 1
  | .notifies false => 0

namespace State

/-- A thread that has the lock, besides `rest`: it takes the next piece; ends, the pool closed; or waits. -/
def looks (s : State) (rest : List Thread) : State :=
  match s.queued with
  | piece :: queued => { s with queued, threads := .running piece :: rest }
  | [] =>
    if s.closed then { s with count := s.count - 1, threads := rest }
    else { s with waiting := s.waiting + 1, threads := .asleep :: rest }

def step (most : Nat) (s : State) : Action → Option State
  | .run =>
    if s.closed then none
    else
      let start := decide (s.waiting < s.queued.length + 1 ∧ s.count < most)
      some { s with
        queued := s.queued ++ [s.given]
        given := s.given + 1
        count := if start then s.count + 1 else s.count
        calls := .notifies start :: s.calls }
  | .notifies i k => do
    let (call, calls) ← pick s.calls i
    match call with
    | .notifies start =>
      let calls := if start then .starts :: calls else calls
      if total Thread.sleeping s.threads = 0 then some { s with calls }
      else
        let (t, rest) ← pick s.threads k
        match t with
        | .asleep => some { s with calls, threads := .woken false :: rest }
        | _ => none
    | .starts => none
  | .starts i => do
    let (call, calls) ← pick s.calls i
    match call with
    | .starts => some { s with calls, threads := .looking :: s.threads }
    | .notifies _ => none
  | .locks k => do
    let (t, rest) ← pick s.threads k
    match t with
    | .looking => some (s.looks rest)
    | .woken timedOut =>
      let s := { s with waiting := s.waiting - 1 }
      if timedOut ∧ s.queued = [] ∧ 1 < s.count then some { s with count := s.count - 1, threads := rest }
      else some (s.looks rest)
    | _ => none
  | .ends k panicked => do
    let (t, rest) ← pick s.threads k
    match t with
    | .running piece => some { s with threads := .looking :: rest, ran := s.ran ++ [(piece, panicked)] }
    | _ => none
  | .wakes k timedOut => do
    let (t, rest) ← pick s.threads k
    match t with
    | .asleep => some { s with threads := .woken timedOut :: rest }
    | _ => none
  | .closes => if s.closed ∨ s.calls ≠ [] then none else some { s with closed := true, closing := true }
  | .notifiesAll =>
    if s.closing then some { s with closing := false, threads := s.threads.map Thread.notified } else none

end State

/-- What a thread that has the lock does. -/
inductive Looks (s : State) (rest : List Thread) : State → Prop where
  | takes (piece : Nat) (queued : List Nat) : s.queued = piece :: queued →
      Looks s rest { s with queued, threads := .running piece :: rest }
  | ends : s.queued = [] → s.closed = true → Looks s rest { s with count := s.count - 1, threads := rest }
  | waits : s.queued = [] → s.closed = false →
      Looks s rest { s with waiting := s.waiting + 1, threads := .asleep :: rest }

theorem looks_looks (s : State) (rest : List Thread) : Looks s rest (s.looks rest) := by
  unfold State.looks
  split
  · rename_i piece queued hq
    exact .takes piece queued hq
  · rename_i hq
    split
    · rename_i hc
      exact .ends hq hc
    · rename_i hc
      exact .waits hq (Bool.eq_false_iff.2 hc)

/-- What a step does. -/
inductive Taken (most : Nat) (s : State) : Action → State → Prop where
  | run (start : Bool) : s.closed = false → (start = true ↔ s.waiting < s.queued.length + 1 ∧ s.count < most) →
      Taken most s .run { s with
        queued := s.queued ++ [s.given]
        given := s.given + 1
        count := if start then s.count + 1 else s.count
        calls := .notifies start :: s.calls }
  | nobody (i k : Nat) (start : Bool) (calls : List Call) : pick s.calls i = some (.notifies start, calls) →
      total Thread.sleeping s.threads = 0 →
      Taken most s (.notifies i k) { s with calls := if start then .starts :: calls else calls }
  | notifies (i k : Nat) (start : Bool) (calls : List Call) (rest : List Thread) :
      pick s.calls i = some (.notifies start, calls) → pick s.threads k = some (.asleep, rest) →
      Taken most s (.notifies i k) { s with
        calls := if start then .starts :: calls else calls
        threads := .woken false :: rest }
  | starts (i : Nat) (calls : List Call) : pick s.calls i = some (.starts, calls) →
      Taken most s (.starts i) { s with calls, threads := .looking :: s.threads }
  | looks (k : Nat) (rest : List Thread) (s' : State) : pick s.threads k = some (.looking, rest) → Looks s rest s' →
      Taken most s (.locks k) s'
  | expires (k : Nat) (rest : List Thread) : pick s.threads k = some (.woken true, rest) → s.queued = [] → 1 < s.count →
      Taken most s (.locks k) { s with waiting := s.waiting - 1, count := s.count - 1, threads := rest }
  | relocks (k : Nat) (timedOut : Bool) (rest : List Thread) (s' : State) :
      pick s.threads k = some (.woken timedOut, rest) → Looks { s with waiting := s.waiting - 1 } rest s' →
      Taken most s (.locks k) s'
  | ends (k : Nat) (panicked : Bool) (piece : Nat) (rest : List Thread) : pick s.threads k = some (.running piece, rest) →
      Taken most s (.ends k panicked) { s with threads := .looking :: rest, ran := s.ran ++ [(piece, panicked)] }
  | wakes (k : Nat) (timedOut : Bool) (rest : List Thread) : pick s.threads k = some (.asleep, rest) →
      Taken most s (.wakes k timedOut) { s with threads := .woken timedOut :: rest }
  | closes : s.closed = false → s.calls = [] → Taken most s .closes { s with closed := true, closing := true }
  | notifiesAll : s.closing = true →
      Taken most s .notifiesAll { s with closing := false, threads := s.threads.map Thread.notified }

variable {most : Nat} {s s' : State} {a : Action}

theorem taken_of_step (h : s.step most a = some s') : Taken most s a s' := by
  cases a with
  | run =>
    simp only [State.step] at h
    split at h
    · cases h
    · rename_i hc
      cases h
      exact .run _ (Bool.eq_false_iff.2 hc) decide_eq_true_iff
  | notifies i k =>
    obtain ⟨⟨call, calls⟩, hcall, h⟩ := Option.bind_eq_some_iff.1 h
    cases call with
    | starts => cases h
    | notifies start =>
      dsimp only at h
      split at h
      · rename_i hnone
        cases h
        exact .nobody i k start calls hcall hnone
      · obtain ⟨⟨t, rest⟩, ht, h⟩ := Option.bind_eq_some_iff.1 h
        cases t with
        | asleep =>
          cases h
          exact .notifies i k start calls rest hcall ht
        | _ => cases h
  | starts i =>
    obtain ⟨⟨call, calls⟩, hcall, h⟩ := Option.bind_eq_some_iff.1 h
    cases call with
    | notifies => cases h
    | starts =>
      cases h
      exact .starts i calls hcall
  | locks k =>
    obtain ⟨⟨t, rest⟩, ht, h⟩ := Option.bind_eq_some_iff.1 h
    cases t with
    | looking =>
      cases h
      exact .looks k rest _ ht (looks_looks s rest)
    | woken timedOut =>
      dsimp only at h
      split at h
      · rename_i hends
        obtain ⟨rfl, hq, hcount⟩ := hends
        cases h
        exact .expires k rest ht hq hcount
      · cases h
        exact .relocks k timedOut rest _ ht (looks_looks _ rest)
    | _ => cases h
  | ends k panicked =>
    obtain ⟨⟨t, rest⟩, ht, h⟩ := Option.bind_eq_some_iff.1 h
    cases t with
    | running piece =>
      cases h
      exact .ends k panicked piece rest ht
    | _ => cases h
  | wakes k timedOut =>
    obtain ⟨⟨t, rest⟩, ht, h⟩ := Option.bind_eq_some_iff.1 h
    cases t with
    | asleep =>
      cases h
      exact .wakes k timedOut rest ht
    | _ => cases h
  | closes =>
    simp only [State.step] at h
    split at h
    · cases h
    · rename_i hno
      rw [not_or, not_not] at hno
      cases h
      exact .closes (Bool.eq_false_iff.2 hno.1) hno.2
  | notifiesAll =>
    simp only [State.step] at h
    split at h
    · rename_i hc
      cases h
      exact .notifiesAll hc
    · cases h

/-! ### What is kept -/

/-- What every step keeps, of the pool's counts.  A thread is counted from when it is to be started, and within the most;
who waits, woken or not, is counted; for each piece queued a thread is due, or there are as many as there may be; and while
a piece is queued not all sleep with nothing to wake one. -/
structure Sound (most : Nat) (s : State) : Prop where
  count : s.count = s.threads.length + total Call.toStart s.calls
  waiting : s.waiting = total Thread.sleeping s.threads + total Thread.awoken s.threads
  atMost : s.count ≤ most
  atLeast : s.closed = false → 1 ≤ s.count
  due : s.count = most ∨ s.queued.length ≤ total Call.toStart s.calls + total Thread.due s.threads +
    min (total Thread.sleeping s.threads) (total Call.toNotify s.calls)
  awake : s.queued ≠ [] → 0 < total Thread.up s.threads + total Call.toStart s.calls + total Call.toNotify s.calls
  calls : s.closed = true → s.calls = []
  closing : s.closed = true → s.closing = true ∨ total Thread.sleeping s.threads = 0

theorem begins_sound (hm : 1 ≤ most) (h : Begins s) : Sound most s := by
  subst h
  refine ⟨rfl, rfl, hm, fun _ => Nat.le_refl _, .inr (Nat.zero_le _), nofun, nofun, nofun⟩

theorem length_threads (l : List Thread) : l.length = total Thread.up l + total Thread.sleeping l := by
  rw [← total_add]
  induction l with
  | nil => rfl
  | cons t l ih =>
    rw [List.length_cons, ih, total_cons]
    cases t <;> simp [Thread.up, Thread.sleeping] <;> omega

theorem Sound.perm (h : Sound most s) {threads : List Thread} (hp : threads.Perm s.threads) :
    Sound most { s with threads } := by
  obtain ⟨count, waiting, atMost, atLeast, due, awake, calls, closing⟩ := h
  constructor <;> simpa only [total_perm hp, hp.length_eq]

/-- A thread that is to look for work looks. -/
theorem Sound.looks {rest : List Thread} (h : Sound most { s with threads := .looking :: rest }) (hl : Looks s rest s') :
    Sound most s' := by
  obtain ⟨count, waiting, atMost, atLeast, due, awake, calls, closing⟩ := h
  simp only [total_cons, Thread.sleeping, Thread.awoken, Thread.due, Thread.up, List.length_cons] at *
  cases hl with
  | takes piece queued hq =>
    rw [hq, List.length_cons] at due
    refine ⟨by simpa using count, by simpa [Thread.sleeping, Thread.awoken] using waiting, atMost, atLeast, ?_, ?_, calls, ?_⟩
    · simp only [total_cons, Thread.due, Thread.sleeping]
      omega
    · simp only [total_cons, Thread.up]
      omega
    · simpa [Thread.sleeping] using closing
  | ends hq hc =>
    refine ⟨by simp only; omega, by simpa using waiting, by simp only; omega, fun hopen => ?_, .inr (by simp [hq]),
      fun hne => absurd hq hne, calls, by simpa using closing⟩
    cases hc.symm.trans hopen
  | waits hq hopen =>
    refine ⟨by simpa using count, ?_, atMost, atLeast, .inr (by simp [hq]), fun hne => absurd hq hne, calls, fun hc => ?_⟩
    · simp only [total_cons, Thread.sleeping, Thread.awoken]
      omega
    · cases hopen.symm.trans hc

/-- One woken that has the lock is as one that has yet to look, and waits no more. -/
theorem Sound.relocks {timedOut : Bool} {rest : List Thread} (h : Sound most { s with threads := .woken timedOut :: rest }) :
    Sound most { s with waiting := s.waiting - 1, threads := .looking :: rest } := by
  obtain ⟨count, waiting, atMost, atLeast, due, awake, calls, closing⟩ := h
  simp only [total_cons, Thread.sleeping, Thread.awoken, Thread.due, Thread.up, List.length_cons] at *
  refine ⟨count, ?_, atMost, atLeast, due, awake, calls, closing⟩
  simp only [total_cons, Thread.sleeping, Thread.awoken]
  omega

theorem awoken_le_due (l : List Thread) : total Thread.awoken l ≤ total Thread.due l := by
  induction l with
  | nil => exact Nat.le_refl _
  | cons t l ih =>
    rw [total_cons, total_cons]
    refine Nat.add_le_add ?_ ih
    cases t <;> simp [Thread.awoken, Thread.due]

theorem total_pick_notifies {i : Nat} {start : Bool} {calls : List Call}
    (h : pick s.calls i = some (.notifies start, calls)) :
    total Call.toNotify s.calls = 1 + total Call.toNotify (if start then .starts :: calls else calls) ∧
      total Call.toStart s.calls = total Call.toStart (if start then .starts :: calls else calls) := by
  rw [total_of_pick Call.toNotify h, total_of_pick Call.toStart h]
  cases start <;> simp [Call.toNotify, Call.toStart]

theorem Sound.open_of_call (h : Sound most s) {i : Nat} {call : Call} {calls : List Call}
    (hcall : pick s.calls i = some (call, calls)) : s.closed = false := by
  cases hc : s.closed with
  | false => rfl
  | true =>
    rw [h.calls hc] at hcall
    cases hcall

/-- A piece given: a thread is started for it, or there are as many as there may be, or one that waits is notified. -/
theorem Sound.run (h : Sound most s) {start : Bool} (hopen : s.closed = false)
    (hstart : start = true ↔ s.waiting < s.queued.length + 1 ∧ s.count < most) :
    Sound most { s with
      queued := s.queued ++ [s.given]
      given := s.given + 1
      count := if start then s.count + 1 else s.count
      calls := .notifies start :: s.calls } := by
  obtain ⟨count, waiting, atMost, atLeast, due, awake, calls, closing⟩ := h
  have hone := atLeast hopen
  have hwoken := awoken_le_due s.threads
  have hclosed : s.closed ≠ true := by simp [hopen]
  cases start with
  | true =>
    have hroom := hstart.1 rfl
    refine ⟨?_, waiting, ?_, fun _ => ?_, ?_, fun _ => ?_, fun hc => absurd hc hclosed, fun hc => absurd hc hclosed⟩
    all_goals simp only [total_cons, List.length_append, List.length_singleton, Call.toNotify, Call.toStart, if_true]
    all_goals omega
  | false =>
    have hfull := hstart.not.1 (by simp)
    refine ⟨?_, waiting, ?_, fun _ => ?_, ?_, fun _ => ?_, fun hc => absurd hc hclosed, fun hc => absurd hc hclosed⟩
    all_goals simp only [total_cons, List.length_append, List.length_singleton, Call.toNotify, Call.toStart,
      Bool.false_eq_true, if_false]
    all_goals omega

/-- One notified, where any sleeps. -/
theorem Sound.notifies (h : Sound most s) {i : Nat} {start : Bool} {calls : List Call}
    (hcall : pick s.calls i = some (.notifies start, calls)) {threads : List Thread}
    (hthreads : total Thread.sleeping s.threads = 0 ∧ threads = s.threads ∨
      ∃ k rest, pick s.threads k = some (.asleep, rest) ∧ threads = .woken false :: rest) :
    Sound most { s with calls := if start then .starts :: calls else calls, threads } := by
  have hopen := h.open_of_call hcall
  have hclosed : s.closed ≠ true := by simp [hopen]
  obtain ⟨hnotify, hstarts⟩ := total_pick_notifies hcall
  obtain ⟨count, waiting, atMost, atLeast, due, awake, -, -⟩ := h
  have hone := atLeast hopen
  have hlength := length_threads s.threads
  rcases hthreads with ⟨hnone, rfl⟩ | ⟨k, rest, hk, rfl⟩
  · refine ⟨?_, waiting, atMost, atLeast, ?_, fun _ => ?_, fun hc => absurd hc hclosed, fun hc => absurd hc hclosed⟩
    all_goals simp only
    all_goals omega
  · simp only [total_of_pick _ hk, length_of_pick hk, Thread.sleeping, Thread.awoken, Thread.due, Thread.up] at *
    refine ⟨?_, ?_, atMost, atLeast, ?_, fun _ => ?_, fun hc => absurd hc hclosed, fun hc => absurd hc hclosed⟩
    all_goals simp only [total_cons, List.length_cons, Thread.sleeping, Thread.awoken, Thread.due, Thread.up]
    all_goals omega

/-- A thread goes on as another that is no more asleep, no more due and no less awake. -/
theorem Sound.becomes (h : Sound most s) {k : Nat} {t t' : Thread} {rest : List Thread}
    (hk : pick s.threads k = some (t, rest)) (hcounted : t'.sleeping + t'.awoken = t.sleeping + t.awoken)
    (hsleeps : t'.sleeping ≤ t.sleeping) (hdue : t.due + t.sleeping ≤ t'.due + t'.sleeping) (hmore : t.due ≤ t'.due)
    (hup : t.up ≤ t'.up) : Sound most { s with threads := t' :: rest } := by
  obtain ⟨count, waiting, atMost, atLeast, due, awake, calls, closing⟩ := h
  simp only [total_of_pick _ hk, length_of_pick hk] at *
  refine ⟨?_, ?_, atMost, atLeast, ?_, fun hq => ?_, calls, fun hc => ?_⟩
  all_goals simp only [total_cons, List.length_cons]
  · exact count
  · omega
  · omega
  · have hpos := awake hq
    omega
  · rcases closing hc with hcl | hcl
    · exact .inl hcl
    · exact .inr (by omega)

theorem Sound.step (h : Sound most s) (ht : Taken most s a s') : Sound most s' := by
  cases ht with
  | run start hopen hstart => exact h.run hopen hstart
  | nobody i k start calls hcall hnone => exact h.notifies hcall (.inl ⟨hnone, rfl⟩)
  | notifies i k start calls rest hcall hk => exact h.notifies hcall (.inr ⟨k, rest, hk, rfl⟩)
  | starts i calls hcall =>
    have hclosed : s.closed ≠ true := by simp [h.open_of_call hcall]
    obtain ⟨count, waiting, atMost, atLeast, due, awake, -, -⟩ := h
    simp only [total_of_pick _ hcall, Call.toStart, Call.toNotify] at count due awake
    refine ⟨?_, ?_, atMost, atLeast, ?_, fun _ => ?_, fun hc => absurd hc hclosed, fun hc => absurd hc hclosed⟩
    all_goals simp only [total_cons, List.length_cons, Thread.sleeping, Thread.awoken, Thread.due, Thread.up]
    all_goals omega
  | looks k rest _ hk hl =>
    refine (h.perm (pick_perm hk)).looks (s := { s with threads := .looking :: rest }) ?_
    cases hl with
    | takes piece queued hq => exact .takes piece queued hq
    | ends hq hc => exact .ends hq hc
    | waits hq hc => exact .waits hq hc
  | expires k rest hk hq hcount =>
    obtain ⟨count, waiting, atMost, atLeast, due, awake, calls, closing⟩ := h
    simp only [total_of_pick _ hk, length_of_pick hk, Thread.sleeping, Thread.awoken] at count waiting closing
    refine ⟨?_, ?_, ?_, fun _ => ?_, .inr ?_, fun hne => absurd hq hne, calls, fun hc => (closing hc).imp_right ?_⟩
    all_goals simp only [hq, List.length_nil]
    all_goals omega
  | relocks k timedOut rest _ hk hl => exact (h.perm (pick_perm hk)).relocks.looks hl
  | ends k panicked piece rest hk =>
    have hbecomes : Sound most { s with threads := .looking :: rest } :=
      h.becomes hk rfl (Nat.le_refl _) (Nat.zero_le _) (Nat.zero_le _) (Nat.le_refl _)
    obtain ⟨count, waiting, atMost, atLeast, due, awake, calls, closing⟩ := hbecomes
    exact ⟨count, waiting, atMost, atLeast, due, awake, calls, closing⟩
  | wakes k timedOut rest hk =>
    exact h.becomes hk rfl (Nat.zero_le _) (Nat.le_refl _) (Nat.zero_le _) (Nat.zero_le _)
  | closes hopen hcalls =>
    obtain ⟨count, waiting, atMost, atLeast, due, awake, -, -⟩ := h
    exact ⟨count, waiting, atMost, nofun, due, awake, fun _ => hcalls, fun _ => .inl rfl⟩
  | notifiesAll hc =>
    obtain ⟨count, waiting, atMost, atLeast, due, awake, calls, -⟩ := h
    have hsleeping : total Thread.sleeping (s.threads.map Thread.notified) = 0 := by
      rw [total_map]
      exact total_eq_zero fun t _ => by cases t <;> rfl
    have hawoken : total Thread.awoken (s.threads.map Thread.notified) =
        total Thread.sleeping s.threads + total Thread.awoken s.threads := by
      rw [total_map, ← total_add]
      exact total_congr fun t _ => by cases t <;> rfl
    have hdue : total Thread.due (s.threads.map Thread.notified) =
        total Thread.sleeping s.threads + total Thread.due s.threads := by
      rw [total_map, ← total_add]
      exact total_congr fun t _ => by cases t <;> rfl
    have hup : total Thread.up (s.threads.map Thread.notified) =
        total Thread.sleeping s.threads + total Thread.up s.threads := by
      rw [total_map, ← total_add]
      exact total_congr fun t _ => by cases t <;> rfl
    refine ⟨?_, ?_, atMost, atLeast, ?_, fun hq => ?_, calls, fun _ => .inr hsleeping⟩
    all_goals dsimp only
    · rw [List.length_map]
      exact count
    · rw [hsleeping, hawoken]
      omega
    · rw [hsleeping, hdue]
      omega
    · rw [hup]
      have hpos := awake hq
      omega

/-- Each piece given is at one place: queued, run by a thread, or run. -/
def Once (s : State) : Prop :=
  (s.queued ++ s.threads.filterMap Thread.piece ++ s.ran.map Prod.fst).Perm (List.range s.given)

theorem Once.perm (h : Once s) {queued : List Nat} {threads : List Thread} {ran : List (Nat × Bool)}
    (hp : (queued ++ threads.filterMap Thread.piece ++ ran.map Prod.fst).Perm
      (s.queued ++ s.threads.filterMap Thread.piece ++ s.ran.map Prod.fst)) {s' : State} (hqueued : s'.queued = queued)
    (hthreads : s'.threads = threads) (hran : s'.ran = ran) (hgiven : s'.given = s.given) : Once s' := by
  unfold Once
  rw [hqueued, hthreads, hran, hgiven]
  exact hp.trans h

theorem Once.looks {k : Nat} {t : Thread} {rest : List Thread} (h : Once s) (hk : pick s.threads k = some (t, rest))
    (ht : t.piece = none) {waiting : Nat} (hl : Looks { s with waiting } rest s') : Once s' := by
  have hrest : (rest.filterMap Thread.piece).Perm (s.threads.filterMap Thread.piece) := by
    rw [← List.filterMap_cons_none ht]
    exact (pick_perm hk).filterMap _
  cases hl with
  | takes piece queued hq =>
    refine h.perm ?_ rfl rfl rfl rfl
    rw [show s.queued = piece :: queued from hq, List.filterMap_cons_some (show (Thread.running piece).piece = some piece from rfl)]
    exact ((List.perm_middle.trans (hrest.append_left queued |>.cons piece))).append_right _
  | ends => exact h.perm ((hrest.append_left _).append_right _) rfl rfl rfl rfl
  | waits =>
    refine h.perm ?_ rfl rfl rfl rfl
    rw [List.filterMap_cons_none (show Thread.asleep.piece = none from rfl)]
    exact (hrest.append_left _).append_right _

theorem Once.step (h : Once s) (ht : Taken most s a s') : Once s' := by
  cases ht with
  | run start =>
    show (s.queued ++ [s.given] ++ _ ++ _).Perm (List.range (s.given + 1))
    rw [List.range_succ, List.append_assoc, List.append_assoc]
    refine (List.Perm.append_left _ List.perm_append_comm).trans ?_
    rw [← List.append_assoc, ← List.append_assoc]
    exact h.append_right _
  | nobody => exact h
  | notifies i k start calls rest hcall hk =>
    exact h.perm (((filterMap_becomes (b := .woken false) hk rfl).append_left _).append_right _) rfl rfl rfl rfl
  | starts => exact h
  | looks k rest _ hk hl => exact h.looks hk rfl hl
  | expires k rest hk =>
    refine h.perm ?_ rfl rfl rfl rfl
    have hrest := (pick_perm hk).filterMap Thread.piece
    rw [List.filterMap_cons_none (show (Thread.woken true).piece = none from rfl)] at hrest
    exact (hrest.append_left _).append_right _
  | relocks k timedOut rest _ hk hl => exact h.looks hk rfl hl
  | ends k panicked piece rest hk =>
    refine h.perm ?_ rfl rfl rfl rfl
    have hrest := (pick_perm hk).filterMap Thread.piece
    rw [List.filterMap_cons_some (show (Thread.running piece).piece = some piece from rfl)] at hrest
    rw [List.filterMap_cons_none (show Thread.looking.piece = none from rfl), List.map_append, ← List.append_assoc]
    refine List.Perm.trans ?_ ((hrest.append_left _).append_right _)
    rw [List.map_singleton]
    refine List.perm_append_comm.trans ?_
    rw [List.singleton_append, ← List.cons_append]
    exact List.perm_middle.symm.append_right _
  | wakes k timedOut rest hk =>
    exact h.perm (((filterMap_becomes (b := .woken timedOut) hk rfl).append_left _).append_right _) rfl rfl rfl rfl
  | closes => exact h
  | notifiesAll =>
    refine h.perm ?_ rfl rfl rfl rfl
    have hsame : (s.threads.map Thread.notified).filterMap Thread.piece = s.threads.filterMap Thread.piece := by
      rw [List.filterMap_map]
      refine List.filterMap_congr fun t _ => ?_
      cases t <;> rfl
    rw [hsame]

/-! ### It comes to every piece -/

/-- The steps the pool takes by itself: all but a piece given, one that sleeps waking with no notification, and closing. -/
def Action.own : Action → Bool
  | .run | .wakes _ _ | .closes => false
  | _ => true

def Thread.toGo : Thread → Nat
  | .running _ => 2
  | .looking | .woken _ => 1
  | .asleep => 0

def Call.toGo : Call → Nat
  | .notifies start => if start then 5 else 2
  | .starts => 3

/-- What each of the pool's own steps makes smaller. -/
def State.toGo (s : State) : Nat :=
  3 * s.queued.length + total Thread.toGo s.threads + total Call.toGo s.calls +
    if s.closing then 1 + s.threads.length else 0

/-- A thread that has the lock, besides `rest`, has less to do after. -/
theorem Looks.toGo_lt {rest : List Thread} (hl : Looks s rest s') :
    s'.toGo < 3 * s.queued.length + (1 + total Thread.toGo rest) + total Call.toGo s.calls +
      if s.closing then 1 + (rest.length + 1) else 0 := by
  unfold State.toGo
  cases hl with
  | takes piece queued hq =>
    rw [hq]
    simp only [total_cons, Thread.toGo, List.length_cons]
    split <;> omega
  | ends => dsimp only; split <;> omega
  | waits =>
    simp only [total_cons, Thread.toGo, List.length_cons]
    split <;> omega

theorem toGo_of_pick {k : Nat} {t : Thread} {rest : List Thread} (hk : pick s.threads k = some (t, rest)) :
    s.toGo = 3 * s.queued.length + (t.toGo + total Thread.toGo rest) + total Call.toGo s.calls +
      if s.closing then 1 + (rest.length + 1) else 0 := by
  unfold State.toGo
  rw [total_of_pick Thread.toGo hk, length_of_pick hk]

theorem toGo_of_notifies {i : Nat} {start : Bool} {calls : List Call} (h : pick s.calls i = some (.notifies start, calls)) :
    total Call.toGo s.calls = 2 + total Call.toGo (if start then .starts :: calls else calls) := by
  rw [total_of_pick Call.toGo h]
  cases start
  · rfl
  · simp only [Call.toGo, if_true, total_cons]
    omega

/-- The pool's own steps make what is to do smaller. -/
theorem toGo_lt (ht : Taken most s a s') (ha : a.own = true) : s'.toGo < s.toGo := by
  cases ht with
  | run => cases ha
  | wakes => cases ha
  | closes => cases ha
  | nobody i k start calls hcall =>
    unfold State.toGo
    rw [toGo_of_notifies hcall]
    dsimp only
    omega
  | notifies i k start calls rest hcall hk =>
    rw [toGo_of_pick hk, toGo_of_notifies hcall]
    simp only [State.toGo, total_cons, Thread.toGo, List.length_cons]
    omega
  | starts i calls hcall =>
    simp only [State.toGo, total_of_pick _ hcall, total_cons, Thread.toGo, Call.toGo, List.length_cons]
    split <;> omega
  | looks k rest _ hk hl =>
    rw [toGo_of_pick hk]
    exact hl.toGo_lt
  | expires k rest hk =>
    rw [toGo_of_pick hk]
    simp only [State.toGo, Thread.toGo]
    split <;> omega
  | relocks k timedOut rest _ hk hl =>
    rw [toGo_of_pick hk]
    exact hl.toGo_lt
  | ends k panicked piece rest hk =>
    rw [toGo_of_pick hk]
    simp only [State.toGo, total_cons, Thread.toGo, List.length_cons]
    omega
  | notifiesAll hc =>
    have hthreads : total Thread.toGo (s.threads.map Thread.notified) =
        total Thread.sleeping s.threads + total Thread.toGo s.threads := by
      rw [total_map, ← total_add]
      exact total_congr fun t _ => by cases t <;> rfl
    have hlength := length_threads s.threads
    simp only [State.toGo, hthreads, hc, List.length_map, if_true, Bool.false_eq_true, if_false]
    omega

/-- Where the pool can take no step of its own, every piece given has been run. -/
theorem Sound.all_ran (h : Sound most s) (hp : Once s) (hend : ∀ a, a.own = true → s.step most a = none) :
    (s.ran.map Prod.fst).Perm (List.range s.given) := by
  have hasleep : ∀ t ∈ s.threads, t = .asleep := by
    intro t ht
    obtain ⟨k, rest, hk⟩ := exists_pick_of_mem ht
    cases t with
    | asleep => rfl
    | running piece =>
      have hno := hend (.ends k false) rfl
      simp [State.step, hk] at hno
    | looking =>
      have hno := hend (.locks k) rfl
      simp [State.step, hk] at hno
    | woken timedOut =>
      have hno := hend (.locks k) rfl
      simp only [State.step, hk, Option.bind_eq_bind, Option.bind_some] at hno
      split at hno <;> cases hno
  have hcalls : s.calls = [] := by
    refine List.eq_nil_iff_forall_not_mem.2 fun call hcall => ?_
    obtain ⟨i, calls, hi⟩ := exists_pick_of_mem hcall
    cases call with
    | starts =>
      have hno := hend (.starts i) rfl
      simp [State.step, hi] at hno
    | notifies start =>
      cases hthreads : s.threads with
      | nil =>
        have hno := hend (.notifies i 0) rfl
        simp [State.step, hi, hthreads] at hno
      | cons t rest =>
        have ht : t = .asleep := hasleep t (by rw [hthreads]; exact List.mem_cons_self)
        have hk : pick s.threads 0 = some (.asleep, rest) := by rw [hthreads, ht]; rfl
        have hno := hend (.notifies i 0) rfl
        simp [State.step, hi, hk, total_of_pick _ hk, Thread.sleeping] at hno
  have hup : total Thread.up s.threads = 0 := total_eq_zero fun t ht => by rw [hasleep t ht]; rfl
  have hqueued : s.queued = [] := by
    by_contra hne
    have hpos := h.awake hne
    rw [hup, hcalls] at hpos
    cases hpos
  have hrunning : s.threads.filterMap Thread.piece = [] :=
    List.filterMap_eq_nil_iff.2 fun t ht => by rw [hasleep t ht]; rfl
  have hperm : (s.queued ++ s.threads.filterMap Thread.piece ++ s.ran.map Prod.fst).Perm (List.range s.given) := hp
  rw [hqueued, hrunning] at hperm
  exact hperm

theorem reach_sound (hm : 1 ≤ most) (h : Reach (State.step most) Always Begins s) : Sound most s ∧ Once s := by
  let inv (s : State) : Prop := Sound most s ∧ Once s
  have hbegins : ∀ s, Begins s → inv s := by
    intro s hs
    refine ⟨begins_sound hm hs, ?_⟩
    subst hs
    exact .refl _
  exact h.invariant hbegins fun s a s' hs _ hstep => ⟨hs.1.step (taken_of_step hstep), hs.2.step (taken_of_step hstep)⟩

/-- A pool of at most `limit` threads, one at least, neither loses a piece nor runs one twice.  While it is open it counts
the threads there are and those to be started, within its most; each piece given is queued, run by one thread or was run
once, whichever panicked; while one is queued not every thread sleeps with none to be notified or started; one waits only
where there are as many threads as there may be or a thread is due for it; closed, its last thread leaves nothing queued;
and its own steps come to an end, where every piece given has been run. -/
theorem neither_lost_nor_repeated (limit : Nat) :
    ∀ s, Reach (State.step (max limit 1)) Always Begins s →
      (s.closed = false →
        s.count = s.threads.length + total Call.toStart s.calls ∧ 1 ≤ s.count ∧ s.count ≤ max limit 1) ∧
      (s.queued ++ s.threads.filterMap Thread.piece ++ s.ran.map Prod.fst).Perm (List.range s.given) ∧
      ¬ (s.queued ≠ [] ∧ (∀ t ∈ s.threads, t = .asleep) ∧ total Call.toNotify s.calls = 0 ∧
        total Call.toStart s.calls = 0) ∧
      (s.count = max limit 1 ∨ s.queued.length ≤ total Call.toStart s.calls + total Thread.due s.threads +
        min (total Thread.sleeping s.threads) (total Call.toNotify s.calls)) ∧
      (s.closed = true → s.threads = [] → s.queued = [] ∧ (s.ran.map Prod.fst).Perm (List.range s.given)) ∧
      (∀ a s', a.own = true → s.step (max limit 1) a = some s' → s'.toGo < s.toGo) ∧
      ((∀ a, a.own = true → s.step (max limit 1) a = none) → (s.ran.map Prod.fst).Perm (List.range s.given)) := by
  intro s hs
  obtain ⟨h, hp⟩ := reach_sound (Nat.le_max_right _ _) hs
  have hasleep : (∀ t ∈ s.threads, t = .asleep) → total Thread.up s.threads = 0 := fun hall =>
    total_eq_zero fun t ht => by rw [hall t ht]; rfl
  refine ⟨fun hopen => ⟨h.count, h.atLeast hopen, h.atMost⟩, hp, ?_, h.due, ?_, ?_, h.all_ran hp⟩
  · rintro ⟨hne, hall, hnotify, hstart⟩
    have hpos := h.awake hne
    have hup := hasleep hall
    omega
  · intro hc hnone
    have hqueued : s.queued = [] := by
      by_contra hne
      have hpos := h.awake hne
      rw [h.calls hc, hnone] at hpos
      cases hpos
    have hperm : (s.queued ++ s.threads.filterMap Thread.piece ++ s.ran.map Prod.fst).Perm (List.range s.given) := hp
    rw [hqueued, hnone] at hperm
    exact ⟨hqueued, hperm⟩
  · exact fun a s' ha hstep => toGo_lt (taken_of_step hstep) ha

/-- Two pieces on two threads, the first of which panics; then the pool is closed, and both threads end. -/
private def panicsThenCloses : List Action :=
  [.run, .notifies 0 0, .starts 0, .locks 1, .run, .notifies 0 0, .locks 1, .ends 1 true, .locks 0, .ends 1 false, .closes,
    .locks 0, .notifiesAll, .locks 0]

private def made : State := ⟨[], 1, 0, false, [.looking], [], false, 0, []⟩

private def drained : State := ⟨[], 0, 0, true, [], [], false, 2, [(0, true), (1, false)]⟩

theorem drained_all_ran : ∃ s, Reach (State.step 2) Always Begins s ∧ s.ran = [(0, true), (1, false)] ∧ s.queued = [] ∧
    (s.ran.map Prod.fst).Perm (List.range s.given) := by
  have hreach : Reach (State.step 2) Always Begins drained :=
    .of_runWhere (.start rfl) (show runWhere (State.step 2) Always made panicsThenCloses = some drained by decide)
  exact ⟨drained, hreach, rfl, (neither_lost_nor_repeated 2 drained hreach).2.2.2.2.1 rfl rfl⟩

end Pool
