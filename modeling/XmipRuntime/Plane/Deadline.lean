import Mathlib.Data.List.Nodup
import Mathlib.Logic.Function.Basic
import XmipRuntime.Library.Pick
import XmipRuntime.Library.Run

/-!
# The deadlines of calls on a pipe

A named pipe keeps no time, so one thread of the process cancels a surface's read once the deadline of the call on it has
passed (`src/plane/deadline.rs`).  Each surface has one slot for the deadline of the call in flight on it.  A call arms it
and then tells the thread, each under its own lock; the thread looks at every surface it keeps under the lock it waits
under, taking the slot's lock inside it; `called` (`src/plane/remote/asking.rs`) arms before it takes the surface's line.

The machine is any number of calls on any number of surfaces, surfaces being kept and ending, the thread, and the clock.  A
step is what is done under one hold of a lock; the thread looks at one surface after another, and the calls step between.
The thread may wake for nothing.
-/

namespace Deadline

open Library

/-! ### The machine -/

/-- How long a passed deadline's cancel waits for its call to end before it cancels again: a millisecond, the clock
counting nanoseconds. -/
def again : Nat := 1000000

/-- A surface's slot; which call armed it is kept for what is said of it, and read by no step. -/
structure Armed where
  till : Option Nat
  fired : Bool
  whose : Nat
  deriving DecidableEq

namespace Armed

def arm (whose till : Nat) : Armed := ⟨some till, false, whose⟩

def disarm (armed : Armed) : Bool × Armed := (armed.fired, { armed with till := none, fired := false })

def passed (armed : Armed) : Bool := armed.fired

/-- When the thread is to look at it again. -/
def due (now : Nat) (armed : Armed) : Option Nat := if armed.fired then some (now + again) else armed.till

/-- What the thread's look makes of it, and whether it cancels the line's read. -/
def look (now : Nat) (armed : Armed) : Bool × Armed :=
  match armed.fired, armed.till with
  | true, _ => (true, armed)
  | false, some till => if till ≤ now then (true, { armed with till := none, fired := true }) else (false, armed)
  | false, none => (false, armed)

end Armed

/-- Where a call is: to arm its deadline; to tell the thread; at its call; or ended, with whether it was said to have
passed first. -/
inductive Phase where
  | begins | arming | asks | ended (fired : Bool)
  deriving DecidableEq

structure Call where
  number : Nat
  surface : Nat
  till : Nat
  phase : Phase
  deriving DecidableEq

/-- It has armed its deadline and not disarmed it. -/
def Call.inFlight (call : Call) : Bool := call.phase = .arming ∨ call.phase = .asks

def Call.flies (call : Call) : Option Nat := if call.inFlight then some call.surface else none

/-- Where the thread is: not started; to begin; in a look begun at `now`, with the surfaces still to look at; or waiting
since, until it looks next, woken or not. -/
inductive Watcher where
  | absent
  | begins
  | looking (now : Nat) (next : Option Nat) (left : List Nat)
  | waits (since : Nat) (looks : Option Nat) (woken : Bool)
  deriving DecidableEq

/-- It holds the lock it waits under. -/
def Watcher.locked : Watcher → Bool
  | .looking .. => true
  | _ => false

def Watcher.opened : Watcher → Watcher
  | .absent => .begins
  | watcher => watcher

/-- A deadline armed for `till` wakes it where it would look later. -/
def Watcher.sooner (till : Nat) : Watcher → Watcher
  | .waits since looks woken => .waits since looks (woken || !looks.any (· ≤ till))
  | watcher => watcher

/-- The earlier of two. -/
def earlier : Option Nat → Option Nat → Option Nat
  | some next, some due => some (min next due)
  | next, due => next.or due

structure State where
  clock : Nat
  slots : Nat → Armed
  ending : Nat → Bool
  /-- The surfaces kept; in a look, those looked at. -/
  kept : List Nat
  watcher : Watcher
  calls : List Call
  given : Nat
  /-- The calls whose deadline fired. -/
  fired : List Nat
  /-- The surfaces whose read was cancelled, last first. -/
  cancelled : List Nat

def Begins (s : State) : Prop :=
  ∃ clock whose, s = ⟨clock, fun _ => ⟨none, false, whose⟩, fun _ => false, [], .absent, [], 0, [], []⟩

inductive Action where
  | ticks (n : Nat)
  | calls (surface within : Nat)
  | arms (k : Nat)
  | tells (k : Nat)
  | disarms (k : Nat)
  | keeps (i : Nat)
  | ends (i : Nat)
  | wakes
  | looks
  | rests
  deriving DecidableEq

namespace State

/-- The look at the surface `i`, kept. -/
def looked (s : State) (now : Nat) (next : Option Nat) (i : Nat) (left : List Nat) : State :=
  let (cancels, armed) := (s.slots i).look now
  { s with
    slots := Function.update s.slots i armed
    kept := s.kept ++ [i]
    watcher := .looking now (earlier next (armed.due now)) left
    fired := if armed.fired ∧ (s.slots i).fired = false then armed.whose :: s.fired else s.fired
    cancelled := if cancels then i :: s.cancelled else s.cancelled }

def step (s : State) : Action → Option State
  | .ticks n => some { s with clock := s.clock + n }
  | .calls surface within =>
    some { s with calls := ⟨s.given, surface, s.clock + within, .begins⟩ :: s.calls, given := s.given + 1 }
  | .arms k => do
    let (call, calls) ← pick s.calls k
    if call.phase = .begins then
      some { s with
        slots := Function.update s.slots call.surface (.arm call.number call.till)
        calls := { call with phase := .arming } :: calls }
    else none
  | .tells k => do
    let (call, calls) ← pick s.calls k
    if call.phase = .arming ∧ s.watcher.locked = false then
      some { s with watcher := s.watcher.sooner call.till, calls := { call with phase := .asks } :: calls }
    else none
  | .disarms k => do
    let (call, calls) ← pick s.calls k
    if call.phase = .asks then
      let (fired, armed) := (s.slots call.surface).disarm
      some { s with
        slots := Function.update s.slots call.surface armed
        calls := { call with phase := .ended fired } :: calls }
    else none
  | .keeps i =>
    if s.watcher.locked = false then some { s with kept := s.kept ++ [i], watcher := s.watcher.opened } else none
  | .ends i => some { s with ending := Function.update s.ending i true }
  | .wakes =>
    match s.watcher with
    | .begins | .waits .. => some { s with kept := [], watcher := .looking s.clock none s.kept }
    | _ => none
  | .looks =>
    match s.watcher with
    | .looking now next (i :: left) =>
      if s.ending i then some { s with watcher := .looking now next left } else some (s.looked now next i left)
    | _ => none
  | .rests =>
    match s.watcher with
    | .looking now next [] => some { s with watcher := .waits now next false }
    | _ => none

end State

/-! ### What a step does -/

inductive Taken (s : State) : Action → State → Prop where
  | ticks (n : Nat) : Taken s (.ticks n) { s with clock := s.clock + n }
  | calls (surface within : Nat) : Taken s (.calls surface within)
      { s with calls := ⟨s.given, surface, s.clock + within, .begins⟩ :: s.calls, given := s.given + 1 }
  | arms (k : Nat) (call : Call) (calls : List Call) : pick s.calls k = some (call, calls) → call.phase = .begins →
      Taken s (.arms k) { s with
        slots := Function.update s.slots call.surface (.arm call.number call.till)
        calls := { call with phase := .arming } :: calls }
  | tells (k : Nat) (call : Call) (calls : List Call) : pick s.calls k = some (call, calls) → call.phase = .arming →
      s.watcher.locked = false →
      Taken s (.tells k) { s with watcher := s.watcher.sooner call.till, calls := { call with phase := .asks } :: calls }
  | disarms (k : Nat) (call : Call) (calls : List Call) : pick s.calls k = some (call, calls) → call.phase = .asks →
      Taken s (.disarms k) { s with
        slots := Function.update s.slots call.surface (s.slots call.surface).disarm.2
        calls := { call with phase := .ended (s.slots call.surface).disarm.1 } :: calls }
  | keeps (i : Nat) : s.watcher.locked = false →
      Taken s (.keeps i) { s with kept := s.kept ++ [i], watcher := s.watcher.opened }
  | ends (i : Nat) : Taken s (.ends i) { s with ending := Function.update s.ending i true }
  | wakes : Taken s .wakes { s with kept := [], watcher := .looking s.clock none s.kept }
  | leaves (now : Nat) (next : Option Nat) (i : Nat) (left : List Nat) : s.watcher = .looking now next (i :: left) →
      s.ending i = true → Taken s .looks { s with watcher := .looking now next left }
  | looks (now : Nat) (next : Option Nat) (i : Nat) (left : List Nat) : s.watcher = .looking now next (i :: left) →
      s.ending i = false → Taken s .looks (s.looked now next i left)
  | rests (now : Nat) (next : Option Nat) : s.watcher = .looking now next [] →
      Taken s .rests { s with watcher := .waits now next false }

variable {ok : State → Action → Prop} {s s' : State} {a : Action}

theorem taken_of_step (h : s.step a = some s') : Taken s a s' := by
  cases a with
  | ticks n =>
    cases h
    exact .ticks n
  | calls surface within =>
    cases h
    exact .calls surface within
  | arms k =>
    obtain ⟨⟨call, calls⟩, hk, h⟩ := Option.bind_eq_some_iff.1 h
    dsimp only at h
    split at h
    · rename_i hphase
      cases h
      exact .arms k call calls hk hphase
    · cases h
  | tells k =>
    obtain ⟨⟨call, calls⟩, hk, h⟩ := Option.bind_eq_some_iff.1 h
    dsimp only at h
    split at h
    · rename_i hphase
      cases h
      exact .tells k call calls hk hphase.1 hphase.2
    · cases h
  | disarms k =>
    obtain ⟨⟨call, calls⟩, hk, h⟩ := Option.bind_eq_some_iff.1 h
    dsimp only at h
    split at h
    · rename_i hphase
      cases h
      exact .disarms k call calls hk hphase
    · cases h
  | keeps i =>
    simp only [State.step] at h
    split at h
    · rename_i hw
      cases h
      exact .keeps i hw
    · cases h
  | ends i =>
    cases h
    exact .ends i
  | wakes =>
    simp only [State.step] at h
    split at h
    · cases h
      exact .wakes
    · cases h
      exact .wakes
    · cases h
  | looks =>
    simp only [State.step] at h
    split at h
    · rename_i now next i left hw
      split at h
      · rename_i hending
        cases h
        exact .leaves now next i left hw hending
      · rename_i hending
        cases h
        exact .looks now next i left hw (by simpa using hending)
    · cases h
  | rests =>
    simp only [State.step] at h
    split at h
    · rename_i now next hw
      cases h
      exact .rests now next hw
    · cases h

/-! ### What is kept -/

/-- A look then is no later than that. -/
def NoLater (looks due : Option Nat) : Prop := ∀ till ∈ due, ∃ look ∈ looks, look ≤ till

instance (looks due : Option Nat) : Decidable (NoLater looks due) := inferInstanceAs (Decidable (∀ till ∈ due, _))

theorem noLater_none {looks : Option Nat} : NoLater looks none := fun _ htill => nomatch htill

theorem noLater_earlier_left {looks due looked : Option Nat} (h : NoLater looks looked) :
    NoLater (earlier looks due) looked := by
  intro till htill
  obtain ⟨look, hlook, hle⟩ := h till htill
  cases hlook
  cases due with
  | none => exact ⟨look, rfl, hle⟩
  | some due => exact ⟨min look due, rfl, Nat.le_trans (Nat.min_le_left _ _) hle⟩

theorem noLater_earlier_right (looks due : Option Nat) : NoLater (earlier looks due) due := by
  intro till htill
  cases htill
  cases looks with
  | none => exact ⟨till, rfl, Nat.le_refl _⟩
  | some look => exact ⟨min look till, rfl, Nat.min_le_right _ _⟩

/-- The surface is looked at again in time; or a call on it is still to tell the thread. -/
def State.Seen (s : State) (now : Nat) (looks : Option Nat) (i : Nat) : Prop :=
  NoLater looks ((s.slots i).due now) ∨
    (s.slots i).fired = false ∧ ∃ call ∈ s.calls, call.phase = .arming ∧ call.surface = i

instance (s : State) (now : Nat) (looks : Option Nat) (i : Nat) : Decidable (s.Seen now looks i) :=
  inferInstanceAs (Decidable (_ ∨ _))

/-- The thread's next look is in time for each surface it looked at. -/
def State.Watched (s : State) : Prop :=
  match s.watcher with
  | .looking now next _ => now ≤ s.clock ∧ ∀ i ∈ s.kept, s.Seen now next i
  | .waits since looks woken => woken = false → ∀ i ∈ s.kept, s.Seen since looks i
  | _ => True

/-- The slot of a call in flight: armed by it, and fired where its deadline fired. -/
def Call.slot (call : Call) (fired : List Nat) : Armed :=
  if call.number ∈ fired then ⟨none, true, call.number⟩ else .arm call.number call.till

/-- Where a call stands with its deadline. -/
def Call.Stands (call : Call) (s : State) : Prop :=
  match call.phase with
  | .begins => call.number ∉ s.fired
  | .arming | .asks => s.slots call.surface = call.slot s.fired ∧ (call.number ∈ s.fired → call.till ≤ s.clock)
  | .ended fired => fired = true ↔ call.number ∈ s.fired

/-- What every step keeps where no two calls are in flight on one surface: each call has a number of its own, those in
flight a surface of their own, each stands well with its deadline, no slot is armed for no call, and the thread looks in
time. -/
structure Sound (s : State) : Prop where
  numbers : (s.calls.map Call.number).Perm (List.range s.given)
  alone : (s.calls.filterMap Call.flies).Nodup
  stands : ∀ call ∈ s.calls, call.Stands s
  idle : ∀ i, (∀ call ∈ s.calls, call.inFlight = true → call.surface ≠ i) →
    (s.slots i).till = none ∧ (s.slots i).fired = false
  fired : ∀ number ∈ s.fired, number < s.given
  watched : s.Watched

/-- A step arms no surface that a call in flight has armed, and keeps none that is to be looked at earlier than the thread
looks next. -/
def Ok (s : State) : Action → Prop
  | .arms k => ∀ p ∈ pick s.calls k, ∀ other ∈ p.2, other.surface = p.1.surface → other.inFlight = false
  | .keeps i =>
    match s.watcher with
    | .waits since looks false => s.Seen since looks i
    | _ => True
  | _ => True

instance (s : State) (a : Action) : Decidable (Ok s a) := by
  unfold Ok
  cases a with
  | keeps i =>
    dsimp only
    split <;> infer_instance
  | _ =>
    dsimp only
    infer_instance

theorem begins_sound (h : Begins s) : Sound s := by
  obtain ⟨clock, whose, rfl⟩ := h
  exact ⟨.refl _, List.nodup_nil, fun _ hcall => (nomatch hcall), fun _ _ => ⟨rfl, rfl⟩, fun _ hfired => (nomatch hfired),
    trivial⟩

theorem Call.inFlight_of_phase {call : Call} {phase : Phase} (h : call.phase = phase) :
    call.inFlight = Call.inFlight ⟨0, 0, 0, phase⟩ := by
  rw [← h]
  rfl

theorem Call.flies_of_inFlight {call : Call} (h : call.inFlight = true) : call.flies = some call.surface := if_pos h

theorem Call.flies_of_not {call : Call} (h : call.inFlight = false) : call.flies = none := if_neg (by rw [h]; decide)

/-- Where its slot, its deadline's firing and the clock are as they were, a call stands as it did. -/
theorem Call.Stands.frame {call : Call} (h : call.Stands s) (hslot : call.inFlight = true →
    s'.slots call.surface = s.slots call.surface) (hfired : call.number ∈ s'.fired ↔ call.number ∈ s.fired)
    (hclock : s.clock ≤ s'.clock) : call.Stands s' := by
  have heq : call.slot s'.fired = call.slot s.fired := by simp only [Call.slot, hfired]
  unfold Call.Stands at h ⊢
  split <;> rename_i hphase <;> rw [hphase] at h
  · exact fun hin => h (hfired.1 hin)
  · rw [hslot (by rw [Call.inFlight_of_phase hphase]; rfl), heq]
    exact ⟨h.1, fun hin => Nat.le_trans (h.2 (hfired.1 hin)) hclock⟩
  · rw [hslot (by rw [Call.inFlight_of_phase hphase]; rfl), heq]
    exact ⟨h.1, fun hin => Nat.le_trans (h.2 (hfired.1 hin)) hclock⟩
  · exact h.trans hfired.symm

theorem Call.stands_iff {call : Call} (hf : call.inFlight = true) :
    call.Stands s ↔ s.slots call.surface = call.slot s.fired ∧ (call.number ∈ s.fired → call.till ≤ s.clock) := by
  unfold Call.Stands
  split <;> rename_i hphase
  · rw [Call.inFlight_of_phase hphase] at hf
    cases hf
  · rfl
  · rfl
  · rw [Call.inFlight_of_phase hphase] at hf
    cases hf

theorem Sound.passed (h : Sound s) {call : Call} (hcall : call ∈ s.calls) (hf : call.inFlight = true) :
    (s.slots call.surface).passed = true ↔ call.number ∈ s.fired := by
  rw [((Call.stands_iff hf).1 (h.stands call hcall)).1, Call.slot]
  split
  · rename_i hin
    exact iff_of_true rfl hin
  · rename_i hin
    exact iff_of_false Bool.false_ne_true hin

section Pick

variable {k : Nat} {call : Call} {calls : List Call}

/-- No other call is in flight on the surface of one that is. -/
theorem Sound.other (h : Sound s) (hk : pick s.calls k = some (call, calls)) (hf : call.inFlight = true) {other : Call}
    (ho : other ∈ calls) (hof : other.inFlight = true) : other.surface ≠ call.surface := by
  have hnodup := ((pick_perm hk).filterMap Call.flies).nodup_iff.2 h.alone
  rw [List.filterMap_cons_some (Call.flies_of_inFlight hf)] at hnodup
  rintro heq
  refine (List.nodup_cons.1 hnodup).1 (List.mem_filterMap.2 ⟨other, ho, ?_⟩)
  rw [Call.flies_of_inFlight hof, heq]

theorem Sound.other_number (h : Sound s) (hk : pick s.calls k = some (call, calls)) {other : Call} (ho : other ∈ calls) :
    other.number ≠ call.number := by
  have hnodup := ((pick_perm hk).map Call.number).nodup_iff.2 (h.numbers.nodup_iff.2 List.nodup_range)
  exact fun heq => (List.nodup_cons.1 hnodup).1 (heq ▸ List.mem_map_of_mem ho)

end Pick

/-- Where no call came to tell the thread that did not, nor the slot changed, the surface is seen. -/
theorem State.Seen.frame {now : Nat} {looks : Option Nat} {i : Nat} (h : s.Seen now looks i) (hslot : s'.slots i = s.slots i)
    (harming : ∀ call ∈ s.calls, call.phase = .arming → call.surface = i →
      ∃ call ∈ s'.calls, call.phase = .arming ∧ call.surface = i) : s'.Seen now looks i := by
  unfold State.Seen
  rw [hslot]
  refine h.imp_right ?_
  rintro ⟨hfired, call, hcall, hphase, hsurface⟩
  exact ⟨hfired, harming call hcall hphase hsurface⟩

theorem State.Watched.frame (h : s.Watched) (hw : s'.watcher = s.watcher) (hkept : s'.kept = s.kept)
    (hclock : s.clock ≤ s'.clock) (hseen : ∀ now looks i, s.Seen now looks i → s'.Seen now looks i) : s'.Watched := by
  unfold State.Watched at h ⊢
  rw [hw, hkept]
  cases hwatcher : s.watcher with
  | absent => trivial
  | begins => trivial
  | looking now looks left =>
    rw [hwatcher] at h
    exact ⟨Nat.le_trans h.1 hclock, fun i hi => hseen _ _ i (h.2 i hi)⟩
  | waits since looks woken =>
    rw [hwatcher] at h
    exact fun hwoken i hi => hseen _ _ i (h hwoken i hi)

/-! ### A step keeps it -/

theorem Sound.ticks (h : Sound s) (n : Nat) : Sound { s with clock := s.clock + n } where
  numbers := h.numbers
  alone := h.alone
  stands call hcall := (h.stands call hcall).frame (fun _ => rfl) Iff.rfl (Nat.le_add_right _ _)
  idle := h.idle
  fired := h.fired
  watched := h.watched.frame rfl rfl (Nat.le_add_right _ _) fun _ _ _ hseen => hseen

theorem Sound.calls (h : Sound s) (surface within : Nat) :
    Sound { s with calls := ⟨s.given, surface, s.clock + within, .begins⟩ :: s.calls, given := s.given + 1 } where
  numbers := by
    rw [List.range_succ]
    exact (h.numbers.cons _).trans (List.perm_append_singleton _ _).symm
  alone := h.alone
  stands := by
    refine List.forall_mem_cons.2 ⟨?_, fun call hcall => h.stands call hcall⟩
    exact fun hin => Nat.lt_irrefl _ (h.fired _ hin)
  idle i hi := h.idle i fun call hcall => hi call (List.mem_cons_of_mem _ hcall)
  fired number hin := Nat.lt_succ_of_lt (h.fired number hin)
  watched := h.watched.frame rfl rfl (Nat.le_refl _) fun _ _ _ hseen =>
    hseen.frame rfl fun call hcall hphase hsurface => ⟨call, List.mem_cons_of_mem _ hcall, hphase, hsurface⟩

section Step

variable {k : Nat} {call : Call} {calls : List Call}

theorem Sound.arms (h : Sound s) (hk : pick s.calls k = some (call, calls)) (hphase : call.phase = .begins)
    (hok : ∀ other ∈ calls, other.surface = call.surface → other.inFlight = false) :
    Sound { s with
      slots := Function.update s.slots call.surface (.arm call.number call.till)
      calls := { call with phase := .arming } :: calls } := by
  have hnot : call.inFlight = false := Call.inFlight_of_phase hphase
  have hstands : call.number ∉ s.fired := by
    have hstands := h.stands call (mem_of_pick hk)
    rwa [Call.Stands, hphase] at hstands
  have hother : ∀ other ∈ calls, other.inFlight = true → other.surface ≠ call.surface := fun other ho hof heq =>
    absurd (hok other ho heq) (by rw [hof]; decide)
  refine ⟨(map_becomes hk rfl).trans h.numbers, ?_, List.forall_mem_cons.2 ⟨?_, fun other ho => ?_⟩, fun i hi => ?_,
    h.fired, h.watched.frame rfl rfl (Nat.le_refl _) fun now looks i hseen => ?_⟩
  · refine (filterMap_gains hk (Call.flies_of_not hnot) rfl).nodup_iff.2 (List.nodup_cons.2 ⟨fun hin => ?_, h.alone⟩)
    obtain ⟨other, ho, hflies⟩ := List.mem_filterMap.1 hin
    unfold Call.flies at hflies
    split at hflies
    · rename_i hof
      rcases eq_or_mem_of_pick hk ho with rfl | ho
      · rw [hnot] at hof
        cases hof
      · exact hother other ho hof (Option.some.inj hflies)
    · cases hflies
  · refine ⟨?_, fun hin => absurd hin hstands⟩
    exact (Function.update_self ..).trans (if_neg hstands).symm
  · refine (h.stands other (mem_of_mem_pick hk ho)).frame (fun hof => ?_) Iff.rfl (Nat.le_refl _)
    exact Function.update_of_ne (hother other ho hof) _ _
  · have hne : i ≠ call.surface := fun heq => hi _ List.mem_cons_self rfl heq.symm
    dsimp only
    rw [Function.update_of_ne hne]
    refine h.idle i fun other ho hof => ?_
    rcases eq_or_mem_of_pick hk ho with rfl | ho
    · exact fun heq => hne heq.symm
    · exact hi other (List.mem_cons_of_mem _ ho) hof
  · by_cases hi : i = call.surface
    · subst hi
      refine .inr ⟨?_, _, List.mem_cons_self, rfl, rfl⟩
      dsimp only
      rw [Function.update_self]
      rfl
    · refine hseen.frame (Function.update_of_ne hi _ _) fun other ho harming hsurface => ?_
      rcases eq_or_mem_of_pick hk ho with rfl | ho
      · cases hphase.symm.trans harming
      · exact ⟨other, List.mem_cons_of_mem _ ho, harming, hsurface⟩

theorem Sound.tells (h : Sound s) (hk : pick s.calls k = some (call, calls)) (hphase : call.phase = .arming)
    (hlocked : s.watcher.locked = false) :
    Sound { s with watcher := s.watcher.sooner call.till, calls := { call with phase := .asks } :: calls } := by
  have hf : call.inFlight = true := Call.inFlight_of_phase hphase
  have hstands := (Call.stands_iff hf).1 (h.stands call (mem_of_pick hk))
  refine ⟨(map_becomes hk rfl).trans h.numbers, (filterMap_becomes hk ?_).nodup_iff.2 h.alone,
    List.forall_mem_cons.2 ⟨hstands, fun other ho => h.stands other (mem_of_mem_pick hk ho)⟩, fun i hi => h.idle i ?_,
    h.fired, ?_⟩
  · exact (Call.flies_of_inFlight hf).symm
  · intro other ho hof
    rcases eq_or_mem_of_pick hk ho with rfl | ho
    · exact hi { other with phase := .asks } List.mem_cons_self rfl
    · exact hi other (List.mem_cons_of_mem _ ho) hof
  · have hwatched := h.watched
    unfold State.Watched at hwatched ⊢
    cases hw : s.watcher with
    | absent => trivial
    | begins => trivial
    | looking now looks left =>
      rw [hw] at hlocked
      cases hlocked
    | waits since looks woken =>
      rw [hw] at hwatched
      intro hwoken i hi
      obtain ⟨hwoken, hlater⟩ := Bool.or_eq_false_iff.1 hwoken
      have hseen : s.Seen since looks i := hwatched hwoken i hi
      by_cases hsurface : i = call.surface
      · -- Its slot is as it armed it, or fired, and is seen either way.
        subst hsurface
        refine .inl (hseen.elim id fun ⟨hfired, _⟩ => ?_)
        have hslot := hstands.1
        rw [Call.slot] at hslot
        split at hslot
        · rw [hslot] at hfired
          cases hfired
        · obtain ⟨look, hlook, hle⟩ := Option.any_eq_true _ _ |>.1 (by simpa using hlater)
          rw [hslot]
          rintro till htill
          cases htill
          exact ⟨look, hlook, of_decide_eq_true hle⟩
      · refine hseen.frame rfl fun other ho harming hother => ?_
        rcases eq_or_mem_of_pick hk ho with rfl | ho
        · exact absurd hother.symm hsurface
        · exact ⟨other, List.mem_cons_of_mem _ ho, harming, hother⟩

theorem Sound.disarms (h : Sound s) (hk : pick s.calls k = some (call, calls)) (hphase : call.phase = .asks) :
    Sound { s with
      slots := Function.update s.slots call.surface (s.slots call.surface).disarm.2
      calls := { call with phase := .ended (s.slots call.surface).disarm.1 } :: calls } := by
  have hf : call.inFlight = true := Call.inFlight_of_phase hphase
  have halone := filterMap_loses (f := Call.flies) (b := { call with phase := .ended (s.slots call.surface).disarm.1 }) hk
    (Call.flies_of_inFlight hf) rfl
  refine ⟨(map_becomes hk rfl).trans h.numbers, (List.nodup_cons.1 (halone.nodup_iff.2 h.alone)).2,
    List.forall_mem_cons.2 ⟨?_, fun other ho => ?_⟩, fun i hi => ?_, h.fired,
    h.watched.frame rfl rfl (Nat.le_refl _) fun now looks i hseen => ?_⟩
  · exact h.passed (mem_of_pick hk) hf
  · refine (h.stands other (mem_of_mem_pick hk ho)).frame (fun hof => ?_) Iff.rfl (Nat.le_refl _)
    exact Function.update_of_ne (h.other hk hf ho hof) _ _
  · dsimp only
    by_cases hne : i = call.surface
    · subst hne
      rw [Function.update_self]
      exact ⟨rfl, rfl⟩
    · rw [Function.update_of_ne hne]
      refine h.idle i fun other ho hof => ?_
      rcases eq_or_mem_of_pick hk ho with rfl | ho
      · exact fun heq => hne heq.symm
      · exact hi other (List.mem_cons_of_mem _ ho) hof
  · by_cases hi : i = call.surface
    · subst hi
      refine .inl ?_
      dsimp only
      rw [Function.update_self]
      exact noLater_none
    · refine hseen.frame (Function.update_of_ne hi _ _) fun other ho harming hsurface => ?_
      rcases eq_or_mem_of_pick hk ho with rfl | ho
      · cases hphase.symm.trans harming
      · exact ⟨other, List.mem_cons_of_mem _ ho, harming, hsurface⟩

end Step

theorem Sound.keeps (h : Sound s) {i : Nat} (hlocked : s.watcher.locked = false) (hok : Ok s (.keeps i)) :
    Sound { s with kept := s.kept ++ [i], watcher := s.watcher.opened } := by
  refine ⟨h.numbers, h.alone, h.stands, h.idle, h.fired, ?_⟩
  have hwatched := h.watched
  unfold State.Watched at hwatched ⊢
  cases hw : s.watcher with
  | absent => trivial
  | begins => trivial
  | looking now looks left =>
    rw [hw] at hlocked
    cases hlocked
  | waits since looks woken =>
    rw [hw] at hwatched
    rintro rfl j hj
    simp only [Ok, hw] at hok
    rcases List.mem_append.1 hj with hj | hj
    · exact hwatched rfl j hj
    · rw [List.mem_singleton.1 hj]
      exact hok

theorem Sound.wakes (h : Sound s) : Sound { s with kept := [], watcher := .looking s.clock none s.kept } :=
  ⟨h.numbers, h.alone, h.stands, h.idle, h.fired, Nat.le_refl _, fun _ hi => nomatch hi⟩

theorem Sound.rests (h : Sound s) {now : Nat} {next : Option Nat} (hw : s.watcher = .looking now next []) :
    Sound { s with watcher := .waits now next false } := by
  refine ⟨h.numbers, h.alone, h.stands, h.idle, h.fired, ?_⟩
  have hwatched := h.watched
  rw [State.Watched, hw] at hwatched
  exact fun _ => hwatched.2

theorem Sound.leaves (h : Sound s) {now : Nat} {next : Option Nat} {i : Nat} {left : List Nat}
    (hw : s.watcher = .looking now next (i :: left)) : Sound { s with watcher := .looking now next left } := by
  refine ⟨h.numbers, h.alone, h.stands, h.idle, h.fired, ?_⟩
  have hwatched := h.watched
  rw [State.Watched, hw] at hwatched
  exact hwatched

/-- A look leaves a slot as it is, or its deadline has passed and fires. -/
theorem Armed.look_cases (now : Nat) (armed : Armed) :
    (armed.look now).2 = armed ∧ (armed.look now).1 = armed.fired ∨
      ∃ till ≤ now, armed.till = some till ∧ armed.fired = false ∧
        armed.look now = (true, { armed with till := none, fired := true }) := by
  unfold Armed.look
  split
  · rename_i hfired
    exact .inl ⟨rfl, hfired.symm⟩
  · rename_i till hfired htill
    split
    · rename_i hle
      exact .inr ⟨till, hle, htill, hfired, rfl⟩
    · exact .inl ⟨rfl, hfired.symm⟩
  · rename_i hfired htill
    exact .inl ⟨rfl, hfired.symm⟩

/-- An armed slot is that of a call in flight whose deadline did not fire. -/
theorem Sound.exists_call (h : Sound s) {i till : Nat} (htill : (s.slots i).till = some till) :
    ∃ k call calls, pick s.calls k = some (call, calls) ∧ call.inFlight = true ∧ call.surface = i ∧ call.number ∉ s.fired ∧
      call.till = till ∧ s.slots i = .arm call.number call.till := by
  by_contra hno
  have hnone := (h.idle i fun call hcall hf hsurface => ?_).1
  · rw [htill] at hnone
    cases hnone
  · obtain ⟨k, calls, hk⟩ := exists_pick_of_mem hcall
    obtain ⟨hslot, -⟩ := (Call.stands_iff hf).1 (h.stands call hcall)
    rw [Call.slot, hsurface] at hslot
    split at hslot
    · rw [hslot] at htill
      cases htill
    · rename_i hnot
      rw [hslot] at htill
      exact hno ⟨k, call, calls, hk, hf, hsurface, hnot, Option.some.inj htill, hslot⟩

section Looks

variable {now : Nat} {next : Option Nat} {i : Nat} {left : List Nat}

theorem Sound.looked_watched (h : Sound s) (hw : s.watcher = .looking now next (i :: left)) :
    (s.looked now next i left).Watched := by
  have hwatched := h.watched
  rw [State.Watched, hw] at hwatched
  refine ⟨hwatched.1, fun j hj => ?_⟩
  by_cases hji : j = i
  · subst hji
    refine .inl ?_
    dsimp only [State.looked]
    rw [Function.update_self]
    exact noLater_earlier_right _ _
  · have hslot : (s.looked now next i left).slots j = s.slots j := Function.update_of_ne hji _ _
    rcases List.mem_append.1 hj with hj | hj
    · unfold State.Seen
      rw [hslot]
      exact (hwatched.2 j hj).imp_left noLater_earlier_left
    · exact absurd (List.mem_singleton.1 hj) hji

theorem State.looked_of_same (next : Option Nat) (left : List Nat) (hsame : ((s.slots i).look now).2 = s.slots i) :
    (s.looked now next i left).slots = s.slots ∧ (s.looked now next i left).fired = s.fired := by
  refine ⟨?_, ?_⟩
  · dsimp only [State.looked]
    rw [hsame]
    exact Function.update_eq_self i s.slots
  · dsimp only [State.looked]
    rw [hsame]
    refine if_neg fun hboth => ?_
    rw [hboth.2] at hboth
    cases hboth.1

theorem Sound.looks (h : Sound s) (hw : s.watcher = .looking now next (i :: left)) : Sound (s.looked now next i left) := by
  have hwatched := h.looked_watched hw
  have hnow : now ≤ s.clock := by
    have hwatched := h.watched
    rw [State.Watched, hw] at hwatched
    exact hwatched.1
  obtain ⟨hsame, -⟩ | ⟨till, hle, htill, hfired, hlook⟩ := (s.slots i).look_cases now
  · obtain ⟨hslots, hfired⟩ := State.looked_of_same next left hsame
    refine ⟨h.numbers, h.alone, fun call hcall => ?_, fun j hj => ?_, ?_, hwatched⟩
    · exact (h.stands call hcall).frame (fun _ => congrFun hslots _) (by rw [hfired]) (Nat.le_refl _)
    · rw [hslots]
      exact h.idle j hj
    · rw [hfired]
      exact h.fired
  · obtain ⟨k, call, calls, hk, hf, rfl, hnot, rfl, hslot⟩ := h.exists_call htill
    have hslots : ∀ j, j ≠ call.surface → (s.looked now next call.surface left).slots j = s.slots j := fun j hj =>
      Function.update_of_ne hj _ _
    have hfires : (s.looked now next call.surface left).fired = call.number :: s.fired := by
      dsimp only [State.looked]
      rw [hlook, hslot]
      exact if_pos ⟨rfl, rfl⟩
    refine ⟨h.numbers, h.alone, fun other ho => ?_, fun j hj => ?_, ?_, hwatched⟩
    · rcases eq_or_mem_of_pick hk ho with rfl | ho
      · have hin : other.number ∈ (s.looked now next other.surface left).fired := hfires ▸ List.mem_cons_self
        refine (Call.stands_iff hf).2 ⟨?_, fun _ => Nat.le_trans hle hnow⟩
        rw [Call.slot, if_pos hin]
        dsimp only [State.looked]
        rw [Function.update_self, hlook, hslot]
        rfl
      · have hne := h.other_number hk ho
        refine (h.stands other (mem_of_mem_pick hk ho)).frame (fun hof => hslots _ (h.other hk hf ho hof)) ?_ (Nat.le_refl _)
        rw [hfires, List.mem_cons, or_iff_right hne]
    · rw [hslots j fun heq => hj call (mem_of_pick hk) hf heq.symm]
      exact h.idle j hj
    · rw [hfires]
      refine List.forall_mem_cons.2 ⟨?_, h.fired⟩
      exact List.mem_range.1 (h.numbers.mem_iff.1 (List.mem_map_of_mem (mem_of_pick hk)))

end Looks

theorem Sound.step (h : Sound s) (ht : Taken s a s') (hok : Ok s a) : Sound s' := by
  cases ht with
  | ticks n => exact h.ticks n
  | calls surface within => exact h.calls surface within
  | arms k call calls hk hphase => exact h.arms hk hphase (hok _ hk)
  | tells k call calls hk hphase hlocked => exact h.tells hk hphase hlocked
  | disarms k call calls hk hphase => exact h.disarms hk hphase
  | keeps i hlocked => exact h.keeps hlocked hok
  | ends i => exact ⟨h.numbers, h.alone, h.stands, h.idle, h.fired, h.watched⟩
  | wakes => exact h.wakes
  | leaves now next i left hw => exact h.leaves hw
  | looks now next i left hw => exact h.looks hw
  | rests now next hw => exact h.rests hw

theorem reach_sound (h : Reach State.step Ok Begins s) : Sound s :=
  h.invariant (fun _ => begins_sound) fun _ _ _ hs hok hstep => hs.step (taken_of_step hstep) hok

/-! ### What holds of the deadlines -/

/-- What a look does to a slot whose call's deadline has fired or is passed: it is fired, and the read is cancelled. -/
theorem Armed.look_passed {now : Nat} {armed : Armed} (h : armed.fired = true ∨ ∃ till ≤ now, armed.till = some till) :
    (armed.look now).1 = true ∧ (armed.look now).2.fired = true := by
  unfold Armed.look
  split
  · rename_i hfired
    exact ⟨rfl, hfired⟩
  · rename_i till hfired htill
    rw [hfired, htill] at h
    obtain h | ⟨_, hle, heq⟩ := h
    · cases h
    · cases heq
      rw [if_pos hle]
      exact ⟨rfl, rfl⟩
  · rename_i hfired htill
    rw [hfired, htill] at h
    obtain h | ⟨_, -, heq⟩ := h
    · cases h
    · cases heq

/-- A fired slot is that of a call in flight whose deadline fired. -/
theorem Sound.exists_fired (h : Sound s) {i : Nat} (hfired : (s.slots i).fired = true) :
    ∃ call ∈ s.calls, call.surface = i ∧ call.inFlight = true ∧ call.number ∈ s.fired ∧ call.till ≤ s.clock := by
  by_contra hno
  have hnone := (h.idle i fun call hcall hf hsurface => ?_).2
  · rw [hfired] at hnone
    cases hnone
  · obtain ⟨hslot, htill⟩ := (Call.stands_iff hf).1 (h.stands call hcall)
    rw [Call.slot, hsurface] at hslot
    split at hslot
    · rename_i hin
      exact hno ⟨call, hcall, hsurface, hf, hin, htill hin⟩
    · rw [hslot] at hfired
      cases hfired

/-- A step cancels no surface's read, or that of one on which a call in flight has seen its deadline pass. -/
theorem Sound.cancels (h : Sound s) (hok : Ok s a) (ht : Taken s a s') :
    s'.cancelled = s.cancelled ∨ ∃ i, s'.cancelled = i :: s.cancelled ∧
      ∃ call ∈ s'.calls, call.surface = i ∧ call.inFlight = true ∧ call.number ∈ s'.fired ∧ call.till ≤ s'.clock := by
  have hsound := h.step ht hok
  cases ht with
  | looks now next i left hw =>
    cases hcancels : ((s.slots i).look now).1 with
    | false =>
      refine .inl ?_
      dsimp only [State.looked]
      rw [hcancels]
      rfl
    | true =>
      refine .inr ⟨i, ?_, hsound.exists_fired ?_⟩
      · dsimp only [State.looked]
        rw [hcancels]
        rfl
      · dsimp only [State.looked]
        rw [Function.update_self]
        obtain ⟨hsame, hfired⟩ | ⟨till, -, -, -, hlook⟩ := (s.slots i).look_cases now
        · rw [hsame, ← hfired, hcancels]
        · rw [hlook]
  | _ => exact .inl rfl

/-- A look at a surface whose call's deadline fired or has passed: it is fired, and the read is cancelled. -/
theorem Sound.looks_passed (h : Sound s) {call : Call} (hcall : call ∈ s.calls) (hf : call.inFlight = true) {now : Nat}
    {next : Option Nat} {left : List Nat} (hw : s.watcher = .looking now next (call.surface :: left))
    (hending : s.ending call.surface = false) (hpassed : call.number ∈ s.fired ∨ call.till ≤ now) (ht : Taken s .looks s') :
    call.number ∈ s'.fired ∧ s'.cancelled = call.surface :: s.cancelled := by
  obtain ⟨hslot, -⟩ := (Call.stands_iff hf).1 (h.stands call hcall)
  have hdue : (s.slots call.surface).fired = true ∨ ∃ till ≤ now, (s.slots call.surface).till = some till := by
    rw [hslot, Call.slot]
    split
    · exact .inl rfl
    · rename_i hnot
      exact .inr ⟨call.till, hpassed.resolve_left hnot, rfl⟩
  obtain ⟨hcancels, hfired⟩ := Armed.look_passed hdue
  cases ht with
  | leaves now' next' i left' hw' hending' =>
    cases hw.symm.trans hw'
    cases hending.symm.trans hending'
  | looks now' next' i left' hw' =>
    cases hw.symm.trans hw'
    refine ⟨((h.looks hw).passed hcall hf).1 ?_, ?_⟩
    · dsimp only [State.looked, Armed.passed]
      rw [Function.update_self]
      exact hfired
    · dsimp only [State.looked]
      rw [hcancels]
      rfl

/-- Where no two calls on one surface are in flight at once and none is kept that is to be looked at earlier than the thread
looks, no deadline is lost or fired on another call: the thread waits no longer than until the first of those armed; it
cancels a surface's read only while a call on it is in flight whose own deadline has fired; a look at a surface whose call's
deadline passed fires it and cancels, each time until it is disarmed, and the next look is within the time to cancel again;
and each call is told that its deadline passed just where it fired. -/
theorem fires_its_own :
    ∀ s, Reach State.step Ok Begins s →
      (∀ since looks, s.watcher = .waits since looks false → (∀ call ∈ s.calls, call.phase ≠ .arming) →
        ∀ i ∈ s.kept, ∀ till, (s.slots i).till = some till → ∃ look, looks = some look ∧ look ≤ till) ∧
      (∀ a s', Ok s a → s.step a = some s' → s'.cancelled = s.cancelled ∨ ∃ i, s'.cancelled = i :: s.cancelled ∧
        ∃ call ∈ s'.calls, call.surface = i ∧ call.inFlight = true ∧ call.number ∈ s'.fired ∧ call.till ≤ s'.clock) ∧
      (∀ call ∈ s.calls, call.inFlight = true →
        ((s.slots call.surface).passed = true ↔ call.number ∈ s.fired) ∧
        (call.number ∉ s.fired → (s.slots call.surface).till = some call.till) ∧
        (∀ now next left s', s.watcher = .looking now next (call.surface :: left) → s.ending call.surface = false →
          call.number ∈ s.fired ∨ call.till ≤ now → s.step .looks = some s' →
          call.number ∈ s'.fired ∧ s'.cancelled = call.surface :: s.cancelled) ∧
        (call.number ∈ s.fired → call.surface ∈ s.kept → ∀ since looks, s.watcher = .waits since looks false →
          ∃ look, looks = some look ∧ look ≤ since + again)) ∧
      ∀ call ∈ s.calls, ∀ fired, call.phase = .ended fired → (fired = true ↔ call.number ∈ s.fired) := by
  intro s hs
  have h := reach_sound hs
  have hseen : ∀ {since looks i}, s.watcher = .waits since looks false → i ∈ s.kept → s.Seen since looks i := by
    intro since looks i hw hi
    have hwatched := h.watched
    rw [State.Watched, hw] at hwatched
    exact hwatched rfl i hi
  refine ⟨fun since looks hw hnone i hi till htill => ?_, fun a s' hok hstep => h.cancels hok (taken_of_step hstep),
    fun call hcall hf => ?_, fun call hcall fired hphase => ?_⟩
  · obtain hlater | ⟨-, call, hcall, harming, -⟩ := hseen hw hi
    · obtain ⟨_, _, _, _, _, _, _, _, hslot⟩ := h.exists_call htill
      have hfired : (s.slots i).fired ≠ true := by
        rw [hslot]
        exact Bool.false_ne_true
      refine hlater till ?_
      rw [Armed.due, if_neg hfired]
      exact htill
    · exact absurd harming (hnone call hcall)
  · refine ⟨h.passed hcall hf, fun hnot => ?_,
      fun now next left s' hw hending hpassed hstep => ?_, fun hin hkept since looks hw => ?_⟩
    · rw [((Call.stands_iff hf).1 (h.stands call hcall)).1, Call.slot, if_neg hnot]
      rfl
    · exact h.looks_passed hcall hf hw hending hpassed (taken_of_step hstep)
    · have hfired := (h.passed hcall hf).2 hin
      obtain hlater | ⟨hnot, -⟩ := hseen hw hkept
      · exact hlater _ (if_pos hfired)
      · cases hfired.symm.trans hnot
  · have hstands := h.stands call hcall
    rwa [Call.Stands, hphase] at hstands

/-- Two calls on one surface: the second arms before the first disarms.  Its deadline fires, and the first is told. -/
private def firesOnAnother : List Action :=
  [.keeps 0, .calls 0 2, .arms 0, .tells 0, .calls 0 5, .arms 0, .tells 0, .ticks 5, .wakes, .looks, .rests, .disarms 1]

/-- Or the first disarms it, and it is never looked at again. -/
private def losesAnother : List Action :=
  [.keeps 0, .calls 0 2, .arms 0, .tells 0, .calls 0 5, .arms 0, .tells 0, .disarms 1, .wakes, .looks, .rests]

/-- A surface kept once its deadline is armed, the thread waiting for another. -/
private def keptLate : List Action :=
  [.keeps 1, .wakes, .looks, .rests, .calls 0 2, .arms 0, .tells 0, .wakes, .looks, .rests, .keeps 0]

private def first : State := ⟨0, fun _ => ⟨none, false, 0⟩, fun _ => false, [], .absent, [], 0, [], []⟩

theorem fired_on_another_or_lost :
    (∃ s, Reach State.step Always Begins s ∧
      (s.calls.any fun call => call.phase == .ended true && !s.fired.contains call.number) = true) ∧
    (∃ s, Reach State.step Always Begins s ∧ (s.watcher == .waits s.clock none false && s.calls.any fun call =>
      call.inFlight && !s.fired.contains call.number && (s.slots call.surface).till.isNone) = true) ∧
    ∃ s, Reach State.step Always Begins s ∧ (s.watcher == .waits s.clock none false && s.kept.any fun i =>
      (s.slots i).till.isSome) = true :=
  ⟨Reach.exists_of_runWhere State.step Always (show Begins first from ⟨0, 0, rfl⟩) firesOnAnother
      (fun s => s.calls.any fun call => call.phase == .ended true && !s.fired.contains call.number) (by decide),
    Reach.exists_of_runWhere State.step Always (show Begins first from ⟨0, 0, rfl⟩) losesAnother
      (fun s => s.watcher == .waits s.clock none false && s.calls.any fun call =>
        call.inFlight && !s.fired.contains call.number && (s.slots call.surface).till.isNone) (by decide),
    Reach.exists_of_runWhere State.step Always (show Begins first from ⟨0, 0, rfl⟩) keptLate
      (fun s => s.watcher == .waits s.clock none false && s.kept.any fun i => (s.slots i).till.isSome) (by decide)⟩

/-- A call on a surface kept, whose deadline fires, and is told so. -/
private def firesThenEnds : List Action :=
  [.keeps 0, .wakes, .looks, .rests, .calls 0 2, .arms 0, .tells 0, .ticks 2, .wakes, .looks, .rests, .disarms 0]

theorem told_fired : ∃ s, Reach State.step Ok Begins s ∧
    ∀ call ∈ s.calls, ∀ fired, call.phase = .ended fired → (fired = true ↔ call.number ∈ s.fired) := by
  obtain ⟨s, hs, -⟩ := Reach.exists_of_runWhere State.step Ok (show Begins first from ⟨0, 0, rfl⟩) firesThenEnds
    (fun s => s.calls.any fun call => call.phase == .ended true) (by decide)
  exact ⟨s, hs, (fires_its_own s hs).2.2.2⟩

end Deadline
