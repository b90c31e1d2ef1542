import XmipRuntime.Library.Pick
import XmipRuntime.Library.Run
import XmipRuntime.SendStep.State

/-!
# The places of the Send pool

Every Message a node sends is admitted to a place in its Send pool first (`src/send_step/admission.rs`), and a place is
taken in one hold of the lock, carried through a request of Xmip Storage and used or given back in another: by a
Publication (`src/ledger/publication.rs`, `src/message_path.rs`), by the dispatching's scan and the send threads it
leaves its claims to (`src/send_step/scan.rs`, `src/send_step/dispatch.rs`), and by the pick-up of a resumed
Subscription (`src/held_work.rs`).  The machine is all of them, one hold of the lock a step, Xmip Storage answering
whatever it will.

`conserved_of_marked`: the pool's account holds exactly as long as no scan gives a claim back for a Journey its mark is
gone from; `marked_of_handsUnmarked`: only a pick-up handing over what a scan is taking can do that.
-/

namespace SendStep

open Library Ledger

/-! ### What is under way -/

/-- A Publication: lined up and asked, then answered. -/
structure Publishing where
  lined : LinedUp
  answered : Bool

/-- A Message a scan found that is not known to it. -/
structure Unclaimed where
  journey : Nat
  queue : Nat
  deriving DecidableEq

/-- What the dispatching does: nothing, or something with the entry of a queue it has just read. -/
inductive Dispatching where
  | idle
  /-- Not known to the node, no place asked for yet. -/
  | found (unclaimed : Unclaimed)
  /-- Under a place, not marked yet. -/
  | placed (unclaimed : Unclaimed)
  /-- Marked, and claimed on the dispatching itself, in the queue's order. -/
  | taking (unclaimed : Unclaimed)
  /-- The pool had no room. -/
  | full (queue : Nat)
  deriving DecidableEq

inductive PickingUp where
  /-- Its move asked; `here`, under a place of its own. -/
  | moving (departure : Departure) (here : Bool)
  | moved (departure : Departure) (here : Bool)
  /-- Owned, not yet among what is handed. -/
  | owned (departure : Departure)
  deriving DecidableEq

structure Sys where
  step : State
  publishing : List Publishing
  dispatching : Dispatching
  /-- What a scan marked and left to a send thread to claim. -/
  takers : List Unclaimed
  pickingUp : List PickingUp
  /-- On a send thread, to be settled. -/
  passes : List Departure

/-- As a send step starts. -/
def Sys.starting (served : List Nat) : Sys := ⟨.starting served, [], .idle, [], [], []⟩

def Sys.Starts (s : Sys) : Prop := ∃ served, s = .starting served

/-! ### One hold of the lock -/

inductive Action where
  | lineUp (departing : List (Nat × String)) (mint : Nat → Nat) (now : Nat)
  /-- Xmip Storage did not take the Publication. -/
  | refused (i : Nat)
  | published (i : Nat) (holds : List Claim)
  | routed (i : Nat) (journeys : List (Nat × Journey)) (now : Nat)
  | unroutable (i : Nat)
  /-- The dispatching reads an entry of a queue that is due. -/
  | read (unclaimed : Unclaimed) (place : Nat)
  /-- The dispatching finds no room before it reads `queue`. -/
  | noRoom (queue : Nat)
  | admitOne
  | mark (sequenced : Bool)
  | starve
  /-- What the dispatching itself claims: taken, or given back. -/
  | take (departure : Departure)
  | untake
  /-- What a send thread claims: taken, or given back, also where it panics. -/
  | taken (i : Nat) (departure : Departure)
  | untaken (i : Nat)
  | pickUp (departure : Departure)
  | notMoved (i : Nat)
  | moved (i : Nat)
  | hand (i : Nat)
  | push (i : Nat)
  | ask (i : Nat)
  | next (now : Nat)
  | settle (i : Nat) (now : Nat) (ended : Ended)
  | rescan

variable (c : Settings)

namespace Sys

/-- A Publication's next hold of the lock. -/
def publishes (s : Sys) : Action → Option Sys
  | .lineUp departing mint now =>
    let lined := s.step.lineUp c departing mint now
    some { s with step := lined.2, publishing := s.publishing ++ [⟨lined.1, false⟩] }
  | .refused i => do
    let (p, rest) ← pick s.publishing i
    if p.answered then none else some { s with step := s.step.withdraw p.lined.admitted, publishing := rest }
  | .published i holds => do
    let (p, rest) ← pick s.publishing i
    let confirmed := p.lined.confirmed holds
    if p.answered then none
    else some { s with step := s.step.withdraw confirmed.2, publishing := rest ++ [⟨confirmed.1, true⟩] }
  | .routed i journeys now => do
    let (p, rest) ← pick s.publishing i
    if p.answered then some { s with step := s.step.handing c p.lined journeys now, publishing := rest } else none
  | .unroutable i => do
    let (p, rest) ← pick s.publishing i
    if p.answered then some { s with step := s.step.withdraw p.lined.admitted, publishing := rest } else none
  | _ => none

/-- The dispatching's next hold of the lock, as it scans a queue. -/
def scans (s : Sys) : Action → Option Sys
  | .read unclaimed place =>
    if s.dispatching = .idle then
      if s.step.known unclaimed.queue unclaimed.journey place then some s
      else some { s with dispatching := .found unclaimed }
    else none
  | .noRoom queue =>
    if s.dispatching = .idle ∧ s.step.room c = 0 then some { s with dispatching := .full queue } else none
  | .admitOne =>
    match s.dispatching with
    | .found unclaimed =>
      let admitted := s.step.admitFor c 1
      if admitted.1 = 0 then some { s with step := admitted.2, dispatching := .full unclaimed.queue }
      else some { s with step := admitted.2, dispatching := .placed unclaimed }
    | _ => none
  | .mark sequenced =>
    match s.dispatching with
    | .placed unclaimed =>
      let step := s.step.mark unclaimed.journey
      -- What passes in a sequence is claimed here; the rest is a send thread's.
      if sequenced then some { s with step, dispatching := .taking unclaimed }
      else some { s with step, dispatching := .idle, takers := s.takers ++ [unclaimed] }
    | _ => none
  | .starve =>
    match s.dispatching with
    | .full queue => some { s with step := s.step.starve queue, dispatching := .idle }
    | _ => none
  | _ => none

/-- A claim a scan asked for, answered: on the dispatching itself or on a send thread. -/
def takes (s : Sys) : Action → Option Sys
  | .take departure =>
    match s.dispatching with
    | .taking unclaimed =>
      if departure.id = unclaimed.journey then
        some { s with
          step := s.step.own departure.id (.of departure), dispatching := .idle, passes := s.passes ++ [departure] }
      else none
    | _ => none
  | .untake =>
    match s.dispatching with
    | .taking unclaimed => some { s with step := s.step.untake unclaimed.journey, dispatching := .idle }
    | _ => none
  | .taken i departure => do
    let (unclaimed, rest) ← pick s.takers i
    if departure.id = unclaimed.journey then
      some { s with
        step := s.step.own departure.id (.of departure), takers := rest, passes := s.passes ++ [departure] }
    else none
  | .untaken i => do
    let (unclaimed, rest) ← pick s.takers i
    some { s with step := s.step.untake unclaimed.journey, takers := rest }
  | _ => none

/-- A pick-up's next hold of the lock. -/
def picksUp (s : Sys) : Action → Option Sys
  | .pickUp departure =>
    if c.sentHere departure.port then
      let admitted := s.step.admitFor c 1
      some { s with
        step := admitted.2, pickingUp := s.pickingUp ++ [.moving departure (decide (admitted.1 = 1))] }
    else some { s with pickingUp := s.pickingUp ++ [.moving departure false] }
  | .notMoved i => do
    match ← pick s.pickingUp i with
    | (.moving _ here, rest) => some { s with step := s.step.withdraw here.toNat, pickingUp := rest }
    | _ => none
  | .moved i => do
    match ← pick s.pickingUp i with
    | (.moving departure here, rest) => some { s with pickingUp := rest ++ [.moved departure here] }
    | _ => none
  | .hand i => do
    match ← pick s.pickingUp i with
    | (.moved departure true, rest) =>
      some { s with step := s.step.own departure.id (.of departure), pickingUp := rest ++ [.owned departure] }
    | _ => none
  | .push i => do
    match ← pick s.pickingUp i with
    | (.owned departure, rest) =>
      some { s with step := { s.step with handed := s.step.handed ++ [departure] }, pickingUp := rest }
    | _ => none
  | .ask i => do
    match ← pick s.pickingUp i with
    | (.moved departure false, rest) => some { s with step := s.step.ask departure.queue, pickingUp := rest }
    | _ => none
  | _ => none

/-- What was handed taken up, and a pass settled. -/
def sends (s : Sys) : Action → Option Sys
  | .next now =>
    if s.dispatching = .idle then
      let next := s.step.next now
      some { s with step := next.2, passes := s.passes ++ next.1.2.1 }
    else none
  | .settle i now ended => do
    let (departure, rest) ← pick s.passes i
    some { s with step := s.step.settle departure now ended, passes := rest }
  | .rescan => some { s with step := s.step.askRescan }
  | _ => none

/-- One hold of the send step's lock. -/
def next (s : Sys) (a : Action) : Option Sys :=
  match a with
  | .lineUp .. | .refused .. | .published .. | .routed .. | .unroutable .. => s.publishes c a
  | .read .. | .noRoom .. | .admitOne | .mark .. | .starve => s.scans c a
  | .take .. | .untake | .taken .. | .untaken .. => s.takes a
  | .pickUp .. | .notMoved .. | .moved .. | .hand .. | .push .. | .ask .. => s.picksUp c a
  | .next .. | .settle .. | .rescan => s.sends a

/-- What one hold of the lock does. -/
inductive Taken (s : Sys) : Action → Sys → Prop
  | lineUp (departing : List (Nat × String)) (mint : Nat → Nat) (now : Nat) :
      Taken s (.lineUp departing mint now)
        { s with
          step := (s.step.lineUp c departing mint now).2
          publishing := s.publishing ++ [⟨(s.step.lineUp c departing mint now).1, false⟩] }
  | refused {i : Nat} {p : Publishing} {rest : List Publishing} : pick s.publishing i = some (p, rest) →
      Taken s (.refused i) { s with step := s.step.withdraw p.lined.admitted, publishing := rest }
  | published {i : Nat} {p : Publishing} {rest : List Publishing} (holds : List Claim) :
      pick s.publishing i = some (p, rest) →
      Taken s (.published i holds)
        { s with
          step := s.step.withdraw (p.lined.confirmed holds).2
          publishing := rest ++ [⟨(p.lined.confirmed holds).1, true⟩] }
  | routed {i : Nat} {p : Publishing} {rest : List Publishing} (journeys : List (Nat × Journey)) (now : Nat) :
      pick s.publishing i = some (p, rest) →
      Taken s (.routed i journeys now) { s with step := s.step.handing c p.lined journeys now, publishing := rest }
  | unroutable {i : Nat} {p : Publishing} {rest : List Publishing} : pick s.publishing i = some (p, rest) →
      Taken s (.unroutable i) { s with step := s.step.withdraw p.lined.admitted, publishing := rest }
  | passed (unclaimed : Unclaimed) (place : Nat) : Taken s (.read unclaimed place) s
  | found {unclaimed : Unclaimed} {place : Nat} : s.dispatching = .idle →
      s.step.known unclaimed.queue unclaimed.journey place = false →
      Taken s (.read unclaimed place) { s with dispatching := .found unclaimed }
  | noRoom {queue : Nat} : s.dispatching = .idle → s.step.room c = 0 →
      Taken s (.noRoom queue) { s with dispatching := .full queue }
  | full {unclaimed : Unclaimed} : s.dispatching = .found unclaimed → (s.step.admitFor c 1).1 = 0 →
      Taken s .admitOne { s with step := (s.step.admitFor c 1).2, dispatching := .full unclaimed.queue }
  | placed {unclaimed : Unclaimed} : s.dispatching = .found unclaimed → (s.step.admitFor c 1).1 ≠ 0 →
      Taken s .admitOne { s with step := (s.step.admitFor c 1).2, dispatching := .placed unclaimed }
  | markHere {unclaimed : Unclaimed} : s.dispatching = .placed unclaimed →
      Taken s (.mark true) { s with step := s.step.mark unclaimed.journey, dispatching := .taking unclaimed }
  | markThere {unclaimed : Unclaimed} : s.dispatching = .placed unclaimed →
      Taken s (.mark false)
        { s with step := s.step.mark unclaimed.journey, dispatching := .idle, takers := s.takers ++ [unclaimed] }
  | starve {queue : Nat} : s.dispatching = .full queue →
      Taken s .starve { s with step := s.step.starve queue, dispatching := .idle }
  | take {unclaimed : Unclaimed} {departure : Departure} : s.dispatching = .taking unclaimed →
      departure.id = unclaimed.journey →
      Taken s (.take departure)
        { s with
          step := s.step.own departure.id (.of departure), dispatching := .idle, passes := s.passes ++ [departure] }
  | untake {unclaimed : Unclaimed} : s.dispatching = .taking unclaimed →
      Taken s .untake { s with step := s.step.untake unclaimed.journey, dispatching := .idle }
  | taken {i : Nat} {unclaimed : Unclaimed} {rest : List Unclaimed} {departure : Departure} :
      pick s.takers i = some (unclaimed, rest) → departure.id = unclaimed.journey →
      Taken s (.taken i departure)
        { s with step := s.step.own departure.id (.of departure), takers := rest, passes := s.passes ++ [departure] }
  | untaken {i : Nat} {unclaimed : Unclaimed} {rest : List Unclaimed} : pick s.takers i = some (unclaimed, rest) →
      Taken s (.untaken i) { s with step := s.step.untake unclaimed.journey, takers := rest }
  | pickUp {departure : Departure} : c.sentHere departure.port = true →
      Taken s (.pickUp departure)
        { s with
          step := (s.step.admitFor c 1).2
          pickingUp := s.pickingUp ++ [.moving departure (decide ((s.step.admitFor c 1).1 = 1))] }
  | pickUpElsewhere {departure : Departure} : c.sentHere departure.port = false →
      Taken s (.pickUp departure) { s with pickingUp := s.pickingUp ++ [.moving departure false] }
  | notMoved {i : Nat} {departure : Departure} {here : Bool} {rest : List PickingUp} :
      pick s.pickingUp i = some (.moving departure here, rest) →
      Taken s (.notMoved i) { s with step := s.step.withdraw here.toNat, pickingUp := rest }
  | moved {i : Nat} {departure : Departure} {here : Bool} {rest : List PickingUp} :
      pick s.pickingUp i = some (.moving departure here, rest) →
      Taken s (.moved i) { s with pickingUp := rest ++ [.moved departure here] }
  | hand {i : Nat} {departure : Departure} {rest : List PickingUp} :
      pick s.pickingUp i = some (.moved departure true, rest) →
      Taken s (.hand i)
        { s with step := s.step.own departure.id (.of departure), pickingUp := rest ++ [.owned departure] }
  | push {i : Nat} {departure : Departure} {rest : List PickingUp} :
      pick s.pickingUp i = some (.owned departure, rest) →
      Taken s (.push i) { s with step := { s.step with handed := s.step.handed ++ [departure] }, pickingUp := rest }
  | ask {i : Nat} {departure : Departure} {rest : List PickingUp} :
      pick s.pickingUp i = some (.moved departure false, rest) →
      Taken s (.ask i) { s with step := s.step.ask departure.queue, pickingUp := rest }
  | next (now : Nat) : s.dispatching = .idle →
      Taken s (.next now) { s with step := (s.step.next now).2, passes := s.passes ++ (s.step.next now).1.2.1 }
  | settle {i : Nat} {departure : Departure} {rest : List Departure} (now : Nat) (ended : Ended) :
      pick s.passes i = some (departure, rest) →
      Taken s (.settle i now ended) { s with step := s.step.settle departure now ended, passes := rest }
  | rescan : Taken s .rescan { s with step := s.step.askRescan }

section Taken

variable {c} {s s' : Sys} {a : Action}

private theorem taken_of_publishes (h : s.publishes c a = some s') : s.Taken c a s' := by
  cases a with
  | lineUp departing mint now =>
    cases h
    exact .lineUp ..
  | refused i =>
    obtain ⟨⟨p, rest⟩, hp, h⟩ := Option.bind_eq_some_iff.1 h
    obtain ⟨-, h⟩ := Option.ite_none_left_eq_some.1 h
    cases h
    exact .refused hp
  | published i holds =>
    obtain ⟨⟨p, rest⟩, hp, h⟩ := Option.bind_eq_some_iff.1 h
    obtain ⟨-, h⟩ := Option.ite_none_left_eq_some.1 h
    cases h
    exact .published holds hp
  | routed i journeys now =>
    obtain ⟨⟨p, rest⟩, hp, h⟩ := Option.bind_eq_some_iff.1 h
    obtain ⟨-, h⟩ := Option.ite_none_right_eq_some.1 h
    cases h
    exact .routed journeys now hp
  | unroutable i =>
    obtain ⟨⟨p, rest⟩, hp, h⟩ := Option.bind_eq_some_iff.1 h
    obtain ⟨-, h⟩ := Option.ite_none_right_eq_some.1 h
    cases h
    exact .unroutable hp
  | _ => cases h

private theorem taken_of_scans (h : s.scans c a = some s') : s.Taken c a s' := by
  cases a with
  | read unclaimed place =>
    obtain ⟨hidle, h⟩ := Option.ite_none_right_eq_some.1 h
    split at h
    · cases h
      exact .passed ..
    · rename_i hknown
      cases h
      exact .found hidle (by simpa using hknown)
  | noRoom queue =>
    obtain ⟨⟨hidle, hroom⟩, h⟩ := Option.ite_none_right_eq_some.1 h
    cases h
    exact .noRoom hidle hroom
  | admitOne =>
    simp only [scans] at h
    split at h
    · rename_i unclaimed hd
      split at h
      · rename_i hfull
        cases h
        exact .full hd hfull
      · rename_i hroom
        cases h
        exact .placed hd hroom
    · cases h
  | mark sequenced =>
    simp only [scans] at h
    split at h
    · rename_i unclaimed hd
      cases sequenced with
      | true =>
        cases h
        exact .markHere hd
      | false =>
        cases h
        exact .markThere hd
    · cases h
  | starve =>
    simp only [scans] at h
    split at h
    · rename_i queue hd
      cases h
      exact .starve hd
    · cases h
  | _ => cases h

private theorem taken_of_takes (h : s.takes a = some s') : s.Taken c a s' := by
  cases a with
  | take departure =>
    simp only [takes] at h
    split at h
    · rename_i unclaimed hd
      obtain ⟨hid, h⟩ := Option.ite_none_right_eq_some.1 h
      cases h
      exact .take hd hid
    · cases h
  | untake =>
    simp only [takes] at h
    split at h
    · rename_i unclaimed hd
      cases h
      exact .untake hd
    · cases h
  | taken i departure =>
    obtain ⟨⟨unclaimed, rest⟩, hp, h⟩ := Option.bind_eq_some_iff.1 h
    obtain ⟨hid, h⟩ := Option.ite_none_right_eq_some.1 h
    cases h
    exact .taken hp hid
  | untaken i =>
    obtain ⟨⟨unclaimed, rest⟩, hp, h⟩ := Option.bind_eq_some_iff.1 h
    cases h
    exact .untaken hp
  | _ => cases h

private theorem taken_of_picksUp (h : s.picksUp c a = some s') : s.Taken c a s' := by
  cases a with
  | pickUp departure =>
    simp only [picksUp] at h
    split at h
    · rename_i hhere
      cases h
      exact .pickUp hhere
    · rename_i hhere
      cases h
      exact .pickUpElsewhere (by simpa using hhere)
  | notMoved i =>
    obtain ⟨⟨p, rest⟩, hp, h⟩ := Option.bind_eq_some_iff.1 h
    split at h
    · rename_i he
      cases h
      cases he
      exact .notMoved hp
    · cases h
  | moved i =>
    obtain ⟨⟨p, rest⟩, hp, h⟩ := Option.bind_eq_some_iff.1 h
    split at h
    · rename_i he
      cases h
      cases he
      exact .moved hp
    · cases h
  | hand i =>
    obtain ⟨⟨p, rest⟩, hp, h⟩ := Option.bind_eq_some_iff.1 h
    split at h
    · rename_i he
      cases h
      cases he
      exact .hand hp
    · cases h
  | push i =>
    obtain ⟨⟨p, rest⟩, hp, h⟩ := Option.bind_eq_some_iff.1 h
    split at h
    · rename_i he
      cases h
      cases he
      exact .push hp
    · cases h
  | ask i =>
    obtain ⟨⟨p, rest⟩, hp, h⟩ := Option.bind_eq_some_iff.1 h
    split at h
    · rename_i he
      cases h
      cases he
      exact .ask hp
    · cases h
  | _ => cases h

private theorem taken_of_sends (h : s.sends a = some s') : s.Taken c a s' := by
  cases a with
  | next now =>
    obtain ⟨hidle, h⟩ := Option.ite_none_right_eq_some.1 h
    cases h
    exact .next now hidle
  | settle i now ended =>
    obtain ⟨⟨departure, rest⟩, hp, h⟩ := Option.bind_eq_some_iff.1 h
    cases h
    exact .settle now ended hp
  | rescan =>
    cases h
    exact .rescan
  | _ => cases h

theorem taken_of_next (h : s.next c a = some s') : s.Taken c a s' := by
  cases a with
  | lineUp | refused | published | routed | unroutable => exact taken_of_publishes h
  | read | noRoom | admitOne | mark | starve => exact taken_of_scans h
  | take | untake | taken | untaken => exact taken_of_takes h
  | pickUp | notMoved | moved | hand | push | ask => exact taken_of_picksUp h
  | next | settle | rescan => exact taken_of_sends h

end Taken

end Sys

/-! ### The pool's account -/

/-- The places it holds. -/
def Dispatching.places : Dispatching → Nat
  | .placed _ | .taking _ => 1
  | .idle | .found _ | .full _ => 0

def PickingUp.places : PickingUp → Nat
  | .moving _ here | .moved _ here => here.toNat
  | .owned _ => 0

namespace Sys

/-- The places given out and neither turned into a Message owned nor given back: those of what is under way. -/
def places (s : Sys) : Nat :=
  total (fun p => p.lined.admitted) s.publishing + s.dispatching.places + s.takers.length +
    total PickingUp.places s.pickingUp

/-- No Publication, scan, pick-up or claim is under way. -/
def Idle (s : Sys) : Prop := s.publishing = [] ∧ s.dispatching = .idle ∧ s.takers = [] ∧ s.pickingUp = []

/-- How many places an untaking of the Journey `id` gives back. -/
def untakes (s : Sys) (id : Nat) : Nat := if id ∈ s.step.taking then 1 else 0

/-- What a step subtracts from the places admitted. -/
def gives (s : Sys) : Action → Nat
  | .refused i | .unroutable i | .routed i _ _ => (pick s.publishing i).elim 0 fun x => x.1.lined.admitted
  | .published i holds => (pick s.publishing i).elim 0 fun x => (x.1.lined.confirmed holds).2
  | .take _ | .taken _ _ | .hand _ => 1
  | .untake => match s.dispatching with
    | .taking unclaimed => s.untakes unclaimed.journey
    | _ => 0
  | .untaken i => (pick s.takers i).elim 0 fun x => s.untakes x.1.journey
  | .notMoved i => (pick s.pickingUp i).elim 0 fun x => x.1.places
  | _ => 0

/-- The account of the Send pool: never more than it has, exactly what is under way, no subtraction clamped — of the
pool's count or of a Publication's own — and nothing left where nothing is under way. -/
structure Conserved (s : Sys) : Prop where
  bounded : s.step.owned.size + s.step.admitted ≤ max c.most 1
  counted : s.step.admitted = s.places
  given : ∀ a s', s.next c a = some s' → s.gives a ≤ s.step.admitted
  confirmed : ∀ p ∈ s.publishing, ∀ holds, (p.lined.confirmed holds).2 ≤ p.lined.admitted
  idle : s.Idle → s.step.admitted = 0

/-- A claim of a scan's is given back only for a Journey its mark is still on. -/
def Marked (s : Sys) : Action → Prop
  | .untake => match s.dispatching with
    | .taking unclaimed => unclaimed.journey ∈ s.step.taking
    | _ => True
  | .untaken i => ∀ x ∈ pick s.takers i, x.1.journey ∈ s.step.taking
  | _ => True

/-- A pick-up hands over only a Journey no scan is taking. -/
def HandsUnmarked (s : Sys) : Action → Prop
  | .hand i => ∀ x ∈ pick s.pickingUp i, ∀ departure, x.1 = .moved departure true → departure.id ∉ s.step.taking
  | _ => True

/-! ### What one step does to the account -/

/-- The places a step's thread lets go of. -/
def releases (s : Sys) : Action → Nat
  | .untake | .untaken _ => 1
  | a => s.gives a

/-- Every Publication claims one Message for each place it has. -/
def Lined (s : Sys) : Prop := ∀ p ∈ s.publishing, p.lined.claimed.length = p.lined.admitted

/-- A step takes `gain` places the pool has room for, its thread lets go of its own, and as many Messages at most are
owned as were given back. -/
structure Accounts (s s' : Sys) (a : Action) (gain : Nat) : Prop where
  room : gain ≤ s.step.room c
  places : s'.places + s.releases a = s.places + gain
  admitted : s'.step.admitted = s.step.admitted + gain - s.gives a
  owned : s'.step.owned.size ≤ s.step.owned.size + s.gives a
  either : gain = 0 ∨ s.releases a = 0
  lined : s'.Lined

variable {c} {s s' : Sys}

/-- A Publication ends, all its places let go of. -/
private theorem ended_accounts {a : Action} {i : Nat} {p : Publishing} {rest : List Publishing} {step : State}
    (hl : s.Lined) (hp : pick s.publishing i = some (p, rest)) (hg : s.gives a = p.lined.admitted)
    (hr : s.releases a = p.lined.admitted) (hadm : step.admitted = s.step.admitted - p.lined.admitted)
    (hown : step.owned.size ≤ s.step.owned.size + p.lined.admitted) :
    s.Accounts c { s with step, publishing := rest } a 0 where
  room := Nat.zero_le _
  places := by
    have hsum := total_of_pick (fun p : Publishing => p.lined.admitted) hp
    rw [hr]
    simp only [places]
    omega
  admitted := by rw [hg]; exact hadm
  owned := by rw [hg]; exact hown
  either := .inl rfl
  lined := fun q hq => hl q (mem_of_mem_pick hp hq)

/-- A place is asked for: it is given where the pool has room. -/
private theorem admitFor_one_le (s : State) : (s.admitFor c 1).1 ≤ 1 := Nat.min_le_left ..

/-- What any step does to the account. -/
theorem next_accounts {a : Action} (hl : s.Lined) (h : s.next c a = some s') : ∃ gain, s.Accounts c s' a gain := by
  cases taken_of_next h with
  | lineUp departing mint now =>
    refine ⟨(s.step.lineUp c departing mint now).1.admitted, Nat.min_le_right .., ?_, rfl, Nat.le_refl _, .inr rfl, ?_⟩
    · simp only [places, releases, gives, total_snoc]
      omega
    · intro p hp
      rcases List.mem_append.1 hp with hp | hp
      · exact hl p hp
      · rw [List.mem_singleton.1 hp]
        exact lineUp_claimed c ..
  | refused hp =>
    refine ⟨0, ended_accounts hl hp ?_ ?_ (State.withdraw_admitted _) (by simp)⟩ <;> simp [releases, gives, hp]
  | @published i p rest holds hp =>
    have hle := LinedUp.confirmed_gone holds (hl p (mem_of_pick hp))
    have hsum := total_of_pick (fun p : Publishing => p.lined.admitted) hp
    have hadm := LinedUp.confirmed_admitted p.lined holds
    refine ⟨0, Nat.zero_le _, ?_, ?_, by simp, .inl rfl, ?_⟩
    · simp only [places, releases, gives, hp, Option.elim_some, total_snoc]
      omega
    · simp [gives, hp, State.withdraw_admitted]
    · intro q hq
      rcases List.mem_append.1 hq with hq | hq
      · exact hl q (mem_of_mem_pick hp hq)
      · rw [List.mem_singleton.1 hq]
        exact hle.2
  | @routed i p rest journeys now hp =>
    have hown := State.handing_owned_size (c := c) (s := s.step) p.lined journeys now
    have hlined := hl p (mem_of_pick hp)
    refine ⟨0, ended_accounts hl hp ?_ ?_ (State.handing_admitted ..) (by omega)⟩ <;> simp [releases, gives, hp]
  | unroutable hp =>
    refine ⟨0, ended_accounts hl hp ?_ ?_ (State.withdraw_admitted _) (by simp)⟩ <;> simp [releases, gives, hp]
  | passed => exact ⟨0, Nat.zero_le _, rfl, rfl, Nat.le_refl _, .inl rfl, hl⟩
  | found hd _ =>
    refine ⟨0, Nat.zero_le _, ?_, rfl, Nat.le_refl _, .inl rfl, hl⟩
    simp [places, releases, gives, hd, Dispatching.places]
  | noRoom hd _ =>
    refine ⟨0, Nat.zero_le _, ?_, rfl, Nat.le_refl _, .inl rfl, hl⟩
    simp [places, releases, gives, hd, Dispatching.places]
  | full hd hfull =>
    refine ⟨(s.step.admitFor c 1).1, Nat.min_le_right .., ?_, rfl, Nat.le_refl _, .inr rfl, hl⟩
    simp only [places, releases, gives, hd, Dispatching.places]
    omega
  | placed hd hroom =>
    have hle : (s.step.admitFor c 1).1 ≤ 1 := admitFor_one_le _
    refine ⟨(s.step.admitFor c 1).1, Nat.min_le_right .., ?_, rfl, Nat.le_refl _, .inr rfl, hl⟩
    simp only [places, releases, gives, hd, Dispatching.places]
    omega
  | markHere hd =>
    refine ⟨0, Nat.zero_le _, ?_, rfl, Nat.le_refl _, .inl rfl, hl⟩
    simp [places, releases, gives, hd, Dispatching.places]
  | markThere hd =>
    refine ⟨0, Nat.zero_le _, ?_, rfl, Nat.le_refl _, .inl rfl, hl⟩
    simp only [places, releases, gives, hd, Dispatching.places, List.length_append, List.length_singleton]
    omega
  | starve hd =>
    refine ⟨0, Nat.zero_le _, ?_, rfl, Nat.le_refl _, .inl rfl, hl⟩
    simp [places, releases, gives, hd, Dispatching.places]
  | take hd _ =>
    refine ⟨0, Nat.zero_le _, ?_, rfl, Table.size_put_le .., .inl rfl, hl⟩
    simp only [places, releases, gives, hd, Dispatching.places]
    omega
  | untake hd =>
    refine ⟨0, Nat.zero_le _, ?_, ?_, by simp, .inl rfl, hl⟩
    · simp only [places, releases, hd, Dispatching.places]
      omega
    · simp [gives, hd, untakes, State.untake_admitted]
  | taken hp _ =>
    have hlen := (pick_perm hp).length_eq
    refine ⟨0, Nat.zero_le _, ?_, rfl, Table.size_put_le .., .inl rfl, hl⟩
    simp only [places, releases, gives]
    rw [List.length_cons] at hlen
    omega
  | untaken hp =>
    have hlen := (pick_perm hp).length_eq
    refine ⟨0, Nat.zero_le _, ?_, ?_, by simp, .inl rfl, hl⟩
    · simp only [places, releases]
      rw [List.length_cons] at hlen
      omega
    · simp [gives, hp, untakes, State.untake_admitted]
  | pickUp _ =>
    have hone : (decide ((s.step.admitFor c 1).1 = 1)).toNat = (s.step.admitFor c 1).1 := by
      rcases Nat.le_one_iff_eq_zero_or_eq_one.1 (admitFor_one_le (c := c) s.step) with h | h <;> simp [h]
    refine ⟨(s.step.admitFor c 1).1, Nat.min_le_right .., ?_, rfl, Nat.le_refl _, .inr rfl, hl⟩
    simp only [places, releases, gives, total_snoc, PickingUp.places, hone]
    omega
  | pickUpElsewhere _ =>
    refine ⟨0, Nat.zero_le _, ?_, rfl, Nat.le_refl _, .inl rfl, hl⟩
    simp [places, releases, gives, PickingUp.places]
  | notMoved hp =>
    have hsum := total_of_pick PickingUp.places hp
    refine ⟨0, Nat.zero_le _, ?_, ?_, by simp, .inl rfl, hl⟩
    · simp only [places, releases, gives, hp, Option.elim_some]
      omega
    · simp [gives, hp, PickingUp.places, State.withdraw_admitted]
  | moved hp =>
    have hsum := total_of_pick PickingUp.places hp
    refine ⟨0, Nat.zero_le _, ?_, rfl, Nat.le_refl _, .inl rfl, hl⟩
    simp only [places, releases, gives, total_snoc, hsum, PickingUp.places]
    omega
  | hand hp =>
    have hsum := total_of_pick PickingUp.places hp
    refine ⟨0, Nat.zero_le _, ?_, rfl, Table.size_put_le .., .inl rfl, hl⟩
    simp only [places, releases, gives, total_snoc, hsum, PickingUp.places, Bool.toNat_true]
    omega
  | push hp =>
    have hsum := total_of_pick PickingUp.places hp
    refine ⟨0, Nat.zero_le _, ?_, rfl, Nat.le_refl _, .inl rfl, hl⟩
    simp only [places, releases, gives, hsum, PickingUp.places]
    omega
  | ask hp =>
    have hsum := total_of_pick PickingUp.places hp
    refine ⟨0, Nat.zero_le _, ?_, rfl, Nat.le_refl _, .inl rfl, hl⟩
    simp only [places, releases, gives, hsum, PickingUp.places, Bool.toNat_false]
    omega
  | next now _ => exact ⟨0, Nat.zero_le _, rfl, rfl, Nat.le_refl _, .inl rfl, hl⟩
  | settle now ended hp =>
    refine ⟨0, Nat.zero_le _, rfl, ?_, ?_, .inl rfl, hl⟩
    · simp [gives]
    · rw [State.settle_owned]
      exact Table.size_drop_le ..
  | rescan => exact ⟨0, Nat.zero_le _, rfl, rfl, Nat.le_refl _, .inl rfl, hl⟩

theorem gives_le_releases (s : Sys) (a : Action) : s.gives a ≤ s.releases a := by
  cases a with
  | untake =>
    simp only [gives, releases, untakes]
    split
    · split <;> omega
    · omega
  | untaken i =>
    simp only [gives, releases]
    cases pick s.takers i with
    | none => exact Nat.zero_le _
    | some x =>
      simp only [Option.elim_some, untakes]
      split <;> omega
  | _ => exact Nat.le_refl _

/-- A thread gives back all it lets go of just where its mark is still on. -/
theorem marked_iff {a : Action} (h : s.next c a = some s') : s.Marked a ↔ s.gives a = s.releases a := by
  cases taken_of_next h with
  | untake hd => simp [Marked, gives, releases, untakes, hd]
  | untaken hp => simp [Marked, gives, releases, untakes, hp]
  | _ => exact ⟨fun _ => rfl, fun _ => trivial⟩

/-! ### What holds of the account in every run -/

variable (c) in
/-- What no step breaks: the pool is never overfilled, and what is under way has its places. -/
structure Within (s : Sys) : Prop where
  bounded : s.step.owned.size + s.step.admitted ≤ max c.most 1
  places : s.places ≤ s.step.admitted
  lined : s.Lined

theorem Within.gives_le {a : Action} (hs : s.Within c) (h : s.next c a = some s') : s.gives a ≤ s.step.admitted := by
  obtain ⟨gain, hacc⟩ := next_accounts hs.lined h
  have hg := s.gives_le_releases a
  have hp := hacc.places
  have hc := hs.places
  rcases hacc.either with h | h <;> omega

theorem Within.next {a : Action} (hs : s.Within c) (h : s.next c a = some s') : s'.Within c := by
  obtain ⟨gain, hacc⟩ := next_accounts hs.lined h
  have hle := hs.gives_le h
  have hadm := hacc.admitted
  constructor
  · have hroom := hacc.room
    have hown := hacc.owned
    have hbound := hs.bounded
    unfold State.room at hroom
    omega
  · have hg := s.gives_le_releases a
    have hplaces := hacc.places
    have hwithin := hs.places
    omega
  · exact hacc.lined

theorem starts_starting (served : List Nat) : (starting served).Starts := ⟨served, rfl⟩

theorem starts_within (h : s.Starts) : s.Within c := by
  obtain ⟨served, rfl⟩ := h
  refine ⟨Nat.zero_le _, Nat.le_refl _, ?_⟩
  intro p hp
  cases hp

theorem within_of_reach {ok : Sys → Action → Prop} (h : Reach (Sys.next c) ok Starts s) : s.Within c :=
  h.invariant (fun _ => starts_within) fun _ _ _ hs _ hn => hs.next hn

/-! ### Where no mark is missing, the account holds -/

theorem Within.conserved (hs : s.Within c) (hc : s.step.admitted = s.places) : s.Conserved c where
  bounded := hs.bounded
  counted := hc
  given := fun _ _ h => hs.gives_le h
  confirmed := fun p hp holds => (LinedUp.confirmed_gone holds (hs.lined p hp)).1
  idle := by
    rintro ⟨hpub, hdisp, htake, hpick⟩
    rw [hc]
    simp [Sys.places, hpub, hdisp, htake, hpick, Dispatching.places]

/-- A step keeps the count exact just where its thread gives back all it lets go of. -/
theorem Within.counted_iff {a : Action} (hs : s.Within c) (hc : s.step.admitted = s.places)
    (h : s.next c a = some s') : s'.step.admitted = s'.places ↔ s.Marked a := by
  obtain ⟨gain, hacc⟩ := next_accounts hs.lined h
  have hle := hs.gives_le h
  have hplaces := hacc.places
  have hadm := hacc.admitted
  rw [marked_iff h]
  constructor <;> intro <;> omega

/-- In every run in which a scan's claim is given back only for a Journey its mark is still on, the pool's account
holds in every state, and the first step that does otherwise is the one that breaks it. -/
theorem conserved_of_marked (h : Reach (Sys.next c) Marked Starts s) :
    s.Conserved c ∧ ∀ a s', s.next c a = some s' → (s'.Conserved c ↔ s.Marked a) := by
  have hwithin : s.Within c := within_of_reach h
  have hcount : s.step.admitted = s.places := by
    induction h with
    | start hs =>
      obtain ⟨served, rfl⟩ := hs
      rfl
    | next hr hm hn ih => exact ((within_of_reach hr).counted_iff (ih (within_of_reach hr)) hn).2 hm
  refine ⟨hwithin.conserved hcount, ?_⟩
  intro a s' hn
  constructor
  · exact fun hc => (hwithin.counted_iff hcount hn).1 hc.counted
  · exact fun hm => (hwithin.next hn).conserved ((hwithin.counted_iff hcount hn).2 hm)

/-! ### Runs -/

instance (s : Sys) (a : Action) : Decidable (s.Marked a) :=
  match a with
  | .untake => match h : s.dispatching with
    | .taking unclaimed => decidable_of_iff (unclaimed.journey ∈ s.step.taking) (by simp [Marked, h])
    | .idle | .found _ | .placed _ | .full _ => .isTrue (by simp [Marked, h])
  | .untaken i => inferInstanceAs (Decidable (∀ x ∈ pick s.takers i, x.1.journey ∈ s.step.taking))
  | .lineUp .. | .refused .. | .published .. | .routed .. | .unroutable .. | .read .. | .noRoom .. | .admitOne | .mark ..
  | .starve | .take .. | .taken .. | .pickUp .. | .notMoved .. | .moved .. | .hand .. | .push .. | .ask .. | .next ..
  | .settle .. | .rescan => .isTrue trivial

/-- A node with two places in its Send pool, sending the one Port there is. -/
def twoPlaces : Settings where
  node := 0
  most := 2
  lease := 30
  queue := fun _ => 7
  serves := fun _ => true
  sequential := fun _ => false

/-- A Journey's record, and its departure from the queue of twoPlaces' Port. -/
def plain : Journey := ⟨.active, none, [], none, some "Out", none, 0, []⟩

def departing (id token : Nat) : Departure := ⟨id, plain, "Out", 7, ⟨id, 0, token, 0⟩, 30⟩

/-- A Publication of three Messages that is admitted two, one of them taken up by another node before its answer came,
and a scan whose claim is refused meanwhile. -/
theorem conserved_refusedOnce :
    ∃ s, Reach (Sys.next twoPlaces) Marked Starts s ∧ s.Conserved twoPlaces ∧ s.step.owned.size = 1 := by
  obtain ⟨s, hs, hp⟩ := Reach.exists_of_runWhere (Sys.next twoPlaces) Marked (starts_starting [7])
    [.lineUp [(1, "Out"), (2, "Out"), (3, "Out")] id 0, .published 0 [⟨1, 0, 1, 9⟩], .read ⟨4, 7⟩ 0, .admitOne, .mark false,
      .routed 0 [(1, plain), (2, plain), (3, plain)] 5, .untaken 0, .next 6]
    (fun s => decide (s.step.owned.size = 1)) (by decide +kernel)
  exact ⟨s, hs, (conserved_of_marked hs).1, by simpa using hp⟩

/-- A place is lost for good: the move of a held Message enters it in its Port's queue, a scan finds it there and takes
it under a place and a mark, the pick-up hands it over and the mark goes with that, and the scan's claim, refused,
finds no mark to give its place back by.  Once all of it has ended a place is still out. -/
theorem placeLost_by_a_handOver :
    ∃ s, Reach (Sys.next twoPlaces) Always Starts s ∧ s.Idle ∧ s.step.admitted = 1 ∧ s.step.owned.size = 0 ∧
      ¬ s.Conserved twoPlaces := by
  obtain ⟨s, hs, hp⟩ := Reach.exists_of_runWhere (Sys.next twoPlaces) Always (starts_starting [7])
    [.pickUp (departing 1 11), .moved 0, .read ⟨1, 7⟩ 0, .admitOne, .mark false, .hand 0, .push 0, .untaken 0, .next 0,
      .settle 0 1 .completed]
    (fun s => s.publishing.isEmpty && decide (s.dispatching = .idle) && s.takers.isEmpty && s.pickingUp.isEmpty &&
      decide (s.step.admitted = 1) && decide (s.step.owned.size = 0)) (by decide +kernel)
  simp only [Bool.and_eq_true, List.isEmpty_iff, decide_eq_true_eq] at hp
  obtain ⟨⟨⟨⟨⟨hpub, hdisp⟩, htake⟩, hpick⟩, hadm⟩, hown⟩ := hp
  have hidle : s.Idle := ⟨hpub, hdisp, htake, hpick⟩
  refine ⟨s, hs, hidle, hadm, hown, ?_⟩
  intro hc
  have := hc.idle hidle
  omega

/-! ### A mark goes missing only by a pick-up -/

end Sys

/-- The Journey the dispatching itself takes. -/
def Dispatching.mark : Dispatching → Option Nat
  | .taking unclaimed => some unclaimed.journey
  | _ => none

/-- The Journey it is about to mark. -/
def Dispatching.pending : Dispatching → Option Nat
  | .found unclaimed | .placed unclaimed => some unclaimed.journey
  | _ => none

namespace Sys

variable {c} {s s' : Sys}

/-- The Journeys scans are taking. -/
def marks (s : Sys) : List Nat := s.dispatching.mark.toList ++ s.takers.map Unclaimed.journey

/-- Every Journey being taken is marked, each taken once. -/
structure MarksKept (s : Sys) : Prop where
  nodup : s.marks.Nodup
  marked : ∀ id ∈ s.marks, id ∈ s.step.taking
  pending : ∀ id ∈ s.dispatching.pending, id ∉ s.marks

/-- The Journeys taken are the same, and no mark went. -/
private theorem MarksKept.same (hs : s.MarksKept) (hd : s'.dispatching = s.dispatching) (ht : s'.takers = s.takers)
    (hm : s.step.taking ⊆ s'.step.taking) : s'.MarksKept := by
  have he : s'.marks = s.marks := by unfold marks; rw [hd, ht]
  refine ⟨he ▸ hs.nodup, ?_, ?_⟩
  · rw [he]
    exact fun id hid => hm (hs.marked id hid)
  · rw [he, hd]
    exact hs.pending

/-- One of the Journeys taken is let go of, with its mark alone. -/
private theorem MarksKept.left {j : Nat} (hs : s.MarksKept) (hp : (j :: s'.marks).Perm s.marks)
    (hd : s'.dispatching.pending = s.dispatching.pending) (hm : s'.step.taking = s.step.taking.erase j) :
    s'.MarksKept := by
  have hnd := List.nodup_cons.1 (hp.nodup_iff.2 hs.nodup)
  have hmem : ∀ k ∈ s'.marks, k ∈ s.marks := fun k hk => hp.mem_iff.1 (List.mem_cons_of_mem _ hk)
  refine ⟨hnd.2, ?_, ?_⟩
  · intro k hk
    rw [hm, Finset.mem_erase]
    refine ⟨?_, hs.marked k (hmem k hk)⟩
    rintro rfl
    exact hnd.1 hk
  · rw [hd]
    exact fun k hk hk' => hs.pending k hk (hmem k hk')

/-- The dispatching goes on with something else, no Journey of it being taken before or after. -/
private theorem MarksKept.moves (hs : s.MarksKept) (hm : s.dispatching.mark = none) (hm' : s'.dispatching.mark = none)
    (ht : s'.takers = s.takers) (hk : s'.step.taking = s.step.taking)
    (hp : ∀ id ∈ s'.dispatching.pending, id ∉ s.marks) : s'.MarksKept := by
  have he : s'.marks = s.marks := by unfold marks; rw [hm, hm', ht]
  refine ⟨he ▸ hs.nodup, ?_, ?_⟩
  · rw [he, hk]
    exact hs.marked
  · rw [he]
    exact hp

/-- The Journey about to be marked joins those taken, on the dispatching or on a send thread. -/
private theorem MarksKept.joined {unclaimed : Unclaimed} (hs : s.MarksKept) (hd : s.dispatching = .placed unclaimed)
    (hperm : s'.marks.Perm (unclaimed.journey :: s.marks)) (htaking : s'.step.taking = insert unclaimed.journey s.step.taking)
    (hpend : s'.dispatching.pending = none) : s'.MarksKept := by
  have hnot : unclaimed.journey ∉ s.marks := hs.pending _ (by rw [hd]; rfl)
  refine ⟨hperm.nodup_iff.2 (List.nodup_cons.2 ⟨hnot, hs.nodup⟩), ?_, by rw [hpend]; simp⟩
  intro id hid
  rw [htaking, Finset.mem_insert]
  rcases List.mem_cons.1 (hperm.mem_iff.1 hid) with rfl | hid
  · exact .inl rfl
  · exact .inr (hs.marked id hid)

theorem MarksKept.next {a : Action} (hs : s.MarksKept) (h : s.next c a = some s') (hu : s.HandsUnmarked a) :
    s'.MarksKept := by
  cases taken_of_next h with
  | passed => exact hs
  | @found unclaimed place hd hknown =>
    refine hs.moves (by rw [hd]; rfl) rfl rfl rfl ?_
    -- What is not known is not marked, so nobody is taking it.
    intro id hid hmem
    cases hid
    have htaking := hs.marked _ hmem
    simp [State.known, htaking] at hknown
  | noRoom hd _ => exact hs.moves (by rw [hd]; rfl) rfl rfl rfl (by simp [Dispatching.pending])
  | full hd _ => exact hs.moves (by rw [hd]; rfl) rfl rfl rfl (by simp [Dispatching.pending])
  | placed hd _ =>
    refine hs.moves (by rw [hd]; rfl) rfl rfl rfl ?_
    have hpending := hs.pending
    rwa [hd] at hpending
  | markHere hd =>
    refine hs.joined hd ?_ rfl rfl
    simp [marks, hd, Dispatching.mark]
  | markThere hd =>
    refine hs.joined hd ?_ rfl rfl
    simp only [marks, Dispatching.mark, Option.toList_none, List.nil_append, List.map_append, List.map_cons,
      List.map_nil, hd]
    exact List.perm_append_singleton ..
  | starve hd => exact hs.moves (by rw [hd]; rfl) rfl rfl rfl (by simp [Dispatching.pending])
  | @take unclaimed departure hd hid =>
    refine hs.left (j := unclaimed.journey) ?_ ?_ (by rw [← hid]; rfl)
    · simp [marks, hd, Dispatching.mark]
    · rw [hd]; rfl
  | @untake unclaimed hd =>
    refine hs.left (j := unclaimed.journey) ?_ ?_ (by simp)
    · simp [marks, hd, Dispatching.mark]
    · rw [hd]; rfl
  | @taken i unclaimed rest departure hp hid =>
    refine hs.left (j := unclaimed.journey) ?_ rfl (by rw [← hid]; rfl)
    exact List.perm_middle.symm.trans (((pick_perm hp).map Unclaimed.journey).append_left _)
  | @untaken i unclaimed rest hp =>
    refine hs.left (j := unclaimed.journey) ?_ rfl (by simp)
    exact List.perm_middle.symm.trans (((pick_perm hp).map Unclaimed.journey).append_left _)
  | @hand i departure rest hp =>
    have hnot : departure.id ∉ s.step.taking := hu _ hp departure rfl
    refine hs.same rfl rfl ?_
    show s.step.taking ⊆ s.step.taking.erase departure.id
    rw [Finset.erase_eq_of_notMem hnot]
  | lineUp | pickUp | pickUpElsewhere | next | rescan => exact hs.same rfl rfl (Finset.Subset.refl _)
  | refused | published | routed | unroutable | notMoved | moved | push | ask | settle =>
    exact hs.same rfl rfl (by simp)

theorem MarksKept.claims_marked (hs : s.MarksKept) (a : Action) : s.Marked a := by
  cases a with
  | untake =>
    simp only [Marked]
    split
    · rename_i unclaimed hd
      exact hs.marked _ (by simp [marks, hd, Dispatching.mark])
    · trivial
  | untaken i =>
    intro x hx
    refine hs.marked _ (List.mem_append.2 (.inr ?_))
    exact List.mem_map.2 ⟨x.1, mem_of_pick hx, rfl⟩
  | _ => trivial

/-- Where a pick-up never hands over a Journey a scan is taking, no scan's mark goes missing. -/
theorem marked_of_handsUnmarked (h : Reach (Sys.next c) HandsUnmarked Starts s) :
    Reach (Sys.next c) Marked Starts s ∧ s.MarksKept := by
  induction h with
  | start hs =>
    refine ⟨.start hs, ?_⟩
    obtain ⟨served, rfl⟩ := hs
    exact ⟨List.nodup_nil, by simp [marks, starting, Dispatching.mark], by simp [starting, Dispatching.pending]⟩
  | next _ hu hn ih => exact ⟨.next ih.1 (ih.2.claims_marked _) hn, ih.2.next hn hu⟩

end Sys

end SendStep
