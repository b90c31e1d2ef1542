import XmipRuntime.Library.Pick
import XmipRuntime.Library.Run
import XmipRuntime.SendStep.Admission

/-!
# The retries a send step wakes for

A Message that could not be sent is kept at its place in Xmip Storage until it is to be tried again, and the node wakes
for its queue's earliest due time alone (`src/send_step/due.rs`).  That time is noted as the pass is settled, after Xmip
Storage took the hand-on, and replaced by what a read of the queue answers (`src/send_step/scan.rs`,
`src/send_step/reading.rs`); what is noted while a read is under way is kept across it.

The machine is one node's: the dispatching, which reads one queue after the other, each hold of the lock and each page a
step; the Messages its scans found, claimed and read again under their claims on send threads, each claim granted,
refused or not answered; and the passes, whose hand-on lands in one step and is noted in another, or which end with
nothing written and leave their Message where it was.  A pass's claim may lapse while it is under way; and other nodes take
retries up too, and give them back.  What else the node does to the send step's state meanwhile is the operations of
`Op`.  Xmip Storage answers every read: to its end, a read lists every retry that is due, or says when it is; one whose
hand-on landed after the read began it may miss.
-/

namespace Waking

open Library Ledger SendStep

/-! ### What is under way -/

/-- What becomes of a retry: it waits, a pass of this node has it, or another claim on it stands. -/
inductive Stands where
  | waiting
  | here
  | elsewhere
  deriving DecidableEq

/-- A retry kept in Xmip Storage: its place, whether its hand-on landed after the last read began, whether the node has
noted it, the instant it computed for it last, and what becomes of it now. -/
structure Retry where
  place : Nat
  fresh : Bool
  noted : Bool
  latest : Option Nat
  stands : Stands
  deriving DecidableEq

/-- A Message a scan marked, being claimed and read again under its claim; `answered`, once that has said how it stands
and its place is still to be given back. -/
structure Taker where
  journey : Nat
  place : Nat
  answered : Bool
  deriving DecidableEq

/-- Where a scan is with the entries it has read: between two, with one not known to the node, with one it has a place
for, without room, or done, having read the whole queue or not. -/
inductive Entry where
  | between
  | found (place : Nat × Nat)
  | placed (place : Nat × Nat)
  | full
  | done (whole : Bool)
  deriving DecidableEq

/-- A queue being read: what it found waiting so far, every entry it read, a Journey at a place, those still to be looked
at, and whether the last page was read. -/
structure Scan where
  queue : Nat
  waits : Due
  listed : List (Nat × Nat)
  pending : List (Nat × Nat)
  last : Bool
  entry : Entry

/-- What the dispatching does: it waits for something to do, or goes through queues to read, scanning one. -/
inductive Dispatching where
  | idle
  | going (queues : List Nat)
  | scanning (scan : Scan) (rest : List Nat)

structure Sys where
  step : State
  retries : Table Nat Retry
  dispatching : Dispatching
  takers : List Taker
  /-- Being sent. -/
  passes : List Departure
  /-- Being sent though their claims lapsed. -/
  adrift : List Departure
  /-- Handed on to wait so long for a retry, and not yet settled. -/
  landed : List (Departure × Nat)

/-- As a send step starts. -/
def Sys.starting (served : List Nat) : Sys := ⟨.starting served, .empty, .idle, [], [], [], []⟩

def Starts (s : Sys) : Prop := ∃ served, s = .starting served

/-! ### What each step does -/

/-- What else is done to the send step's state. -/
inductive Op where
  | ask (queue : Nat)
  | rescan
  | lineUp (departing : List (Nat × String)) (mint : Nat → Nat) (now : Nat)
  | withdraw (places : Nat)
  | handing (lined : LinedUp) (journeys : List (Nat × Journey)) (now : Nat)
  | admitOne
  | own (departure : Departure)
  | push (departure : Departure)
  | renewed (claim : Claim) (asked now : Nat) (answer : Renewed)

inductive Action where
  | op (op : Op)
  /-- Xmip Storage takes a pass's hand-on, to be tried again in `after`, its due time kept at `place`. -/
  | land (i after place : Nat)
  /-- The pass settled, its due time noted. -/
  | note (i now : Nat)
  /-- A pass that left nothing waiting anew settled. -/
  | settle (i now : Nat) (ended : Ended)
  /-- The claim of a pass lapses, or is another's, while it is under way; and it is settled, with nothing written. -/
  | lapse (i : Nat)
  | lapsed (i now : Nat) (ended : Ended)
  /-- A retry leaves its place: sent, failed or moved. -/
  | leave (id : Nat)
  /-- Another node takes a retry up; and it is given back unsent, or its claim lapses. -/
  | takenUp (id : Nat)
  | back (id : Nat)
  /-- The dispatching has something to do; `all`, where it is time to scan every queue. -/
  | next (now : Nat) (all : Bool)
  | noRoom
  | begin
  /-- A page asked at `asked`, and how long each retry still waits; those due it lists, the last page with it. -/
  | page (asked : Nat) (left : Nat → Option Nat) (listed : List (Nat × Nat)) (last : Bool)
  | look
  | admitEntry
  | mark
  | starve
  | whole (present : Finset (Nat × Nat)) (waiting : Nat)
  | waited
  /-- A claim answers: the Message is sent, not yet due, or passed — refused, not answered or not there, or, `marks`, not
  to be sent. -/
  | taken (i : Nat) (departure : Departure)
  | notDue (i t : Nat)
  | passed (i : Nat) (marks : Bool)
  | untaken (i : Nat)

/-- Where a Journey's Message leads: the Send Port and its queue. -/
structure Home where
  queue : Nat → Nat
  port : Nat → String

variable (c : Settings) (home : Home)

namespace Sys

/-- Whether the Message of a Journey at a place was found not to be sent. -/
def passedOver (s : Sys) (place : Nat × Nat) : Bool :=
  (s.step.passed.get (home.queue place.1)).any fun set => decide (place ∈ set)

/-- Whether the Message of the Journey `id` may be owned: no claim is taken on it while it waits for a retry, but by a
scan. -/
def sendable (s : Sys) (id : Nat) : Bool := (s.retries.get id).isNone

def does (s : Sys) : Op → Option Sys
  | .ask queue => some { s with step := s.step.ask queue }
  | .rescan => some { s with step := s.step.askRescan }
  | .lineUp departing mint now => some { s with step := (s.step.lineUp c departing mint now).2 }
  | .withdraw places => some { s with step := s.step.withdraw places }
  | .handing lined journeys now =>
    if lined.claimed.all fun one => s.sendable one.journey then
      some { s with step := s.step.handing c lined journeys now }
    else none
  | .admitOne => some { s with step := (s.step.admitFor c 1).2 }
  | .own departure =>
    if s.sendable departure.id then some { s with step := s.step.own departure.id (.of departure) } else none
  | .push departure => some { s with step := { s.step with handed := s.step.handed ++ [departure] } }
  | .renewed claim asked now answer => some { s with step := s.step.renewed c claim asked now answer }

/-- The retry of a Journey changed, where it has one. -/
def changed (s : Sys) (id : Nat) (f : Retry → Retry) : Table Nat Retry :=
  match s.retries.get id with
  | some r => s.retries.put id (f r)
  | none => s.retries

/-- A retry's latest instant. -/
def computed (s : Sys) (id t : Nat) (noted : Bool) : Table Nat Retry :=
  s.changed id fun r => { r with noted := noted || r.noted, latest := some t }

def stood (s : Sys) (id : Nat) (stands : Stands) : Table Nat Retry := s.changed id fun r => { r with stands }

/-- The retries once a pass of the Journey `id` ended: out of its place where it was sent or failed, another node's where
the claim was lost, and else where it was. -/
def after (s : Sys) (id : Nat) : Ended → Table Nat Retry
  | .completed | .failed _ => s.retries.drop id
  | .lost => s.stood id .elsewhere
  | .untried | .behind _ | .unwritten | .waiting _ => s.stood id .waiting

def handsOn (s : Sys) : Action → Option Sys
  | .land i after place => do
    let (departure, rest) ← pick s.passes i
    if departure.queue = home.queue departure.id then
      some { s with
        passes := rest
        landed := s.landed ++ [(departure, after)]
        retries := s.retries.put departure.id ⟨place, true, false, none, .waiting⟩ }
    else none
  | .note i now => do
    let (x, rest) ← pick s.landed i
    some { s with
      step := s.step.settle x.1 now (.waiting x.2)
      landed := rest
      retries := s.computed x.1.id (now + x.2) true }
  | .settle i now ended =>
    match ended with
    | .waiting _ => none
    | ended => do
      let (departure, rest) ← pick s.passes i
      if departure.queue = home.queue departure.id then
        some { s with step := s.step.settle departure now ended, passes := rest, retries := s.after departure.id ended }
      else none
  | .lapse i => do
    let (departure, rest) ← pick s.passes i
    some { s with passes := rest, adrift := s.adrift ++ [departure], retries := s.stood departure.id .elsewhere }
  | .lapsed i now ended =>
    match ended with
    | .completed | .failed _ | .waiting _ => none
    | ended => do
      let (departure, rest) ← pick s.adrift i
      some { s with step := s.step.settle departure now ended, adrift := rest }
  | .leave id => some { s with retries := s.retries.drop id }
  | .takenUp id =>
    if (s.retries.get id).any fun r => decide (r.stands = .waiting) then
      some { s with retries := s.stood id .elsewhere }
    else none
  | .back id =>
    if (s.retries.get id).any fun r => decide (r.stands = .elsewhere) then
      some { s with retries := s.stood id .waiting }
    else none
  | _ => none

/-- What one page says of a retry of `queue`: where it is not due, when it is. -/
def saidOf (queue asked : Nat) (left : Nat → Option Nat) (x : Nat × Retry) : Nat × Retry :=
  (x.1, if home.queue x.1 = queue then { x.2 with latest := ((left x.1).map (asked + ·)).or x.2.latest } else x.2)

/-- The retries once a page of `queue`, asked at `asked`, is answered. -/
def answered (s : Sys) (queue asked : Nat) (left : Nat → Option Nat) : Table Nat Retry where
  entries := s.retries.entries.map (saidOf home queue asked left)
  nodup := by
    rw [List.map_map]
    exact s.retries.nodup

/-- The earliest of the retries of `queue` not yet due, noted in `waits`. -/
def waitsAfter (s : Sys) (queue asked : Nat) (left : Nat → Option Nat) (waits : Due) : Due :=
  (s.retries.entries.filterMap fun x => if home.queue x.1 = queue then left x.1 else none).foldl
    (fun waits l => waits.wakesAt (asked + l)) waits

/-- Whether every retry of `queue` that landed before the read began and that is due is among `listed`. -/
def listsAll (s : Sys) (queue : Nat) (left : Nat → Option Nat) (listed : List (Nat × Nat)) : Bool :=
  s.retries.entries.all fun x =>
    home.queue x.1 != queue || x.2.fresh || (left x.1).isSome || listed.contains (x.1, x.2.place)

def scans (s : Sys) (scan : Scan) (rest : List Nat) : Action → Option Sys
  | .page asked left listed last =>
    if scan.entry = .between ∧ scan.pending = [] ∧ scan.last = false ∧ (∀ place ∈ listed, home.queue place.1 = scan.queue) ∧
        (last = true → s.listsAll home scan.queue left (scan.listed ++ listed)) then
      some { s with
        retries := s.answered home scan.queue asked left
        dispatching := .scanning
          { scan with
            waits := s.waitsAfter home scan.queue asked left scan.waits
            listed := scan.listed ++ listed, pending := listed, last } rest }
    else none
  | .look =>
    match scan.entry, scan.pending with
    | .between, place :: pending =>
      if s.step.known scan.queue place.1 place.2 then
        some { s with dispatching := .scanning { scan with pending } rest }
      else some { s with dispatching := .scanning { scan with pending, entry := .found place } rest }
    | _, _ => none
  | .admitEntry =>
    match scan.entry with
    | .found place =>
      let admitted := s.step.admitFor c 1
      let entry := if admitted.1 = 0 then .full else .placed place
      some { s with step := admitted.2, dispatching := .scanning { scan with entry } rest }
    | _ => none
  | .mark =>
    match scan.entry with
    | .placed place => some { s with
        step := s.step.mark place.1
        takers := s.takers ++ [⟨place.1, place.2, false⟩]
        dispatching := .scanning { scan with entry := .between } rest }
    | _ => none
  | .starve =>
    match scan.entry with
    | .full => some { s with
        step := s.step.starve scan.queue, dispatching := .scanning { scan with entry := .done false } rest }
    | _ => none
  | .whole present waiting =>
    if scan.entry = .between ∧ scan.pending = [] ∧ scan.last = true then
      some { s with
        step := s.step.readWhole scan.queue present
        dispatching := .scanning { scan with waits := { scan.waits with waiting }, entry := .done true } rest }
    else none
  | .waited =>
    match scan.entry with
    | .done whole => some { s with step := s.step.waited scan.queue scan.waits whole, dispatching := .going rest }
    | _ => none
  | _ => none

/-- The dispatching, before it scans a queue. -/
def dispatches (s : Sys) : Action → Option Sys
  | .next now all =>
    match s.dispatching with
    | .idle | .going [] =>
      let next := s.step.next now
      some { s with
        step := next.2
        passes := s.passes ++ next.1.2.1
        dispatching := .going (s.step.served.filter fun queue => all || decide (queue ∈ next.1.2.2)) }
    | _ => none
  | .noRoom =>
    match s.dispatching with
    | .going (queue :: rest) =>
      if s.step.room c = 0 then some { s with step := s.step.starve queue, dispatching := .going rest } else none
    | _ => none
  | .begin =>
    match s.dispatching with
    | .going (queue :: rest) => some { s with
        step := s.step.reading queue
        retries := s.retries.map fun r => { r with fresh := false }
        dispatching := .scanning ⟨queue, .of "", [], [], false, .between⟩ rest }
    | _ => none
  | _ => none

/-- A claim a scan asked for. -/
def takes (s : Sys) : Action → Option Sys
  | .taken i departure => do
    let (taker, rest) ← pick s.takers i
    if taker.answered = false ∧ departure.id = taker.journey ∧
        ∀ r ∈ s.retries.get taker.journey, r.stands = .waiting then
      some { s with
        step := s.step.own departure.id (.of departure)
        retries := s.stood departure.id .here
        passes := s.passes ++ [departure]
        takers := rest }
    else none
  | .notDue i t => do
    let (taker, rest) ← pick s.takers i
    if taker.answered then none
    else some { s with
      step := s.step.notDue (home.port taker.journey) (home.queue taker.journey) t
      retries := s.computed taker.journey t false
      takers := rest ++ [{ taker with answered := true }] }
  | .passed i marks => do
    let (taker, rest) ← pick s.takers i
    if taker.answered then none
    else some { s with
      step := if marks then s.step.pass (home.queue taker.journey) (taker.journey, taker.place) else s.step
      takers := rest ++ [{ taker with answered := true }] }
  | .untaken i => do
    let (taker, rest) ← pick s.takers i
    if taker.answered then some { s with step := s.step.untake taker.journey, takers := rest } else none
  | _ => none

def moves (s : Sys) (a : Action) : Option Sys :=
  match a with
  | .op op => s.does c op
  | .land .. | .note .. | .settle .. | .lapse _ | .lapsed .. | .leave _ | .takenUp _ | .back _ => s.handsOn home a
  | .next .. | .noRoom | .begin => s.dispatches c a
  | .page .. | .look | .admitEntry | .mark | .starve | .whole .. | .waited =>
    match s.dispatching with
    | .scanning scan rest => s.scans c home scan rest a
    | _ => none
  | .taken .. | .notDue .. | .passed .. | .untaken .. => s.takes home a

end Sys

/-! ### What is claimed of it -/

/-- Whether `queue` is being read now: taken up to be read, or scanned. -/
def Sys.reads (s : Sys) (queue : Nat) : Bool :=
  match s.dispatching with
  | .idle => false
  | .going queues => decide (queue ∈ queues)
  | .scanning scan rest => decide (scan.queue = queue) || decide (queue ∈ rest)

/-- Whether the Message of a Journey at a place, found by a read, is being read again under its claim. -/
def Sys.readsUnderClaim (s : Sys) (place : Nat × Nat) : Bool :=
  s.takers.any fun k => decide ((k.journey, k.place) = place) && !k.answered

/-- The node wakes for the retry of a Journey at a place, for which it computed `latest` last: by then at the latest, or
its queue is to be read or being read. -/
def Sys.wakesFor (s : Sys) (place : Nat × Nat) (latest : Nat) : Bool :=
  ((s.step.due.get (home.queue place.1)).any fun due => due.at?.any fun t => decide (t ≤ latest)) ||
    decide (home.queue place.1 ∈ s.step.asked) || decide (home.queue place.1 ∈ s.step.starved) ||
    s.reads (home.queue place.1) || s.readsUnderClaim place

/-- Every retry of a queue the node serves that waits, and that it noted, it wakes for. -/
def Woken (s : Sys) : Prop :=
  ∀ x ∈ s.retries.entries, x.2.stands = .waiting → x.2.noted = true → home.queue x.1 ∈ s.step.served →
    ∃ latest ∈ x.2.latest, s.wakesFor home (x.1, x.2.place) latest = true

/-- `queue` is to be read, at once or once a place frees. -/
def Asks (step : State) (queue : Nat) : Prop := queue ∈ step.asked ∨ queue ∈ step.starved

instance (step : State) (queue : Nat) : Decidable (Asks step queue) :=
  inferInstanceAs (Decidable (queue ∈ step.asked ∨ queue ∈ step.starved))

/-- The retry `r` of the Journey `id` is left as it is: not noted, of a queue the node does not serve, or of one it is to
read. -/
def Sys.Spared (s : Sys) (id : Nat) (r : Retry) : Prop :=
  r.noted = true → home.queue id ∈ s.step.served → Asks s.step (home.queue id)

instance (s : Sys) (id : Nat) (r : Retry) : Decidable (s.Spared home id r) :=
  inferInstanceAs (Decidable (r.noted = true → home.queue id ∈ s.step.served → Asks s.step (home.queue id)))

/-- A pass of the Journey `id` whose claim lapsed is still to be settled. -/
def Sys.Adrift (s : Sys) (id : Nat) : Prop := ∃ departure ∈ s.adrift, departure.id = id

instance (s : Sys) (id : Nat) : Decidable (s.Adrift id) :=
  inferInstanceAs (Decidable (∃ departure ∈ s.adrift, departure.id = id))

/-- Whether a pass that ended so leaves its Message where it was with its queue not asked for. -/
def leavesUnasked : Ended → Bool
  | .behind ask => !ask
  | .unwritten => true
  | .completed | .waiting _ | .failed _ | .lost | .untried => false

/-- No scan passes over a Message for its mark once the claim it is marked for was answered, its place still to be given
back, nor for a mark of another place; and no hand-on leaves a retry at a place found not to be sent.  And no retry at its
place is left there but where its queue is to be read: by a claim that was refused or not answered — none finds it not to
be sent —, by a pass that ended with nothing written, by another node or a claim that lapses, or by a scan that passes over
it for a pass whose claim lapsed. -/
def Unhurried (s : Sys) : Action → Prop
  | .look => match s.dispatching with
    | .scanning scan _ => match scan.pending with
      | place :: _ =>
        (place.1 ∈ s.step.taking → ∀ k ∈ s.takers, k.journey = place.1 → k.place = place.2 ∧ k.answered = false) ∧
        ((s.step.owned.get place.1).isSome → s.Adrift place.1 → ∀ r ∈ s.retries.get place.1, r.place = place.2 →
          r.stands = .waiting → s.Spared home place.1 r)
      | [] => True
    | _ => True
  | .land i _ place => ∀ x ∈ pick s.passes i, s.passedOver home (x.1.id, place) = false
  | .passed i marks => ∀ x ∈ pick s.takers i, ∀ r ∈ s.retries.get x.1.journey, r.place = x.1.place →
      marks = false ∧ (r.stands = .waiting → s.Spared home x.1.journey r)
  | .settle i _ ended => leavesUnasked ended = true → ∀ x ∈ pick s.passes i, ∀ r ∈ s.retries.get x.1.id,
      s.Spared home x.1.id r
  | .back id => ∀ r ∈ s.retries.get id, s.Spared home id r
  | _ => True

instance (s : Sys) : Decidable (Woken home s) :=
  inferInstanceAs (Decidable (∀ x ∈ s.retries.entries, x.2.stands = .waiting → x.2.noted = true →
    home.queue x.1 ∈ s.step.served → ∃ latest ∈ x.2.latest, s.wakesFor home (x.1, x.2.place) latest = true))

instance (s : Sys) (a : Action) : Decidable (Unhurried home s a) := by
  unfold Unhurried
  split
  · split
    · split <;> infer_instance
    · infer_instance
  all_goals infer_instance

/-! ### What the rest of the node leaves of the queues and their due times -/

/-- The due times, the places passed over and the queues served as they were, nothing newly marked, and no queue to be
read forgotten. -/
structure Leaves (step step' : State) : Prop where
  due : step'.due = step.due
  passed : step'.passed = step.passed
  served : step'.served = step.served
  taking : step'.taking ⊆ step.taking
  asks : ∀ queue, Asks step queue → Asks step' queue

namespace Leaves

variable {step step' step'' : State}

protected theorem refl (step : State) : Leaves step step := ⟨rfl, rfl, rfl, fun _ h => h, fun _ h => h⟩

protected theorem trans (h : Leaves step step') (h' : Leaves step' step'') : Leaves step step'' where
  due := h'.due.trans h.due
  passed := h'.passed.trans h.passed
  served := h'.served.trans h.served
  taking := h'.taking.trans h.taking
  asks queue hq := h'.asks queue (h.asks queue hq)

protected theorem foldl {α : Type} {f : State → α → State} (h : ∀ step a, Leaves step (f step a)) (l : List α)
    (step : State) : Leaves step (l.foldl f step) := by
  induction l generalizing step with
  | nil => exact .refl step
  | cons a l ih => exact (h step a).trans (ih (f step a))

theorem ask (queue : Nat) : Leaves step (step.ask queue) :=
  ⟨rfl, rfl, rfl, fun _ h => h, fun _ hq => hq.imp (fun h => mem_listed.2 (.inl h)) id⟩

theorem askRescan : Leaves step step.askRescan := ⟨rfl, rfl, rfl, fun _ h => h, fun _ h => h⟩

theorem starve (queue : Nat) : Leaves step (step.starve queue) :=
  ⟨rfl, rfl, rfl, fun _ h => h, fun _ hq => hq.imp id fun h => mem_listed.2 (.inl h)⟩

theorem freed (h : Leaves step step') : Leaves step step'.freed :=
  h.trans ⟨rfl, rfl, rfl, fun _ h => h, fun _ hq => .inl (mem_foldl_listed.2 hq)⟩

theorem admitFor (c : Settings) (wanted : Nat) : Leaves step (step.admitFor c wanted).2 :=
  ⟨rfl, rfl, rfl, fun _ h => h, fun _ h => h⟩

theorem withdraw (places : Nat) : Leaves step (step.withdraw places) := by
  unfold State.withdraw
  split
  · exact .refl step
  · exact freed ⟨rfl, rfl, rfl, fun _ h => h, fun _ h => h⟩

theorem own (id : Nat) (owned : Owned) : Leaves step (step.own id owned) :=
  ⟨rfl, rfl, rfl, Finset.erase_subset .., fun _ h => h⟩

theorem untake (id : Nat) : Leaves step (step.untake id) := by
  unfold State.untake
  split
  · exact freed ⟨rfl, rfl, rfl, Finset.erase_subset .., fun _ h => h⟩
  · exact freed (.refl step)

theorem handing (c : Settings) (lined : LinedUp) (journeys : List (Nat × Journey)) (now : Nat) :
    Leaves step (step.handing c lined journeys now) := by
  have hadmitted : Leaves step { step with admitted := step.admitted - lined.admitted } :=
    ⟨rfl, rfl, rfl, fun _ h => h, fun _ h => h⟩
  have hhanded (d : List Departure) (step : State) : Leaves step (d.foldl State.handOver step) :=
    .foldl (f := State.handOver) (fun _ _ => ⟨rfl, rfl, rfl, fun _ h => h, fun _ h => h⟩) d step
  have hasked (step : State) : Leaves step (lined.holds.foldl State.askHeld step) := by
    refine .foldl (fun step hold => ?_) _ step
    unfold State.askHeld
    split
    · exact .refl step
    · exact ask hold.queue
  exact (hadmitted.trans (hhanded _ _)).trans (hasked _)

theorem renewed (c : Settings) (claim : Claim) (asked now : Nat) (answer : Renewed) :
    Leaves step (step.renewed c claim asked now answer) := by
  unfold State.renewed
  split
  · split
    · exact ⟨rfl, rfl, rfl, fun _ h => h, fun _ h => h⟩
    · exact .refl step
  · exact .refl step

theorem letGo (id : Nat) : Leaves step (step.letGo id) :=
  freed ⟨rfl, rfl, rfl, fun _ h => h, fun _ h => h⟩

theorem figured (port : String) (f : PortFigures → PortFigures) : Leaves step (step.figured port f) :=
  ⟨rfl, rfl, rfl, fun _ h => h, fun _ h => h⟩

theorem settle (d : Departure) (now : Nat) {ended : Ended} (h : ∀ after, ended ≠ .waiting after) :
    Leaves step (step.settle d now ended) := by
  unfold State.settle
  split
  · exact absurd rfl (h _)
  · split
    · exact (ask d.queue).trans (letGo d.id)
    · exact letGo d.id
  · exact (ask d.queue).trans (letGo d.id)
  · exact (figured ..).trans (letGo d.id)
  · exact (figured ..).trans (letGo d.id)
  · exact (figured ..).trans (letGo d.id)
  · exact letGo d.id

end Leaves

/-- An instant no later than `l` is kept. -/
def By (kept : Option Nat) (l : Nat) : Prop := ∃ t ∈ kept, t ≤ l

private theorem by_earlier {was : Option Nat} {t l : Nat} : By (some (earlier was t)) l ↔ By was l ∨ t ≤ l := by
  cases was with
  | none => simp [By, earlier]
  | some w => simp [By, earlier]

/-- The node wakes for `queue` by `l`. -/
def WakesBy (step : State) (queue l : Nat) : Prop := ∃ due ∈ step.due.get queue, By due.at? l

/-- A due time noted since the last read of `queue` began is no later than `l`. -/
def NotedBy (step : State) (queue l : Nat) : Prop := ∃ due ∈ step.due.get queue, By due.noted? l

/-- A due time noted for `queue` and kept across the read under way: the node wakes by then, and for no queue later than
it would have. -/
structure Notes (step step' : State) (queue t : Nat) : Prop where
  wakes : WakesBy step' queue t
  noted : NotedBy step' queue t
  wakesBy : ∀ q l, WakesBy step q l → WakesBy step' q l
  notedBy : ∀ q l, NotedBy step q l → NotedBy step' q l

private theorem notes_of_put {step step' : State} {queue t : Nat} (port : String) {due : Due}
    (hput : step'.due = step.due.put queue due) (hwakes : due.at? = some (earlier (step.dueOf queue port).at? t))
    (hnoted : due.noted? = some (earlier (step.dueOf queue port).noted? t)) : Notes step step' queue t := by
  have hget : step'.due.get queue = some due := by rw [hput, Table.get_put_self]
  have hother (q : Nat) (hq : q ≠ queue) : step'.due.get q = step.due.get q := by
    rw [hput, Table.get_put_of_ne _ hq]
  refine ⟨⟨due, hget, ?_⟩, ⟨due, hget, ?_⟩, ?_, ?_⟩
  · rw [hwakes]
    exact by_earlier.2 (.inr (Nat.le_refl t))
  · rw [hnoted]
    exact by_earlier.2 (.inr (Nat.le_refl t))
  · rintro q l ⟨d, hd, hl⟩
    by_cases hq : q = queue
    · subst hq
      refine ⟨due, hget, ?_⟩
      rw [hwakes, State.dueOf, hd]
      exact by_earlier.2 (.inl hl)
    · exact ⟨d, (hother q hq).trans hd, hl⟩
  · rintro q l ⟨d, hd, hl⟩
    by_cases hq : q = queue
    · subst hq
      refine ⟨due, hget, ?_⟩
      rw [hnoted, State.dueOf, hd]
      exact by_earlier.2 (.inl hl)
    · exact ⟨d, (hother q hq).trans hd, hl⟩

private theorem notDue_notes (step : State) (port : String) (queue t : Nat) :
    Notes step (step.notDue port queue t) queue t :=
  notes_of_put port rfl rfl rfl

private theorem settle_notes (step : State) (d : Departure) (now after : Nat) :
    Notes step (step.settle d now (.waiting after)) d.queue (now + after) :=
  notes_of_put d.port rfl rfl rfl

private theorem reading_wakesBy {step : State} {queue q l : Nat} (h : WakesBy step q l) :
    WakesBy (step.reading queue) q l := by
  obtain ⟨due, hdue, hl⟩ := h
  unfold State.reading
  cases hqueue : step.due.get queue with
  | none => exact ⟨due, hdue, hl⟩
  | some kept =>
    by_cases hq : q = queue
    · subst hq
      obtain rfl : kept = due := Option.some.inj (hqueue.symm.trans hdue)
      exact ⟨_, Table.get_put_self .., hl⟩
    · exact ⟨due, (Table.get_put_of_ne _ hq _).trans hdue, hl⟩

/-- What a whole read says is kept, with what was noted meanwhile. -/
private theorem waited_wakesBy {step : State} {queue l : Nat} {waits : Due}
    (h : NotedBy step queue l ∨ By waits.at? l) : WakesBy (step.waited queue waits true) queue l := by
  refine ⟨_, Table.get_put_self .., ?_⟩
  unfold Due.replaced
  rw [if_pos rfl]
  cases hnoted : (step.dueOf queue waits.port).noted? with
  | some t =>
    refine by_earlier.2 ?_
    rcases h with ⟨due, hdue, w, hw, hl⟩ | h
    · rw [State.dueOf, hdue] at hnoted
      obtain rfl : w = t := Option.some.inj (hw.symm.trans hnoted)
      exact .inr hl
    · exact .inl h
  | none =>
    rcases h with ⟨due, hdue, w, hw, hl⟩ | h
    · rw [State.dueOf, hdue] at hnoted
      exact absurd (hw.symm.trans hnoted) (by simp)
    · exact h

/-- What a read that stopped early says makes nothing later. -/
private theorem waited_keeps_wakesBy {step : State} {queue l : Nat} {waits : Due} (h : WakesBy step queue l) :
    WakesBy (step.waited queue waits false) queue l := by
  obtain ⟨due, hdue, hl⟩ := h
  have hwas : step.dueOf queue waits.port = due := by rw [State.dueOf, hdue, Option.getD_some]
  refine ⟨_, Table.get_put_self .., ?_⟩
  rw [hwas]
  unfold Due.replaced
  rw [if_neg (by simp)]
  split
  · exact by_earlier.2 (.inl hl)
  · exact hl

private theorem waited_wakesBy_other {step : State} {queue q l : Nat} {waits : Due} {whole : Bool} (hq : q ≠ queue)
    (h : WakesBy step q l) : WakesBy (step.waited queue waits whole) q l := by
  obtain ⟨due, hdue, hl⟩ := h
  exact ⟨due, (Table.get_put_of_ne _ hq _).trans hdue, hl⟩

/-- Once the dispatching takes up what there is to do, a queue is among those it reads, or still asked for or woken for. -/
private theorem next_reads {step : State} {queue now l : Nat} (h : Asks step queue ∨ WakesBy step queue l) :
    queue ∈ step.toRead now ∨ Asks (step.next now).2 queue ∨ WakesBy (step.next now).2 queue l := by
  have hasked : queue ∈ step.asked → queue ∈ step.toRead now := by
    intro hq
    refine mem_foldl_listed.2 (.inl ?_)
    split
    · exact List.mem_append_left _ hq
    · exact hq
  rcases h with (hq | hq) | ⟨due, hdue, hl⟩
  · exact .inl (hasked hq)
  · exact .inr (.inl (.inr hq))
  · by_cases hfallen : due.fallen now
    · refine .inl (mem_foldl_listed.2 (.inr ?_))
      exact List.mem_map.2 ⟨(queue, due), List.mem_filter.2 ⟨Table.mem_iff_get.2 hdue, hfallen⟩, rfl⟩
    · refine .inr (.inr ⟨due, ?_, hl⟩)
      show (step.due.map fun due => due.taken now).get queue = some due
      rw [Table.get_map, hdue, Option.map_some, Due.taken, if_neg hfallen]

/-! ### Why a retry is woken for -/

/-- The Message at `place` is still ahead of the scan: read and not looked at, or not read yet, where it landed before the
read began. -/
def Scan.Ahead (scan : Scan) (place : Nat × Nat) (fresh : Bool) : Prop :=
  place ∈ scan.pending ∨ fresh = false ∧ scan.last = false ∧ place ∉ scan.listed

/-- The scan comes to the Message at `place`, or is about to say that its queue waits for room. -/
def Scan.Sees (scan : Scan) (place : Nat × Nat) (fresh : Bool) : Prop :=
  match scan.entry with
  | .between => scan.Ahead place fresh
  | .found k | .placed k => place = k ∨ scan.Ahead place fresh
  | .full => True
  | .done _ => False

/-- What the scan of its queue, as it stands, makes of the retry at `place`. -/
def Scan.Keeps (scan : Scan) (step : State) (place : Nat × Nat) (fresh : Bool) (l : Nat) : Prop :=
  match scan.entry with
  | .done false => WakesBy step scan.queue l
  | _ => NotedBy step scan.queue l ∨ By scan.waits.at? l ∨ scan.Sees place fresh

/-- What the dispatching, as it stands, makes of the retry at `place` of `queue`. -/
def Dispatching.Keeps (step : State) (queue : Nat) (place : Nat × Nat) (fresh : Bool) (l : Nat) : Dispatching → Prop
  | .idle => WakesBy step queue l
  | .going queues => queue ∈ queues ∨ WakesBy step queue l
  | .scanning scan rest =>
    queue ∈ rest ∨ scan.queue = queue ∧ scan.Keeps step place fresh l ∨ scan.queue ≠ queue ∧ WakesBy step queue l

namespace Sys

/-- The retry `r` of the Journey `id` is not forgotten. -/
def Covers (s : Sys) (id : Nat) (r : Retry) (l : Nat) : Prop :=
  s.readsUnderClaim (id, r.place) = true ∨ Asks s.step (home.queue id) ∨
    s.dispatching.Keeps s.step (home.queue id) (id, r.place) r.fresh l

/-- The invariant: what a pass handed on it settles in its own queue; a mark is a claim's; a retry is at no place passed
over; and one that was noted is not owned but by a pass of it, or one whose claim lapsed, and not forgotten while it waits. -/
structure Watches (s : Sys) : Prop where
  landed : ∀ x ∈ s.landed, x.1.queue = home.queue x.1.id
  marked : ∀ id ∈ s.step.taking, ∃ k ∈ s.takers, k.journey = id
  unpassed : ∀ id r, s.retries.get id = some r → s.passedOver home (id, r.place) = false
  free : ∀ id r, s.retries.get id = some r → r.noted = true → r.stands ≠ .here →
    s.step.owned.get id = none ∨ s.Adrift id
  covered : ∀ id r, s.retries.get id = some r → r.stands = .waiting → r.noted = true →
    home.queue id ∈ s.step.served → ∃ l ∈ r.latest, s.Covers home id r l
  known : ∀ id r, s.retries.get id = some r → r.noted = true → r.latest ≠ none

end Sys

/-- A due time noted now is kept whatever the dispatching does. -/
private theorem keeps_of_notes {step step' : State} {queue t : Nat} (place : Nat × Nat) (fresh : Bool)
    (h : Notes step step' queue t) (d : Dispatching) : d.Keeps step' queue place fresh t := by
  cases d with
  | idle => exact h.wakes
  | going queues => exact .inr h.wakes
  | scanning scan rest =>
    by_cases hq : scan.queue = queue
    · refine .inr (.inl ⟨hq, ?_⟩)
      unfold Scan.Keeps
      rw [hq]
      split
      · exact h.wakes
      · exact .inl h.noted
    · exact .inr (.inr ⟨hq, h.wakes⟩)

/-- What the dispatching makes of a retry holds as long as nothing is woken for later. -/
private theorem Dispatching.Keeps.mono {step step' : State} {queue l : Nat} {place : Nat × Nat} {fresh : Bool}
    {d : Dispatching} (hw : ∀ q l, WakesBy step q l → WakesBy step' q l)
    (hn : ∀ q l, NotedBy step q l → NotedBy step' q l) (h : d.Keeps step queue place fresh l) :
    d.Keeps step' queue place fresh l := by
  cases d with
  | idle => exact hw _ _ h
  | going queues => exact h.imp id (hw _ _)
  | scanning scan rest =>
    rcases h with h | ⟨hq, h⟩ | ⟨hq, h⟩
    · exact .inl h
    · refine .inr (.inl ⟨hq, ?_⟩)
      unfold Scan.Keeps at h ⊢
      split
      · rename_i he
        rw [he] at h
        exact hw _ _ h
      · split at h
        · rename_i hnot _ he
          exact absurd he hnot
        · exact h.imp (hn _ _) id
    · exact .inr (.inr ⟨hq, hw _ _ h⟩)

private theorem wakesBy_congr {step step' : State} (h : step'.due = step.due) (q l : Nat) (hw : WakesBy step q l) :
    WakesBy step' q l := by
  unfold WakesBy
  rw [h]
  exact hw

private theorem notedBy_congr {step step' : State} (h : step'.due = step.due) (q l : Nat) (hn : NotedBy step q l) :
    NotedBy step' q l := by
  unfold NotedBy
  rw [h]
  exact hn

private theorem passedOver_congr {s s' : Sys} (h : s'.step.passed = s.step.passed) (place : Nat × Nat) :
    s'.passedOver home place = s.passedOver home place := by
  unfold Sys.passedOver
  rw [h]

private theorem readsUnderClaim_iff {s : Sys} {place : Nat × Nat} :
    s.readsUnderClaim place = true ↔ ∃ k ∈ s.takers, (k.journey, k.place) = place ∧ k.answered = false := by
  unfold Sys.readsUnderClaim
  simp only [List.any_eq_true, Bool.and_eq_true, decide_eq_true_eq, Bool.not_eq_true']

section
variable {c} {home} {s s' : Sys}

/-- What covers a retry still does where no claim to be answered and no queue to be read is forgotten, and what the
dispatching keeps is covered. -/
private theorem Sys.Covers.step {id l : Nat} {r r' : Retry} (h : s.Covers home id r l)
    (hclaims : s.readsUnderClaim (id, r.place) = true → s'.readsUnderClaim (id, r'.place) = true)
    (hasks : Asks s.step (home.queue id) → s'.Covers home id r' l)
    (hkeeps : s.dispatching.Keeps s.step (home.queue id) (id, r.place) r.fresh l → s'.Covers home id r' l) :
    s'.Covers home id r' l := by
  rcases h with h | h | h
  · exact .inl (hclaims h)
  · exact hasks h
  · exact hkeeps h

/-- So it does where the dispatching stays where it is, and nothing is woken for later. -/
private theorem Sys.Covers.keeps {id l : Nat} {r : Retry} (h : s.Covers home id r l)
    (hd : s'.dispatching = s.dispatching)
    (hclaims : s.readsUnderClaim (id, r.place) = true → s'.readsUnderClaim (id, r.place) = true)
    (hasks : ∀ q, Asks s.step q → Asks s'.step q) (hwakes : ∀ q l, WakesBy s.step q l → WakesBy s'.step q l)
    (hnotes : ∀ q l, NotedBy s.step q l → NotedBy s'.step q l) : s'.Covers home id r l := by
  refine h.step hclaims (fun h => .inr (.inl (hasks _ h))) fun h => .inr (.inr ?_)
  rw [hd]
  exact h.mono hwakes hnotes

/-- So it does while a queue is scanned: what waits for another is kept, and the scan answers for its own. -/
private theorem Sys.Covers.scanning {id l : Nat} {r r' : Retry} {scan scan' : Scan} {rest : List Nat}
    (h : s.Covers home id r l) (hd : s.dispatching = .scanning scan rest) (hd' : s'.dispatching = .scanning scan' rest)
    (hqueue : scan'.queue = scan.queue)
    (hclaims : s.readsUnderClaim (id, r.place) = true → s'.readsUnderClaim (id, r'.place) = true)
    (hasks : ∀ q, Asks s.step q → Asks s'.step q) (hwakes : ∀ q l, WakesBy s.step q l → WakesBy s'.step q l)
    (hkeeps : scan.queue = home.queue id → scan.Keeps s.step (id, r.place) r.fresh l → s'.Covers home id r' l) :
    s'.Covers home id r' l := by
  refine h.step hclaims (fun h => .inr (.inl (hasks _ h))) fun h => ?_
  rw [hd] at h
  rcases h with h | ⟨hq, h⟩ | ⟨hq, h⟩
  · refine .inr (.inr ?_)
    rw [hd']
    exact .inl h
  · exact hkeeps hq h
  · refine .inr (.inr ?_)
    rw [hd']
    exact .inr (.inr ⟨hqueue ▸ hq, hwakes _ _ h⟩)

/-- The invariant is kept where the rest of the node did something to the send step's state alone. -/
private theorem Sys.Watches.leaves (hs : s.Watches home) {step : State} (h : Leaves s.step step)
    (hfree : ∀ id r, s.retries.get id = some r → r.noted = true → r.stands ≠ .here →
      step.owned.get id = none ∨ s.Adrift id) :
    { s with step }.Watches home where
  landed := hs.landed
  marked id hid := hs.marked id (h.taking hid)
  unpassed id r hr := (passedOver_congr home h.passed _).trans (hs.unpassed id r hr)
  free := hfree
  covered id r hr hwaits hnoted hserved := by
    rw [show (Sys.step _).served = s.step.served from h.served] at hserved
    obtain ⟨l, hl, hcov⟩ := hs.covered id r hr hwaits hnoted hserved
    exact ⟨l, hl, hcov.keeps rfl (fun h => h) h.asks (wakesBy_congr h.due) (notedBy_congr h.due)⟩
  known := hs.known

/-- The retry changed is the one there was. -/
private theorem get_changed (id : Nat) (f : Retry → Retry) (j : Nat) :
    (s.changed id f).get j = (s.retries.get j).map fun r => if j = id then f r else r := by
  unfold Sys.changed
  cases h : s.retries.get id with
  | none =>
    by_cases hj : j = id
    · subst hj
      simp [h]
    · simp [hj]
  | some r =>
    rw [Table.get_put]
    by_cases hj : j = id
    · subst hj
      simp [h]
    · simp [hj]

/-- A retry noted for `id` at `t`: it is covered by its note, and every other as it was. -/
private theorem covered_of_notes (hs : s.Watches home) {id t : Nat} {noted : Bool} {step : State} {j : Nat} {r : Retry}
    {s' : Sys} (hstep : s'.step = step) (hretries : s'.retries = s.computed id t noted)
    (hdispatching : s'.dispatching = s.dispatching) (hserved : step.served = s.step.served)
    (hasks : ∀ q, Asks s.step q → Asks step q) (hnotes : Notes s.step step (home.queue id) t)
    (htakers : ∀ place, place.1 ≠ id → s.readsUnderClaim place = true → s'.readsUnderClaim place = true)
    (hr : s'.retries.get j = some r) (hwaits : r.stands = .waiting) (hnoted : r.noted = true)
    (hj : home.queue j ∈ s'.step.served) : ∃ l ∈ r.latest, s'.Covers home j r l := by
  subst hstep
  rw [hretries, Sys.computed, get_changed] at hr
  obtain ⟨was, hwas, rfl⟩ := Option.map_eq_some_iff.1 hr
  by_cases hid : j = id
  · subst hid
    rw [if_pos rfl]
    exact ⟨t, rfl, .inr (.inr (keeps_of_notes _ _ hnotes _))⟩
  · rw [if_neg hid] at hnoted hwaits ⊢
    rw [hserved] at hj
    obtain ⟨l, hl, hcov⟩ := hs.covered j was hwas hwaits hnoted hj
    exact ⟨l, hl, hcov.keeps hdispatching (htakers _ hid) hasks hnotes.wakesBy hnotes.notedBy⟩

private theorem computed_known (hs : s.Watches home) {id t : Nat} {noted : Bool} (j : Nat) (r : Retry)
    (hr : (s.computed id t noted).get j = some r) (hnoted : r.noted = true) : r.latest ≠ none := by
  rw [Sys.computed, get_changed] at hr
  obtain ⟨was, hwas, rfl⟩ := Option.map_eq_some_iff.1 hr
  split at hnoted
  · rw [if_pos ‹_›]
    simp
  · rw [if_neg ‹_›]
    exact hs.known j was hwas hnoted

/-! ### What else is done, and hand-ons -/

private theorem handing_owned_get {step : State} {lined : LinedUp} {journeys : List (Nat × Journey)} {now id : Nat}
    (hid : ∀ one ∈ lined.claimed, one.journey ≠ id) :
    (step.handing c lined journeys now).owned.get id = step.owned.get id := by
  have hasked (l : List Hold) (step : State) : (l.foldl State.askHeld step).owned = step.owned := by
    induction l generalizing step with
    | nil => rfl
    | cons hold l ih => rw [List.foldl_cons, ih, State.askHeld_owned]
  have hhanded (l : List Departure) (hl : ∀ d ∈ l, d.id ≠ id) (step : State) :
      (l.foldl State.handOver step).owned.get id = step.owned.get id := by
    induction l generalizing step with
    | nil => rfl
    | cons d l ih =>
      rw [List.foldl_cons, ih fun e he => hl e (List.mem_cons_of_mem _ he)]
      exact Table.get_put_of_ne _ (hl d (List.mem_cons_self ..)).symm _
  unfold State.handing
  rw [hasked, hhanded]
  intro d hd
  obtain ⟨one, hone, hdep⟩ := List.mem_filterMap.1 hd
  obtain ⟨x, -, rfl⟩ := Option.map_eq_some_iff.1 hdep
  exact hid one hone

private theorem does_watches {op : Op} (hs : s.Watches home) (h : s.does c op = some s') : s'.Watches home := by
  have hsendable {id j : Nat} {r : Retry} (hid : s.sendable id = true) (hr : s.retries.get j = some r) : j ≠ id := by
    rintro rfl
    rw [Sys.sendable, hr] at hid
    cases hid
  cases op with
  | ask queue =>
    cases h
    exact hs.leaves (.ask queue) hs.free
  | rescan =>
    cases h
    exact hs.leaves .askRescan hs.free
  | lineUp departing mint now =>
    cases h
    exact hs.leaves (.admitFor c (wanted c departing)) hs.free
  | withdraw places =>
    cases h
    refine hs.leaves (.withdraw places) fun id r hr hnoted hhere => ?_
    rw [State.withdraw_owned]
    exact hs.free id r hr hnoted hhere
  | handing lined journeys now =>
    obtain ⟨hall, h⟩ := Option.ite_none_right_eq_some.1 h
    cases h
    refine hs.leaves (.handing c lined journeys now) fun id r hr hnoted hhere => ?_
    rw [handing_owned_get fun one hone => (hsendable (List.all_eq_true.1 hall one hone) hr).symm]
    exact hs.free id r hr hnoted hhere
  | admitOne =>
    cases h
    exact hs.leaves (.admitFor c 1) hs.free
  | own departure =>
    obtain ⟨hown, h⟩ := Option.ite_none_right_eq_some.1 h
    cases h
    refine hs.leaves (.own departure.id _) fun id r hr hnoted hhere => ?_
    exact (hs.free id r hr hnoted hhere).imp_left (Table.get_put_of_ne _ (hsendable hown hr) _).trans
  | push departure =>
    cases h
    exact hs.leaves ⟨rfl, rfl, rfl, fun _ h => h, fun _ h => h⟩ hs.free
  | renewed claim asked now answer =>
    cases h
    refine hs.leaves (.renewed c claim asked now answer) fun id r hr hnoted hhere => ?_
    refine (hs.free id r hr hnoted hhere).imp_left fun hnone => ?_
    unfold State.renewed
    split
    · split
      · rename_i howned _
        refine (Table.get_put_of_ne _ ?_ _).trans hnone
        rintro rfl
        rw [hnone] at howned
        cases howned
      · exact hnone
    · exact hnone

/-- A retry that stands otherwise than it did: what covers it while it waits is told. -/
private theorem stood_watches (hs : s.Watches home) {step : State} {passes adrift : List Departure} {id : Nat}
    {stands : Stands} (h : Leaves s.step step)
    (howned : ∀ j, step.owned.get j = none ∨ step.owned.get j = s.step.owned.get j)
    (hadrift : ∀ j, s.Adrift j → ∃ departure ∈ adrift, departure.id = j)
    (hfree : stands ≠ .here → ∀ r ∈ s.retries.get id, r.noted = true →
      step.owned.get id = none ∨ ∃ departure ∈ adrift, departure.id = id)
    (hasks : stands = .waiting → ∀ r ∈ s.retries.get id, r.noted = true → home.queue id ∈ s.step.served →
      Asks step (home.queue id)) :
    { s with step, passes, adrift, retries := s.stood id stands }.Watches home := by
  refine ⟨hs.landed, fun j hj => hs.marked j (h.taking hj), ?_, ?_, ?_, ?_⟩
  · intro j r hr
    obtain ⟨was, hwas, rfl⟩ := Option.map_eq_some_iff.1 ((get_changed id _ j).symm.trans hr)
    refine (passedOver_congr home h.passed _).trans ?_
    split <;> exact hs.unpassed j was hwas
  · intro j r hr hnoted hhere
    obtain ⟨was, hwas, rfl⟩ := Option.map_eq_some_iff.1 ((get_changed id _ j).symm.trans hr)
    by_cases hid : j = id
    · subst hid
      rw [if_pos rfl] at hnoted hhere
      exact hfree hhere was hwas hnoted
    · rw [if_neg hid] at hnoted hhere
      rcases howned j with hnone | heq
      · exact .inl hnone
      · exact (hs.free j was hwas hnoted hhere).imp heq.trans (hadrift j)
  · intro j r hr hwaits hnoted hserved
    obtain ⟨was, hwas, rfl⟩ := Option.map_eq_some_iff.1 ((get_changed id _ j).symm.trans hr)
    dsimp only at hserved
    rw [h.served] at hserved
    by_cases hid : j = id
    · subst hid
      rw [if_pos rfl] at hnoted hwaits ⊢
      obtain ⟨l, hl⟩ := Option.ne_none_iff_exists'.1 (hs.known j was hwas hnoted)
      exact ⟨l, hl, .inr (.inl (hasks hwaits was hwas hnoted hserved))⟩
    · rw [if_neg hid] at hnoted hwaits ⊢
      obtain ⟨l, hl, hcov⟩ := hs.covered j was hwas hwaits hnoted hserved
      exact ⟨l, hl, hcov.keeps rfl (fun h => h) h.asks (wakesBy_congr h.due) (notedBy_congr h.due)⟩
  · intro j r hr hnoted
    obtain ⟨was, hwas, rfl⟩ := Option.map_eq_some_iff.1 ((get_changed id _ j).symm.trans hr)
    split at hnoted
    · rw [if_pos ‹_›]
      exact hs.known j was hwas hnoted
    · rw [if_neg ‹_›]
      exact hs.known j was hwas hnoted

/-- A retry out of its place. -/
private theorem dropped_watches (hs : s.Watches home) {step : State} {passes : List Departure} {id : Nat}
    (h : Leaves s.step step) (howned : ∀ j, step.owned.get j = none ∨ step.owned.get j = s.step.owned.get j) :
    { s with step, passes, retries := s.retries.drop id }.Watches home := by
  have hget {j : Nat} {r : Retry} (hr : (s.retries.drop id).get j = some r) : s.retries.get j = some r := by
    rw [Table.get_drop] at hr
    split at hr
    · cases hr
    · exact hr
  refine ⟨hs.landed, fun j hj => hs.marked j (h.taking hj), ?_, ?_, ?_, fun j r hr => hs.known j r (hget hr)⟩
  · exact fun j r hr => (passedOver_congr home h.passed _).trans (hs.unpassed j r (hget hr))
  · intro j r hr hnoted hhere
    rcases howned j with hnone | heq
    · exact .inl hnone
    · exact (hs.free j r (hget hr) hnoted hhere).imp_left heq.trans
  · intro j r hr hwaits hnoted hserved
    dsimp only at hserved
    rw [h.served] at hserved
    obtain ⟨l, hl, hcov⟩ := hs.covered j r (hget hr) hwaits hnoted hserved
    exact ⟨l, hl, hcov.keeps rfl (fun h => h) h.asks (wakesBy_congr h.due) (notedBy_congr h.due)⟩

/-- A pass settled: what it left where it was, its queue is to be read for. -/
private theorem settle_watches (hs : s.Watches home) {now : Nat} {departure : Departure} {rest : List Departure}
    {ended : Ended} (hqueue : departure.queue = home.queue departure.id) (hended : ∀ after, ended ≠ .waiting after)
    (hok : leavesUnasked ended = true → ∀ r ∈ s.retries.get departure.id, s.Spared home departure.id r) :
    { s with
      step := s.step.settle departure now ended
      passes := rest
      retries := s.after departure.id ended }.Watches home := by
  have hleaves : Leaves s.step (s.step.settle departure now ended) := .settle departure now hended
  have hdrop (j : Nat) : (s.step.settle departure now ended).owned.get j =
      if j = departure.id then none else s.step.owned.get j := by
    rw [State.settle_owned, Table.get_drop]
  have howned (j : Nat) : (s.step.settle departure now ended).owned.get j = none ∨
      (s.step.settle departure now ended).owned.get j = s.step.owned.get j := by
    rw [hdrop]
    split
    · exact .inl rfl
    · exact .inr rfl
  have hnone : (s.step.settle departure now ended).owned.get departure.id = none := by
    rw [hdrop, if_pos rfl]
  have hstood {stands : Stands} (hasks : stands = .waiting → ∀ r ∈ s.retries.get departure.id, r.noted = true →
      home.queue departure.id ∈ s.step.served → Asks (s.step.settle departure now ended) (home.queue departure.id)) :
      { s with
        step := s.step.settle departure now ended
        passes := rest
        retries := s.stood departure.id stands }.Watches home :=
    stood_watches hs hleaves howned (fun _ h => h) (fun _ _ _ _ => .inl hnone) hasks
  have hasked : departure.queue ∈ (s.step.ask departure.queue).asked := mem_listed.2 (.inr rfl)
  cases ended with
  | completed => exact dropped_watches hs hleaves howned
  | failed reason => exact dropped_watches hs hleaves howned
  | waiting after => exact absurd rfl (hended after)
  | lost => exact hstood fun h => by cases h
  | untried =>
    refine hstood fun _ _ _ _ _ => ?_
    rw [← hqueue]
    exact (Leaves.letGo departure.id).asks _ (.inl hasked)
  | behind ask =>
    refine hstood fun _ r hr hnoted hserved => ?_
    cases ask with
    | true =>
      rw [← hqueue]
      exact (Leaves.letGo departure.id).asks _ (.inl hasked)
    | false => exact hleaves.asks _ (hok rfl r hr hnoted hserved)
  | unwritten => exact hstood fun _ r hr hnoted hserved => hleaves.asks _ (hok rfl r hr hnoted hserved)

/-- A pass whose claim lapsed settled: nothing of it stays owned, and its retry stands as it did. -/
private theorem lapsed_watches (hs : s.Watches home) {i now : Nat} {departure : Departure} {rest : List Departure}
    {ended : Ended} (hd : pick s.adrift i = some (departure, rest)) (hended : ∀ after, ended ≠ .waiting after) :
    { s with step := s.step.settle departure now ended, adrift := rest }.Watches home := by
  have hleaves : Leaves s.step (s.step.settle departure now ended) := .settle departure now hended
  refine ⟨hs.landed, fun j hj => hs.marked j (hleaves.taking hj), ?_, ?_, ?_, hs.known⟩
  · exact fun j r hr => (passedOver_congr home hleaves.passed _).trans (hs.unpassed j r hr)
  · intro j r hr hnoted hhere
    dsimp only
    rw [State.settle_owned, Table.get_drop]
    split
    · exact .inl rfl
    · rename_i hid
      refine (hs.free j r hr hnoted hhere).imp_right fun ⟨other, hother, hj⟩ => ⟨other, ?_, hj⟩
      refine (eq_or_mem_of_pick hd hother).resolve_left ?_
      rintro rfl
      exact hid hj.symm
  · intro j r hr hwaits hnoted hserved
    dsimp only at hserved
    rw [hleaves.served] at hserved
    obtain ⟨l, hl, hcov⟩ := hs.covered j r hr hwaits hnoted hserved
    exact ⟨l, hl, hcov.keeps rfl (fun h => h) hleaves.asks (wakesBy_congr hleaves.due) (notedBy_congr hleaves.due)⟩

private theorem handsOn_watches {a : Action} (hs : s.Watches home) (hok : Unhurried home s a)
    (h : s.handsOn home a = some s') : s'.Watches home := by
  cases a with
  | land i after place =>
    obtain ⟨⟨d, rest⟩, hd, h⟩ := Option.bind_eq_some_iff.1 h
    obtain ⟨hqueue, h⟩ := Option.ite_none_right_eq_some.1 h
    cases h
    have hopen : s.passedOver home (d.id, place) = false := hok _ hd
    have hget {id : Nat} {r : Retry} (hr : (s.retries.put d.id ⟨place, true, false, none, .waiting⟩).get id = some r) :
        id = d.id ∧ r = ⟨place, true, false, none, .waiting⟩ ∨ s.retries.get id = some r := by
      rw [Table.get_put] at hr
      split at hr
      · exact .inl ⟨‹_›, (Option.some.inj hr).symm⟩
      · exact .inr hr
    refine ⟨?_, hs.marked, ?_, ?_, ?_, ?_⟩
    · intro x hx
      rcases List.mem_append.1 hx with hx | hx
      · exact hs.landed x hx
      · rw [List.mem_singleton.1 hx]
        exact hqueue
    · intro id r hr
      rcases hget hr with ⟨rfl, rfl⟩ | hr
      · exact hopen
      · exact hs.unpassed id r hr
    · intro id r hr hnoted hhere
      rcases hget hr with ⟨-, rfl⟩ | hr
      · cases hnoted
      · exact hs.free id r hr hnoted hhere
    · intro id r hr hwaits hnoted hserved
      rcases hget hr with ⟨-, rfl⟩ | hr
      · cases hnoted
      · exact hs.covered id r hr hwaits hnoted hserved
    · intro id r hr hnoted
      rcases hget hr with ⟨-, rfl⟩ | hr
      · cases hnoted
      · exact hs.known id r hr hnoted
  | note i now =>
    obtain ⟨⟨x, rest⟩, hx, h⟩ := Option.bind_eq_some_iff.1 h
    cases h
    have hqueue := hs.landed x (mem_of_pick hx)
    have hnotes := settle_notes s.step x.1 now x.2
    rw [hqueue] at hnotes
    have hleaves : Leaves { s.step with due := _ } (s.step.settle x.1 now (.waiting x.2)) := .letGo x.1.id
    refine ⟨fun y hy => hs.landed y (mem_of_mem_pick hx hy), ?_, ?_, ?_, ?_, computed_known hs⟩
    · intro id hid
      rw [State.settle_taking] at hid
      exact hs.marked id hid
    · intro id r hr
      rw [Sys.computed, get_changed] at hr
      obtain ⟨was, hwas, rfl⟩ := Option.map_eq_some_iff.1 hr
      refine (passedOver_congr home hleaves.passed _).trans ?_
      split <;> exact hs.unpassed id was hwas
    · intro id r hr hnoted hhere
      rw [Sys.computed, get_changed] at hr
      obtain ⟨was, hwas, rfl⟩ := Option.map_eq_some_iff.1 hr
      rw [State.settle_owned, Table.get_drop]
      split
      · exact .inl rfl
      · rename_i hid
        rw [if_neg hid] at hnoted hhere
        exact hs.free id was hwas hnoted hhere
    · intro id r hr hwaits hnoted hserved
      exact covered_of_notes hs rfl rfl rfl hleaves.served hleaves.asks hnotes (fun _ _ h => h) hr hwaits hnoted hserved
  | settle i now ended =>
    have hended : (∀ after, ended ≠ .waiting after) ∧ ∃ departure rest, pick s.passes i = some (departure, rest) ∧
        departure.queue = home.queue departure.id ∧ s' = { s with
          step := s.step.settle departure now ended
          passes := rest
          retries := s.after departure.id ended } := by
      cases ended with
      | waiting after => cases h
      | completed | failed | lost | untried | behind | unwritten =>
        refine ⟨fun _ he => (by cases he), ?_⟩
        obtain ⟨⟨departure, rest⟩, hd, h⟩ := Option.bind_eq_some_iff.1 h
        obtain ⟨hqueue, h⟩ := Option.ite_none_right_eq_some.1 h
        cases h
        exact ⟨departure, rest, hd, hqueue, rfl⟩
    obtain ⟨hwaiting, departure, rest, hd, hqueue, rfl⟩ := hended
    exact settle_watches hs hqueue hwaiting fun hleft => hok hleft (departure, rest) hd
  | lapse i =>
    obtain ⟨⟨departure, rest⟩, hd, h⟩ := Option.bind_eq_some_iff.1 h
    cases h
    refine stood_watches hs (.refl s.step) (fun _ => .inr rfl) (fun _ ⟨other, hother, hid⟩ => ?_) (fun _ _ _ _ => .inr ?_)
      fun h => by cases h
    · exact ⟨other, List.mem_append_left _ hother, hid⟩
    · exact ⟨departure, List.mem_append_right _ (List.mem_singleton.2 rfl), rfl⟩
  | lapsed i now ended =>
    cases ended with
    | completed | failed | waiting => cases h
    | lost | untried | behind | unwritten =>
      obtain ⟨⟨departure, rest⟩, hd, h⟩ := Option.bind_eq_some_iff.1 h
      cases h
      exact lapsed_watches hs hd fun _ he => by cases he
  | leave id =>
    cases h
    exact dropped_watches hs (.refl s.step) fun _ => .inr rfl
  | takenUp id =>
    obtain ⟨hwaits, h⟩ := Option.ite_none_right_eq_some.1 h
    cases h
    refine stood_watches hs (.refl s.step) (fun _ => .inr rfl) (fun _ h => h) (fun _ r hr hnoted => ?_) fun h => by cases h
    rw [Option.mem_def] at hr
    simp only [hr, Option.any_some, decide_eq_true_eq] at hwaits
    exact hs.free id r hr hnoted (by simp [hwaits])
  | back id =>
    obtain ⟨helsewhere, h⟩ := Option.ite_none_right_eq_some.1 h
    cases h
    refine stood_watches hs (.refl s.step) (fun _ => .inr rfl) (fun _ h => h) (fun _ r hr hnoted => ?_) fun _ r hr => hok r hr
    rw [Option.mem_def] at hr
    simp only [hr, Option.any_some, decide_eq_true_eq] at helsewhere
    exact hs.free id r hr hnoted (by simp [helsewhere])
  | op | next | noRoom | begin | page | look | admitEntry | mark | starve | whole | waited | taken | notDue | passed
  | untaken => cases h

/-! ### The dispatching -/

private theorem dispatches_watches {a : Action} (hs : s.Watches home) (h : s.dispatches c a = some s') :
    s'.Watches home := by
  cases a with
  | next now all =>
    have hidle : (∀ queue place fresh l, s.dispatching.Keeps s.step queue place fresh l → WakesBy s.step queue l) ∧
        s' = { s with
          step := (s.step.next now).2
          passes := s.passes ++ (s.step.next now).1.2.1
          dispatching := .going (s.step.served.filter fun queue =>
            all || decide (queue ∈ (s.step.next now).1.2.2)) } := by
      unfold Sys.dispatches at h
      dsimp only at h
      split at h
      · rename_i hd
        cases h
        rw [hd]
        exact ⟨fun _ _ _ _ h => h, rfl⟩
      · rename_i hd
        cases h
        rw [hd]
        exact ⟨fun _ _ _ _ h => h.resolve_left List.not_mem_nil, rfl⟩
      · cases h
    obtain ⟨hwakes, rfl⟩ := hidle
    refine ⟨hs.landed, hs.marked, hs.unpassed, hs.free, ?_, hs.known⟩
    intro id r hr hwaits hnoted hserved
    obtain ⟨l, hl, hcov⟩ := hs.covered id r hr hwaits hnoted hserved
    have hnext (hwas : Asks s.step (home.queue id) ∨ WakesBy s.step (home.queue id) l) :
        Asks (s.step.next now).2 (home.queue id) ∨ home.queue id ∈ (s.step.served.filter fun queue =>
          all || decide (queue ∈ (s.step.next now).1.2.2)) ∨ WakesBy (s.step.next now).2 (home.queue id) l := by
      have hread : home.queue id ∈ (s.step.next now).1.2.2 ∨ _ := next_reads hwas
      rcases hread with hread | hread | hread
      · exact .inr (.inl (List.mem_filter.2 ⟨hserved, by rw [decide_eq_true hread, Bool.or_true]⟩))
      · exact .inl hread
      · exact .inr (.inr hread)
    exact ⟨l, hl, hcov.step (fun h => h) (fun h => .inr (hnext (.inl h)))
      fun h => .inr (hnext (.inr (hwakes _ _ _ _ h)))⟩
  | noRoom =>
    unfold Sys.dispatches at h
    dsimp only at h
    split at h
    · rename_i queue rest hd
      obtain ⟨-, h⟩ := Option.ite_none_right_eq_some.1 h
      cases h
      have hleaves : Leaves s.step (s.step.starve queue) := .starve queue
      refine ⟨hs.landed, hs.marked, hs.unpassed, hs.free, ?_, hs.known⟩
      intro id r hr hwaits hnoted hserved
      obtain ⟨l, hl, hcov⟩ := hs.covered id r hr hwaits hnoted hserved
      refine ⟨l, hl, hcov.step (fun h => h) (fun h => .inr (.inl (hleaves.asks _ h))) fun hcov => ?_⟩
      rw [hd] at hcov
      rcases hcov with hq | hw
      · rcases List.mem_cons.1 hq with hq | hq
        · exact .inr (.inl (.inr (mem_listed.2 (.inr hq))))
        · exact .inr (.inr (.inl hq))
      · exact .inr (.inr (.inr hw))
    · cases h
  | begin =>
    unfold Sys.dispatches at h
    dsimp only at h
    split at h
    · rename_i queue rest hd
      cases h
      have hsame : (s.step.reading queue).asked = s.step.asked ∧ (s.step.reading queue).starved = s.step.starved ∧
          (s.step.reading queue).taking = s.step.taking ∧ (s.step.reading queue).passed = s.step.passed ∧
          (s.step.reading queue).owned = s.step.owned ∧ (s.step.reading queue).served = s.step.served := by
        unfold State.reading
        split <;> exact ⟨rfl, rfl, rfl, rfl, rfl, rfl⟩
      obtain ⟨hasked, hstarved, htaking, hpassed, howned, hserve⟩ := hsame
      refine ⟨hs.landed, ?_, ?_, ?_, ?_, ?_⟩
      · dsimp only
        rw [htaking]
        exact hs.marked
      · intro id r hr
        rw [Table.get_map] at hr
        obtain ⟨was, hwas, rfl⟩ := Option.map_eq_some_iff.1 hr
        exact (passedOver_congr home hpassed _).trans (hs.unpassed id was hwas)
      · intro id r hr hnoted hhere
        rw [Table.get_map] at hr
        obtain ⟨was, hwas, rfl⟩ := Option.map_eq_some_iff.1 hr
        dsimp only
        rw [howned]
        exact hs.free id was hwas hnoted hhere
      · intro id r hr hwaits hnoted hserved
        rw [Table.get_map] at hr
        obtain ⟨was, hwas, rfl⟩ := Option.map_eq_some_iff.1 hr
        dsimp only at hserved
        rw [hserve] at hserved
        obtain ⟨l, hl, hcov⟩ := hs.covered id was hwas hwaits hnoted hserved
        have hasks (h : Asks s.step (home.queue id)) : Asks (s.step.reading queue) (home.queue id) := by
          unfold Asks
          rw [hasked, hstarved]
          exact h
        refine ⟨l, hl, hcov.step (fun h => h) (fun h => .inr (.inl (hasks h))) fun hcov => ?_⟩
        rw [hd] at hcov
        -- The read begun comes to whatever waited before it.
        by_cases hq : queue = home.queue id
        · exact .inr (.inr (.inr (.inl ⟨hq, .inr (.inr (.inr ⟨rfl, rfl, List.not_mem_nil⟩))⟩)))
        · rcases hcov with hcov | hcov
          · exact .inr (.inr (.inl ((List.mem_cons.1 hcov).resolve_left (Ne.symm hq))))
          · exact .inr (.inr (.inr (.inr ⟨hq, reading_wakesBy hcov⟩)))
      · intro id r hr hnoted
        rw [Table.get_map] at hr
        obtain ⟨was, hwas, rfl⟩ := Option.map_eq_some_iff.1 hr
        exact hs.known id was hwas hnoted
    · cases h
  | op | land | note | settle | lapse | lapsed | leave | takenUp | back | page | look | admitEntry | mark | starve | whole
  | waited | taken | notDue | passed | untaken => cases h

/-! ### A scan -/

private theorem get_answered (queue asked : Nat) (left : Nat → Option Nat) (id : Nat) :
    (s.answered home queue asked left).get id = (s.retries.get id).map fun r =>
      (Sys.saidOf home queue asked left (id, r)).2 := by
  apply Option.ext
  intro r
  rw [← Table.mem_iff_get, Option.map_eq_some_iff]
  constructor
  · intro h
    obtain ⟨x, hx, he⟩ := List.mem_map.1 h
    obtain ⟨rfl, rfl⟩ := Prod.mk.inj he
    exact ⟨x.2, Table.mem_iff_get.1 hx, rfl⟩
  · rintro ⟨was, hwas, rfl⟩
    exact List.mem_map.2 ⟨(id, was), Table.mem_iff_get.2 hwas, rfl⟩

private theorem by_foldl_wakesAt {asked l : Nat} {lefts : List Nat} {waits : Due}
    (h : By waits.at? l ∨ ∃ left ∈ lefts, asked + left ≤ l) :
    By (lefts.foldl (fun waits l => waits.wakesAt (asked + l)) waits).at? l := by
  induction lefts generalizing waits with
  | nil => exact h.resolve_right (by simp)
  | cons left lefts ih =>
    rw [List.foldl_cons]
    apply ih
    rcases h with h | ⟨m, hm, hle⟩
    · exact .inl (by_earlier.2 (.inl h))
    · rcases List.mem_cons.1 hm with rfl | hm
      · exact .inl (by_earlier.2 (.inr hle))
      · exact .inr ⟨m, hm, hle⟩

/-- The invariant is kept by a step of the scan that only goes on, where it keeps what it has to of the retries of its
queue. -/
private theorem Sys.Watches.scanning (hs : s.Watches home) (scan' : Scan) {scan : Scan} {rest : List Nat} {step : State}
    (hd : s.dispatching = .scanning scan rest) (hqueue : scan'.queue = scan.queue) (h : Leaves s.step step)
    (howned : step.owned = s.step.owned)
    (hkeeps : ∀ id r l, s.retries.get id = some r → r.stands = .waiting → r.noted = true →
      home.queue id ∈ s.step.served → home.queue id = scan.queue → scan.Keeps s.step (id, r.place) r.fresh l →
        s.readsUnderClaim (id, r.place) = true ∨ Asks step (home.queue id) ∨
          scan'.Keeps step (id, r.place) r.fresh l) :
    { s with step, dispatching := .scanning scan' rest }.Watches home where
  landed := hs.landed
  marked id hid := hs.marked id (h.taking hid)
  unpassed id r hr := (passedOver_congr home h.passed _).trans (hs.unpassed id r hr)
  free := by
    dsimp only
    rw [howned]
    exact hs.free
  covered id r hr hwaits hnoted hserved := by
    dsimp only at hserved
    rw [h.served] at hserved
    obtain ⟨l, hl, hcov⟩ := hs.covered id r hr hwaits hnoted hserved
    refine ⟨l, hl, hcov.scanning hd rfl hqueue (fun h => h) h.asks (wakesBy_congr h.due) fun hq hcov => ?_⟩
    rcases hkeeps id r l hr hwaits hnoted hserved hq.symm hcov with h | h | h
    · exact .inl h
    · exact .inr (.inl h)
    · exact .inr (.inr (.inr (.inl ⟨hqueue.trans hq, h⟩)))
  known := hs.known

/-- The last page lists every retry due, where no page before did. -/
private theorem mem_of_listsAll {queue : Nat} {left : Nat → Option Nat} {listed : List (Nat × Nat)} {x : Nat × Retry}
    (hall : s.listsAll home queue left listed = true) (hmem : x ∈ s.retries.entries) (hqueue : home.queue x.1 = queue)
    (hfresh : x.2.fresh = false) (hleft : left x.1 = none) : (x.1, x.2.place) ∈ listed := by
  have hx := List.all_eq_true.1 hall x hmem
  rw [hqueue, hfresh, hleft, bne_self_eq_false, Bool.false_or, Bool.false_or, Option.isSome_none, Bool.false_or] at hx
  exact List.contains_iff_mem.1 hx

private theorem page_watches {scan : Scan} {rest : List Nat} {asked : Nat} {left : Nat → Option Nat}
    {listed : List (Nat × Nat)} {last : Bool} (hs : s.Watches home) (hd : s.dispatching = .scanning scan rest)
    (h : s.scans c home scan rest (.page asked left listed last) = some s') : s'.Watches home := by
  obtain ⟨⟨hentry, hpending, hlast, -, hall⟩, h⟩ := Option.ite_none_right_eq_some.1 h
  cases h
  have hplace (id : Nat) (r : Retry) : (Sys.saidOf home scan.queue asked left (id, r)).2.place = r.place ∧
      (Sys.saidOf home scan.queue asked left (id, r)).2.noted = r.noted ∧
      (Sys.saidOf home scan.queue asked left (id, r)).2.fresh = r.fresh ∧
      (Sys.saidOf home scan.queue asked left (id, r)).2.stands = r.stands := by
    unfold Sys.saidOf
    dsimp only
    split <;> exact ⟨rfl, rfl, rfl, rfl⟩
  refine ⟨hs.landed, hs.marked, ?_, ?_, ?_, ?_⟩
  · intro id r hr
    rw [get_answered] at hr
    obtain ⟨was, hwas, rfl⟩ := Option.map_eq_some_iff.1 hr
    rw [(hplace id was).1]
    exact hs.unpassed id was hwas
  · intro id r hr hnoted hhere
    rw [get_answered] at hr
    obtain ⟨was, hwas, rfl⟩ := Option.map_eq_some_iff.1 hr
    rw [(hplace id was).2.1] at hnoted
    rw [(hplace id was).2.2.2] at hhere
    exact hs.free id was hwas hnoted hhere
  · intro id r hr hwaits hnoted hserved
    rw [get_answered] at hr
    obtain ⟨was, hwas, rfl⟩ := Option.map_eq_some_iff.1 hr
    rw [(hplace id was).2.1] at hnoted
    rw [(hplace id was).2.2.2] at hwaits
    obtain ⟨l, hl, hcov⟩ := hs.covered id was hwas hwaits hnoted hserved
    have hclaims : s.readsUnderClaim (id, was.place) = true →
        s.readsUnderClaim (id, (Sys.saidOf home scan.queue asked left (id, was)).2.place) = true := by
      rw [(hplace id was).1]
      exact fun h => h
    have hmem : (id, was) ∈ s.retries.entries := Table.mem_iff_get.2 hwas
    by_cases hq : scan.queue = home.queue id
    · cases hleft : left id with
      | some m =>
        -- Not due: the page says when it is.
        refine ⟨asked + m, by simp [Sys.saidOf, hq, hleft], .inr (.inr (.inr (.inl ⟨hq, ?_⟩)))⟩
        unfold Scan.Keeps
        dsimp only
        rw [hentry]
        refine .inr (.inl (by_foldl_wakesAt (.inr ⟨m, ?_, Nat.le_refl _⟩)))
        exact List.mem_filterMap.2 ⟨(id, was), hmem, by rw [if_pos hq.symm, hleft]⟩
      | none =>
        refine ⟨l, by simpa [Sys.saidOf, hq, hleft] using hl, hcov.scanning hd rfl rfl hclaims (fun _ h => h)
          (fun _ _ h => h) fun _ hcov => .inr (.inr (.inr (.inl ⟨hq, ?_⟩)))⟩
        rw [(hplace id was).1, (hplace id was).2.2.1]
        unfold Scan.Keeps Scan.Sees Scan.Ahead at hcov ⊢
        dsimp only
        rw [hentry] at hcov ⊢
        dsimp only at hcov ⊢
        rcases hcov with hcov | hcov | hcov | ⟨hfresh, -, hnot⟩
        · exact .inl hcov
        · exact .inr (.inl (by_foldl_wakesAt (.inl hcov)))
        · rw [hpending] at hcov
          cases hcov
        · refine .inr (.inr ?_)
          by_cases hlisted : (id, was.place) ∈ listed
          · exact .inl hlisted
          · -- Neither on this page nor on one before: this was not the last.
            have hno : (id, was.place) ∉ scan.listed ++ listed := fun h => (List.mem_append.1 h).elim hnot hlisted
            refine .inr ⟨hfresh, ?_, hno⟩
            cases hl : last with
            | false => rfl
            | true =>
              exact absurd (mem_of_listsAll (hall hl) hmem hq.symm hfresh hleft) hno
    · exact ⟨l, by simpa [Sys.saidOf, Ne.symm hq] using hl, hcov.scanning hd rfl rfl hclaims (fun _ h => h)
        (fun _ _ h => h) fun heq _ => absurd heq hq⟩
  · intro id r hr hnoted
    rw [get_answered] at hr
    obtain ⟨was, hwas, rfl⟩ := Option.map_eq_some_iff.1 hr
    rw [(hplace id was).2.1] at hnoted
    have hwas := hs.known id was hwas hnoted
    unfold Sys.saidOf
    dsimp only
    split
    · simp [hwas]
    · exact hwas

private theorem look_watches {scan : Scan} {rest : List Nat} (hs : s.Watches home)
    (hd : s.dispatching = .scanning scan rest) (hok : Unhurried home s .look)
    (h : s.scans c home scan rest .look = some s') : s'.Watches home := by
  unfold Sys.scans at h
  dsimp only at h
  split at h
  · rename_i place pending hentry hpending
    have hahead {p : Nat × Nat} {fresh : Bool} (hne : p ≠ place) (h : scan.Ahead p fresh) :
        p ∈ pending ∨ fresh = false ∧ scan.last = false ∧ p ∉ scan.listed := by
      unfold Scan.Ahead at h
      rw [hpending] at h
      exact h.imp (fun h => (List.mem_cons.1 h).resolve_left hne) id
    have hwas {p : Nat × Nat} {fresh : Bool} {l : Nat} (h : scan.Keeps s.step p fresh l) :
        NotedBy s.step scan.queue l ∨ By scan.waits.at? l ∨ scan.Ahead p fresh := by
      unfold Scan.Keeps Scan.Sees at h
      rw [hentry] at h
      exact h
    split at h
    · rename_i hknown
      cases h
      refine hs.scanning { scan with pending } hd rfl (.refl s.step) rfl
        fun id r l hr hwaits hnoted hserved hq hkeeps => ?_
      by_cases hplace : (id, r.place) = place
      · -- Passed over: a retry that was noted is neither owned nor at a place passed over, so it is being claimed.
        subst hplace
        unfold Unhurried at hok
        rw [hd] at hok
        dsimp only at hok
        rw [hpending] at hok
        obtain ⟨hmarks, hspared⟩ := hok
        by_cases hsome : (s.step.owned.get id).isSome = true
        · have hadrift : s.Adrift id := by
            refine (hs.free id r hr hnoted (by simp [hwaits])).resolve_left fun hnone => ?_
            rw [hnone] at hsome
            cases hsome
          exact .inr (.inl (hspared hsome hadrift r hr rfl hwaits hnoted hserved))
        · left
          have hopen := hs.unpassed id r hr
          rw [Sys.passedOver, hq] at hopen
          simp only [State.known, hsome, hopen, Bool.false_or, Bool.or_false, decide_eq_true_eq] at hknown
          obtain ⟨k, hk, rfl⟩ := hs.marked id hknown
          obtain ⟨hat, hopen⟩ := hmarks hknown k hk rfl
          exact readsUnderClaim_iff.2 ⟨k, hk, by rw [hat], hopen⟩
      · refine .inr (.inr ?_)
        unfold Scan.Keeps Scan.Sees
        rw [show ({ scan with pending } : Scan).entry = .between from hentry]
        exact (hwas hkeeps).imp_right (.imp_right (hahead hplace))
    · cases h
      refine hs.scanning { scan with pending, entry := .found place } hd rfl (.refl s.step) rfl
        fun id r l hr _ hnoted _ hq hkeeps => .inr (.inr ?_)
      refine (hwas hkeeps).imp_right (.imp_right fun h => ?_)
      by_cases hplace : (id, r.place) = place
      · exact .inl hplace
      · exact .inr (hahead hplace h)
  · cases h

/-- The Message under a place is marked, to be claimed. -/
private theorem mark_watches {scan : Scan} {rest : List Nat} {place : Nat × Nat} (hs : s.Watches home)
    (hd : s.dispatching = .scanning scan rest) (hentry : scan.entry = .placed place) :
    ({ s with
      step := s.step.mark place.1
      takers := s.takers ++ [⟨place.1, place.2, false⟩]
      dispatching := .scanning { scan with entry := .between } rest } : Sys).Watches home := by
  have htakers {p : Nat × Nat} (h : s.readsUnderClaim p = true) :
      ∃ k ∈ s.takers ++ [(⟨place.1, place.2, false⟩ : Taker)], (k.journey, k.place) = p ∧ k.answered = false := by
    obtain ⟨k, hk, h⟩ := readsUnderClaim_iff.1 h
    exact ⟨k, List.mem_append_left _ hk, h⟩
  refine ⟨hs.landed, ?_, hs.unpassed, hs.free, ?_, hs.known⟩
  · intro id hid
    rcases Finset.mem_insert.1 hid with rfl | hid
    · exact ⟨_, List.mem_append_right _ (List.mem_singleton.2 rfl), rfl⟩
    · obtain ⟨k, hk, h⟩ := hs.marked id hid
      exact ⟨k, List.mem_append_left _ hk, h⟩
  · intro id r hr hwaits hnoted hserved
    obtain ⟨l, hl, hcov⟩ := hs.covered id r hr hwaits hnoted hserved
    refine ⟨l, hl, hcov.scanning hd rfl rfl (fun h => readsUnderClaim_iff.2 (htakers h)) (fun _ h => h)
      (fun _ _ h => h) fun hq hcov => ?_⟩
    unfold Scan.Keeps Scan.Sees at hcov
    rw [hentry] at hcov
    by_cases hplace : (id, r.place) = place
    · refine .inl (readsUnderClaim_iff.2 ⟨_, List.mem_append_right _ (List.mem_singleton.2 rfl), ?_, rfl⟩)
      exact hplace.symm
    · refine .inr (.inr (.inr (.inl ⟨hq, ?_⟩)))
      exact hcov.imp_right (.imp_right fun h => h.resolve_left hplace)

/-- The queue was read to its end, and the places passed over that are gone from it are forgotten. -/
private theorem whole_watches {scan : Scan} {rest : List Nat} (hs : s.Watches home)
    (hd : s.dispatching = .scanning scan rest) (hentry : scan.entry = .between) (hpending : scan.pending = [])
    (hlast : scan.last = true) (present : Finset (Nat × Nat)) (waiting : Nat) :
    { s with
      step := s.step.readWhole scan.queue present
      dispatching := .scanning { scan with waits := { scan.waits with waiting }, entry := .done true } rest }.Watches
        home := by
  have hsame : (s.step.readWhole scan.queue present).due = s.step.due ∧
      (s.step.readWhole scan.queue present).taking = s.step.taking ∧
      (s.step.readWhole scan.queue present).owned = s.step.owned ∧
      (s.step.readWhole scan.queue present).served = s.step.served ∧
      (s.step.readWhole scan.queue present).asked = s.step.asked ∧
      (s.step.readWhole scan.queue present).starved = s.step.starved := by
    unfold State.readWhole
    split <;> exact ⟨rfl, rfl, rfl, rfl, rfl, rfl⟩
  obtain ⟨hdue, htaking, howned, hserve, hasked, hstarved⟩ := hsame
  refine ⟨hs.landed, ?_, ?_, ?_, ?_, hs.known⟩
  · dsimp only
    rw [htaking]
    exact hs.marked
  · intro id r hr
    have hopen := hs.unpassed id r hr
    unfold Sys.passedOver State.readWhole at *
    dsimp only
    split
    · rename_i set hset
      dsimp only
      rw [Table.get_put]
      split
      · rename_i hq
        rw [hq, hset] at hopen
        simp only [Option.any_some, decide_eq_false_iff_not] at hopen ⊢
        exact fun h => hopen (Finset.mem_inter.1 h).1
      · exact hopen
    · exact hopen
  · dsimp only
    rw [howned]
    exact hs.free
  · intro id r hr hwaits hnoted hserved
    dsimp only at hserved
    rw [hserve] at hserved
    obtain ⟨l, hl, hcov⟩ := hs.covered id r hr hwaits hnoted hserved
    have hasks (q : Nat) (h : Asks s.step q) : Asks (s.step.readWhole scan.queue present) q := by
      unfold Asks
      rw [hasked, hstarved]
      exact h
    refine ⟨l, hl, hcov.scanning hd rfl rfl (fun h => h) hasks (wakesBy_congr hdue) fun hq hcov => ?_⟩
    -- Read to its end, the scan has come to all it had ahead.
    refine .inr (.inr (.inr (.inl ⟨hq, ?_⟩)))
    unfold Scan.Keeps Scan.Sees Scan.Ahead at hcov
    rw [hentry, hpending, hlast] at hcov
    rcases hcov with hcov | hcov | hcov | ⟨-, hcov, -⟩
    · exact .inl (notedBy_congr hdue _ _ hcov)
    · exact .inr (.inl hcov)
    · cases hcov
    · cases hcov

private theorem scans_watches {scan : Scan} {rest : List Nat} {a : Action} (hs : s.Watches home)
    (hd : s.dispatching = .scanning scan rest) (hok : Unhurried home s a) (h : s.scans c home scan rest a = some s') :
    s'.Watches home := by
  cases a with
  | page asked left listed last => exact page_watches hs hd h
  | look => exact look_watches hs hd hok h
  | admitEntry =>
    unfold Sys.scans at h
    dsimp only at h
    split at h
    · rename_i place hentry
      cases h
      refine hs.scanning { scan with entry := if (s.step.admitFor c 1).1 = 0 then .full else .placed place }
        hd rfl (.admitFor c 1) rfl fun id r l hr _ hnoted _ hq hkeeps => .inr (.inr ?_)
      unfold Scan.Keeps Scan.Sees at hkeeps
      rw [hentry] at hkeeps
      unfold Scan.Keeps Scan.Sees
      by_cases hroom : (s.step.admitFor c 1).1 = 0
      · simp only [if_pos hroom]
        exact .inr (.inr trivial)
      · simp only [if_neg hroom]
        exact hkeeps
    · cases h
  | mark =>
    unfold Sys.scans at h
    dsimp only at h
    split at h
    · rename_i place hentry
      cases h
      exact mark_watches hs hd hentry
    · cases h
  | starve =>
    unfold Sys.scans at h
    dsimp only at h
    split at h
    · cases h
      refine hs.scanning { scan with entry := .done false } hd rfl (.starve scan.queue) rfl
        fun id r l hr _ hnoted _ hq hkeeps => .inr (.inl (.inr ?_))
      exact mem_listed.2 (.inr hq)
    · cases h
  | whole present waiting =>
    obtain ⟨⟨hentry, hpending, hlast⟩, h⟩ := Option.ite_none_right_eq_some.1 h
    cases h
    exact whole_watches hs hd hentry hpending hlast present waiting
  | waited =>
    unfold Sys.scans at h
    dsimp only at h
    split at h
    · rename_i whole hentry
      cases h
      refine ⟨hs.landed, hs.marked, hs.unpassed, hs.free, ?_, hs.known⟩
      intro id r hr hwaits hnoted hserved
      obtain ⟨l, hl, hcov⟩ := hs.covered id r hr hwaits hnoted hserved
      refine ⟨l, hl, hcov.step (fun h => h) (fun h => .inr (.inl h)) fun hcov => ?_⟩
      rw [hd] at hcov
      rcases hcov with hcov | ⟨hq, hcov⟩ | ⟨hq, hcov⟩
      · exact .inr (.inr (.inl hcov))
      · refine .inr (.inr (.inr ?_))
        rw [← hq]
        unfold Scan.Keeps Scan.Sees at hcov
        rw [hentry] at hcov
        cases whole with
        | false => exact waited_keeps_wakesBy hcov
        | true => exact waited_wakesBy (hcov.imp_right fun h => h.resolve_right not_false)
      · exact .inr (.inr (.inr (waited_wakesBy_other (Ne.symm hq) hcov)))
    · cases h
  | op | land | note | settle | lapse | lapsed | leave | takenUp | back | next | noRoom | begin | taken | notDue | passed
  | untaken => cases h

/-! ### The claims a scan asked for -/

/-- Another taker is still there once one is taken out. -/
private theorem mem_rest {i : Nat} {k taker : Taker} {rest : List Taker} (h : pick s.takers i = some (taker, rest))
    (hk : k ∈ s.takers) (hne : k ≠ taker) : k ∈ rest :=
  (List.mem_cons.1 ((pick_perm h).mem_iff.2 hk)).resolve_left hne

/-- What is read under a claim still is, once a taker that reads something else, or was answered, goes. -/
private theorem readsUnderClaim_of_rest {i : Nat} {taker : Taker} {rest : List Taker} {place : Nat × Nat}
    (hk : pick s.takers i = some (taker, rest)) (hsub : ∀ k ∈ rest, k ∈ s'.takers)
    (hother : (taker.journey, taker.place) = place → taker.answered = true) (h : s.readsUnderClaim place = true) :
    s'.readsUnderClaim place = true := by
  obtain ⟨k, hmem, hplace, hopen⟩ := readsUnderClaim_iff.1 h
  refine readsUnderClaim_iff.2 ⟨k, hsub k (mem_rest hk hmem ?_), hplace, hopen⟩
  rintro rfl
  rw [hother hplace] at hopen
  cases hopen

/-- A taker answered keeps its mark. -/
private theorem marked_of_answered (hs : s.Watches home) {i : Nat} {taker : Taker} {rest : List Taker}
    (hk : pick s.takers i = some (taker, rest)) :
    ∀ id ∈ s.step.taking, ∃ k ∈ rest ++ [{ taker with answered := true }], k.journey = id := by
  intro id hid
  obtain ⟨k, hmem, rfl⟩ := hs.marked id hid
  by_cases hne : k = taker
  · subst hne
    exact ⟨_, List.mem_append_right _ (List.mem_singleton.2 rfl), rfl⟩
  · exact ⟨k, List.mem_append_left _ (mem_rest hk hmem hne), rfl⟩

/-- A Message claimed and owned: its retry waits no more. -/
private theorem taken_watches (hs : s.Watches home) {i : Nat} {taker : Taker} {rest : List Taker} {departure : Departure}
    (hk : pick s.takers i = some (taker, rest)) (hid : departure.id = taker.journey) :
    { s with
      step := s.step.own departure.id (.of departure)
      retries := s.stood departure.id .here
      passes := s.passes ++ [departure]
      takers := rest }.Watches home := by
  have hget {j : Nat} {r : Retry} (hr : (s.stood departure.id .here).get j = some r) :
      ∃ was, s.retries.get j = some was ∧ r = if j = departure.id then { was with stands := .here } else was := by
    obtain ⟨was, hwas, rfl⟩ := Option.map_eq_some_iff.1 ((get_changed departure.id _ j).symm.trans hr)
    exact ⟨was, hwas, rfl⟩
  have hother {j : Nat} {r was : Retry} (hr : r = if j = departure.id then { was with stands := .here } else was)
      (hhere : r.stands ≠ .here) : j ≠ departure.id ∧ r = was := by
    by_cases hj : j = departure.id
    · rw [if_pos hj] at hr
      rw [hr] at hhere
      exact absurd rfl hhere
    · rw [if_neg hj] at hr
      exact ⟨hj, hr⟩
  refine ⟨hs.landed, ?_, ?_, ?_, ?_, ?_⟩
  · intro j hj
    obtain ⟨hne, hj⟩ := Finset.mem_erase.1 hj
    obtain ⟨k, hmem, rfl⟩ := hs.marked j hj
    refine ⟨k, mem_rest hk hmem ?_, rfl⟩
    rintro rfl
    exact hne hid.symm
  · intro j r hr
    obtain ⟨was, hwas, rfl⟩ := hget hr
    split <;> exact hs.unpassed j was hwas
  · intro j r hr hnoted hhere
    obtain ⟨was, hwas, hr⟩ := hget hr
    obtain ⟨hne, rfl⟩ := hother hr hhere
    exact (hs.free j r hwas hnoted hhere).imp_left (Table.get_put_of_ne _ hne _).trans
  · intro j r hr hwaits hnoted hserved
    obtain ⟨was, hwas, hr⟩ := hget hr
    obtain ⟨hne, rfl⟩ := hother hr (by simp [hwaits])
    obtain ⟨l, hl, hcov⟩ := hs.covered j r hwas hwaits hnoted hserved
    refine ⟨l, hl, hcov.keeps rfl (readsUnderClaim_of_rest hk (fun _ h => h) fun hplace => ?_) (fun _ h => h)
      (fun _ _ h => h) fun _ _ h => h⟩
    exact absurd ((Prod.mk.inj hplace).1.symm.trans hid.symm) hne
  · intro j r hr hnoted
    obtain ⟨was, hwas, rfl⟩ := hget hr
    split at hnoted
    · rw [if_pos ‹_›]
      exact hs.known j was hwas hnoted
    · rw [if_neg ‹_›]
      exact hs.known j was hwas hnoted

/-- A Message not due yet: its due time is noted. -/
private theorem notDue_watches (hs : s.Watches home) {i t : Nat} {taker : Taker} {rest : List Taker}
    (hk : pick s.takers i = some (taker, rest)) :
    { s with
      step := s.step.notDue (home.port taker.journey) (home.queue taker.journey) t
      retries := s.computed taker.journey t false
      takers := rest ++ [{ taker with answered := true }] }.Watches home := by
  refine ⟨hs.landed, marked_of_answered hs hk, ?_, ?_, ?_, computed_known hs⟩
  · intro j r hr
    rw [Sys.computed, get_changed] at hr
    obtain ⟨was, hwas, rfl⟩ := Option.map_eq_some_iff.1 hr
    split <;> exact hs.unpassed j was hwas
  · intro j r hr hnoted hhere
    rw [Sys.computed, get_changed] at hr
    obtain ⟨was, hwas, rfl⟩ := Option.map_eq_some_iff.1 hr
    by_cases hj : j = taker.journey
    · rw [if_pos hj, Bool.false_or] at hnoted
      rw [if_pos hj] at hhere
      exact hs.free j was hwas hnoted hhere
    · rw [if_neg hj] at hnoted hhere
      exact hs.free j was hwas hnoted hhere
  · intro j r hr hwaits hnoted hserved
    refine covered_of_notes hs rfl rfl rfl rfl (fun _ h => h) (notDue_notes ..) ?_ hr hwaits hnoted hserved
    intro place hne hcov
    refine readsUnderClaim_of_rest hk (fun _ h => List.mem_append_left _ h) (fun hplace => ?_) hcov
    exact absurd (by rw [← hplace]) hne

/-- A place at which no retry is, passed over: no retry is at a place passed over still. -/
private theorem unpassed_of_pass (hs : s.Watches home) {journey place : Nat}
    (hgone : ∀ r ∈ s.retries.get journey, r.place ≠ place) {id : Nat} {r : Retry} (hr : s.retries.get id = some r) :
    { s with step := s.step.pass (home.queue journey) (journey, place) }.passedOver home (id, r.place) = false := by
  have hopen := hs.unpassed id r hr
  unfold Sys.passedOver State.pass at *
  dsimp only at hopen ⊢
  rw [Table.get_put]
  split
  · rename_i hq
    have hne : (id, r.place) ≠ (journey, place) := by
      intro he
      obtain ⟨rfl, hplace⟩ := Prod.mk.inj he
      exact hgone r hr hplace
    simp only [Option.any_some, decide_eq_false_iff_not, Finset.mem_insert, not_or]
    refine ⟨hne, ?_⟩
    rw [hq] at hopen
    cases hset : s.step.passed.get (home.queue journey) with
    | none => simp
    | some set => simpa [hset] using hopen
  · exact hopen

/-- A Message passed: only the places passed over change, and those of no retry; and a retry left there has its queue
read. -/
private theorem passed_watches (hs : s.Watches home) {i : Nat} {taker : Taker} {rest : List Taker}
    {passed : Table Nat (Finset (Nat × Nat))} (hk : pick s.takers i = some (taker, rest))
    (hleft : ∀ r ∈ s.retries.get taker.journey, r.place = taker.place → r.stands = .waiting →
      s.Spared home taker.journey r)
    (hopen : ∀ id r, s.retries.get id = some r →
      { s with step := { s.step with passed } }.passedOver home (id, r.place) = false) :
    { s with
      step := { s.step with passed }
      takers := rest ++ [{ taker with answered := true }] }.Watches home := by
  refine ⟨hs.landed, marked_of_answered hs hk, hopen, hs.free, ?_, hs.known⟩
  intro j r hr hwaits hnoted hserved
  obtain ⟨l, hl, hcov⟩ := hs.covered j r hr hwaits hnoted hserved
  refine ⟨l, hl, ?_⟩
  by_cases hplace : (taker.journey, taker.place) = (j, r.place)
  · obtain ⟨rfl, hat⟩ := Prod.mk.inj hplace
    exact .inr (.inl (hleft r hr hat.symm hwaits hnoted hserved))
  · exact hcov.keeps rfl (readsUnderClaim_of_rest hk (fun _ h => List.mem_append_left _ h) fun h => absurd h hplace)
      (fun _ h => h) (fun _ _ h => h) fun _ _ h => h

/-- A claim's mark given back, once it was answered. -/
private theorem untaken_watches (hs : s.Watches home) {i : Nat} {taker : Taker} {rest : List Taker}
    (hk : pick s.takers i = some (taker, rest)) (hanswered : taker.answered = true) :
    { s with step := s.step.untake taker.journey, takers := rest }.Watches home := by
  have hleaves : Leaves s.step (s.step.untake taker.journey) := .untake taker.journey
  refine ⟨hs.landed, ?_, ?_, ?_, ?_, hs.known⟩
  · intro j hj
    rw [State.untake_taking] at hj
    obtain ⟨hne, hj⟩ := Finset.mem_erase.1 hj
    obtain ⟨k, hmem, rfl⟩ := hs.marked j hj
    refine ⟨k, mem_rest hk hmem ?_, rfl⟩
    rintro rfl
    exact hne rfl
  · intro j r hr
    exact (passedOver_congr home hleaves.passed _).trans (hs.unpassed j r hr)
  · dsimp only
    rw [State.untake_owned]
    exact hs.free
  · intro j r hr hwaits hnoted hserved
    dsimp only at hserved
    rw [hleaves.served] at hserved
    obtain ⟨l, hl, hcov⟩ := hs.covered j r hr hwaits hnoted hserved
    exact ⟨l, hl, hcov.keeps rfl (readsUnderClaim_of_rest hk (fun _ h => h) fun _ => hanswered) hleaves.asks
      (wakesBy_congr hleaves.due) (notedBy_congr hleaves.due)⟩

private theorem takes_watches {a : Action} (hs : s.Watches home) (hok : Unhurried home s a)
    (h : s.takes home a = some s') : s'.Watches home := by
  cases a with
  | taken i departure =>
    obtain ⟨⟨taker, rest⟩, hk, h⟩ := Option.bind_eq_some_iff.1 h
    obtain ⟨⟨-, hid, -⟩, h⟩ := Option.ite_none_right_eq_some.1 h
    cases h
    exact taken_watches hs hk hid
  | notDue i t =>
    obtain ⟨⟨taker, rest⟩, hk, h⟩ := Option.bind_eq_some_iff.1 h
    obtain ⟨-, h⟩ := Option.ite_none_left_eq_some.1 h
    cases h
    exact notDue_watches hs hk
  | passed i marks =>
    obtain ⟨⟨taker, rest⟩, hk, h⟩ := Option.bind_eq_some_iff.1 h
    obtain ⟨-, h⟩ := Option.ite_none_left_eq_some.1 h
    cases h
    have hat := hok (taker, rest) hk
    have hleft : ∀ r ∈ s.retries.get taker.journey, r.place = taker.place → r.stands = .waiting →
        s.Spared home taker.journey r := fun r hr hplace => (hat r hr hplace).2
    cases marks with
    | false => exact passed_watches hs hk hleft hs.unpassed
    | true =>
      have hgone : ∀ r ∈ s.retries.get taker.journey, r.place ≠ taker.place := by
        intro r hr hplace
        have := (hat r hr hplace).1
        cases this
      exact passed_watches hs hk hleft fun id r hr => unpassed_of_pass hs hgone hr
  | untaken i =>
    obtain ⟨⟨taker, rest⟩, hk, h⟩ := Option.bind_eq_some_iff.1 h
    obtain ⟨hanswered, h⟩ := Option.ite_none_right_eq_some.1 h
    cases h
    exact untaken_watches hs hk hanswered
  | op | land | note | settle | lapse | lapsed | leave | takenUp | back | next | noRoom | begin | page | look | admitEntry
  | mark | starve | whole | waited => cases h

/-! ### Runs -/

private theorem starts_watches (h : Starts s) : s.Watches home := by
  obtain ⟨served, rfl⟩ := h
  refine ⟨?_, ?_, ?_, ?_, ?_, ?_⟩
  · intro x hx
    cases hx
  · intro id hid
    exact absurd hid (Finset.notMem_empty id)
  · intro id r hr
    cases hr
  · intro id r hr
    cases hr
  · intro id r hr
    cases hr
  · intro id r hr
    cases hr

private theorem moves_watches {a : Action} (hs : s.Watches home) (hok : Unhurried home s a)
    (h : s.moves c home a = some s') : s'.Watches home := by
  have hscans (h : (match s.dispatching with
      | .scanning scan rest => s.scans c home scan rest a
      | _ => none) = some s') : s'.Watches home := by
    split at h
    · rename_i scan rest hd
      exact scans_watches hs hd hok h
    · cases h
  have hhands (h : s.handsOn home a = some s') : s'.Watches home := handsOn_watches hs hok h
  have hdispatches (h : s.dispatches c a = some s') : s'.Watches home := dispatches_watches hs h
  have htakes (h : s.takes home a = some s') : s'.Watches home := takes_watches hs hok h
  cases a with
  | op op => exact does_watches hs h
  | land | note | settle | lapse | lapsed | leave | takenUp | back => exact hhands h
  | next | noRoom | begin => exact hdispatches h
  | page | look | admitEntry | mark | starve | whole | waited => exact hscans h
  | taken | notDue | passed | untaken => exact htakes h

/-- What the dispatching keeps of a retry wakes the node for it, or its queue is being read. -/
private theorem Sys.Covers.wakesFor {id l : Nat} {r : Retry} (h : s.Covers home id r l) :
    s.wakesFor home (id, r.place) l = true := by
  have hwakes (h : WakesBy s.step (home.queue id) l) :
      ((s.step.due.get (home.queue id)).any fun due => due.at?.any fun t => decide (t ≤ l)) = true := by
    obtain ⟨due, hdue, t, ht, hl⟩ := h
    rw [hdue, Option.any_some, ht, Option.any_some, decide_eq_true hl]
  unfold Sys.wakesFor
  simp only [Bool.or_eq_true, decide_eq_true_eq]
  rcases h with h | h | h
  · exact .inr h
  · exact .inl (.inl (h.elim (fun h => .inl (.inr h)) .inr))
  · unfold Sys.reads
    cases hd : s.dispatching with
    | idle =>
      rw [hd] at h
      exact .inl (.inl (.inl (.inl (hwakes h))))
    | going queues =>
      rw [hd] at h
      rcases h with h | h
      · exact .inl (.inr (decide_eq_true h))
      · exact .inl (.inl (.inl (.inl (hwakes h))))
    | scanning scan rest =>
      rw [hd] at h
      rcases h with h | ⟨hq, -⟩ | ⟨-, h⟩
      · exact .inl (.inr (Bool.or_eq_true_iff.2 (.inr (decide_eq_true h))))
      · exact .inl (.inr (Bool.or_eq_true_iff.2 (.inl (decide_eq_true hq))))
      · exact .inl (.inl (.inl (.inl (hwakes h))))

/-- Every retry that waits and was noted the node wakes for, as long as no scan passes over a Message for a mark whose
claim was answered already, and none is left, passed over or given back at its place but where its queue is to be read. -/
theorem woken_of_unhurried (h : Reach (Sys.moves c home) (Unhurried home) Starts s) : Woken home s := by
  have hs : s.Watches home :=
    Reach.invariant (fun _ h => starts_watches h) (fun _ _ _ hs hok h => moves_watches hs hok h) h
  intro x hx hwaits hnoted hserved
  obtain ⟨l, hl, hcov⟩ := hs.covered x.1 x.2 (Table.mem_iff_get.1 hx) hwaits hnoted hserved
  exact ⟨l, hl, hcov.wakesFor⟩

end

/-- Every Message leads to the one Port there is. -/
def oneHome : Home := ⟨fun _ => 7, fun _ => "Out"⟩

private def Dispatching.goesNowhere : Dispatching → Bool
  | .going queues => queues.isEmpty
  | .idle | .scanning .. => false

private theorem Dispatching.eq_of_goesNowhere {d : Dispatching} (h : d.goesNowhere = true) : d = .going [] := by
  cases d with
  | going queues => rw [List.isEmpty_iff.1 h]
  | idle | scanning => cases h

/-- A hand-on lands and is noted while its queue is read, after the page that would have listed it; the read to the end
of the queue keeps what was noted. -/
theorem woken_across_a_read :
    ∃ s, Reach (Sys.moves SendStep.Sys.twoPlaces oneHome) (Unhurried oneHome) Starts s ∧ Woken oneHome s ∧
      s.retries.get 1 = some ⟨3, true, true, some 6, .waiting⟩ ∧ s.dispatching = .going [] := by
  obtain ⟨s, hs, hp⟩ := Reach.exists_of_runWhere (Sys.moves SendStep.Sys.twoPlaces oneHome) (Unhurried oneHome)
    (show Starts (.starting [7]) from ⟨[7], rfl⟩)
    [.op (.own (SendStep.Sys.departing 1 11)), .op (.push (SendStep.Sys.departing 1 11)), .op .rescan, .next 0 false,
      .begin, .page 0 (fun _ => none) [] true, .land 0 5 3, .note 0 1, .whole ∅ 0, .waited]
    (fun s => decide (s.retries.get 1 = some ⟨3, true, true, some 6, .waiting⟩) && s.dispatching.goesNowhere)
    (by decide +kernel)
  simp only [Bool.and_eq_true, decide_eq_true_eq] at hp
  exact ⟨s, hs, woken_of_unhurried hs, hp.1, Dispatching.eq_of_goesNowhere hp.2⟩

/-- A wake-up is lost: a scan's claim finds a retry not yet due and notes it; before its place is given back the retry is
due, and the dispatching, woken for it, reads the queue and passes over it for its mark.  The read to the end of the
queue then leaves no due time, and once the place is given back nothing is under way. -/
theorem unwoken_by_a_mark :
    ∃ s, Reach (Sys.moves SendStep.Sys.twoPlaces oneHome) Always Starts s ∧ ¬ Woken oneHome s ∧ s.takers = [] := by
  obtain ⟨s, hs, hp⟩ := Reach.exists_of_runWhere (Sys.moves SendStep.Sys.twoPlaces oneHome) Always
    (show Starts (.starting [7]) from ⟨[7], rfl⟩)
    [.op (.own (SendStep.Sys.departing 1 11)), .op (.push (SendStep.Sys.departing 1 11)), .op .rescan, .next 0 false,
      .begin, .page 0 (fun _ => none) [(1, 3)] true, .land 0 5 3, .note 0 1, .look, .admitEntry, .mark,
      .whole {(1, 3)} 0, .waited, .notDue 0 6, .next 6 false, .begin, .page 6 (fun _ => none) [(1, 3)] true, .look,
      .whole {(1, 3)} 0, .waited, .untaken 0]
    (fun s => !decide (Woken oneHome s) && decide (s.takers = [])) (by decide +kernel)
  simp only [Bool.and_eq_true, Bool.not_eq_true', decide_eq_false_iff_not, decide_eq_true_eq] at hp
  exact ⟨s, hs, hp⟩

/-- And where a claim is refused, or not answered: the read that found the retry due leaves no due time, and its place is
given back with the retry where it was. -/
theorem unwoken_by_a_refused_claim :
    ∃ s, Reach (Sys.moves SendStep.Sys.twoPlaces oneHome) Always Starts s ∧ ¬ Woken oneHome s ∧ s.takers = [] := by
  obtain ⟨s, hs, hp⟩ := Reach.exists_of_runWhere (Sys.moves SendStep.Sys.twoPlaces oneHome) Always
    (show Starts (.starting [7]) from ⟨[7], rfl⟩)
    [.op (.own (SendStep.Sys.departing 1 11)), .op (.push (SendStep.Sys.departing 1 11)), .op .rescan, .next 0 false,
      .land 0 5 3, .note 0 1, .begin, .page 1 (fun _ => some 5) [] true, .whole ∅ 1, .waited, .next 6 false, .begin,
      .page 6 (fun _ => none) [(1, 3)] true, .look, .admitEntry, .mark, .whole {(1, 3)} 0, .waited, .passed 0 false,
      .untaken 0]
    (fun s => !decide (Woken oneHome s) && decide (s.takers = [])) (by decide +kernel)
  simp only [Bool.and_eq_true, Bool.not_eq_true', decide_eq_false_iff_not, decide_eq_true_eq] at hp
  exact ⟨s, hs, hp⟩

end Waking
