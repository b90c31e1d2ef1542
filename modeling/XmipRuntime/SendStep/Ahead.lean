import XmipRuntime.Library.Pick
import XmipRuntime.Library.Run
import XmipRuntime.Library.Table
import XmipRuntime.SendStep.State

/-!
# What waits behind a place, and who wakes for it

A Message that does not head its sequences is passed: its pass ends behind, its claim is given back, and it is owned no
more (`src/send_step/pass.rs`, `src/send_step/dispatch.rs`, `settle`).  It is looked at again once what stands ahead of it
lets go of its place: the send that does so has every queue read, a rescan, after its own pass is settled.  A scan passes
over what the node still owns, is taking, or found not to be sent (`src/send_step/scan.rs`).

The machine is one node's, alone in its cluster and Xmip Storage answering, no claim of it lapsing but one whose thread
panicked: the dispatching, which reads one queue after the other a page at a time; the claims its scans take, on the
dispatching itself or on send threads, each for the place a page listed, answered by what stands there then; the passes,
which take the places they wait for in one write each, read their places one by one, end in one step and are settled in
others; and the acts of operators and of Work Processes, from the claim they take to the queue they ask.  A place read at
the head is remembered, and heads its sequence from then on, let go of or not (`src/sequence.rs`, `heads`).  A retry whose
time comes is woken for by its queue's due time, until that is taken or the retry is listed.  How much room the pool has,
when due times come, which of what fails or completes lets go of which shared place, which Message cannot be read, and what
is Sequential, are any.  What a Message waits for is as in `Sequence`: the places of its Stream and its delivery, and those
at its point, taken late or not.
-/

namespace Ahead

open Library
open SendStep (listed)

/-! ### Messages and their places -/

/-- A place in a sequence: the sequence, and who holds it. -/
abbrev Place := Nat × Nat

/-- Who holds a place in each sequence, in order. -/
abbrev Places := Nat → List Nat

structure Message where
  queue : Nat
  /-- Its place in its queue, and whether it came to stand there, or its retry fell due, since the last read began. -/
  position : Nat
  fresh : Bool
  /-- The places of its Stream and of its delivery. -/
  shared : List Place
  /-- The sequences of its point it holds a place in. -/
  own : List Nat
  /-- The place its delivery has still to take, and the sequences of its point it has still to take one in. -/
  groupLate : Option Place
  ownLate : List Nat
  failed : Bool
  due : Bool
  deriving DecidableEq

def Message.places (m : Message) (id : Nat) : List Place := m.shared ++ m.own.map fun queue => (queue, id)

/-- Whether it waits for places still. -/
def Message.waits (m : Message) : Bool := m.groupLate.isSome || m.own.isEmpty && !m.ownLate.isEmpty

/-- Whether a place is the first of its sequence, where it was not let go of. -/
def Places.leads (places : Places) (x : Place) : Bool :=
  !(places x.1).contains x.2 || decide ((places x.1).head? = some x.2)

/-- What is answered to whether a place heads its sequence: it was seen to before, is the first, or there is none. -/
def heads (places : Places) (headed : List Place) (x : Place) : Bool :=
  headed.contains x ||
    match places x.1 with
    | first :: _ => decide (first = x.2)
    | [] => true

/-- The most places remembered at once; the oldest are forgotten together. -/
def remembered : Nat := 65536

/-- A place seen at the head of its sequence, remembered by the process. -/
def remember (headed : List Place) (x : Place) : List Place :=
  let headed := if remembered ≤ headed.length then [] else headed
  if headed.contains x then headed else x :: headed

/-- A place taken, at the end, where its holder has none there. -/
def Places.take (places : Places) (x : Place) : Places := fun queue =>
  if queue = x.1 ∧ x.2 ∉ places queue then places queue ++ [x.2] else places queue

/-- Places let go of. -/
def Places.letGo (places : Places) (lets : List Place) : Places := fun queue =>
  (places queue).filter fun holder => !lets.contains (queue, holder)

/-- What a scan that claims it writes of the places it waits for, where its Stream and its delivery head: its delivery's
place alone, where it has not taken that yet, else those at its point. -/
def Message.takeLate (m : Message) (places : Places) (headed : List Place) (id : Nat) : Option (Message × Places) :=
  if m.shared.all (heads places headed) then
    match m.groupLate with
    | some x => some ({ m with shared := m.shared ++ [x], groupLate := none }, places.take x)
    | none =>
      if m.own.isEmpty && !m.ownLate.isEmpty then
        some ({ m with own := m.ownLate, ownLate := [] }, m.ownLate.foldl (fun places queue => places.take (queue, id)) places)
      else none
  else none

/-! ### The node -/

/-- Where a pass stands: claimed by a scan, its places to be taken; the Message to be sent, and then with these places
still to be found at the head of their sequences; passed behind another; its claim given back, its queue to be asked where
these places head too, or not; not tried, to be tried again; or ended its Journey, a rescan to come or none. -/
inductive Phase where
  | placing
  | sending
  | checking (left : List Place)
  | behind
  | untried
  | weighing (left : List Place)
  | unasked
  | waiting
  | closed (rescans : Bool)
  deriving DecidableEq

/-- Whether the pass holds its Message's claim. -/
def Phase.holds : Phase → Bool
  | .placing | .sending | .checking _ | .behind | .untried => true
  | .weighing _ | .unasked | .waiting | .closed _ => false

/-- Whether a pass to be settled has its queue asked, its due time noted, or a rescan to follow. -/
def Phase.wakes : Phase → Bool
  | .weighing _ | .waiting => true
  | .closed rescans => rescans
  | .placing | .sending | .checking _ | .behind | .untried | .unasked => false

structure Pass where
  id : Nat
  phase : Phase
  deriving DecidableEq

/-- What a scan's claim has answered: nothing yet; it is held, and the place to be read under it; or the Message is not
sent, its place still to be marked so or not. -/
inductive Answer where
  | asked
  | claimed
  | unsent (marks : Bool)
  deriving DecidableEq

/-- Whether the claim, or what is read under it, is still to say whether the Message is sent, or its place to be marked. -/
def Answer.stands : Answer → Bool
  | .asked | .claimed => true
  | .unsent marks => marks

/-- A Message at a place of a queue, found by a scan and being claimed: on the dispatching, or on a send thread. -/
structure Taker where
  queue : Nat
  id : Nat
  position : Nat
  here : Bool
  answer : Answer
  deriving DecidableEq

/-- A queue being read: the places it looked at, and those read and still to be looked at; and whether the last page was
read. -/
structure Scan where
  queue : Nat
  looked : List (Nat × Nat)
  left : List (Nat × Nat)
  last : Bool

/-- Every place it read. -/
def Scan.present (scan : Scan) : List (Nat × Nat) := scan.looked ++ scan.left

/-- What the dispatching does: it waits for something to do, or goes through queues to read, scanning one. -/
inductive Dispatching where
  | idle
  | going (queues : List Nat)
  | scanning (scan : Scan) (rest : List Nat)

/-- The next entry looked at. -/
def Dispatching.looked : Dispatching → Dispatching
  | .scanning scan rest =>
    .scanning { scan with looked := scan.looked ++ scan.left.take 1, left := scan.left.drop 1 } rest
  | .idle => .idle
  | .going queues => .going queues

/-- What the node sends: the queues it serves, and those of a Send Port with sequences at its points or in its group. -/
structure Ports where
  served : List Nat
  points : Nat → Bool
  grouped : Nat → Bool

structure Sys where
  ports : Ports
  messages : Table Nat Message
  /-- How many places were given in queues. -/
  written : Nat
  places : Places
  /-- The places read at the head of their sequences, and those of them remembered. -/
  seen : List Place
  headed : List Place
  /-- Claimed in the write that brought them, and to be owned. -/
  handed : List Nat
  owned : List Nat
  /-- Marked by a scan that takes them. -/
  taking : List Nat
  /-- The places of each queue found not to be sent. -/
  passed : Nat → List (Nat × Nat)
  takers : List Taker
  passes : List Pass
  /-- The Journeys operators' acts read Failed, and those they hold the claim of. -/
  opened : List Nat
  holding : List Nat
  /-- The acts written, with the queue of each, and the queues they and Publications have still to ask. -/
  acted : List (Nat × Nat)
  acting : List Nat
  /-- The retries whose time came, their queue's due time still to be taken for them. -/
  fallen : List Nat
  /-- The Messages claimed on a thread that panicked, until their claims lapse. -/
  lapsing : List Nat
  asked : List Nat
  starved : List Nat
  rescan : Bool
  /-- Sends settled, and turns, whose rescan is still to come. -/
  closing : Nat
  dispatching : Dispatching

/-- What a pass that is tried comes to: sent, with the shared places that are let go of by it; failed, with the places it
and the others let go of; to be tried again; or not tried at all. -/
inductive Outcome where
  | completed (lets : List Place)
  | failed (lets : List Place)
  | later
  | untried

inductive Action where
  /-- A Message is written into its queue, with the places it takes, claimed for this node's send or not. -/
  | arrives (id : Nat) (m : Message) (takes : List Place) (claimed : Bool)
  /-- What was claimed so is owned, with a scan's mark on it dropped or not. -/
  | hands (i : Nat) (drops : Bool)
  /-- A queue is asked: for an act or a Publication that was written, or anything else. -/
  | asks (queue : Nat)
  /-- A retry's time comes. -/
  | ripens (id : Nat)
  /-- The dispatching has something to do: `all`, to scan every queue; the due times of the queues `due` have come. -/
  | next (all : Bool) (due : List Nat)
  | noRoom
  | begins
  /-- A page of what is due is read, the last or not. -/
  | page (listed : List (Nat × Nat)) (last : Bool)
  /-- A scan looks at an entry: there is `room` or none. -/
  | looks (id position : Nat) (room : Bool)
  | ends
  | rests
  /-- A scan's claim is granted, or refused; what is read under it is sent, or not, its place to be marked or not. -/
  | claims (i : Nat)
  | refuses (i : Nat)
  | owns (i : Nat)
  | declines (i : Nat) (marks : Bool)
  | marks (i : Nat)
  | untakes (i : Nat)
  /-- A send thread that claims a Message panics, and the claim it held lapses. -/
  | breaks (i : Nat)
  | lapses (i : Nat)
  /-- A place is read at the head of its sequence, by a pass or by anything else of the process; and it is remembered. -/
  | sees (x : Place)
  | remembers (x : Place)
  /-- What was claimed on the dispatching takes the places it waits for, a write at a time, or its key cannot be read. -/
  | places (i : Nat)
  | unplaced (i : Nat)
  | checks (i : Nat)
  | passes (i : Nat) (outcome : Outcome)
  /-- A send's thread panics: its Message is written Failed. -/
  | panics (i : Nat) (lets : List Place)
  /-- A pass that ended behind, or untried, gives its claim back, and is asked whether it waits for its places alone. -/
  | weighs (i : Nat)
  | settles (i : Nat)
  | rescans
  /-- A place in the pool is given back. -/
  | frees
  /-- An operator's act reads its Journey Failed, takes its claim, gives up, or writes a Retry or a Dismiss. -/
  | reads (id : Nat)
  | holds (id : Nat)
  | givesUp (id : Nat) (held : Bool)
  | retry (id : Nat) (moves : Bool)
  | dismiss (id : Nat) (lets : List Place)
  /-- A written act forgets that its Message's places were not to be sent. -/
  | forgets (i : Nat)
  /-- A Work Process's turn ends, with the places it lets go of; done, and a rescan follows, or failed. -/
  | turns (lets : List Place) (done : Bool)

namespace Sys

/-- Whether a Message heads every sequence it holds a place in. -/
def leads (s : Sys) (id : Nat) (m : Message) : Bool := (m.places id).all s.places.leads

/-- A place in the Send pool freed. -/
def freed (s : Sys) : Sys := { s with starved := [], asked := s.starved.foldl listed s.asked }

/-- Whether places are among those of `m`. -/
def among (id : Nat) (m : Message) (lets : List Place) : Bool := lets.all fun x => (m.places id).contains x

def ask (s : Sys) (queue : Nat) : Sys := { s with asked := listed s.asked queue }

/-- Whether a scan passes over the Message `id` at a place of `queue`. -/
def known (s : Sys) (queue id position : Nat) : Bool :=
  s.owned.contains id || s.taking.contains id || (s.passed queue).contains (id, position)

/-- Whether the claim of the Message `id` is held: by the write that brought it, an operator's act, a thread that panicked, a
pass, or a scan. -/
def held (s : Sys) (id : Nat) : Bool :=
  s.handed.contains id || s.holding.contains id || s.lapsing.contains id ||
  (s.passes.any fun pass => decide (pass.id = id) && pass.phase.holds) ||
  s.takers.any fun taker => decide (taker.id = id ∧ taker.answer = .claimed)

/-- What is due at a place of `queue`. -/
def listing (s : Sys) (queue : Nat) : List (Nat × Nat) :=
  (s.messages.entries.filter fun x => decide (x.2.queue = queue) && x.2.due && !x.2.failed).map
    fun x => (x.1, x.2.position)

/-- Whether `present` holds every place of `queue` that is due and was as the read began. -/
def readWhole (s : Sys) (queue : Nat) (present : List (Nat × Nat)) : Bool :=
  s.messages.entries.all fun x =>
    x.2.fresh || !(s.listing queue).contains (x.1, x.2.position) || present.contains (x.1, x.2.position)

/-- Whether the dispatching claims what it found last, and goes on only after. -/
def busy (s : Sys) : Bool := s.takers.any Taker.here || s.passes.any fun pass => decide (pass.phase = .placing)

/-- Whether a send of `m` that ends its Journey has every queue read. -/
def sequenced (s : Sys) (m : Message) : Bool := !m.shared.isEmpty || !m.own.isEmpty || s.ports.points m.queue

def arrive (s : Sys) (id : Nat) (m : Message) (takes : List Place) (claimed : Bool) : Sys :=
  { s with
    messages := s.messages.put id { m with position := s.written, fresh := true, failed := false, due := true }
    written := s.written + 1
    places := takes.foldl Places.take s.places
    handed := if claimed then id :: s.handed else s.handed
    acting := if claimed then s.acting else m.queue :: s.acting }

def comes (s : Sys) : Action → Option Sys
  | .arrives id m takes claimed =>
    if (s.messages.get id).isNone ∧ among id m takes then some (s.arrive id m takes claimed) else none
  | .hands i drops => do
    let (id, rest) ← pick s.handed i
    some { s with
      handed := rest
      owned := id :: s.owned
      taking := if drops then s.taking.filter (decide <| · ≠ id) else s.taking
      passes := s.passes ++ [⟨id, .sending⟩] }
  | .asks queue => some { s.ask queue with acting := s.acting.erase queue }
  | .ripens id =>
    match s.messages.get id with
    | some m =>
      if m.due = false then
        some { s with messages := s.messages.put id { m with due := true, fresh := true }, fallen := id :: s.fallen }
      else none
    | none => none
  | _ => none

/-- What has its queue read, taken. -/
def taken (s : Sys) (all : Bool) (due : List Nat) : Sys :=
  { s with
    asked := []
    rescan := false
    fallen := s.fallen.filter fun id => (s.messages.get id).any fun m => !due.contains m.queue
    dispatching := .going (s.ports.served.filter fun queue =>
      all || s.rescan || s.asked.contains queue || due.contains queue) }

/-- The dispatching, before it scans a queue and after. -/
def dispatches (s : Sys) : Action → Option Sys
  | .next all due =>
    match s.dispatching with
    | .idle => some (s.taken all due)
    | .going _ | .scanning .. => none
  | .noRoom =>
    match s.dispatching with
    | .going (queue :: rest) => some { s with starved := listed s.starved queue, dispatching := .going rest }
    | .going [] | .idle | .scanning .. => none
  | .begins =>
    match s.dispatching with
    | .going (queue :: rest) => some { s with
        messages := s.messages.map fun m => { m with fresh := false }
        dispatching := .scanning ⟨queue, [], [], false⟩ rest }
    | .going [] | .idle | .scanning .. => none
  | .rests =>
    match s.dispatching with
    | .going [] => some { s with dispatching := .idle }
    | .going (_ :: _) | .idle | .scanning .. => none
  | _ => none

/-- An entry a scan found, marked, and to be claimed. -/
def found (s : Sys) (queue id position : Nat) : Sys :=
  { s with
    taking := id :: s.taking
    takers := s.takers ++ [⟨queue, id, position, s.ports.points queue || s.ports.grouped queue, .asked⟩] }

/-- The places of `queue` found not to be sent, those its read did not come upon forgotten. -/
def forgotten (s : Sys) (scan : Scan) (queue : Nat) : List (Nat × Nat) :=
  if queue = scan.queue then (s.passed queue).filter scan.present.contains else s.passed queue

/-- A scan with nothing being claimed on the dispatching. -/
def scans (s : Sys) (scan : Scan) (rest : List Nat) : Action → Option Sys
  | .page listed last =>
    if scan.left = [] ∧ scan.last = false ∧ (∀ x ∈ listed, x ∈ s.listing scan.queue) ∧
        (last = true → s.readWhole scan.queue (scan.looked ++ listed)) then
      some { s with
        fallen := s.fallen.filter fun id => (s.messages.get id).any fun m => !listed.contains (id, m.position)
        dispatching := .scanning { scan with left := listed, last } rest }
    else none
  | .looks id position room =>
    if scan.left.head? = some (id, position) then
      let looked := { s with dispatching := s.dispatching.looked }
      if s.known scan.queue id position then some looked
      else if room then some (looked.found scan.queue id position)
      else some { s with starved := listed s.starved scan.queue, dispatching := .going rest }
    else none
  | .ends =>
    if scan.left = [] ∧ scan.last = true then some { s with passed := s.forgotten scan, dispatching := .going rest } else none
  | _ => none

/-- The Message a scan took, where it stands at the place still, and is due. -/
def standing (s : Sys) (taker : Taker) : Option Message :=
  (s.messages.get taker.id).filter fun m =>
    decide (m.queue = taker.queue ∧ m.position = taker.position ∧ m.due = true)

/-- A claim a scan asked for, and its Message's place read under it. -/
def takes (s : Sys) : Action → Option Sys
  | .claims i => do
    let (taker, rest) ← pick s.takers i
    if taker.answer = .asked ∧ s.held taker.id = false then
      some { s with takers := rest ++ [{ taker with answer := .claimed }] }
    else none
  | .refuses i => do
    let (taker, rest) ← pick s.takers i
    if taker.answer = .asked ∧ s.held taker.id = true then
      some { s with takers := rest ++ [{ taker with answer := .unsent false }] }
    else none
  | .owns i => do
    let (taker, rest) ← pick s.takers i
    let m ← s.standing taker
    if taker.answer = .claimed ∧ m.failed = false then
      some { s with
        takers := rest
        taking := s.taking.filter fun id => decide (id ≠ taker.id)
        owned := taker.id :: s.owned
        fallen := s.fallen.filter fun id => decide (id ≠ taker.id)
        passes := s.passes ++ [⟨taker.id, if taker.here then .placing else .sending⟩] }
    else none
  | .declines i marks => do
    let (taker, rest) ← pick s.takers i
    -- What is found there is marked: failed, or not readable as a Message to send.
    if taker.answer = .claimed ∧ (s.standing taker).isSome = marks then
      some { s with takers := rest ++ [{ taker with answer := .unsent marks }] }
    else none
  | .marks i => do
    let (taker, rest) ← pick s.takers i
    if taker.answer = .unsent true then
      some { s with
        passed := fun queue =>
          if queue = taker.queue then (taker.id, taker.position) :: s.passed queue else s.passed queue
        takers := rest ++ [{ taker with answer := .unsent false }] }
    else none
  | .untakes i => do
    let (taker, rest) ← pick s.takers i
    if taker.answer = .unsent false then
      some { s with takers := rest, taking := s.taking.filter fun id => decide (id ≠ taker.id) }.freed
    else none
  | .breaks i => do
    let (taker, rest) ← pick s.takers i
    if taker.here = false then
      some { s with
        takers := rest
        taking := s.taking.filter fun id => decide (id ≠ taker.id)
        lapsing := if taker.answer = Answer.claimed then taker.id :: s.lapsing else s.lapsing }.freed
    else none
  | .lapses i => do
    let (_, rest) ← pick s.lapsing i
    some { s with lapsing := rest }
  | _ => none

/-- The Message `id` as its pass, in `phase` now, leaves it. -/
def leaves (s : Sys) (rest : List Pass) (id : Nat) (phase : Phase) : Sys := { s with passes := rest ++ [⟨id, phase⟩] }

/-- How the pass of `m` ends. -/
def ended (s : Sys) (rest : List Pass) (id : Nat) (m : Message) : Outcome → Sys
  | .completed lets =>
    { s with
      messages := s.messages.drop id
      places := s.places.letGo (lets ++ m.own.map fun queue => (queue, id)) }.leaves rest id (.closed (s.sequenced m))
  | .failed lets =>
    { s with
      messages := s.messages.put id { m with failed := true }
      places := s.places.letGo lets }.leaves rest id (.closed (s.sequenced m))
  | .later => { s with messages := s.messages.put id { m with due := false } }.leaves rest id .waiting
  | .untried => s.leaves rest id .untried

/-- A pass on the dispatching or on a send thread, until it is to be settled. -/
def sends (s : Sys) : Action → Option Sys
  | .places i => do
    let (pass, rest) ← pick s.passes i
    let m ← s.messages.get pass.id
    if pass.phase = .placing then
      match m.takeLate s.places s.headed pass.id with
      | some (m', places) =>
        some ({ s with messages := s.messages.put pass.id m', places := places }.leaves rest pass.id .placing)
      | none => some (s.leaves rest pass.id .sending)
    else none
  | .unplaced i => do
    let (pass, rest) ← pick s.passes i
    if pass.phase = .placing then some (s.leaves rest pass.id .sending) else none
  | .checks i => do
    let (pass, rest) ← pick s.passes i
    let m ← s.messages.get pass.id
    match pass.phase with
    | .sending => some (s.leaves rest pass.id (if m.waits then .behind else .checking (m.places pass.id)))
    | .checking (x :: left) => some (s.leaves rest pass.id (if heads s.places s.headed x then .checking left else .behind))
    | _ => none
  | .passes i outcome => do
    let (pass, rest) ← pick s.passes i
    let m ← s.messages.get pass.id
    if pass.phase = .checking [] then
      match outcome with
      | .completed lets | .failed lets => if among pass.id m lets then some (s.ended rest pass.id m outcome) else none
      | .later | .untried => some (s.ended rest pass.id m outcome)
    else none
  | .panics i lets => do
    let (pass, rest) ← pick s.passes i
    let m ← s.messages.get pass.id
    match pass.phase with
    | .sending | .checking _ =>
      if among pass.id m lets then
        some ({ s with
          messages := s.messages.put pass.id { m with failed := true }
          places := s.places.letGo lets }.leaves rest pass.id (.closed false))
      else none
    | _ => none
  | .weighs i => do
    let (pass, rest) ← pick s.passes i
    match pass.phase with
    | .untried => some (s.leaves rest pass.id (.weighing []))
    | .behind => do
      let m ← s.messages.get pass.id
      some (s.leaves rest pass.id (if m.own.isEmpty then .weighing m.shared else .unasked))
    | .weighing (x :: left) => some (s.leaves rest pass.id (if heads s.places s.headed x then .weighing left else .unasked))
    | _ => none
  | _ => none

/-- The queues asked, with that of a pass that ended so. -/
def askedFor (s : Sys) (pass : Pass) : List Nat :=
  match pass.phase, s.messages.get pass.id with
  | .weighing _, some m => listed s.asked m.queue
  | _, _ => s.asked

/-- The retries whose time came, with that of a pass that is to be tried again: its due time is noted once it is settled. -/
def notedFor (s : Sys) (pass : Pass) : List Nat :=
  if pass.phase = .waiting ∧ (s.messages.get pass.id).any Message.due then pass.id :: s.fallen else s.fallen

/-- How a pass ended, settled: its queue asked where it is to be, its due time noted, and nothing of it stays owned. -/
def settled (s : Sys) (pass : Pass) (rest : List Pass) : Sys :=
  { s with
    asked := s.askedFor pass
    fallen := s.notedFor pass
    owned := s.owned.filter fun id => decide (id ≠ pass.id)
    passes := rest
    closing := if pass.phase = Phase.closed true then s.closing + 1 else s.closing }.freed

def settles (s : Sys) : Action → Option Sys
  | .settles i => do
    let (pass, rest) ← pick s.passes i
    match pass.phase with
    | .weighing [] | .unasked | .waiting | .closed _ => some (s.settled pass rest)
    | .placing | .sending | .checking _ | .behind | .untried | .weighing (_ :: _) => none
  | .rescans => if 0 < s.closing then some { s with closing := s.closing - 1, rescan := true } else none
  | .frees => some s.freed
  | .sees x => if (s.places x.1).head? = some x.2 then some { s with seen := x :: s.seen } else none
  | .remembers x => if x ∈ s.seen then some { s with headed := remember s.headed x } else none
  | .turns lets done =>
    some { s with places := s.places.letGo lets, closing := if done then s.closing + 1 else s.closing }
  | _ => none

/-- `m` retried: at its place, or at a new one at its queue's end. -/
def retried (s : Sys) (m : Message) (moves : Bool) : Message :=
  { m with failed := false, due := true, fresh := true, position := if moves then s.written else m.position }

/-- An operator's act. -/
def acts (s : Sys) : Action → Option Sys
  | .reads id =>
    if (s.messages.get id).any Message.failed then some { s with opened := id :: s.opened } else none
  | .holds id =>
    if id ∈ s.opened ∧ s.held id = false then
      some { s with opened := s.opened.erase id, holding := id :: s.holding }
    else none
  | .givesUp id held =>
    if held then if id ∈ s.holding then some { s with holding := s.holding.erase id } else none
    else if id ∈ s.opened then some { s with opened := s.opened.erase id } else none
  | .retry id moves => do
    let m ← s.messages.get id
    if id ∈ s.holding ∧ m.failed = true then
      some { s with
        messages := s.messages.put id (s.retried m moves)
        written := s.written + 1
        holding := s.holding.erase id
        acted := (id, m.queue) :: s.acted }
    else none
  | .dismiss id lets => do
    let m ← s.messages.get id
    if id ∈ s.holding ∧ m.failed = true ∧ among id m lets then
      some { s with
        messages := s.messages.drop id
        places := s.places.letGo lets
        holding := s.holding.erase id
        acted := (id, m.queue) :: s.acted }
    else none
  | .forgets i => do
    let (x, rest) ← pick s.acted i
    some { s with
      passed := fun queue =>
        if queue = x.2 then (s.passed queue).filter fun place => decide (place.1 ≠ x.1) else s.passed queue
      acted := rest
      acting := x.2 :: s.acting }
  | _ => none

def step (s : Sys) (a : Action) : Option Sys :=
  match a with
  | .arrives .. | .hands .. | .asks _ | .ripens _ => s.comes a
  | .next .. | .noRoom | .begins | .rests => s.dispatches a
  | .page .. | .looks .. | .ends =>
    match s.dispatching with
    | .scanning scan rest => if s.busy then none else s.scans scan rest a
    | .idle | .going _ => none
  | .claims _ | .refuses _ | .owns _ | .declines .. | .marks _ | .untakes _ | .breaks _ | .lapses _ => s.takes a
  | .places _ | .unplaced _ | .checks _ | .passes .. | .panics .. | .weighs _ => s.sends a
  | .settles _ | .rescans | .frees | .sees _ | .remembers _ | .turns .. => s.settles a
  | .reads _ | .holds _ | .givesUp .. | .retry .. | .dismiss .. | .forgets _ => s.acts a

/-- Nothing in it, to send from `ports`. -/
def starting (ports : Ports) : Sys :=
  ⟨ports, .empty, 0, fun _ => [], [], [], [], [], [], fun _ => [], [], [], [], [], [], [], [], [], [], [], false, 0, .idle⟩

/-- Where every run of it begins. -/
def Starts (ports : Ports) (s : Sys) : Prop := s = starting ports

/-! ### Who wakes for what may go -/

/-- Whether the read under way has not come upon the place of `m`: it forgets a mark on it as it ends. -/
def unread (s : Sys) (id : Nat) (m : Message) : Bool :=
  match s.dispatching with
  | .scanning scan _ => decide (m.queue = scan.queue ∧ (id, m.position) ∉ scan.present)
  | .idle | .going _ => false

/-- Whether scans pass over the place of `m`, found not to be sent; at rest, whether it is marked so. -/
def passedOver (s : Sys) (id : Nat) (m : Message) : Bool :=
  (s.passed m.queue).contains (id, m.position) && !s.unread id m

/-- A Message that may go: in a served queue, due, its due time taken where it was to be tried again, not failed nor passed
over, with no claim that is to lapse, and at the head of every sequence it holds a place in. -/
structure MayGo (s : Sys) (id : Nat) (m : Message) : Prop where
  served : m.queue ∈ s.ports.served
  due : m.due = true
  fallen : id ∉ s.fallen
  failed : m.failed = false
  lapsing : id ∉ s.lapsing
  passed : s.passedOver id m = false
  heads : s.leads id m = true

/-- Its queue is to be read: asked, waiting for room, or with every other. -/
def Woken (s : Sys) (queue : Nat) : Prop := queue ∈ s.asked ∨ queue ∈ s.starved ∨ s.rescan = true

/-- No pass, claim, scan, settlement or act is under way. -/
structure Quiet (s : Sys) : Prop where
  dispatching : s.dispatching = .idle
  handed : s.handed = []
  takers : s.takers = []
  passes : s.passes = []
  acted : s.acted = []
  acting : s.acting = []
  closing : s.closing = 0

end Sys

/-- Whether the dispatching has a queue still to read, or a Message still to list or to look at there. -/
def Dispatching.Awaits (id : Nat) (m : Message) : Dispatching → Prop
  | .idle => False
  | .going queues => m.queue ∈ queues
  | .scanning scan rest => m.queue ∈ rest ∨ m.queue = scan.queue ∧
    ((id, m.position) ∈ scan.left ∨ scan.last = false ∧ m.fresh = false ∧ (id, m.position) ∉ scan.present)

namespace Sys

/-- A pass of the Message `id` is under way, or it is to be handed to one. -/
def Sent (s : Sys) (id : Nat) : Prop := id ∈ s.handed ∨ ∃ pass ∈ s.passes, pass.id = id

/-- A claim taken for the place where `m` stands is still to say whether it is sent, or to mark it. -/
def Taken (s : Sys) (id : Nat) (m : Message) : Prop :=
  s.unread id m = false ∧ ∃ taker ∈ s.takers,
    taker.queue = m.queue ∧ taker.id = id ∧ taker.position = m.position ∧ taker.answer.stands = true

/-- An act on a Message of the queue is written, or something else to ask for it still. -/
def Acting (s : Sys) (queue : Nat) : Prop := queue ∈ s.acting ∨ ∃ x ∈ s.acted, x.2 = queue

/-- A rescan is to come: a send that ended its Journey is to be settled, or was. -/
def Closing (s : Sys) : Prop := 0 < s.closing ∨ ∃ pass ∈ s.passes, pass.phase = .closed true

/-- What a Message that may go is looked at again by: it is sent or being claimed, its queue is to be read or to be asked, a
rescan is to come, or the dispatching has it still to look at. -/
inductive Covered (s : Sys) (id : Nat) (m : Message) : Prop
  | sent : s.Sent id → Covered s id m
  | taken : s.Taken id m → Covered s id m
  | woken : s.Woken m.queue → Covered s id m
  | acting : s.Acting m.queue → Covered s id m
  | closing : s.Closing → Covered s id m
  | awaited : s.dispatching.Awaits id m → Covered s id m

/-- Letting go of `lets` brings no Message to the head that was not there, but `own`, those of the queues `asks`, and those
that are looked at again. -/
def FreesNone (s : Sys) (lets : List Place) (own : Option Nat) (asks : List Nat) : Prop :=
  ∀ x ∈ s.messages.entries, MayGo { s with places := s.places.letGo lets } x.1 x.2 →
    s.leads x.1 x.2 = true ∨ own = some x.1 ∨ x.2.queue ∈ asks ∨ Covered s x.1 x.2

/-- A pass that has nothing asked or noted and no rescan to come is settled while its Message may not go, or is looked at
again; no scan passes over a Message that may go for a mark of it whose claim was answered, or was taken for another place
of it; no claim taken for it is refused, nor does its thread panic, nor a claim lapse; and what lets go of a place with no
rescan to follow brings none to the head. -/
def Minded (s : Sys) : Action → Prop
  | .settles i =>
    ∀ x ∈ pick s.passes i, x.1.phase.wakes = false → ∀ m ∈ s.messages.get x.1.id, MayGo s x.1.id m →
      Covered { s with passes := x.2 } x.1.id m
  | .looks id position _ =>
    id ∈ s.taking → ∀ m ∈ s.messages.get id, m.position = position → MayGo s id m →
      Covered { s with dispatching := s.dispatching.looked } id m
  | .refuses i =>
    ∀ x ∈ pick s.takers i, ∀ m ∈ s.messages.get x.1.id, MayGo s x.1.id m → Covered { s with takers := x.2 } x.1.id m
  | .breaks i =>
    ∀ x ∈ pick s.takers i, x.1.answer ≠ .claimed → ∀ m ∈ s.messages.get x.1.id, MayGo s x.1.id m →
      Covered { s with takers := x.2 } x.1.id m
  | .lapses i =>
    ∀ x ∈ pick s.lapsing i, ∀ m ∈ s.messages.get x.1, MayGo { s with lapsing := x.2 } x.1 m → Covered s x.1 m
  | .panics i lets => ∀ x ∈ pick s.passes i, s.FreesNone lets (some x.1.id) []
  | .dismiss id lets => ∀ m ∈ s.messages.get id, s.FreesNone lets (some id) [m.queue]
  | .turns lets done => done = false → s.FreesNone lets none []
  | _ => True

instance (s : Sys) (id : Nat) (m : Message) : Decidable (MayGo s id m) :=
  decidable_of_iff
    (m.queue ∈ s.ports.served ∧ m.due = true ∧ id ∉ s.fallen ∧ m.failed = false ∧ id ∉ s.lapsing ∧
      s.passedOver id m = false ∧ s.leads id m = true)
    ⟨fun ⟨served, due, fallen, failed, lapsing, passed, heads⟩ => ⟨served, due, fallen, failed, lapsing, passed, heads⟩,
      fun h => ⟨h.served, h.due, h.fallen, h.failed, h.lapsing, h.passed, h.heads⟩⟩

instance (s : Sys) (queue : Nat) : Decidable (s.Woken queue) :=
  inferInstanceAs (Decidable (queue ∈ s.asked ∨ queue ∈ s.starved ∨ s.rescan = true))

instance (id : Nat) (m : Message) : (dispatching : Dispatching) → Decidable (dispatching.Awaits id m)
  | .idle => inferInstanceAs (Decidable False)
  | .going queues => inferInstanceAs (Decidable (m.queue ∈ queues))
  | .scanning scan rest => inferInstanceAs (Decidable (m.queue ∈ rest ∨ m.queue = scan.queue ∧
      ((id, m.position) ∈ scan.left ∨ scan.last = false ∧ m.fresh = false ∧ (id, m.position) ∉ scan.present)))

instance (s : Sys) (id : Nat) : Decidable (s.Sent id) :=
  inferInstanceAs (Decidable (id ∈ s.handed ∨ ∃ pass ∈ s.passes, pass.id = id))

instance (s : Sys) (id : Nat) (m : Message) : Decidable (s.Taken id m) :=
  inferInstanceAs (Decidable (s.unread id m = false ∧ ∃ taker ∈ s.takers,
    taker.queue = m.queue ∧ taker.id = id ∧ taker.position = m.position ∧ taker.answer.stands = true))

instance (s : Sys) (queue : Nat) : Decidable (s.Acting queue) :=
  inferInstanceAs (Decidable (queue ∈ s.acting ∨ ∃ x ∈ s.acted, x.2 = queue))

instance (s : Sys) : Decidable s.Closing :=
  inferInstanceAs (Decidable (0 < s.closing ∨ ∃ pass ∈ s.passes, pass.phase = .closed true))

theorem covered_iff {s : Sys} {id : Nat} {m : Message} :
    s.Covered id m ↔
      s.Sent id ∨ s.Taken id m ∨ s.Woken m.queue ∨ s.Acting m.queue ∨ s.Closing ∨ s.dispatching.Awaits id m := by
  constructor
  · intro h
    cases h with
    | sent h => exact .inl h
    | taken h => exact .inr (.inl h)
    | woken h => exact .inr (.inr (.inl h))
    | acting h => exact .inr (.inr (.inr (.inl h)))
    | closing h => exact .inr (.inr (.inr (.inr (.inl h))))
    | awaited h => exact .inr (.inr (.inr (.inr (.inr h))))
  · rintro (h | h | h | h | h | h)
    · exact .sent h
    · exact .taken h
    · exact .woken h
    · exact .acting h
    · exact .closing h
    · exact .awaited h

instance (s : Sys) (id : Nat) (m : Message) : Decidable (s.Covered id m) := decidable_of_iff _ covered_iff.symm

instance (s : Sys) (lets : List Place) (own : Option Nat) (asks : List Nat) : Decidable (s.FreesNone lets own asks) :=
  inferInstanceAs (Decidable (∀ x ∈ s.messages.entries, _ → _))

instance (s : Sys) : (a : Action) → Decidable (s.Minded a)
  | .settles i => inferInstanceAs (Decidable (∀ x ∈ pick s.passes i, _ → ∀ m ∈ s.messages.get x.1.id, _ → _))
  | .looks id _ _ => inferInstanceAs (Decidable (id ∈ s.taking → ∀ m ∈ s.messages.get id, _ → _ → _))
  | .refuses i => inferInstanceAs (Decidable (∀ x ∈ pick s.takers i, ∀ m ∈ s.messages.get x.1.id, _ → _))
  | .breaks i => inferInstanceAs (Decidable (∀ x ∈ pick s.takers i, _ → ∀ m ∈ s.messages.get x.1.id, _ → _))
  | .lapses i => inferInstanceAs (Decidable (∀ x ∈ pick s.lapsing i, ∀ m ∈ s.messages.get x.1, _ → _))
  | .panics i lets => inferInstanceAs (Decidable (∀ x ∈ pick s.passes i, s.FreesNone lets (some x.1.id) []))
  | .dismiss id lets => inferInstanceAs (Decidable (∀ m ∈ s.messages.get id, s.FreesNone lets (some id) [m.queue]))
  | .turns lets done => inferInstanceAs (Decidable (done = false → s.FreesNone lets none []))
  | .arrives .. | .hands .. | .asks _ | .ripens _ | .next .. | .noRoom | .begins | .page .. | .ends | .rests | .claims _
  | .owns _ | .declines .. | .marks _ | .untakes _ | .places _ | .unplaced _ | .checks _ | .passes .. | .weighs _
  | .rescans | .frees | .sees _ | .remembers _ | .reads _ | .holds _ | .givesUp .. | .retry .. | .forgets _ =>
    inferInstanceAs (Decidable True)

end Sys

end Ahead
