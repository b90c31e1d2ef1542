import XmipRuntime.Library.Run
import XmipRuntime.Pickup.State

/-!
# The pickup and its writers, interleaved

The node's pickup with the Ledger's queues beside it, every thread that works on them a step at a time: the writers —
a Publication (`src/ledger/publication.rs`, `src/message_path.rs`), a Work Process's turn (`src/work_step/acts.rs`,
`src/work_step/turning.rs`) and a Replay from the Dead Message Queue (`src/pickup/replay.rs`) — each deciding what it
holds, writing it and, a Publication and an answered Replay, telling the pickup; the operator's acts; and the one
pick-up loop (`src/held_work.rs`), its read of Xmip Storage between two holds of the lock.

Xmip Storage is linearizable: a write lands whole in one step, and a read answers what the queue holds in the step it
is answered in, every hold landed before it was asked among them.
-/

namespace Pickup

open Library

inductive Kind where
  | publication
  | turn
  | replay
  deriving DecidableEq

/-- A writer under way: what it decided to hold, and the places its write took, once it landed. -/
structure Writer where
  kind : Kind
  holding : Holding
  landed : Option (List (Nat × Nat))

/-- Where the pick-up loop is: waiting; about to read a queue; a read answered, and how far the queue went when it
was; carrying what it took, the Subscriptions that stalled among it; or a Message's hand-on landed, answered or not. -/
inductive Loop where
  | idle
  | asking (asks : List Ask) (taken : List Released)
  | answered (ask : Ask) (read : Option (List (Nat × Hold))) (upTo : Nat) (asks : List Ask) (taken : List Released)
  | carrying (released : List Released) (stalled : List String)
  | landed (one : Released) (answered : Bool) (released : List Released) (stalled : List String)

structure Sys where
  node : String
  /-- The most held Messages taken at once. -/
  most : Nat
  state : State
  ledger : Nat → Numbered Hold
  writers : Table Nat Writer
  loop : Loop
  /-- The places passed over, by queue: read, and not to be picked up until a resume. -/
  passedOver : List (Nat × Nat)

/-- How Xmip Storage answers a write: refused, taken, or taken and the answer lost. -/
inductive Answer where
  | refused
  | taken
  | lost
  deriving DecidableEq

inductive Action where
  | decide (w : Nat) (kind : Kind) (opened : List Opened) (body : List UInt8)
  | write (w : Nat) (answer : Answer)
  | published (w : Nat)
  | act (name : String) (act : Act) (who : String) (now : Int) (took : Bool)
  | ask (now : Nat)
  | read (answered : Bool)
  | relock (now : Nat)
  | land (answered : Bool)
  | moved
  | passed
  | again (now : Nat)

/-- One hold at the end of its queue: the Ledger with it, and the place it took. -/
def landOne (x : (Nat → Numbered Hold) × List (Nat × Nat)) (hold : Hold) : (Nat → Numbered Hold) × List (Nat × Nat) :=
  (Function.update x.1 hold.queue ((x.1 hold.queue).push hold), x.2 ++ [(hold.queue, (x.1 hold.queue).next)])

def landAll (ledger : Nat → Numbered Hold) (holds : List Hold) : (Nat → Numbered Hold) × List (Nat × Nat) :=
  holds.foldl landOne (ledger, [])

def Holding.append (a b : Holding) : Holding := ⟨a.holds ++ b.holds, a.held ++ b.held, a.picked ++ b.picked⟩

/-- A writer decides what it holds.  A turn publishes as often as its flow asks before its one write, each time
deciding anew; a Replay holds every Message it opens. -/
def Sys.decided (s : Sys) (w : Nat) (kind : Kind) (opened : List Opened) (body : List UInt8) : Option Sys :=
  let holding := s.state.held opened body (kind = .replay)
  match s.writers.get w with
  | none => some { s with writers := s.writers.put w ⟨kind, holding, none⟩ }
  | some ⟨.turn, before, none⟩ =>
    if kind = .turn then some { s with writers := s.writers.put w ⟨.turn, before.append holding, none⟩ } else none
  | some _ => none

/-- A writer's one write.  One refused has nothing more to do; a turn tells the pickup nothing of what it wrote, and
neither does a writer whose answer was lost: a Publication that was said to have failed, or a Replay, which asked again
finds it replayed already. -/
def Sys.write (s : Sys) (w : Nat) (answer : Answer) : Option Sys :=
  match s.writers.get w with
  | some ⟨kind, holding, none⟩ =>
    if answer = .refused then some { s with writers := s.writers.drop w }
    else
      let (ledger, places) := landAll s.ledger holding.holds
      if kind = .turn ∨ answer = .lost then some { s with ledger, writers := s.writers.drop w }
      else some { s with ledger, writers := s.writers.put w ⟨kind, holding, some places⟩ }
  | _ => none

def Sys.published (s : Sys) (w : Nat) : Option Sys :=
  match s.writers.get w with
  | some ⟨_, holding, some _⟩ => some { s with state := s.state.published holding, writers := s.writers.drop w }
  | _ => none

def Sys.read (s : Sys) (answered : Bool) : Option Sys :=
  match s.loop with
  | .asking (ask :: asks) taken =>
    let queue := s.ledger ask.queue
    let read := if answered then some (queue.readFrom ask.start s.most) else none
    some { s with loop := .answered ask read queue.next asks taken }
  | .asking [] taken => some { s with loop := .carrying taken [] }
  | _ => none

def Sys.relock (s : Sys) (now : Nat) : Option Sys :=
  match s.loop with
  | .answered ask read _ asks taken =>
    match s.state[ask.index]? with
    | none => none
    | some e =>
      let (e, more) := e.relock ask.start s.most now read
      some { s with state := s.state.set ask.index e, loop := .asking asks (taken ++ more) }
  | _ => none

/-- The hand-on that moves the first of what the loop carries out of its queue. -/
def Sys.land (s : Sys) (answered : Bool) : Option Sys :=
  match s.loop with
  | .carrying (one :: rest) stalled =>
    if one.subscription ∈ stalled then none
    else
      let queue := (s.ledger one.hold.queue).filter fun x => decide (x.1 ≠ one.sequence)
      some { s with
        ledger := Function.update s.ledger one.hold.queue queue
        loop := .landed one answered rest stalled }
  | _ => none

def Sys.moved (s : Sys) : Option Sys :=
  match s.loop with
  | .landed one true rest stalled => some { s with state := s.state.moved one, loop := .carrying rest stalled }
  | _ => none

def Sys.passed (s : Sys) : Option Sys :=
  match s.loop with
  | .carrying (one :: rest) stalled =>
    if one.subscription ∈ stalled then none
    else some { s with
      state := s.state.passed one
      passedOver := (one.hold.queue, one.sequence) :: s.passedOver
      loop := .carrying rest stalled }
  | _ => none

/-- The first of what the loop carries to be read again, the rest of its Subscription's stalled behind it. -/
def Sys.again (s : Sys) (now : Nat) : Option Sys :=
  match s.loop with
  | .carrying (one :: rest) stalled | .landed one false rest stalled =>
    some { s with state := s.state.again one now, loop := .carrying rest (stalled ++ [one.subscription]) }
  | _ => none

def Sys.step (s : Sys) : Action → Option Sys
  | .decide w kind opened body => s.decided w kind opened body
  | .write w answer => s.write w answer
  | .published w => s.published w
  | .act name act who now took => some { s with state := (s.state.act s.node name act who now took).1 }
  | .ask now =>
    match s.loop with
    | .idle | .carrying [] _ => some { s with loop := .asking (s.state.asks now) [] }
    | _ => none
  | .read answered => s.read answered
  | .relock now => s.relock now
  | .land answered => s.land answered
  | .moved => s.moved
  | .passed => s.passed
  | .again now => s.again now

/-- A pickup as it is opened: each Subscription's queue to be read from its start where it holds anything, nothing
taken, no writer and no read under way; the Subscriptions' names, and so their queues, told apart. -/
structure Opening (s : Sys) : Prop where
  names : (s.state.map Entry.name).Nodup
  queues : (s.state.map Entry.queue).Nodup
  most : 0 < s.most
  entry : ∀ e ∈ s.state, e.cursor = 0 ∧ e.taken = ∅ ∧ e.pending = decide (0 < (s.ledger e.queue).items.length) ∧
    e.held = (s.ledger e.queue).items.length
  writers : s.writers.entries = []
  loop : s.loop = .idle
  passedOver : s.passedOver = []
  ledger : ∀ q, ∀ x ∈ (s.ledger q).items, x.2.queue = q

/-- A node with one active Subscription whose queue is empty, reading two at a time. -/
def Sys.quiet : Sys where
  node := "node-1"
  most := 2
  state := [⟨"orders", 7, ⟨false, "", 0⟩, 0, 0, 0, ∅, false, none⟩]
  ledger := fun _ => Numbered.empty
  writers := Table.empty
  loop := .idle
  passedOver := []

theorem opening_quiet : Opening Sys.quiet where
  names := by simp [Sys.quiet]
  queues := by simp [Sys.quiet]
  most := by decide
  entry := by simp [Sys.quiet, Numbered.empty]
  writers := rfl
  loop := rfl
  passedOver := rfl
  ledger := by simp [Sys.quiet, Numbered.empty]

/-- The hold at `place` has a writer that has finished: no Publication or Replay that wrote it has yet to tell the
pickup. -/
def Finished (s : Sys) (place : Nat × Nat) : Prop :=
  ∀ x ∈ s.writers.entries, place ∉ x.2.landed.getD []

instance (s : Sys) (place : Nat × Nat) : Decidable (Finished s place) :=
  inferInstanceAs (Decidable (∀ x ∈ s.writers.entries, place ∉ x.2.landed.getD []))

/-- No held Message is stranded: what an active Subscription's queue holds, its writer finished, not taken and not
passed over, is at or after its cursor, and its queue is to be read. -/
def NotStranded (s : Sys) : Prop :=
  ∀ e ∈ s.state, e.standing.paused = false → ∀ x ∈ (s.ledger e.queue).items, Finished s (e.queue, x.1) →
    x.1 ∉ e.taken → (e.queue, x.1) ∉ s.passedOver → e.cursor ≤ x.1 ∧ e.pending = true

end Pickup
