import XmipRuntime.Sequence.Delivered

/-!
# Places taken late

A Message of a Stream that holds sequences end to end takes no place where it is bound for until its Stream heads them
(`src/sequence/late.rs`): its Send Port Group's for its delivery first, and the rest once the delivery heads the Group's
sequence.  Three ways open Journeys (`src/ledger/publication.rs`, `src/work_step/acts.rs`, `src/pickup/replay.rs`), each
calling the steps that sequence them itself.

A write that takes places is one write under the Message's claim, refused where the claim is not its holder's any more.
-/

namespace Sequence

open Library
open WorkStep (KeyWord textOf)

/-! ### Taking places late -/

/-- Who holds a place in each sequence, in order. -/
abbrev Queues := Nat → List Nat

/-- What a read of the first place of each sequence answers. -/
def Queues.read (queues : Queues) : Nat → Head := fun queue => ⟨(queues queue).head?, (queues queue).length⟩

/-- A place taken, where its holder has none there. -/
def Queues.take (queues : Queues) (place : Hold) : Queues := fun queue =>
  if queue = place.queue ∧ place.member ∉ queues queue then queues queue ++ [place.member] else queues queue

/-- Whether the Stream a Journey was born from heads every sequence it holds a place in end to end. -/
def streamHeads (storage : Nat → Head) (headed : List (Nat × Nat)) (j : Journey) : Bool :=
  j.received.elim true fun received => received.sequences.all fun queue => heads storage headed queue received.origin

/-- Where a Message stands as a step takes it up. -/
inductive Placing where
  | behind
  | placed
  | lost
  deriving DecidableEq

/-- What is written where a Group's place was taken or not: that place alone, or the places at the destination. -/
def takesNow (c : Cluster) (sends : Sends) (promoted : Promoted) (dest : Subscriber) :
    Journey × Option Hold → Except String (Journey × List Hold)
  | (j, some place) => .ok (j, [place])
  | (j, none) => placed c (sends.pointsOf dest) j promoted

/-- A Journey's places at its destination, its Group's alone where it has not taken that yet, in one write; nothing where
the claim was not `kept`. -/
def takeLate (c : Cluster) (sends : Sends) (promoted : Promoted) (dest : Subscriber) (kept : Bool) (j : Journey) :
    Except String (Option (Journey × List Hold)) :=
  if sends.waitsForPlaces j dest then do
    let group ← groupPlaced c sends j promoted
    let taken ← takesNow c sends promoted dest group
    return if kept then some taken else none
  else .ok (some (j, []))

/-- What came of taking a Message's places: its Journey and the sequences, and the answer, none where the loop went on. -/
structure Headed where
  journey : Journey
  queues : Queues
  answer : Option (Except String Placing)

/-- The loop of `heading`, `fuel` times at most. -/
def headingFrom (c : Cluster) (sends : Sends) (promoted : Promoted) (dest : Subscriber) (kept : Bool)
    (headed : List (Nat × Nat)) : Nat → Journey → Queues → Headed
  | 0, j, queues => ⟨j, queues, none⟩
  | fuel + 1, j, queues =>
    if groupHeads queues.read headed j then
      if sends.waitsForPlaces j dest then
        match takeLate c sends promoted dest kept j with
        | .error why => ⟨j, queues, some (.error why)⟩
        | .ok none => ⟨j, queues, some (.ok .lost)⟩
        | .ok (some (j, places)) => headingFrom c sends promoted dest kept headed fuel j (places.foldl Queues.take queues)
      else ⟨j, queues, some (.ok .placed)⟩
    else ⟨j, queues, some (.ok .behind)⟩

/-- A Journey's Stream asked whether it heads its own sequences and, where it does, its places at `dest` taken. -/
def heading (c : Cluster) (sends : Sends) (promoted : Promoted) (dest : Subscriber) (kept : Bool)
    (headed : List (Nat × Nat)) (j : Journey) (queues : Queues) : Headed :=
  if streamHeads queues.read headed j then headingFrom c sends promoted dest kept headed 3 j queues
  else ⟨j, queues, some (.ok .behind)⟩

/-! ### The ways Journeys are opened -/

/-- The places of what was opened, taken in the write that opens it, each Journey told its own. -/
def places (c : Cluster) (sends : Sends) (promoted : Promoted) : List Opened → Except String (List Opened × List Hold)
  | [] => .ok ([], [])
  | one :: opened => do
    let group ← groupPlaced c sends one.journey promoted
    let placed ← placed c (sends.pointsOf one.dest) group.1 promoted
    let rest ← places c sends promoted opened
    return ({ one with journey := placed.1 } :: rest.1, group.2.toList ++ placed.2 ++ rest.2)

/-- Which way Journeys are opened: a Publication of a Stream that came in so, a Work Process publishing from a Journey, or
a Replay from the Dead Message Queue. -/
inductive Way where
  | publication (came : Received)
  | workProcess (parent : Journey)
  | replay

/-- A Journey following `parent` in the chain. -/
def Journey.following (parent : Journey) (id : Nat) (subscription : String) : Journey :=
  { Journey.new id with subscription := some subscription, received := parent.received, previous := some parent.id }

/-- What is opened each way, before any place is taken.  A Replay tells no delivery. -/
def Way.tells (way : Way) (sends : Sends) (reaches : String → Subscriber → List Subscriber) (ids mint : Nat → Nat)
    (evaluations : List Evaluation) : List Opened :=
  match way with
  | .publication came => published sends came reaches ids mint evaluations
  | .workProcess parent => delivered sends mint (openedBy parent.following reaches ids evaluations)
  | .replay => opened reaches ids evaluations

/-- What is opened each way, and the places taken in the write that opens it: a Publication's where its Stream holds no
sequence end to end, a Work Process's at once, a Replay's never. -/
def Way.opens (way : Way) (c : Cluster) (sends : Sends) (reaches : String → Subscriber → List Subscriber)
    (ids mint : Nat → Nat) (evaluations : List Evaluation) (promoted : Promoted) : Except String (List Opened × List Hold) :=
  let told := way.tells sends reaches ids mint evaluations
  match way with
  | .publication came => if came.sequences.isEmpty then places c sends promoted told else .ok (told, [])
  | .workProcess _ => places c sends promoted told
  | .replay => .ok (told, [])

end Sequence
