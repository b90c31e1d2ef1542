import XmipRuntime.Library.Answers
import XmipRuntime.WorkStep.Turn

/-!
# The points of sequences and the places taken there

A sequence is a queue in the Ledger, one per point and key (`src/sequence.rs`): the point, the Correlation it names, and
the key's values written out in full (`src/work_step/keys.rs`).  This module is what a point is, how a key is read of a
Journey and its Message, and how places are taken: a Stream's end to end, a Send Port Group's for its delivery, and a
Message's at the point it is bound for (`src/sequence/group.rs`).

The name-based identifier of a text and how a key word is shown are other programs' functions.  What a Message gives the
names a node reads is a list of names and values.
-/

namespace Sequence

open Ledger (JourneyState Sequenced)
open WorkStep (KeyWord JourneyValue ResolvedSet textOf)

inductive OnFailure where
  | block
  | skip
  deriving DecidableEq

inductive PointKind where
  | receiveLocation
  | receivePort
  | workProcess
  | sendPortGroup
  | sendPort
  | sendLocation
  deriving DecidableEq

/-- Its word, in a sequence's name. -/
def PointKind.word : PointKind → String
  | .receiveLocation => "receive-location"
  | .receivePort => "receive-port"
  | .workProcess => "work-process"
  | .sendPortGroup => "send-port-group"
  | .sendPort => "send-port"
  | .sendLocation => "send-location"

/-- One point a Correlation governs. -/
structure Point where
  kind : PointKind
  name : String
  set : ResolvedSet
  onFailure : OnFailure

/-- Whether a failure there lets the rest pass. -/
def Point.skips (p : Point) : Bool := decide (p.onFailure = .skip)

/-- A Receive Location's own sequence where it names no set: one Stream at a time. -/
def Point.receiveLocation (name : String) : Point := ⟨.receiveLocation, name, ⟨name, [.receiveLocation]⟩, .block⟩

/-! ### Journeys -/

/-- Where a Stream came in. -/
structure Received where
  location : String
  port : String
  origin : Nat
  sequences : List Nat
  skips : Bool
  deriving DecidableEq

/-- A delivery by a Send Port Group, as each of its members knows it. -/
structure GroupDelivery where
  name : String
  delivery : Nat
  queue : Option Nat
  skips : Bool
  members : List Nat
  deriving DecidableEq

/-- What the sequences read and write of a Journey. -/
structure Journey where
  id : Nat
  state : JourneyState
  received : Option Received
  group : Option GroupDelivery
  sendPort : Option String
  currentWorkProcess : Option String
  subscription : Option String
  previous : Option Nat
  sequences : List Sequenced
  deriving DecidableEq

abbrev Promoted := List (String × String)

/-- The Journey Context value a key word names, where the Journey carries one. -/
def Journey.contextValue (j : Journey) : JourneyValue → Option String
  | .origin => j.received.map fun received => toString received.origin
  | .subscription => j.subscription
  | .previous => j.previous.map toString

/-- The value a key word reads. -/
def Journey.value (j : Journey) (promoted : Promoted) (workProcess : String) : KeyWord → Option String
  | .receiveLocation => j.received.map Received.location
  | .receivePort => j.received.map Received.port
  | .workProcess => some workProcess
  | .sendPortGroup => j.group.map GroupDelivery.name
  | .sendPort => j.sendPort
  | .context name => promoted.lookup name
  | .journey value => j.contextValue value

/-- The cluster, how a text is named, and how a key word is shown. -/
structure Cluster where
  at_ : String
  named : String → Nat
  shown : KeyWord → String

/-- The key of a Journey and its Message in `set`, or the part of it that is missing, in words. -/
def Cluster.text (c : Cluster) (set : ResolvedSet) (j : Journey) (promoted : Promoted) (workProcess : String) :
    Except String String :=
  match textOf (j.value promoted workProcess) set.keys with
  | some key => .ok key
  | none =>
    let missing := set.keys.find? fun key => (j.value promoted workProcess key).isNone
    .error ("the Message carries no " ++ missing.elim "" c.shown ++ ", which the Correlation '" ++ set.name ++ "' keys by")

/-! ### Places -/

/-- A place in a sequence: its queue, who holds it, and the name the queue is kept by. -/
structure Hold where
  queue : Nat
  member : Nat
  name : String
  deriving DecidableEq

/-- The name of the sequence a key has at a point. -/
def Point.sequenceName (c : Cluster) (p : Point) (key : String) : String :=
  c.at_ ++ "/sequence/" ++ p.kind.word ++ "/" ++ p.name ++ "/" ++ p.set.name ++ "/" ++ key

def Point.at_ (p : Point) (j : Journey) : String :=
  match p.kind with
  | .workProcess => p.name
  | _ => j.currentWorkProcess.getD ""

/-- The place `member` takes in its key's sequence. -/
def Point.place (c : Cluster) (p : Point) (member : Nat) (j : Journey) (promoted : Promoted) : Except String Hold :=
  (c.text p.set j promoted (p.at_ j)).map fun key => ⟨c.named (p.sequenceName c key), member, p.sequenceName c key⟩

/-- The places of a Stream in the sequences of `points`, in order, the queue of each told to `received`. -/
def takesEndToEnd (c : Cluster) (j : Journey) (promoted : Promoted) (origin : Nat) :
    List Point → Received → Except String (Received × List Hold)
  | [], received => .ok (received, [])
  | p :: points, received => do
    let place ← p.place c origin j promoted
    let rest ← takesEndToEnd c j promoted origin points { received with sequences := received.sequences ++ [place.queue] }
    return (rest.1, place :: rest.2)

/-- A Journey nothing has happened to yet. -/
def Journey.new (id : Nat) : Journey := ⟨id, .active, none, none, none, none, none, none, []⟩

/-- Where a Stream received as `origin` came in, and the places it takes end to end. -/
def received (c : Cluster) (location port : String) (points : List Point) (origin : Nat)
    (promoted : Except String Promoted) : Except String (Received × List Hold) := do
  let came : Received := ⟨location, port, origin, [], points.any Point.skips⟩
  let promoted ← promoted
  takesEndToEnd c { Journey.new 0 with received := some came } promoted origin points came

/-- The places of a Message at `points`, in order, each told to its Journey. -/
def placed (c : Cluster) : List Point → Journey → Promoted → Except String (Journey × List Hold)
  | [], j, _ => .ok (j, [])
  | p :: points, j, promoted => do
    let place ← p.place c j.id j promoted
    let rest ← placed c points { j with sequences := j.sequences ++ [⟨place.queue, p.skips⟩] } promoted
    return (rest.1, place :: rest.2)

/-! ### Destinations -/

inductive Subscriber where
  | sendPort (name : String)
  | sendGroup (name : String)
  | workProcess (name : String)
  deriving DecidableEq

structure SendPortGroup where
  name : String
  sendPorts : List String

structure DesignedSendPort where
  name : String
  sendLocations : List String

/-- What a node sends by: its Groups, its Ports and the points of their sequences. -/
structure Sends where
  groups : List SendPortGroup
  ports : List DesignedSendPort
  points : List Point

/-- The sequences what leaves by the Send Port `name` passes: the Port's own and its Send Locations'. -/
def Sends.portPoints (sends : Sends) (name : String) : List Point :=
  let named := ((sends.ports.find? fun port => decide (port.name = name)).map DesignedSendPort.sendLocations).getD []
  let named := if named.isEmpty then [name] else named
  sends.points.filter fun p =>
    match p.kind with
    | .sendPort => decide (p.name = name)
    | .sendLocation => named.contains p.name
    | _ => false

/-- The sequences what is bound for a destination passes its point in. -/
def Sends.pointsOf (sends : Sends) : Subscriber → List Point
  | .workProcess name => sends.points.filter fun p => decide (p.kind = .workProcess) && decide (p.name = name)
  | .sendPort name => sends.portPoints name
  | .sendGroup name => ((sends.groups.find? fun group => decide (group.name = name)).map SendPortGroup.sendPorts).elim []
      fun ports => ports.flatMap sends.portPoints

/-- The sequence of the Send Port Group `name`, where it names a Correlation. -/
def Sends.groupPoint (sends : Sends) (name : String) : Option Point :=
  sends.points.find? fun p => decide (p.kind = .sendPortGroup) && decide (p.name = name)

/-- The place of a Journey's delivery, told to the Journey; nothing where it is no Group's member or has its place. -/
def groupPlaced (c : Cluster) (sends : Sends) (j : Journey) (promoted : Promoted) : Except String (Journey × Option Hold) :=
  match j.group with
  | some group =>
    match group.queue, sends.groupPoint group.name with
    | none, some p => (p.place c group.delivery j promoted).map fun place =>
        ({ j with group := some { group with queue := some place.queue } }, some place)
    | _, _ => .ok (j, none)
  | none => .ok (j, none)

/-- Whether a Journey is a delivery's member that has not taken the delivery's place yet. -/
def Sends.waitsForGroup (sends : Sends) (j : Journey) : Bool :=
  j.group.any fun group => group.queue.isNone && (sends.groupPoint group.name).isSome

/-- Whether a Message still waits for its places at its destination. -/
def Sends.waitsForPlaces (sends : Sends) (j : Journey) (dest : Subscriber) : Bool :=
  sends.waitsForGroup j || j.sequences.isEmpty && !(sends.pointsOf dest).isEmpty

/-! ### Keys -/

/-- A key is written out where every part of it is there. -/
theorem textOf_isSome {value : KeyWord → Option String} {keys : List KeyWord} :
    (textOf value keys).isSome = true ↔ ∀ key ∈ keys, (value key).isSome = true := by
  induction keys with
  | nil => simp [textOf]
  | cons key keys ih =>
    rw [List.forall_mem_cons, ← ih]
    simp only [textOf]
    cases value key with
    | none => simp
    | some v => cases textOf value keys <;> simp

theorem Cluster.text_ok_iff {c : Cluster} {set : ResolvedSet} {j : Journey} {promoted : Promoted} {workProcess key : String} :
    c.text set j promoted workProcess = .ok key ↔ textOf (j.value promoted workProcess) set.keys = some key := by
  unfold Cluster.text
  cases textOf (j.value promoted workProcess) set.keys with
  | none => simp
  | some key' => simp

/-- A key depends only on the values its words read. -/
theorem textOf_congr {value value' : KeyWord → Option String} {keys : List KeyWord}
    (h : ∀ key ∈ keys, value key = value' key) : textOf value keys = textOf value' keys := by
  induction keys with
  | nil => rfl
  | cons key keys ih =>
    simp only [textOf]
    rw [h key (List.mem_cons_self ..), ih fun key hkey => h key (List.mem_cons_of_mem _ hkey)]

end Sequence
