import Mathlib.Data.Finset.Basic
import XmipRuntime.Library.Numbered
import XmipRuntime.Library.Table

/-!
# What a node's pickup keeps under its one lock

The Subscriptions of a node, their standing and how far the node has read the queue each of them holds Messages in
(`src/pickup.rs`, `src/pickup/state.rs`), and every critical section on them: what a Publication, a Work Process or a
Replay decides to hold (`src/pickup/holding.rs`), and what the pick-up loop reads and says of each held Message
(`src/pickup/released.rs`).  Each definition here is one hold of the lock; the reads and writes of Xmip Storage
between two of them are steps of their own (`XmipRuntime.Pickup.Runs`).

A queue and a Subscription's operator record are found by one name-based identifier, `Entry.queue`; an instant is a
number of nanoseconds on the node's clock.
-/

namespace Pickup

/-- A Subscription's standing: what is paused, by whom and since when. -/
structure Standing where
  paused : Bool
  /-- Who paused it; empty while it is active. -/
  pausedBy : String
  sinceUnixNanos : Int

/-- A Subscription and where the node is in reading what its queue holds. -/
structure Entry where
  name : String
  /-- Its queue in the Ledger. -/
  queue : Nat
  standing : Standing
  /-- How many its queue holds, kept in step with each write. -/
  held : Nat
  pickedUp : Nat
  /-- The place the next read of its queue starts from. -/
  cursor : Nat
  /-- Let go of to the node and not yet done with. -/
  taken : Finset Nat
  /-- Whether its queue may hold what the node has not read. -/
  pending : Bool
  /-- Not read again before this, after a read that failed. -/
  notBefore : Option Nat

/-- Whether the node has its queue to read now. -/
def Entry.ready (e : Entry) (now : Nat) : Bool :=
  e.pending && !e.standing.paused && e.notBefore.all fun at_ => decide (at_ ≤ now)

/-- The entries, in the order routing asks the Subscriptions. -/
abbrev State := List Entry

/-- Where the Subscription called `name` is among them. -/
def State.index (s : State) (name : String) : Option Nat := s.findIdx? fun e => decide (e.name = name)

/-- A Message kept at the end of a queue: its Journey, and what the holder keeps beside it. -/
structure Hold where
  queue : Nat
  journey : Nat
  body : List UInt8
  deriving DecidableEq

/-- A Journey a Publication opens, and the Subscription that matched. -/
structure Opened where
  journey : Nat
  subscription : String
  deriving DecidableEq

/-- What a Publication's write keeps, and what the node counts once it is durable. -/
structure Holding where
  holds : List Hold
  held : List (Nat × String)
  picked : List Nat

def Holding.none : Holding := ⟨[], [], []⟩

/-- One Journey of `held`: held where its Subscription is paused or holds anything still, or where every one is; one
whose Subscription this node is not configured with is neither held nor counted. -/
def State.heldOne (s : State) (body : List UInt8) (every : Bool) (holding : Holding) (one : Opened) : Holding :=
  match s.index one.subscription with
  | Option.none => holding
  | some i =>
    match s[i]? with
    | Option.none => holding
    | some e =>
      if !every && !e.standing.paused && e.held == 0 then { holding with picked := holding.picked ++ [i] }
      else { holding with
        holds := holding.holds ++ [⟨e.queue, one.journey, body⟩]
        held := holding.held ++ [(i, one.subscription)] }

/-- Which Messages of the Journeys `opened` their Subscriptions hold. -/
def State.held (s : State) (opened : List Opened) (body : List UInt8) (every : Bool) : Holding :=
  opened.foldl (s.heldOne body every) Holding.none

/-- Of the Journeys `opened`, those whose Message no Subscription holds: what goes on to be sent now. -/
def Holding.departing (holding : Holding) (opened : List Opened) : List Opened :=
  let held (name : String) := holding.held.any fun x => x.2 == name
  opened.filter fun one => !held one.subscription

/-- What `published` does to one Subscription that holds one more. -/
def Entry.holdsOne (e : Entry) : Entry :=
  { e with held := e.held + 1, pending := e.pending || !e.standing.paused }

/-- The Publication `holding` was decided for is durable: what each Subscription picked up and holds is counted, and
an active one that holds is pending. -/
def State.published (s : State) (holding : Holding) : State :=
  let counted := holding.picked.foldl (fun s i => s.modify i fun e => { e with pickedUp := e.pickedUp + 1 }) s
  holding.held.foldl (fun s x => s.modify x.1 Entry.holdsOne) counted

/-- What `released` asks Xmip Storage for, one for each queue it has to read: which Subscription, its queue and the
place to read from. -/
structure Ask where
  index : Nat
  queue : Nat
  start : Nat

/-- The first hold of the lock of `released`: every queue the node has to read now. -/
def State.asks (s : State) (now : Nat) : List Ask :=
  s.zipIdx.filterMap fun x => if x.1.ready now then some ⟨x.2, x.1.queue, x.1.cursor⟩ else none

/-- A held Message let go of to the node: the Subscription that held it and its place. -/
structure Released where
  subscription : String
  sequence : Nat
  hold : Hold

/-- One Message of a read taken by the entry: its cursor past it, and let go of to the node where it was not
before. -/
def Entry.take (x : Entry × List Released) (item : Nat × Hold) : Entry × List Released :=
  let e := { x.1 with cursor := item.1 + 1, taken := insert item.1 x.1.taken }
  if item.1 ∈ x.1.taken then (e, x.2) else (e, x.2 ++ [⟨x.1.name, item.1, item.2⟩])

/-- How long a queue that could not be read waits before it is read again: 50 ms. -/
def again : Nat := 50000000

/-- The second hold of the lock of `released` for one queue: what was `read` from `start`, asked for `most`, taken
where the Subscription is still active and nothing moved its cursor; a read that was not answered waits a while. -/
def Entry.relock (e : Entry) (start most now : Nat) (read : Option (List (Nat × Hold))) : Entry × List Released :=
  if e.standing.paused || e.cursor != start then (e, [])
  else match read with
    | Option.none => ({ e with notBefore := some (now + again) }, [])
    | some items =>
      let taken := items.foldl Entry.take ({ e with notBefore := Option.none }, [])
      if items.length < most then ({ taken.1 with pending := false }, taken.2) else taken

/-- What `settle` does to the entry of a Message the node is done with. -/
def Entry.settle (e : Entry) (sequence : Nat) : Entry := { e with taken := e.taken.erase sequence }

/-- The entry of the Subscription of `released`, changed by `done`. -/
def State.atReleased (s : State) (released : Released) (done : Entry → Entry) : State :=
  match s.index released.subscription with
  | Option.none => s
  | some i => s.modify i done

/-- `released` moved on, out of its Subscription's queue. -/
def State.moved (s : State) (released : Released) : State :=
  s.atReleased released fun e =>
    let e := e.settle released.sequence
    { e with held := e.held - 1, pickedUp := e.pickedUp + 1 }

/-- `released` passed over as it is: still held, not tried now. -/
def State.passed (s : State) (released : Released) : State :=
  s.atReleased released fun e => e.settle released.sequence

/-- `released` could not be picked up for a fault that passes: it and everything after it in its queue is read again,
after a while, from its place. -/
def State.again (s : State) (released : Released) (now : Nat) : State :=
  s.atReleased released fun e => { e with
    taken := e.taken.erase released.sequence
    cursor := if released.sequence < e.cursor then released.sequence else e.cursor
    pending := true
    notBefore := some (now + Pickup.again) }

/-- The acts an operator takes on a Subscription. -/
inductive Act where
  | pause
  | resume
  deriving DecidableEq

/-- An operator's act on the Subscription `name` by `who`: what came of it, and the entries once its standing is
written, where Xmip Storage `took` it; nothing changed where it did not. -/
def State.act (s : State) (node name : String) (act : Act) (who : String) (now : Int) (took : Bool) :
    State × Except String String :=
  match s.index name with
  | Option.none => (s, .error ("REFUSED: no Subscription '" ++ name ++ "' is configured on " ++ node
      ++ "; a Subscription is added and removed in the TOML configuration of the Xmip Application that draws it"))
  | some i =>
    match s[i]? with
    | Option.none => (s, .error "")
    | some e =>
      if act = .pause ∧ e.standing.paused then (s, .ok ("Subscription '" ++ name ++ "' was already paused"))
      else if act = .resume ∧ e.standing.paused = false then (s, .ok ("Subscription '" ++ name ++ "' was not paused"))
      else if took = false then
        (s, .error ("FAILED: Subscription '" ++ name ++ "' is not "
          ++ (if act = .pause then "paused" else "resumed") ++ ": Xmip Storage did not take its standing"))
      else if act = .pause then
        (s.modify i fun e => { e with standing := ⟨true, who, now⟩ },
          .ok ("Subscription '" ++ name ++ "' paused by " ++ who
            ++ "; what it matches is held, not picked up, until it is resumed"))
      else
        (s.modify i fun e => { e with standing := ⟨false, "", now⟩, cursor := 0, pending := true },
          .ok ("Subscription '" ++ name ++ "' resumed by " ++ who ++ "; the " ++ toString e.held
            ++ " it held are picked up, oldest first"))

end Pickup
