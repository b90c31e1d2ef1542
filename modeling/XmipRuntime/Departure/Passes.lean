import Mathlib.Data.List.Basic
import XmipRuntime.Library.Run

/-!
# Passes of a Message at its Send Port

A pass tries the Port's active Send Location once, and fails over at once to the next where the Port says so
(`src/departure.rs`).  Where a pass leaves the Message (which Location is active, and how often it was tried) is two
numbers of its Journey, written with the pass's hand-on and read back by the next (`src/send_step/pass.rs`).  The active
Location is kept as its place in the list of Locations the node at hand has of the Port (`src/sending.rs`).

A Location is known here by its place in the Port's design, so one is the same on every node.  What was tried and what of
it was written is kept beside the state; no step reads it.
-/

namespace Departing

open Library

/-! ### Tries -/

/-- What a try at a Location comes to. -/
inductive Outcome where
  | sent
  | failed (retryable : Bool) (detail : String)
  | notPermitted (decision : String)
  deriving DecidableEq

/-- Whether the Location may be tried again. -/
def Outcome.again : Outcome → Bool
  | .failed retryable _ => retryable
  | .sent | .notPermitted _ => false

/-- A Send Port: what it is called, how often `retry.attempts` says a failed try is made again, and whether it fails over to
the next Location. -/
structure Port where
  name : String
  retry : Option UInt32
  failover : Bool

/-- How often the active Location is tried. -/
def Port.tries (port : Port) : UInt32 :=
  match port.retry with
  | none => 1
  | some attempts => if attempts.toNat + 1 < UInt32.size then attempts + 1 else attempts

/-- What a Journey keeps of its send. -/
structure Attempts where
  location : UInt32
  tries : UInt32
  deriving DecidableEq

/-- Where a Message's send stands, in a pass. -/
structure Progress where
  sent : Bool
  location : Nat
  tries : UInt32
  givenUp : Option String

namespace Progress

def of (attempts : Attempts) : Progress := ⟨false, attempts.location.toNat, attempts.tries, none⟩

def attempts (p : Progress) : Attempts :=
  ⟨if p.location < UInt32.size then UInt32.ofNat p.location else UInt32.ofNat (UInt32.size - 1), p.tries⟩

def waiting (p : Progress) : Bool := !p.sent && p.givenUp.isNone

end Progress

inductive Departed where
  | tried (place : Nat) (outcome : Outcome)
  | noSuchDestination
  deriving DecidableEq

/-- What a departure came to, in words. -/
def said (port : Port) : Departed → String
  | .tried _ .sent => "sent to " ++ port.name
  | .noSuchDestination => "no Send Location for " ++ port.name
  | .tried _ (.notPermitted decision) => "not permitted to " ++ port.name ++ ": " ++ decision
  | .tried _ (.failed _ detail) => "not sent to " ++ port.name ++ ": " ++ detail

/-- One Port's part of a pass, of the `length` Locations here those from the active one on.  What comes of each place here is
`look`'s: nothing where the claim is not surely this node's before its transport is reached. -/
def departPort (port : Port) (length : Nat) (look : Nat → Option Outcome) : List Nat → Progress → List Departed × Progress
  | [], standing =>
    match look standing.location with
    | none => ([], standing)
    | some _ =>
      ([.noSuchDestination], { standing with givenUp := some ("no Send Location for " ++ port.name ++ " on this node") })
  | place :: remaining, standing =>
    match look standing.location with
    | none => ([], standing)
    | some outcome =>
      let tries := standing.tries + 1
      if outcome = .sent then ([.tried place .sent], { standing with tries, sent := true })
      else if outcome.again = true ∧ tries < port.tries then ([.tried place outcome], { standing with tries })
      else if port.failover = true ∧ standing.location + 1 < length then
        let next := departPort port length look remaining { standing with location := standing.location + 1, tries := 0 }
        (.tried place outcome :: next.1, next.2)
      else ([.tried place outcome], { standing with tries, givenUp := some (said port (.tried place outcome)) })

/-- One pass on a node that has `locations` of the Port's. -/
def departTo (port : Port) (locations : List Nat) (look : Nat → Option Outcome) (progress : Progress) :
    List Departed × Progress :=
  if progress.waiting then departPort port locations.length look (locations.drop progress.location) progress
  else ([], progress)

/-! ### Hand-ons -/

inductive State where
  | waiting
  | completed
  | failed
  deriving DecidableEq

/-- What Storage answers a hand-on. -/
inductive Answer where
  | written
  /-- The claim was no longer this node's. -/
  | refused
  | unwritten
  deriving DecidableEq

inductive Ended where
  | completed
  | waiting
  | failed
  | lost
  | untried
  | unwritten
  deriving DecidableEq

/-- What the Ledger keeps of the Message's send. -/
structure Kept where
  attempts : Attempts
  state : State
  deriving DecidableEq

/-- How a pass that left `progress` ends, and what the Ledger keeps then; `lost` where a renewal found the claim
another's. -/
def handOn (kept : Kept) (departed : List Departed) (progress : Progress) (lost : Bool) (answer : Answer) : Ended × Kept :=
  if lost then (.lost, kept)
  else if departed = [] ∧ progress.waiting = true then (.untried, kept)
  else
    let state := if progress.sent then .completed else if progress.waiting then .waiting else .failed
    match answer with
    | .refused => (.lost, kept)
    | .unwritten => (.unwritten, kept)
    | .written =>
      (match state with
        | .completed => .completed
        | .waiting => .waiting
        | .failed => .failed, ⟨progress.attempts, state⟩)

/-! ### Every pass -/

/-- Tries, in the order they were made. -/
abbrev Log := List (Nat × Outcome)

/-- The tries of a pass's departures. -/
def triesIn (departed : List Departed) : Log := departed.filterMap fun
  | .tried place outcome => some (place, outcome)
  | .noSuchDestination => none

/-- A pass: the Locations its node has, what it read, the Location that was active where that was written, the tries written
before it and its own, and whether it wrote the Message Failed. -/
structure Pass where
  locations : List Nat
  attempts : Attempts
  active : Option Nat
  recorded : Log
  tries : Log
  failed : Bool

structure Sys where
  kept : Kept
  /-- The Locations of the node that wrote it; the Port's own before any did. -/
  wroteOn : List Nat
  /-- The tries of the passes written, since the last Retry. -/
  recorded : Log
  /-- Every try, since the last Retry. -/
  tried : Log
  passes : List Pass

inductive Action where
  | pass (locations : List Nat) (look : Nat → Option Outcome) (lost : Bool) (answer : Answer)
  /-- An operator retries the Message that failed. -/
  | retry

namespace Sys

variable (port : Port) (n : Nat)

/-- A Message of a Port of `n` Locations, not yet tried. -/
def starting : Sys := ⟨⟨⟨0, 0⟩, .waiting⟩, List.range n, [], [], []⟩

/-- A node serves the Port with some of its Locations, in its order. -/
def Serves (locations : List Nat) : Prop := locations ≠ [] ∧ locations.Pairwise (· < ·) ∧ ∀ p ∈ locations, p < n

instance (locations : List Nat) : Decidable (Serves n locations) :=
  inferInstanceAs (Decidable (locations ≠ [] ∧ locations.Pairwise (· < ·) ∧ ∀ p ∈ locations, p < n))

def passOn (s : Sys) (locations : List Nat) (look : Nat → Option Outcome) (lost : Bool) (answer : Answer) : Sys :=
  let (departed, progress) := departTo port locations look (.of s.kept.attempts)
  let (ended, kept) := handOn s.kept departed progress lost answer
  let tries := triesIn departed
  let written := ended = .completed ∨ ended = .waiting ∨ ended = .failed
  { kept
    wroteOn := if written then locations else s.wroteOn
    recorded := if written then s.recorded ++ tries else s.recorded
    tried := s.tried ++ tries
    passes := ⟨locations, s.kept.attempts, s.wroteOn[s.kept.attempts.location.toNat]?, s.recorded, tries, ended = .failed⟩ ::
      s.passes }

def step (s : Sys) : Action → Option Sys
  | .pass locations look lost answer =>
    if s.kept.state = .waiting ∧ Serves n locations then some (s.passOn port locations look lost answer) else none
  | .retry => if s.kept.state = .failed then some { starting n with passes := s.passes } else none

def Starts (s : Sys) : Prop := s = starting n

end Sys

end Departing
