import XmipRuntime.Library.Pick
import XmipRuntime.Library.Run

/-!
# Receive Locations serving

A node's Receive Locations each run a loop (`src/receiving.rs`): settle what is told, hold carry places of the node's
budget, ask the transport for at most as many arrivals, hand each to the Location's pool, rest, and ask again.  A thread
of the pool carries one arrival through the receive cycle and tells its far end how the cycle ended, in the order the
arrivals came where the transport declares them ordered (`src/receiving/turn.rs`); it sends what came of it to the loop,
which settles it.  From the moment its `Telling` is made a panic tells the far end too, on the way out
(`src/receiving/telling.rs`); before that moment nothing does.

A step is what one thread does between two of its looks at what threads share.  Every arrival a transport handed over,
every telling and every settling is written down beside the state as it happens; no step reads it.
-/

namespace Receiving

open Library

/-! ### Budgets -/

/-- A quantity held at once, and the most of it. -/
structure Budget where
  most : Nat
  held : Nat

namespace Budget

/-- `charge` held, where there is room for it now; one above the whole budget goes alone. -/
def hold (b : Budget) (charge : Nat) : Option (Nat × Budget) :=
  let charge := min charge b.most
  if 0 < b.held ∧ b.most < b.held + charge then none else some (charge, { b with held := b.held + charge })

/-- As much as there is room for now, up to `wanted`, one at least. -/
def holdUpTo (b : Budget) (wanted : Nat) : Option (Nat × Budget) :=
  let wanted := max 1 (min wanted b.most)
  if b.most ≤ b.held then none
  else
    let charge := min wanted (b.most - b.held)
    some (charge, { b with held := b.held + charge })

def release (b : Budget) (charge : Nat) : Budget := { b with held := b.held - charge }

end Budget

/-- The chunks one carry holds at most. -/
def carryChunks : Nat := 8

/-! ### Rests and drains -/

/-- How a Location's transport is asked again: its receive waits by itself, it is polled, or it is polled and its far end
tells of a change. -/
inductive Asking where
  | waits
  | polled
  | told
  deriving DecidableEq

inductive Ended where
  | found
  | nothing
  | mendable
  deriving DecidableEq

/-- A Location's rests, and how long it drains once its node stops. -/
structure Pace where
  poll : Nat
  sweep : Nat
  backoff : Nat
  drain : Nat

/-- How long a Location rests after a receive that took `took`. -/
def Pace.rest (p : Pace) (asking : Asking) (ended : Ended) (took : Nat) : Nat :=
  match ended, asking with
  | .found, _ | _, .waits => 0
  | .nothing, .polled => p.poll - took
  | .nothing, .told => p.sweep - took
  | .mendable, _ => p.backoff - took

/-- Whether a Location drains, and once the stop is raised, until when and whether a receive found nothing. -/
structure Drain where
  waits : Bool
  letGo : Bool
  bound : Nat
  deadline : Option Nat
  quiet : Bool

namespace Drain

def new (waits : Bool) (bound : Nat) : Drain := ⟨waits, false, bound, none, false⟩

/-- Whether the transport is asked once more, the clock read twice. -/
def asks (d : Drain) (raised : Bool) (now now' : Nat) : Bool × Drain :=
  if !raised then (true, d)
  else if !d.waits || !d.letGo || d.quiet then (false, d)
  else
    let deadline := d.deadline.getD (now + d.bound)
    (decide (now' < deadline), { d with deadline := some deadline })

def handed (d : Drain) (letGo : Bool) : Drain := { d with letGo := d.letGo || letGo }

def received (d : Drain) (ended : Ended) : Drain :=
  if d.deadline.isSome ∧ ended ≠ .found then { d with quiet := true } else d

end Drain

/-! ### Arrivals -/

/-- One arrival: its number at its Location, the receive that found it, and its place among what that receive found. -/
structure Arrival where
  number : Nat
  receive : Nat
  place : Nat
  deriving DecidableEq

/-- At which gate an arrival was refused. -/
inductive Refused where
  | identification
  | authentication
  | authorization
  | promotion
  deriving DecidableEq

/-- How a receive cycle ended. -/
inductive Cycle where
  | completed
  | refused (reason : Refused)
  | failed (reason : String)
  deriving DecidableEq

inductive Refusal where
  | unidentified
  | forbidden
  | unacceptable
  deriving DecidableEq

inductive Verdict where
  | accepted
  | refused (why : Refusal)
  | failed
  deriving DecidableEq

/-- What the far end is told of a receive cycle. -/
def Cycle.verdict : Cycle → Verdict
  | .completed => .accepted
  | .refused .identification | .refused .authentication => .refused .unidentified
  | .refused .authorization => .refused .forbidden
  | .refused .promotion => .refused .unacceptable
  | .failed _ => .failed

/-- What a carry that panicked is settled as. -/
def panicked : Cycle := .failed "its carrying thread panicked before the receive cycle ended"

/-- What came of telling the far end. -/
inductive Told where
  | ok
  /-- Not told, in a way asking again may mend. -/
  | mendable (why : String)
  | final (why : String)
  deriving DecidableEq

/-- How far a thread of the pool is with its arrival. -/
inductive Phase where
  /-- Taken off the queue; its `Telling` not made. -/
  | entered
  | guarded
  /-- Its bytes held. -/
  | carrying
  | carried (cycle : Cycle)
  /-- Its far end about to be told, in its turn; on the way out of a panic, or not. -/
  | telling (cycle : Cycle) (unwinding : Bool)
  | sending (cycle : Cycle) (told : Told)
  /-- Sent to the loop; its carry place still held. -/
  | sent
  /-- Panicked with no `Telling` made; its ticket waits to pass its turn. -/
  | lost
  deriving DecidableEq

structure Task where
  arrival : Arrival
  phase : Phase

/-! ### Locations -/

/-- Where a Location's loop is, with the carry places it holds of the node's. -/
inductive Serving where
  | top
  | settling
  | asking (places : Nat)
  | handing (places : Nat)
  | resting (places : Nat)
  | ending (why : Option String)
  | returned (why : Option String)
  /-- Its thread panicked while it handed arrivals over. -/
  | crashed
  deriving DecidableEq

structure Location where
  name : String
  ordered : Bool
  polled : Bool
  /-- The most threads of its pool. -/
  most : Nat
  pace : Pace
  drain : Drain
  serving : Serving
  count : Nat
  heard : List String
  receives : Nat
  /-- Whose turn it is to tell, for each receive. -/
  turns : Nat → Nat
  /-- Taken off the transport, and not handed to the pool. -/
  taken : List Arrival
  queued : List Arrival
  running : List Task
  channel : List (Arrival × Cycle × Told)
  all : List Arrival
  told : List (Arrival × Verdict)
  passed : List Arrival
  settled : List (Arrival × Cycle)

namespace Location

/-- A Location before it serves. -/
def new (name : String) (ordered polled : Bool) (most : Nat) (pace : Pace) : Location where
  name := name
  ordered := ordered
  polled := polled
  most := most
  pace := pace
  drain := .new (!polled) pace.drain
  serving := .top
  count := 0
  heard := []
  receives := 0
  turns _ := 0
  taken := []
  queued := []
  running := []
  channel := []
  all := []
  told := []
  passed := []
  settled := []

/-- How many may be carrying when the transport is asked again. -/
def busy (l : Location) : Nat := if l.ordered then 0 else max l.most 1 - 1

def stopped (l : Location) (why : String) : String := "the Receive Location '" ++ l.name ++ "' stopped: " ++ why

/-- The next receive's `n` arrivals. -/
def arrivals (l : Location) (n : Nat) : List Arrival :=
  (List.range n).map fun place => ⟨l.all.length + place, l.receives, place⟩

/-- One arrival's turn passed on. -/
def passTurn (l : Location) (a : Arrival) : Location :=
  if l.ordered then
    { l with
      turns := fun receive => if receive = a.receive then a.place + 1 else l.turns receive
      passed := l.passed ++ [a] }
  else l

/-- Whether it is an arrival's turn to tell. -/
def inTurn (l : Location) (a : Arrival) : Prop := l.ordered = true → l.turns a.receive = a.place

instance (l : Location) (a : Arrival) : Decidable (l.inTurn a) :=
  inferInstanceAs (Decidable (l.ordered = true → l.turns a.receive = a.place))

end Location

/-! ### Steps -/

/-- What a Location's loop does. -/
inductive Serve where
  /-- The loop begins again, the clock read for its drain. -/
  | ask (now now' : Nat)
  | settle
  | hold
  /-- The transport hands over `n`, some of which its far end let go of. -/
  | found (n : Nat) (letGo : Bool)
  /-- A receive found nothing, or failed in a way asking again may mend; a word of a change told since or not. -/
  | unfound (ended : Ended) (asking : Asking) (took : Nat) (nudged : Bool)
  | failed (why : String)
  | handOver
  | handed
  /-- The loop's thread panics while it hands arrivals over. -/
  | crash
  | rested
  | finish

/-- What a thread of a Location's pool does. -/
inductive Work where
  | take
  /-- The arrival made out as the message path reads it, and its `Telling` made. -/
  | guard (i : Nat)
  /-- A panic before its `Telling` is made. -/
  | breaks (i : Nat)
  | hold (i : Nat)
  | carry (i : Nat) (cycle : Cycle)
  | audit (i : Nat)
  /-- A panic once its `Telling` is made, before its far end is told. -/
  | panics (i : Nat)
  | tell (i : Nat) (told : Told)
  /-- A panic while its far end is told. -/
  | tellPanics (i : Nat)
  | send (i : Nat)
  | letGo (i : Nat)
  | pass (i : Nat)

/-- The node: its budgets, and its Locations. -/
structure Node where
  carries : Budget
  received : Budget
  chunk : Nat
  raised : Bool
  locations : List Location

/-- What one carry holds of the node's byte budget. -/
def Node.carry (n : Node) : Nat := carryChunks * n.chunk

inductive Action where
  | raise
  | serve (i : Nat) (what : Serve)
  | work (i : Nat) (what : Work)

namespace Location

/-- One arrival settled. -/
def settles (l : Location) : Option Location :=
  match l.channel with
  | (a, cycle, told) :: channel =>
    let l := { l with channel, count := l.count - 1, settled := l.settled ++ [(a, cycle)] }
    match told with
    | .ok => some l
    | .mendable why => some { l with heard := if why ∈ l.heard then l.heard else why :: l.heard }
    | .final why =>
      match l.serving with
      | .ending (some before) => some { l with serving := .ending (some before) }
      | _ => some { l with serving := .ending (some (l.stopped why)) }
  | [] => none

/-- What a Location's loop does, with the node's carry places before and after it. -/
def serve (carries : Budget) (raised : Bool) (l : Location) (what : Serve) : Option (Budget × Location) :=
  match what, l.serving with
  | .ask now now', .top =>
    let (asks, drain) := l.drain.asks raised now now'
    some (carries, { l with drain, serving := if asks then .settling else .ending none })
  | .settle, .settling | .settle, .ending _ => if 0 < l.count then l.settles.map (carries, ·) else none
  | .hold, .settling =>
    if l.count ≤ l.busy then
      (carries.holdUpTo (max l.most 1 - l.count)).map fun (places, carries) => (carries, { l with serving := .asking places })
    else none
  | .found n letGo, .asking places =>
    if 0 < n ∧ n ≤ places then
      some (carries,
        { l with
          drain := l.drain.handed letGo
          count := l.count + n
          receives := l.receives + 1
          taken := l.arrivals n
          all := l.all ++ l.arrivals n
          serving := .handing places })
    else none
  | .unfound ended asking took nudged, .asking places =>
    if ended ≠ .found ∧ (asking = .waits ↔ l.polled = false) then
      let l := { l with drain := l.drain.received ended }
      -- The places are dropped as the loop's body ends, once it rested.
      if 0 < l.pace.rest asking ended took ∧ nudged = false ∧ raised = false then
        some (carries, { l with serving := .resting places })
      else some (carries.release places, { l with serving := .top })
    else none
  | .failed why, .asking places => some (carries.release places, { l with serving := .ending (some (l.stopped why)) })
  | .handOver, .handing places =>
    match l.taken with
    | a :: taken => some (carries, { l with taken, queued := l.queued ++ [a], serving := .handing (places - 1) })
    | [] => none
  | .handed, .handing places =>
    if l.taken = [] then
      some (carries.release places, { l with drain := l.drain.received .found, serving := .top })
    else none
  | .crash, .handing places => some (carries.release places, { l with taken := [], serving := .crashed })
  | .rested, .resting places => some (carries.release places, { l with serving := .top })
  | .finish, .ending why => if l.count = 0 then some (carries, { l with serving := .returned why }) else none
  | _, _ => none

/-- What a thread of its pool does, with the node's budgets before and after it. -/
def work (carries received : Budget) (charge : Nat) (l : Location) (what : Work) : Option (Budget × Budget × Location) :=
  match what with
  | .take =>
    match l.queued with
    | a :: queued =>
      if l.running.length < max l.most 1 then
        some (carries, received, { l with queued, running := l.running ++ [⟨a, .entered⟩] })
      else none
    | [] => none
  | .guard i =>
    match pick l.running i with
    | some (⟨a, .entered⟩, rest) => some (carries, received, { l with running := rest ++ [⟨a, .guarded⟩] })
    | _ => none
  | .breaks i =>
    match pick l.running i with
    | some (⟨a, .entered⟩, rest) => some (carries, received, { l with running := rest ++ [⟨a, .lost⟩] })
    | _ => none
  | .hold i =>
    match pick l.running i with
    | some (⟨a, .guarded⟩, rest) =>
      (received.hold charge).map fun (_, received) => (carries, received, { l with running := rest ++ [⟨a, .carrying⟩] })
    | _ => none
  | .carry i cycle =>
    match pick l.running i with
    | some (⟨a, .carrying⟩, rest) =>
      some (carries, received.release (min charge received.most), { l with running := rest ++ [⟨a, .carried cycle⟩] })
    | _ => none
  | .audit i =>
    match pick l.running i with
    | some (⟨a, .carried cycle⟩, rest) => some (carries, received, { l with running := rest ++ [⟨a, .telling cycle false⟩] })
    | _ => none
  | .panics i =>
    match pick l.running i with
    | some (⟨a, .guarded⟩, rest) | some (⟨a, .carried _⟩, rest) =>
      some (carries, received, { l with running := rest ++ [⟨a, .telling panicked true⟩] })
    | some (⟨a, .carrying⟩, rest) =>
      some (carries, received.release (min charge received.most), { l with running := rest ++ [⟨a, .telling panicked true⟩] })
    | _ => none
  | .tell i told =>
    match pick l.running i with
    | some (⟨a, .telling cycle _⟩, rest) =>
      if l.inTurn a then
        some (carries, received, { l.passTurn a with
          running := rest ++ [⟨a, .sending cycle told⟩]
          told := l.told ++ [(a, cycle.verdict)] })
      else none
    | _ => none
  | .tellPanics i =>
    match pick l.running i with
    -- A second panic on the way out of one ends the process.
    | some (⟨a, .telling cycle false⟩, rest) =>
      if l.inTurn a then
        some (carries, received, { l.passTurn a with
          running := rest ++ [⟨a, .sending panicked .ok⟩]
          told := l.told ++ [(a, cycle.verdict)] })
      else none
    | _ => none
  | .send i =>
    match pick l.running i with
    | some (⟨a, .sending cycle told⟩, rest) =>
      some (carries, received, { l with
        running := rest ++ [⟨a, .sent⟩]
        channel := l.channel ++ [(a, cycle, told)] })
    | _ => none
  | .letGo i =>
    match pick l.running i with
    | some (⟨_, .sent⟩, rest) => some (carries.release 1, received, { l with running := rest })
    | _ => none
  | .pass i =>
    match pick l.running i with
    | some (⟨a, .lost⟩, rest) =>
      if l.inTurn a then some (carries.release 1, received, { l.passTurn a with running := rest }) else none
    | _ => none

end Location

namespace Node

def step (n : Node) : Action → Option Node
  | .raise => some { n with raised := true }
  | .serve i what =>
    match pick n.locations i with
    | some (l, rest) =>
      (l.serve n.carries n.raised what).map fun (carries, l) => { n with carries, locations := rest ++ [l] }
    | none => none
  | .work i what =>
    match pick n.locations i with
    | some (l, rest) =>
      (l.work n.carries n.received n.carry what).map fun (carries, received, l) =>
        { n with carries, received, locations := rest ++ [l] }
    | none => none

/-- A node before its Locations serve, each budget of one at least. -/
structure Starts (n : Node) : Prop where
  carries : 0 < n.carries.most ∧ n.carries.held = 0
  received : 0 < n.received.most ∧ n.received.held = 0
  locations : ∀ l ∈ n.locations, ∃ name ordered polled most pace, l = .new name ordered polled most pace

end Node

/-! ### What a step does -/

namespace Location

/-- What a loop's step does, case by case. -/
inductive Serves (carries : Budget) (raised : Bool) (l : Location) : Serve → Budget → Location → Prop where
  | asks {now now' : Nat} (serving : l.serving = .top) :
      Serves carries raised l (.ask now now') carries
        { l with
          drain := (l.drain.asks raised now now').2
          serving := if (l.drain.asks raised now now').1 then .settling else .ending none }
  | settles {l' : Location} (serving : l.serving = .settling ∨ ∃ why, l.serving = .ending why) (counted : 0 < l.count)
      (settled : l.settles = some l') : Serves carries raised l .settle carries l'
  | holds (serving : l.serving = .settling) (few : l.count ≤ l.busy) {places : Nat} {carries' : Budget}
      (held : carries.holdUpTo (max l.most 1 - l.count) = some (places, carries')) :
      Serves carries raised l .hold carries' { l with serving := .asking places }
  | found {places n : Nat} {letGo : Bool} (serving : l.serving = .asking places) (some_ : 0 < n) (most : n ≤ places) :
      Serves carries raised l (.found n letGo) carries
        { l with
          drain := l.drain.handed letGo
          count := l.count + n
          receives := l.receives + 1
          taken := l.arrivals n
          all := l.all ++ l.arrivals n
          serving := .handing places }
  | rests {places : Nat} {ended : Ended} {asking : Asking} {took : Nat} {nudged : Bool}
      (serving : l.serving = .asking places) (long : 0 < l.pace.rest asking ended took) (still : nudged = false)
      (unraised : raised = false) :
      Serves carries raised l (.unfound ended asking took nudged) carries
        { l with drain := l.drain.received ended, serving := .resting places }
  | goesOn {places : Nat} {ended : Ended} {asking : Asking} {took : Nat} {nudged : Bool}
      (serving : l.serving = .asking places) :
      Serves carries raised l (.unfound ended asking took nudged) (carries.release places)
        { l with drain := l.drain.received ended, serving := .top }
  | fails {places : Nat} {why : String} (serving : l.serving = .asking places) :
      Serves carries raised l (.failed why) (carries.release places) { l with serving := .ending (some (l.stopped why)) }
  | handsOver {places : Nat} {a : Arrival} {taken : List Arrival} (serving : l.serving = .handing places)
      (first : l.taken = a :: taken) :
      Serves carries raised l .handOver carries
        { l with taken, queued := l.queued ++ [a], serving := .handing (places - 1) }
  | handed {places : Nat} (serving : l.serving = .handing places) (none_ : l.taken = []) :
      Serves carries raised l .handed (carries.release places)
        { l with drain := l.drain.received .found, serving := .top }
  | crashes {places : Nat} (serving : l.serving = .handing places) :
      Serves carries raised l .crash (carries.release places) { l with taken := [], serving := .crashed }
  | rested {places : Nat} (serving : l.serving = .resting places) :
      Serves carries raised l .rested (carries.release places) { l with serving := .top }
  | finishes {why : Option String} (serving : l.serving = .ending why) (none_ : l.count = 0) :
      Serves carries raised l .finish carries { l with serving := .returned why }

variable {carries carries' received received' : Budget} {charge : Nat} {raised : Bool} {l l' : Location}

theorem serves_of_serve {what : Serve} (h : l.serve carries raised what = some (carries', l')) :
    Serves carries raised l what carries' l' := by
  unfold serve at h
  split at h
  · rename_i now now' hserving
    cases h
    exact .asks hserving
  · rename_i hserving
    split at h
    · rename_i hcount
      obtain ⟨l'', hsettles, heq⟩ := Option.map_eq_some_iff.1 h
      cases heq
      exact .settles (.inl hserving) hcount hsettles
    · cases h
  · rename_i why hserving
    split at h
    · rename_i hcount
      obtain ⟨l'', hsettles, heq⟩ := Option.map_eq_some_iff.1 h
      cases heq
      exact .settles (.inr ⟨why, hserving⟩) hcount hsettles
    · cases h
  · rename_i hserving
    split at h
    · rename_i hfew
      obtain ⟨⟨places, held⟩, hhold, heq⟩ := Option.map_eq_some_iff.1 h
      cases heq
      exact .holds hserving hfew hhold
    · cases h
  · rename_i n letGo places hserving
    split at h
    · rename_i hn
      cases h
      exact .found hserving hn.1 hn.2
    · cases h
  · rename_i ended asking took nudged places hserving
    split at h
    · dsimp only at h
      split at h
      · rename_i hrests
        cases h
        exact .rests hserving hrests.1 hrests.2.1 hrests.2.2
      · cases h
        exact .goesOn hserving
    · cases h
  · rename_i why places hserving
    cases h
    exact .fails hserving
  · rename_i places hserving
    split at h
    · rename_i a taken htaken
      cases h
      exact .handsOver hserving htaken
    · cases h
  · rename_i places hserving
    split at h
    · rename_i htaken
      cases h
      exact .handed hserving htaken
    · cases h
  · rename_i places hserving
    cases h
    exact .crashes hserving
  · rename_i places hserving
    cases h
    exact .rested hserving
  · rename_i why hserving
    split at h
    · rename_i hcount
      cases h
      exact .finishes hserving hcount
    · cases h
  · cases h

/-- An arrival goes on to its next phase, and touches nothing shared. -/
inductive Moves : (Nat → Work) → Phase → Phase → Prop where
  | guard : Moves .guard .entered .guarded
  | breaks : Moves .breaks .entered .lost
  | audit (cycle : Cycle) : Moves .audit (.carried cycle) (.telling cycle false)
  | panicsGuarded : Moves .panics .guarded (.telling panicked true)
  | panicsCarried (cycle : Cycle) : Moves .panics (.carried cycle) (.telling panicked true)

/-- A carry ends, and its bytes are let go of. -/
inductive Frees : (Nat → Work) → Phase → Prop where
  | carry (cycle : Cycle) : Frees (.carry · cycle) (.carried cycle)
  | panics : Frees .panics (.telling panicked true)

/-- A far end is told how its cycle ended, and what is sent of it. -/
inductive Tells : (Nat → Work) → Phase → Cycle → Phase → Prop where
  | tell (cycle : Cycle) (unwinding : Bool) (told : Told) :
      Tells (.tell · told) (.telling cycle unwinding) cycle (.sending cycle told)
  | tellPanics (cycle : Cycle) : Tells .tellPanics (.telling cycle false) cycle (.sending panicked .ok)

/-- What a step of a thread of the pool does, case by case. -/
inductive Works (carries received : Budget) (charge : Nat) (l : Location) :
    Work → Budget → Budget → Location → Prop where
  | takes {a : Arrival} {queued : List Arrival} (first : l.queued = a :: queued) (free : l.running.length < max l.most 1) :
      Works carries received charge l .take carries received { l with queued, running := l.running ++ [⟨a, .entered⟩] }
  | moves {what : Nat → Work} {i : Nat} {a : Arrival} {phase phase' : Phase} {rest : List Task}
      (picked : pick l.running i = some (⟨a, phase⟩, rest)) (moved : Moves what phase phase') :
      Works carries received charge l (what i) carries received { l with running := rest ++ [⟨a, phase'⟩] }
  | holds {i held : Nat} {a : Arrival} {rest : List Task} {received' : Budget}
      (picked : pick l.running i = some (⟨a, .guarded⟩, rest)) (held : received.hold charge = some (held, received')) :
      Works carries received charge l (.hold i) carries received' { l with running := rest ++ [⟨a, .carrying⟩] }
  | frees {what : Nat → Work} {i : Nat} {a : Arrival} {phase : Phase} {rest : List Task}
      (picked : pick l.running i = some (⟨a, .carrying⟩, rest)) (freed : Frees what phase) :
      Works carries received charge l (what i) carries (received.release (min charge received.most))
        { l with running := rest ++ [⟨a, phase⟩] }
  | tells {what : Nat → Work} {i : Nat} {a : Arrival} {phase phase' : Phase} {cycle : Cycle} {rest : List Task}
      (picked : pick l.running i = some (⟨a, phase⟩, rest)) (turn : l.inTurn a) (told : Tells what phase cycle phase') :
      Works carries received charge l (what i) carries received
        { l.passTurn a with
          running := rest ++ [⟨a, phase'⟩]
          told := l.told ++ [(a, cycle.verdict)] }
  | sends {i : Nat} {a : Arrival} {cycle : Cycle} {told : Told} {rest : List Task}
      (picked : pick l.running i = some (⟨a, .sending cycle told⟩, rest)) :
      Works carries received charge l (.send i) carries received
        { l with
          running := rest ++ [⟨a, .sent⟩]
          channel := l.channel ++ [(a, cycle, told)] }
  | letsGo {i : Nat} {a : Arrival} {rest : List Task} (picked : pick l.running i = some (⟨a, .sent⟩, rest)) :
      Works carries received charge l (.letGo i) (carries.release 1) received { l with running := rest }
  | passes {i : Nat} {a : Arrival} {rest : List Task} (picked : pick l.running i = some (⟨a, .lost⟩, rest))
      (turn : l.inTurn a) :
      Works carries received charge l (.pass i) (carries.release 1) received { l.passTurn a with running := rest }

theorem works_of_work {what : Work} (h : l.work carries received charge what = some (carries', received', l')) :
    Works carries received charge l what carries' received' l' := by
  unfold work at h
  split at h
  · split at h
    · rename_i a queued hqueued
      split at h
      · rename_i hfree
        cases h
        exact .takes hqueued hfree
      · cases h
    · cases h
  · split at h
    · rename_i hp
      cases h
      exact .moves hp .guard
    · cases h
  · split at h
    · rename_i hp
      cases h
      exact .moves hp .breaks
    · cases h
  · split at h
    · rename_i hp
      obtain ⟨⟨held, received''⟩, hheld, heq⟩ := Option.map_eq_some_iff.1 h
      cases heq
      exact .holds hp hheld
    · cases h
  · split at h
    · rename_i cycle _ _ _ hp
      cases h
      exact .frees hp (.carry cycle)
    · cases h
  · split at h
    · rename_i hp
      cases h
      exact .moves hp (.audit _)
    · cases h
  · split at h
    · rename_i hp
      cases h
      exact .moves hp .panicsGuarded
    · rename_i hp
      cases h
      exact .moves hp (.panicsCarried _)
    · rename_i hp
      cases h
      exact .frees hp .panics
    · cases h
  · rename_i told
    split at h
    · rename_i hp
      split at h
      · rename_i hturn
        cases h
        exact .tells hp hturn (.tell _ _ told)
      · cases h
    · cases h
  · split at h
    · rename_i hp
      split at h
      · rename_i hturn
        cases h
        exact .tells hp hturn (.tellPanics _)
      · cases h
    · cases h
  · split at h
    · rename_i hp
      cases h
      exact .sends hp
    · cases h
  · split at h
    · rename_i hp
      cases h
      exact .letsGo hp
    · cases h
  · split at h
    · rename_i hp
      split at h
      · rename_i hturn
        cases h
        exact .passes hp hturn
      · cases h
    · cases h

end Location

/-- What a step of the node does: the stop is raised, or one Location's loop or pool goes on. -/
theorem Node.step_cases {n n' : Node} {a : Action} (h : n.step a = some n') :
    a = .raise ∧ n' = { n with raised := true } ∨
    (∃ i what l rest carries l', a = .serve i what ∧ pick n.locations i = some (l, rest) ∧
      l.Serves n.carries n.raised what carries l' ∧ n' = { n with carries, locations := rest ++ [l'] }) ∨
    ∃ i what l rest carries received l', a = .work i what ∧ pick n.locations i = some (l, rest) ∧
      l.Works n.carries n.received n.carry what carries received l' ∧
      n' = { n with carries, received, locations := rest ++ [l'] } := by
  cases a with
  | raise =>
    cases h
    exact .inl ⟨rfl, rfl⟩
  | serve i what =>
    refine .inr (.inl ?_)
    simp only [step] at h
    split at h
    · rename_i l rest hp
      obtain ⟨⟨carries, l'⟩, hs, heq⟩ := Option.map_eq_some_iff.1 h
      cases heq
      exact ⟨i, what, l, rest, carries, l', rfl, hp, Location.serves_of_serve hs, rfl⟩
    · cases h
  | work i what =>
    refine .inr (.inr ?_)
    simp only [step] at h
    split at h
    · rename_i l rest hp
      obtain ⟨⟨carries, received, l'⟩, hw, heq⟩ := Option.map_eq_some_iff.1 h
      cases heq
      exact ⟨i, what, l, rest, carries, received, l', rfl, hp, Location.works_of_work hw, rfl⟩
    · cases h

end Receiving
