import Mathlib.Data.Finset.Basic
import XmipRuntime.Ledger.Storage

/-!
# The send step's state, and what is done to it under its lock

A node's send step keeps what it holds claimed, the places of the Send pool given out, when each queue next has a retry
due and which queues are to be read (`src/send_step.rs`).  Every definition here is one hold of its lock, under the
source's name: a thread is a row of these with requests of Xmip Storage between them, and what interleaves is only
these.

An `Instant` is a number on the node's own clock.  The names and the identifiers are numbers where nothing reads more
of them, and a Journey's identifier stands beside its record, as in the Ledger.  Audits and wake-ups say nothing of
the state and are left out.
-/

namespace SendStep

open Library Ledger

/-! ### What the state is made of -/

/-- A claim, as the request that took it was answered. -/
structure Claim where
  journey : Nat
  holder : Nat
  token : Nat
  fence : Nat
  deriving DecidableEq

/-- Where a claim the node owns stands. -/
structure Standing where
  /-- Surely held until then, on this node's clock. -/
  heldUntil : Nat
  /-- Since when its renewal has not been answered. -/
  unconfirmed : Option Nat
  lost : Bool
  said : Bool
  deriving DecidableEq

/-- A claim confirmed until `heldUntil`. -/
def Standing.confirmed (heldUntil : Nat) : Standing := ⟨heldUntil, none, false, false⟩

def Standing.holds (standing : Standing) (now : Nat) : Bool := !standing.lost && decide (now < standing.heldUntil)

/-- One Message being sent: its Journey, where it leads, the queue it waits in, the claim it is sent under and the
latest this node is sure that claim holds. -/
structure Departure where
  id : Nat
  journey : Journey
  port : String
  queue : Nat
  claim : Claim
  heldUntil : Nat
  deriving DecidableEq

structure Owned where
  claim : Claim
  port : String
  standing : Standing
  deriving DecidableEq

def Owned.of (departure : Departure) : Owned :=
  ⟨departure.claim, departure.port, .confirmed departure.heldUntil⟩

/-- When a queue's earliest retry is due, how many wait for one, and the earliest due time noted since the queue's last
read began. -/
structure Due where
  port : String
  at? : Option Nat
  waiting : Nat
  noted? : Option Nat
  deriving DecidableEq

structure PortFigures where
  sent : Nat
  failed : Nat
  lost : Nat
  lastFailure : Option (Nat × String)
  deriving DecidableEq

structure State where
  /-- Claimed and ready to send. -/
  handed : List Departure
  due : Table Nat Due
  owned : Table Nat Owned
  /-- Places in the Send pool admitted for Messages not yet owned. -/
  admitted : Nat
  /-- Found unclaimed by a scan, each under a place admitted, being claimed. -/
  taking : Finset Nat
  starved : List Nat
  /-- By queue, the places read and found not to be sent. -/
  passed : Table Nat (Finset (Nat × Nat))
  asked : List Nat
  figures : Table String PortFigures
  rescan : Bool
  served : List Nat
  closed : Bool

/-- As a send step starts, to send from the queues `served`. -/
def State.starting (served : List Nat) : State :=
  ⟨[], .empty, .empty, 0, ∅, [], .empty, [], .empty, false, served, false⟩

/-- What a node is told of its send step: the pool's most threads, how long a claim holds, the queue of a destination,
whether this node sends it, and whether what is bound for it passes in a sequence. -/
structure Settings where
  node : Nat
  most : Nat
  lease : Nat
  queue : String → Nat
  serves : String → Bool
  sequential : String → Bool

variable (c : Settings)

/-! ### Queues to read -/

/-- `queue` among those to read, once. -/
def listed (queues : List Nat) (queue : Nat) : List Nat := if queue ∈ queues then queues else queues ++ [queue]

namespace State

def ask (s : State) (queue : Nat) : State := { s with asked := listed s.asked queue }

def askRescan (s : State) : State := { s with rescan := true }

def starve (s : State) (queue : Nat) : State := { s with starved := listed s.starved queue }

/-- A place in the Send pool freed: every queue that had Messages waiting for one is read now. -/
def freed (s : State) : State := { s with starved := [], asked := s.starved.foldl listed s.asked }

/-! ### Admission to the Send pool -/

/-- How many more Messages the Send pool can take. -/
def room (s : State) : Nat := max c.most 1 - (s.owned.size + s.admitted)

/-- Places for up to `wanted` Messages: how many, and the state they are given out in. -/
def admitFor (s : State) (wanted : Nat) : Nat × State :=
  let admitted := min wanted (s.room c)
  (admitted, { s with admitted := s.admitted + admitted })

/-- `places` admitted and not used, given back. -/
def withdraw (s : State) (places : Nat) : State :=
  if places = 0 then s else { s with admitted := s.admitted - places }.freed

/-- The Message of the Journey `id`, claimed under a place admitted for it, owned now. -/
def own (s : State) (id : Nat) (owned : Owned) : State :=
  { s with admitted := s.admitted - 1, taking := s.taking.erase id, owned := s.owned.put id owned }

/-- The Message of the Journey `id`, found by a scan and not claimed by this node after all: its place given back. -/
def untake (s : State) (id : Nat) : State :=
  if id ∈ s.taking then { s with taking := s.taking.erase id, admitted := s.admitted - 1 }.freed else s.freed

/-- A scan's mark on the Journey `id` it takes. -/
def mark (s : State) (id : Nat) : State := { s with taking := insert id s.taking }

/-- Whether a scan passes over the Journey `id` at `place` of `queue`: owned, being taken, or found not to be sent. -/
def known (s : State) (queue id place : Nat) : Bool :=
  (s.owned.get id).isSome || decide (id ∈ s.taking) || (s.passed.get queue).any fun set => decide ((id, place) ∈ set)

end State

/-! ### A Publication's Messages -/

structure Hold where
  queue : Nat
  journey : Nat
  deriving DecidableEq

/-- One a Publication claims: where it leads, its queue and its claim. -/
structure Claimed where
  journey : Nat
  port : String
  queue : Nat
  claim : Claim
  deriving DecidableEq

/-- What a Publication writes for the Messages that go on to be sent. -/
structure LinedUp where
  holds : List Hold
  claims : List Claim
  claimed : List Claimed
  admitted : Nat
  asked : Option Nat

/-- Whether this node sends what is bound for `port`, and not in a sequence. -/
def Settings.sentHere (port : String) : Bool := c.serves port && !c.sequential port

/-- Those of `departing` the node claims, `places` left, each under the token `mint` gives it. -/
def linedClaims (mint : Nat → Nat) : Nat → List (Nat × String) → List Claimed
  | _, [] => []
  | places, (id, port) :: departing =>
    if 0 < places ∧ c.sentHere port then
      ⟨id, port, c.queue port, ⟨id, c.node, mint id, 0⟩⟩ :: linedClaims mint (places - 1) departing
    else linedClaims mint places departing

/-- How many of `departing` this node would send. -/
def wanted (departing : List (Nat × String)) : Nat := departing.countP fun x => c.sentHere x.2

/-- The Messages of the Journeys a Publication opens lined up, each with where it leads: as many of those this node
sends as the pool admits claimed, asked at `now`. -/
def State.lineUp (s : State) (departing : List (Nat × String)) (mint : Nat → Nat) (now : Nat) : LinedUp × State :=
  let places := s.admitFor c (wanted c departing)
  let claimed := linedClaims c mint places.1 departing
  (⟨departing.map fun x => ⟨c.queue x.2, x.1⟩, claimed.map Claimed.claim, claimed, places.1, some now⟩, places.2)

/-- `claim` as Xmip Storage holds it, among `holds`. -/
def heldAs (holds : List Claim) (claim : Claim) : Option Claim :=
  holds.find? fun kept => decide (kept.journey = claim.journey ∧ kept.token = claim.token)

/-- `lined` with only the claims Xmip Storage says this node holds, and how many are gone. -/
def LinedUp.confirmed (lined : LinedUp) (holds : List Claim) : LinedUp × Nat :=
  let claimed := lined.claimed.filterMap fun one => (heldAs holds one.claim).map fun claim => { one with claim }
  let gone := lined.claimed.length - claimed.length
  ({ lined with claimed, claims := lined.claims.filterMap (heldAs holds), admitted := lined.admitted - gone }, gone)

/-- The departure of one a Publication claimed, where it is among the Journeys written. -/
def Claimed.departure (one : Claimed) (heldUntil : Nat) (journeys : List (Nat × Journey)) : Option Departure :=
  (journeys.find? fun x => decide (x.1 = one.journey)).map fun x =>
    ⟨one.journey, x.2, one.port, one.queue, one.claim, heldUntil⟩

namespace State

/-- `departure` owned and handed to the pool, in one hold of the lock. -/
def handOver (s : State) (departure : Departure) : State :=
  { s with owned := s.owned.put departure.id (.of departure), handed := s.handed ++ [departure] }

/-- The queue of a Message held and not owned asked for. -/
def askHeld (s : State) (hold : Hold) : State := if (s.owned.get hold.journey).isSome then s else s.ask hold.queue

/-- What `lined` claimed handed to the Send pool, each in the place admitted for it; `now` where it was never asked. -/
def handing (s : State) (lined : LinedUp) (journeys : List (Nat × Journey)) (now : Nat) : State :=
  let departures := lined.claimed.filterMap fun one => one.departure (lined.asked.getD now + c.lease) journeys
  let handed := departures.foldl handOver { s with admitted := s.admitted - lined.admitted }
  lined.holds.foldl askHeld handed

/-! ### Due times -/

end State

/-- The earlier of `was`, where there is one, and `at`. -/
def earlier (was : Option Nat) (t : Nat) : Nat := was.elim t fun w => min w t

namespace Due

/-- None waiting yet, in the queue of the Send Port `port`. -/
def of (port : String) : Due := ⟨port, none, 0, none⟩

/-- Woken for at `t`, a retry the queue's read found not yet due. -/
def wakesAt (due : Due) (t : Nat) : Due := { due with at? := some (earlier due.at? t) }

/-- Woken for at `t`, kept across the read under way. -/
def wakes (due : Due) (t : Nat) : Due :=
  { due with at? := some (earlier due.at? t), noted? := some (earlier due.noted? t) }

/-- One more waiting, due at `t`, as its hand-on noted it. -/
def noted (due : Due) (t : Nat) : Due := { due with waiting := due.waiting + 1 }.wakes t

/-- What a scan found waiting, over what was there: replaced where it read the whole queue, every due time noted since
the read began kept; else the earlier of both. -/
def replaced (due waits : Due) (whole : Bool) : Due :=
  if whole then
    match due.noted? with
    | some t => { waits with at? := some (earlier waits.at? t), noted? := some t }
    | none => waits
  else
    match waits.at? with
    | some t => { due with at? := some (earlier due.at? t), waiting := max due.waiting waits.waiting }
    | none => due

end Due

namespace State

/-- The due record of `queue`, or a new one of the Send Port `port`. -/
def dueOf (s : State) (queue : Nat) (port : String) : Due := (s.due.get queue).getD (.of port)

/-- A read of `queue` begins: what was noted before now, the read finds in Xmip Storage. -/
def reading (s : State) (queue : Nat) : State :=
  match s.due.get queue with
  | some due => { s with due := s.due.put queue { due with noted? := none } }
  | none => s

/-- A retry at a place of `queue` found not yet due under a scan's claim. -/
def notDue (s : State) (port : String) (queue t : Nat) : State :=
  { s with due := s.due.put queue ((s.dueOf queue port).wakes t) }

/-- What a scan of `queue` found waiting kept. -/
def waited (s : State) (queue : Nat) (waits : Due) (whole : Bool) : State :=
  { s with due := s.due.put queue ((s.dueOf queue waits.port).replaced waits whole) }

/-- A read to the end of what is due: every place passed over that is gone from the queue forgotten. -/
def readWhole (s : State) (queue : Nat) (present : Finset (Nat × Nat)) : State :=
  match s.passed.get queue with
  | some set => { s with passed := s.passed.put queue (set ∩ present) }
  | none => s

/-- A place read and found not to be sent. -/
def pass (s : State) (queue : Nat) (place : Nat × Nat) : State :=
  { s with passed := s.passed.put queue (insert place ((s.passed.get queue).getD ∅)) }

end State

/-! ### A claim's standing -/

/-- What a renewal answered. -/
inductive Renewed where
  | held (claim : Claim)
  | lost
  | unanswered
  deriving DecidableEq

/-- Where a claim owned stands once its renewal, asked at `asked`, is answered, read at `now`. -/
def Owned.renewed (owned : Owned) (lease asked now : Nat) : Renewed → Owned
  | .held claim => { owned with claim, standing := .confirmed (max owned.standing.heldUntil (asked + lease)) }
  | .lost => { owned with standing := { owned.standing with lost := true } }
  | .unanswered =>
    { owned with standing :=
      { owned.standing with
        unconfirmed := some (owned.standing.unconfirmed.getD asked)
        said := owned.standing.said || !owned.standing.holds now } }

namespace State

/-- Whether the Message of the Journey `id` is surely this node's to send at `now`. -/
def holds (s : State) (id now : Nat) : Bool := (s.owned.get id).any fun owned => owned.standing.holds now

/-- The claims a renewal asks for: every one owned and not found lost. -/
def flying (s : State) : List Claim :=
  (s.owned.entries.filter fun x => !x.2.standing.lost).map fun x => x.2.claim

/-- Where `claim`, renewed as asked at `asked`, stands; an answer for a claim the Message is no longer held by says
nothing. -/
def renewed (s : State) (claim : Claim) (asked now : Nat) (answer : Renewed) : State :=
  match s.owned.get claim.journey with
  | some owned =>
    if owned.claim.token = claim.token then
      { s with owned := s.owned.put claim.journey (owned.renewed c.lease asked now answer) }
    else s
  | none => s

/-! ### The dispatching, and a pass settled -/

end State

/-- How one pass of a send ended, as `settle` reads it. -/
inductive Ended where
  | completed
  | waiting (after : Nat)
  | failed (reason : String)
  | lost
  | untried
  /-- Behind another; `ask`, whether it only waits for its places, read from the Ledger. -/
  | behind (ask : Bool)
  | unwritten
  deriving DecidableEq

namespace State

/-- The figures of `port` changed. -/
def figured (s : State) (port : String) (f : PortFigures → PortFigures) : State :=
  { s with figures := s.figures.put port (f ((s.figures.get port).getD ⟨0, 0, 0, none⟩)) }

/-- The Journey `id` no longer owned, its place freed. -/
def letGo (s : State) (id : Nat) : State := { s with owned := s.owned.drop id }.freed

/-- How `departure`'s pass ended, settled at `now`. -/
def settle (s : State) (departure : Departure) (now : Nat) : Ended → State
  | .waiting after =>
    let due := (s.dueOf departure.queue departure.port).noted (now + after)
    { s with due := s.due.put departure.queue due }.letGo departure.id
  | .behind ask => (if ask then s.ask departure.queue else s).letGo departure.id
  | .untried => (s.ask departure.queue).letGo departure.id
  | .completed => (s.figured departure.port fun f => { f with sent := f.sent + 1 }).letGo departure.id
  | .failed reason =>
    (s.figured departure.port fun f =>
      { f with failed := f.failed + 1, lastFailure := some (departure.id, reason) }).letGo departure.id
  | .lost => (s.figured departure.port fun f => { f with lost := f.lost + 1 }).letGo departure.id
  | .unwritten => s.letGo departure.id

end State

/-- Whether its earliest retry is due by `now`. -/
def Due.fallen (due : Due) (now : Nat) : Bool := due.at?.any fun t => decide (t ≤ now)

/-- Once it is to be read for: no due time until the read says. -/
def Due.taken (due : Due) (now : Nat) : Due := if due.fallen now then { due with at? := none } else due

namespace State

/-- When the dispatching wakes with nothing handed or asked: the earliest retry due, or the next scan. -/
def wakesAt (s : State) (scan : Nat) : Nat := (s.due.entries.filterMap fun x => x.2.at?).foldl min scan

/-- Whether there is something to do. -/
def ready (s : State) (scan now : Nat) : Bool :=
  s.closed || s.rescan || !s.handed.isEmpty || !s.asked.isEmpty || decide (s.wakesAt scan ≤ now)

/-- The queues to read at `now`: asked, every one on a rescan, and those whose retry is due. -/
def toRead (s : State) (now : Nat) : List Nat :=
  let asked := if s.rescan then s.asked ++ s.served else s.asked
  ((s.due.entries.filter fun x => x.2.fallen now).map Prod.fst).foldl listed asked

/-- What was handed and which queues are to be read taken up. -/
def next (s : State) (now : Nat) : (Bool × List Departure × List Nat) × State :=
  ((s.closed, s.handed, s.toRead now),
    { s with rescan := false, handed := [], asked := [], due := s.due.map fun due => due.taken now })

end State

/-! ### Queues listed -/

theorem mem_listed {queues : List Nat} {queue q : Nat} : q ∈ listed queues queue ↔ q ∈ queues ∨ q = queue := by
  unfold listed
  split
  · rename_i h
    constructor
    · exact .inl
    · rintro (hq | rfl)
      · exact hq
      · exact h
  · simp

theorem mem_foldl_listed {queues asked : List Nat} {q : Nat} :
    q ∈ queues.foldl listed asked ↔ q ∈ asked ∨ q ∈ queues := by
  induction queues generalizing asked with
  | nil => simp
  | cons queue queues ih =>
    rw [List.foldl_cons, ih, mem_listed, List.mem_cons]
    tauto

/-! ### What each hold of the lock leaves of the pool's account -/

namespace State

variable {c} {s : State}

@[simp] theorem freed_admitted : s.freed.admitted = s.admitted := rfl
@[simp] theorem freed_owned : s.freed.owned = s.owned := rfl
@[simp] theorem freed_taking : s.freed.taking = s.taking := rfl

@[simp] theorem ask_admitted (queue : Nat) : (s.ask queue).admitted = s.admitted := rfl
@[simp] theorem ask_owned (queue : Nat) : (s.ask queue).owned = s.owned := rfl
@[simp] theorem ask_taking (queue : Nat) : (s.ask queue).taking = s.taking := rfl

theorem withdraw_admitted (places : Nat) : (s.withdraw places).admitted = s.admitted - places := by
  unfold withdraw
  split
  · omega
  · rfl

@[simp] theorem withdraw_owned (places : Nat) : (s.withdraw places).owned = s.owned := by
  unfold withdraw; split <;> rfl

@[simp] theorem withdraw_taking (places : Nat) : (s.withdraw places).taking = s.taking := by
  unfold withdraw; split <;> rfl

theorem untake_admitted (id : Nat) :
    (s.untake id).admitted = s.admitted - if id ∈ s.taking then 1 else 0 := by
  unfold untake; split <;> rfl

@[simp] theorem untake_owned (id : Nat) : (s.untake id).owned = s.owned := by
  unfold untake; split <;> rfl

@[simp] theorem untake_taking (id : Nat) : (s.untake id).taking = s.taking.erase id := by
  unfold untake
  split
  · rfl
  · rename_i h
    exact (Finset.erase_eq_of_notMem h).symm

@[simp] theorem settle_admitted (d : Departure) (now : Nat) (ended : Ended) :
    (s.settle d now ended).admitted = s.admitted := by
  unfold settle
  split <;> try rfl
  split <;> rfl

@[simp] theorem settle_owned (d : Departure) (now : Nat) (ended : Ended) :
    (s.settle d now ended).owned = s.owned.drop d.id := by
  unfold settle
  split <;> try rfl
  split <;> rfl

@[simp] theorem settle_taking (d : Departure) (now : Nat) (ended : Ended) :
    (s.settle d now ended).taking = s.taking := by
  unfold settle
  split <;> try rfl
  split <;> rfl

theorem askHeld_admitted (hold : Hold) : (s.askHeld hold).admitted = s.admitted := by
  unfold askHeld; split <;> rfl

theorem askHeld_owned (hold : Hold) : (s.askHeld hold).owned = s.owned := by
  unfold askHeld; split <;> rfl

theorem askHeld_taking (hold : Hold) : (s.askHeld hold).taking = s.taking := by
  unfold askHeld; split <;> rfl

end State

/-- What every step of a fold leaves alone, the fold does. -/
private theorem foldl_keeps {α β γ : Type} {f : β → α → β} (g : β → γ) (h : ∀ b a, g (f b a) = g b) (l : List α)
    (b : β) : g (l.foldl f b) = g b := by
  induction l generalizing b with
  | nil => rfl
  | cons a l ih => rw [List.foldl_cons, ih, h]

/-- A fold that adds at most one entry a step. -/
private theorem handOver_size (departures : List Departure) (s : State) :
    (departures.foldl State.handOver s).owned.size ≤ s.owned.size + departures.length := by
  induction departures generalizing s with
  | nil => exact Nat.le_refl _
  | cons d departures ih =>
    rw [List.foldl_cons, List.length_cons]
    have h1 := ih (s.handOver d)
    have h2 : (s.handOver d).owned.size ≤ s.owned.size + 1 := Table.size_put_le ..
    omega

namespace State

variable {c} {s : State}

@[simp] theorem handing_admitted (lined : LinedUp) (journeys : List (Nat × Journey)) (now : Nat) :
    (s.handing c lined journeys now).admitted = s.admitted - lined.admitted := by
  unfold handing
  rw [foldl_keeps State.admitted fun _ hold => askHeld_admitted hold, foldl_keeps (f := handOver) State.admitted fun _ _ => rfl]

@[simp] theorem handing_taking (lined : LinedUp) (journeys : List (Nat × Journey)) (now : Nat) :
    (s.handing c lined journeys now).taking = s.taking := by
  unfold handing
  rw [foldl_keeps State.taking fun _ hold => askHeld_taking hold, foldl_keeps (f := handOver) State.taking fun _ _ => rfl]

theorem handing_owned_size (lined : LinedUp) (journeys : List (Nat × Journey)) (now : Nat) :
    (s.handing c lined journeys now).owned.size ≤ s.owned.size + lined.claimed.length := by
  unfold handing
  rw [foldl_keeps State.owned fun _ hold => askHeld_owned hold]
  refine Nat.le_trans (handOver_size _ _) ?_
  have := List.length_filterMap_le
    (fun one : Claimed => one.departure (lined.asked.getD now + c.lease) journeys) lined.claimed
  show s.owned.size + _ ≤ _
  omega

end State

/-! ### A Publication's Messages handed over -/

private theorem put_size_iff {t : Table Nat Owned} {id : Nat} {owned : Owned} :
    (t.put id owned).size = t.size + 1 ↔ t.get id = none := by
  constructor
  · intro h
    cases hget : t.get id with
    | none => rfl
    | some o =>
      have := Table.size_put_of_some (a := owned) hget
      omega
  · exact Table.size_put_of_none

/-- Each departure handed over is one more owned just where each is a Journey of its own and none was owned before. -/
private theorem handOver_size_iff (departures : List Departure) (s : State) :
    (departures.foldl State.handOver s).owned.size = s.owned.size + departures.length ↔
      (departures.map Departure.id).Nodup ∧ ∀ d ∈ departures, s.owned.get d.id = none := by
  induction departures generalizing s with
  | nil => simp
  | cons d departures ih =>
    have hone : (s.handOver d).owned.size ≤ s.owned.size + 1 := Table.size_put_le ..
    have hrest := handOver_size departures (s.handOver d)
    have hput : (s.handOver d).owned.size = s.owned.size + 1 ↔ s.owned.get d.id = none := put_size_iff
    have hget : ∀ j, (s.handOver d).owned.get j = if j = d.id then some (.of d) else s.owned.get j :=
      fun j => Table.get_put ..
    rw [List.foldl_cons, List.length_cons, List.map_cons, List.nodup_cons]
    constructor
    · intro h
      obtain ⟨hnd, hnew⟩ := (ih (s.handOver d)).1 (by omega)
      have hd : s.owned.get d.id = none := hput.1 (by omega)
      refine ⟨⟨?_, hnd⟩, ?_⟩
      · intro hm
        obtain ⟨e, he, heq⟩ := List.mem_map.1 hm
        have := hnew e he
        rw [hget, if_pos heq] at this
        cases this
      · intro e he
        rcases List.mem_cons.1 he with rfl | he
        · exact hd
        · have := hnew e he
          rw [hget] at this
          split at this
          · cases this
          · exact this
    · rintro ⟨⟨hnot, hnd⟩, hnew⟩
      have hd := hput.2 (hnew d (List.mem_cons_self ..))
      have hr := (ih (s.handOver d)).2 ⟨hnd, ?_⟩
      · omega
      · intro e he
        have hne : e.id ≠ d.id := fun h => hnot (List.mem_map.2 ⟨e, he, h⟩)
        rw [hget, if_neg hne]
        exact hnew e (List.mem_cons_of_mem _ he)

private theorem departure_isSome {one : Claimed} {t : Nat} {journeys : List (Nat × Journey)} :
    (one.departure t journeys).isSome ↔ one.journey ∈ journeys.map Prod.fst := by
  unfold Claimed.departure
  rw [Option.isSome_map, List.find?_isSome, List.mem_map]
  constructor
  · rintro ⟨x, hx, he⟩
    exact ⟨x, hx, by simpa using he⟩
  · rintro ⟨x, hx, he⟩
    exact ⟨x, hx, by simpa using he⟩

private theorem departure_id {one : Claimed} {t : Nat} {journeys : List (Nat × Journey)} {d : Departure}
    (h : one.departure t journeys = some d) : d.id = one.journey := by
  obtain ⟨x, -, rfl⟩ := Option.map_eq_some_iff.1 h
  rfl

/-- Where all are found, the departures are of just the Journeys claimed. -/
private theorem departures_ids {t : Nat} {journeys : List (Nat × Journey)} {claimed : List Claimed}
    (h : ∀ one ∈ claimed, one.journey ∈ journeys.map Prod.fst) :
    (claimed.filterMap fun one => one.departure t journeys).map Departure.id = claimed.map Claimed.journey := by
  induction claimed with
  | nil => rfl
  | cons one claimed ih =>
    obtain ⟨d, hd⟩ := Option.isSome_iff_exists.1 ((departure_isSome (t := t)).2 (h one (List.mem_cons_self ..)))
    rw [List.filterMap_cons_some (f := fun one : Claimed => one.departure t journeys) hd, List.map_cons, List.map_cons,
      departure_id hd, ih fun x hx => h x (List.mem_cons_of_mem _ hx)]

/-- Every Message `lined` claimed is of a Journey of its own among those written, and none is owned yet. -/
def LinedUp.AllNew (lined : LinedUp) (journeys : List (Nat × Journey)) (owned : Table Nat Owned) : Prop :=
  (lined.claimed.map Claimed.journey).Nodup ∧
    ∀ one ∈ lined.claimed, one.journey ∈ journeys.map Prod.fst ∧ owned.get one.journey = none

instance (lined : LinedUp) (journeys : List (Nat × Journey)) (owned : Table Nat Owned) :
    Decidable (lined.AllNew journeys owned) :=
  inferInstanceAs (Decidable (_ ∧ _))

namespace State

variable {c} {s : State}

@[simp] theorem handing_starved (lined : LinedUp) (journeys : List (Nat × Journey)) (now : Nat) :
    (s.handing c lined journeys now).starved = s.starved := by
  unfold handing
  rw [foldl_keeps (f := askHeld) State.starved, foldl_keeps (f := handOver) State.starved fun _ _ => rfl]
  intro s hold
  unfold askHeld
  split <;> rfl

private theorem handOver_handed (departures : List Departure) (s : State) :
    (departures.foldl handOver s).handed = s.handed ++ departures := by
  induction departures generalizing s with
  | nil => simp
  | cons d departures ih => rw [List.foldl_cons, ih]; simp [handOver]

private theorem handOver_get (departures : List Departure) (hnd : (departures.map Departure.id).Nodup) (s : State) :
    ∀ d ∈ departures, (departures.foldl handOver s).owned.get d.id = some (.of d) := by
  have hothers : ∀ (l : List Departure) (s : State) (id : Nat), id ∉ l.map Departure.id →
      (l.foldl handOver s).owned.get id = s.owned.get id := by
    intro l
    induction l with
    | nil => exact fun _ _ _ => rfl
    | cons d l ih =>
      intro s id hid
      rw [List.map_cons, List.mem_cons, not_or] at hid
      rw [List.foldl_cons, ih _ id hid.2]
      exact Table.get_put_of_ne _ hid.1 _
  induction departures generalizing s with
  | nil => simp
  | cons e departures ih =>
    rw [List.map_cons, List.nodup_cons] at hnd
    intro d hd
    rw [List.foldl_cons]
    rcases List.mem_cons.1 hd with rfl | hd
    · rw [hothers _ _ _ hnd.1]
      exact Table.get_put_self ..
    · exact ih hnd.2 _ d hd

/-- What is handed to the pool: a departure for each Message claimed, under its claim, and owned so. -/
theorem handing_handed (lined : LinedUp) (journeys : List (Nat × Journey)) (now : Nat)
    (hnd : (lined.claimed.map Claimed.journey).Nodup)
    (hfound : ∀ one ∈ lined.claimed, one.journey ∈ journeys.map Prod.fst) :
    ∃ handed, (s.handing c lined journeys now).handed = s.handed ++ handed ∧
      handed.map Departure.claim = lined.claimed.map Claimed.claim ∧
      ∀ d ∈ handed, (s.handing c lined journeys now).owned.get d.id = some (.of d) := by
  refine ⟨lined.claimed.filterMap fun one => one.departure (lined.asked.getD now + c.lease) journeys, ?_, ?_, ?_⟩
  · unfold handing
    rw [foldl_keeps (f := askHeld) State.handed, handOver_handed]
    intro s hold
    unfold askHeld
    split <;> rfl
  · generalize lined.asked.getD now + c.lease = t
    generalize lined.claimed = claimed at hfound
    induction claimed with
    | nil => rfl
    | cons one claimed ih =>
      obtain ⟨d, hd⟩ := Option.isSome_iff_exists.1 ((departure_isSome (t := t)).2 (hfound one (List.mem_cons_self ..)))
      have hclaim : d.claim = one.claim := by
        obtain ⟨x, -, rfl⟩ := Option.map_eq_some_iff.1 hd
        rfl
      rw [List.filterMap_cons_some (f := fun one : Claimed => one.departure t journeys) hd, List.map_cons, List.map_cons,
        hclaim, ih fun x hx => hfound x (List.mem_cons_of_mem _ hx)]
  · unfold handing
    rw [foldl_keeps (f := askHeld) State.owned fun _ hold => askHeld_owned hold]
    exact handOver_get _ (by rw [departures_ids hfound]; exact hnd) _

/-- One more is owned for each Message claimed just where all of them are new. -/
theorem handing_owned_size_iff (lined : LinedUp) (journeys : List (Nat × Journey)) (now : Nat) :
    (s.handing c lined journeys now).owned.size = s.owned.size + lined.claimed.length ↔
      lined.AllNew journeys s.owned := by
  unfold handing
  rw [foldl_keeps (f := askHeld) State.owned fun _ hold => askHeld_owned hold]
  generalize lined.asked.getD now + c.lease = t
  have hle := List.length_filterMap_le (fun one : Claimed => one.departure t journeys) lined.claimed
  have hiff := handOver_size_iff (lined.claimed.filterMap fun one => one.departure t journeys)
    { s with admitted := s.admitted - lined.admitted }
  have hsize := handOver_size (lined.claimed.filterMap fun one => one.departure t journeys)
    { s with admitted := s.admitted - lined.admitted }
  constructor
  · intro h
    have hlen : (lined.claimed.filterMap fun one => one.departure t journeys).length = lined.claimed.length := by
      show _ = _
      dsimp only at hsize
      omega
    have hfound : ∀ one ∈ lined.claimed, one.journey ∈ journeys.map Prod.fst := fun one hone =>
      departure_isSome.1 (List.filterMap_length_eq_length.1 hlen one hone)
    obtain ⟨hnd, hnew⟩ := hiff.1 (by dsimp only; omega)
    rw [departures_ids hfound] at hnd
    refine ⟨hnd, fun one hone => ⟨hfound one hone, ?_⟩⟩
    obtain ⟨d, hd⟩ := Option.isSome_iff_exists.1 ((departure_isSome (t := t)).2 (hfound one hone))
    have := hnew d (List.mem_filterMap.2 ⟨one, hone, hd⟩)
    rwa [departure_id hd] at this
  · rintro ⟨hnd, hnew⟩
    have hids := departures_ids (t := t) fun one hone => (hnew one hone).1
    have hlen := congrArg List.length hids
    rw [List.length_map, List.length_map] at hlen
    have := hiff.2 ⟨by rw [hids]; exact hnd, ?_⟩
    · dsimp only at this
      omega
    · intro d hd
      obtain ⟨one, hone, he⟩ := List.mem_filterMap.1 hd
      rw [departure_id he]
      exact (hnew one hone).2

end State

/-! ### A Publication claims one Message for each place -/

theorem length_linedClaims (mint : Nat → Nat) {places : Nat} {departing : List (Nat × String)}
    (h : places ≤ wanted c departing) : (linedClaims c mint places departing).length = places := by
  induction departing generalizing places with
  | nil =>
    have : places = 0 := by simpa [wanted] using h
    simp [linedClaims, this]
  | cons x departing ih =>
    unfold wanted at h ih
    rw [List.countP_cons] at h
    unfold linedClaims
    split
    · rename_i hx
      rw [if_pos hx.2] at h
      rw [List.length_cons, ih (by omega)]
      omega
    · rename_i hx
      apply ih
      by_cases hs : c.sentHere x.2
      · have : places = 0 := by
          by_contra hp
          exact hx ⟨by omega, hs⟩
        omega
      · rw [if_neg hs] at h
        exact h

/-- Each Message claimed is one of those departing, which this node sends, claimed under its own Journey. -/
theorem mem_linedClaims {mint : Nat → Nat} {places : Nat} {departing : List (Nat × String)} {one : Claimed}
    (h : one ∈ linedClaims c mint places departing) :
    (one.journey, one.port) ∈ departing ∧ c.sentHere one.port = true ∧ one.claim.journey = one.journey := by
  induction departing generalizing places with
  | nil => cases h
  | cons x departing ih =>
    unfold linedClaims at h
    split at h
    · rename_i hx
      rcases List.mem_cons.1 h with rfl | h
      · exact ⟨List.mem_cons_self .., hx.2, rfl⟩
      · obtain ⟨h₁, h₂⟩ := ih h
        exact ⟨List.mem_cons_of_mem _ h₁, h₂⟩
    · obtain ⟨h₁, h₂⟩ := ih h
      exact ⟨List.mem_cons_of_mem _ h₁, h₂⟩

theorem linedClaims_sublist (mint : Nat → Nat) (places : Nat) (departing : List (Nat × String)) :
    ((linedClaims c mint places departing).map Claimed.journey).Sublist (departing.map Prod.fst) := by
  induction departing generalizing places with
  | nil => exact List.Sublist.refl _
  | cons x departing ih =>
    unfold linedClaims
    split
    · exact (ih _).cons_cons _
    · exact (ih _).cons _

theorem lineUp_claimed (s : State) (departing : List (Nat × String)) (mint : Nat → Nat) (now : Nat) :
    (s.lineUp c departing mint now).1.claimed.length = (s.lineUp c departing mint now).1.admitted :=
  length_linedClaims c mint (Nat.min_le_left ..)

/-- The places gone are places it had, where it claimed one Message for each it was admitted, and it still does. -/
theorem LinedUp.confirmed_gone {lined : LinedUp} (holds : List Claim)
    (h : lined.claimed.length = lined.admitted) :
    (lined.confirmed holds).2 ≤ lined.admitted ∧
      (lined.confirmed holds).1.claimed.length = (lined.confirmed holds).1.admitted := by
  have hle := List.length_filterMap_le
    (fun one : Claimed => (heldAs holds one.claim).map fun claim => { one with claim }) lined.claimed
  simp only [confirmed]
  omega

theorem LinedUp.confirmed_admitted (lined : LinedUp) (holds : List Claim) :
    (lined.confirmed holds).1.admitted = lined.admitted - (lined.confirmed holds).2 := rfl

end SendStep
