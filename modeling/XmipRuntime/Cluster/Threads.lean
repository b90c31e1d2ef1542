import XmipRuntime.Ledger.Storage

/-!
# The threads that write Journeys

Every thread of a node that works on one Journey, a step at a time, each step one request of Xmip Storage or one hold of
the node's memory of heads: a pass of the Send step with the late placement its scan makes before it
(`src/send_step/scan.rs`, `src/send_step/pass.rs`, `src/sequence/late.rs`), a turn of a Work Process
(`src/work_step/turning.rs`), a pick-up of a held Message (`src/held_work.rs`) and an operator's act on a failed one
(`src/send_step/message_act.rs`).

What a thread does next is `Thread.next`: what it asks of Xmip Storage, and where that leaves it.  A Publication's own
claims are no case of their own: its send begins as a claim of what it has just written.
-/

namespace Cluster

open Library Ledger

/-! ### Where a Message's places are -/

/-- What the configuration and its Message's key say of each Journey: the sequences of the points it is bound for, and
the queue its delivery takes its Send Port Group's place in. -/
structure Config where
  points : Nat → List Sequenced
  groupQueue : Nat → Nat

variable (c : Config)

/-- Whether its delivery has not taken its place in its Group's sequence yet. -/
def waitsForGroup (r : Journey) : Bool := r.group.any fun g => g.queue.isNone

/-- Whether the Message of the Journey `id` still waits for its places where it is bound. -/
def Config.waitsForPlaces (id : Nat) (r : Journey) : Bool :=
  waitsForGroup r || (r.sequences.isEmpty && !(c.points id).isEmpty)

/-- Its delivery's place taken in its Group's sequence, the Journey told it; nothing where it is no Group's member or
has its place. -/
def Config.groupPlaced (id : Nat) (r : Journey) : Journey × List Place :=
  match r.group with
  | some ⟨delivery, none, skips⟩ =>
    ({ r with group := some ⟨delivery, some (c.groupQueue id), skips⟩ },
      [(.group (c.groupQueue id), .delivery delivery)])
  | _ => (r, [])

/-- Its places at the points it is bound for taken, the Journey told each. -/
def Config.placed (id : Nat) (r : Journey) : Journey × List Place :=
  ({ r with sequences := r.sequences ++ c.points id },
    (c.points id).map fun sequenced => (.point sequenced.queue, .journey id))

/-- Every place of a Journey taken in the write that opens it. -/
def Config.places (id : Nat) (r : Journey) : Journey × List Place :=
  let grouped := c.groupPlaced id r
  let placed := c.placed id grouped.1
  (placed.1, grouped.2 ++ placed.2)

/-- The places a late placement takes: its delivery's alone where it has not taken that yet, else the rest. -/
def Config.takenLate (id : Nat) (r : Journey) : Journey × List Place :=
  if waitsForGroup r then c.groupPlaced id r else c.placed id r

variable {c}

@[simp] theorem groupPlaced_entries (id : Nat) (r : Journey) : (c.groupPlaced id r).1.entries = r.entries := by
  unfold Config.groupPlaced; split <;> rfl

@[simp] theorem takenLate_entries (id : Nat) (r : Journey) : (c.takenLate id r).1.entries = r.entries := by
  unfold Config.takenLate; split
  · exact groupPlaced_entries id r
  · rfl

@[simp] theorem groupPlaced_state (id : Nat) (r : Journey) : (c.groupPlaced id r).1.state = r.state := by
  unfold Config.groupPlaced; split <;> rfl

@[simp] theorem takenLate_state (id : Nat) (r : Journey) : (c.takenLate id r).1.state = r.state := by
  unfold Config.takenLate; split
  · exact groupPlaced_state id r
  · rfl

variable (c)

/-! ### Whether a place heads its sequence -/

/-- The most places remembered at once; the oldest are forgotten together. -/
def remembered : Nat := 65536

/-- A place seen at the head of its queue, remembered by the process. -/
def remember (known : List Place) (place : Place) : List Place :=
  let known := if remembered ≤ known.length then [] else known
  if place ∈ known then known else place :: known

/-- Whether `place` is the first of its queue: what the memory says at once, else what the Ledger answers — an empty
queue being anybody's. -/
def heads (s : Storage) (known : List Place) (place : Place) : Bool :=
  if place ∈ known then true
  else match s.first place.1 with
    | some m => decide (m = place.2)
    | none => true

/-- What `heads` has to remember: a place it read at the head. -/
def seenAtHead (s : Storage) (known : List Place) (place : Place) : Option Place :=
  if place ∈ known then none else if s.first place.1 = some place.2 then some place else none

/-! ### Threads -/

inductive Act where
  | retry
  | dismiss
  deriving DecidableEq

inductive Kind where
  | send
  | turn
  | pickUp
  | act (act : Act)
  deriving DecidableEq

/-- How an operator's act ends: written, dismissed already, refused, or FAILED, Xmip Storage not having taken it. -/
inductive Said where
  | done
  | already
  | refused
  | failed
  deriving DecidableEq

/-- Where a thread stands.  From `taken` on it carries the record it works from, `base`; `todo` are the places it still
has to ask whether they head their queues. -/
inductive Stage where
  /-- Called: nothing asked yet. -/
  | called
  /-- An act's first read, before its claim. -/
  | saw (base : Journey)
  /-- The claim is asked and granted; what an act saw before it. -/
  | claimed (seen : Option Journey)
  /-- The Journey read under the claim. -/
  | taken (base : Journey)
  /-- `sequence::heading`: the Stream, then the delivery asked. -/
  | heading (base : Journey) (todo : List Place)
  /-- A send about to begin its pass. -/
  | headed (base : Journey)
  /-- The pass asking every place it names. -/
  | asking (base : Journey) (todo : List Place)
  /-- Every place heads: the Message is sent, or its turn taken. -/
  | inside (base : Journey)
  /-- A pass that ended behind another, its claim given back, asking whether it only waits for its places. -/
  | settling (todo : List Place)
  deriving DecidableEq

/-- The record a thread carries under its claim. -/
def Stage.base : Stage → Option Journey
  | .taken base | .heading base _ | .headed base | .asking base _ | .inside base => some base
  | .called | .saw _ | .claimed _ | .settling _ => none

structure Thread where
  node : Nat
  kind : Kind
  journey : Nat
  token : Nat
  stage : Stage
  /-- What the last question read at a head, still to be remembered. -/
  toRemember : Option Place
  deriving DecidableEq

/-- A Subscription's Journeys of one Message: their identifiers with the Send Port each is bound for, and the delivery
they are told where it is by a Send Port Group naming a Correlation. -/
structure Routed where
  group : Option (Nat × Bool)
  journeys : List (Nat × Option String)
  deriving DecidableEq

/-- A Journey a turn or a Publication opens, its places not taken yet. -/
def opening (received : Option Received) (group : Option (Nat × Bool)) (sendPort : Option String) : Journey where
  state := .active
  received
  sequences := []
  group := group.map fun g => ⟨g.1, none, g.2⟩
  sendPort
  currentWorkProcess := none
  attempts := 0
  entries := []

/-- The Journeys `routed` opens, in order. -/
def opened (received : Option Received) (routed : List Routed) : List (Nat × Journey) :=
  routed.flatMap fun one => one.journeys.map fun j => (j.1, opening received one.group j.2)

/-- The Journeys of `published`, following one that came in as `received`, each with every place it takes in the turn's
write. -/
def following (received : Option Received) (published : List Routed) : List ((Nat × Journey) × List Place) :=
  (opened received published).map fun x => ((x.1, (c.places x.1 x.2).1), (c.places x.1 x.2).2)

/-- What the world decides of a thread's step: whether a write is answered; how a send or a turn came out, with what it
appends and publishes; whether a pick-up is sent here; or that the thread ends here, giving its claim back or not. -/
inductive Choice where
  | go (answered : Bool)
  | sendHere (here answered : Bool)
  | sent (state : JourneyState) (attempts : Nat) (entry : JourneyEntry)
  | turned (state : JourneyState) (published : List Routed) (process : String)
  | turnFailed (process : String)
  | acts (entry : JourneyEntry) (answered : Bool)
  | quit (release : Bool)
  deriving DecidableEq

/-- Whether Xmip Storage answers, where that is all there is to choose. -/
def Choice.answer : Choice → Option Bool
  | .go answered => some answered
  | _ => none

/-- The identifiers minted for the Journeys and deliveries of `routed` are nobody's yet. -/
def Fresh (journeys : Table Nat Journey) (routed : List Routed) : Prop :=
  (routed.flatMap fun one => one.journeys.map Prod.fst).Nodup ∧
  (∀ id ∈ routed.flatMap (fun one => one.journeys.map Prod.fst), journeys.get id = none) ∧
  (routed.filterMap fun one => one.group.map Prod.fst).Nodup ∧
  ∀ d ∈ routed.filterMap (fun one => one.group.map Prod.fst), ∀ x ∈ journeys.entries,
    x.2.group.map GroupDelivery.delivery ≠ some d

instance (journeys : Table Nat Journey) (routed : List Routed) : Decidable (Fresh journeys routed) :=
  inferInstanceAs (Decidable (_ ∧ _ ∧ _ ∧ _))

/-- The Journeys a choice opens have identifiers of their own. -/
def Choice.Fresh (journeys : Table Nat Journey) : Choice → Prop
  | .turned _ published _ => Cluster.Fresh journeys published
  | _ => True

instance (journeys : Table Nat Journey) (choice : Choice) : Decidable (choice.Fresh journeys) :=
  match choice with
  | .turned _ published _ => inferInstanceAs (Decidable (Cluster.Fresh journeys published))
  | .go _ | .sendHere _ _ | .sent _ _ _ | .turnFailed _ | .acts _ _ | .quit _ => .isTrue trivial

/-- What a step asks of Xmip Storage or of the node's memory. -/
inductive Effect where
  | none
  | claim (id token : Nat)
  | release (id token : Nat)
  | handOn (base : Journey) (h : HandOn)
  | asked (place : Place)
  | remember (place : Place)

/-- A step's effect, the thread after it — none where it ended — and how an act ended. -/
structure Out where
  effect : Effect
  thread : Option Thread
  said : Option Said

namespace Thread

/-- A step with `effect` that leaves the thread at `stage`. -/
def on (t : Thread) (effect : Effect) (stage : Stage) : Out := ⟨effect, some { t with stage }, none⟩

/-- A step with `effect` the thread ends with. -/
def finish (effect : Effect) : Out := ⟨effect, none, none⟩

def giveBack (t : Thread) : Effect := .release t.journey t.token

/-- The question of `place` asked: `yes` where it heads its queue, what was read at the head still to be remembered, or
`no`. -/
def ask (t : Thread) (s : Storage) (known : List Place) (place : Place) (yes : Stage) (no : Out) : Out :=
  if heads s known place then
    ⟨.asked place, some { t with stage := yes, toRemember := seenAtHead s known place }, none⟩
  else no

/-- What a pass that ended behind another does: its claim given back and, where it holds no place at its destination,
its Stream and its delivery asked once more. -/
def behind (t : Thread) (base : Journey) : Out :=
  if base.sequences.isEmpty then t.on t.giveBack (.settling (base.streamPlaces ++ base.groupPlaces))
  else finish t.giveBack

/-- The hand-on of a send's pass that ended in `state`: its place let go of where it was sent or, failed, each where a
failure lets the rest pass. -/
def sendHandOn (t : Thread) (base : Journey) (state : JourneyState) (attempts : Nat) (entry : JourneyEntry) : HandOn where
  journey := t.journey
  token := t.token
  result := { base.append entry state with attempts }
  next := []
  leaves := (base.sequences.filter fun sequenced =>
    match state with
    | .completed => true
    | .failed => sequenced.skips
    | _ => false).map fun sequenced => .point sequenced.queue
  queued := []
  kept := false

/-- The hand-on of a turn, with what it published: its place at its Work Process let go of where it is done or, failed,
where a failure lets the rest pass. -/
def turnHandOn (t : Thread) (base : Journey) (state : JourneyState) (published : List Routed) (process : String) :
    HandOn where
  journey := t.journey
  token := t.token
  result := { base with state, currentWorkProcess := some process }
  next := (following c base.received published).map Prod.fst
  leaves := (base.sequences.head?.toList.filter fun sequenced =>
    match state with
    | .completed => true
    | .failed => sequenced.skips
    | _ => false).map fun sequenced => .point sequenced.queue
  queued := (following c base.received published).flatMap Prod.snd
  kept := false

/-- A turn that could not be taken written Failed, its place kept whatever its sequence says of a failure. -/
def turnFailed (t : Thread) (base : Journey) (process : String) : HandOn where
  journey := t.journey
  token := t.token
  result := { base with state := .failed, currentWorkProcess := some process }
  next := []
  leaves := []
  queued := []
  kept := false

/-- An act's hand-on: Active again with its tries begun anew, or Dismissed and out of every sequence of its own. -/
def actHandOn (t : Thread) (base : Journey) (act : Act) (entry : JourneyEntry) : HandOn where
  journey := t.journey
  token := t.token
  result := match act with
    | .retry => { base.append entry .active with attempts := 0 }
    | .dismiss => base.append entry .dismissed
  next := []
  leaves := match act with
    | .retry => []
    | .dismiss => base.sequences.map fun sequenced => .point sequenced.queue
  queued := []
  kept := false

/-- The write a late placement makes, the claim kept. -/
def lateHandOn (t : Thread) (base : Journey) : HandOn where
  journey := t.journey
  token := t.token
  result := (c.takenLate t.journey base).1
  next := []
  leaves := []
  queued := (c.takenLate t.journey base).2
  kept := true

/-- A held Message moved to its Send Port's queue, its record as it was. -/
def moveHandOn (t : Thread) (base : Journey) (here : Bool) : HandOn where
  journey := t.journey
  token := t.token
  result := base
  next := []
  leaves := []
  queued := []
  kept := here

/-- A thread that holds a claim reads its Journey under it: what a scan, a turn and a pick-up take, and an act that finds
what it saw. -/
def readUnderClaim (t : Thread) (s : Storage) (seen : Option Journey) : Out :=
  match t.kind with
  | .act _ =>
    match s.journeys.get t.journey with
    | some r => if seen = some r then t.on .none (.taken r) else ⟨t.giveBack, none, some .refused⟩
    | none => ⟨t.giveBack, none, some .refused⟩
  | _ =>
    match s.journeys.get t.journey with
    | some r => if r.live then t.on .none (.taken r) else finish t.giveBack
    | none => finish t.giveBack

/-- A held Message moved: where its claim is kept, the pass of it begins. -/
def move (t : Thread) (s : Storage) (base : Journey) (here answered : Bool) : Out :=
  let h := t.moveHandOn base here
  if here && answered && decide (s.Claimed t.journey t.token) then
    ⟨.handOn base h, some { t with kind := .send, stage := .headed base }, none⟩
  else finish (.handOn base h)

/-- A claim asked: granted where no live one is, the thread then at `stage`; one granted and not answered lapses. -/
def asksClaim (t : Thread) (s : Storage) (answered : Bool) (stage : Stage) (said : Option Said) : Out :=
  if s.claims.get t.journey = none then
    if answered then t.on (.claim t.journey t.token) stage else ⟨.claim t.journey t.token, none, said.map fun _ => .failed⟩
  else ⟨.none, none, said⟩

/-- A late placement's write: told its places it asks its delivery's, and otherwise its pass finds it waiting for them
still, a turn ending here. -/
def takeLate (t : Thread) (s : Storage) (base : Journey) (answered : Bool) : Out :=
  let h := t.lateHandOn c base
  if answered && decide (s.Claimed t.journey t.token) then t.on (.handOn base h) (.heading h.result h.result.groupPlaces)
  else if t.kind = .turn then finish (.handOn base h)
  else t.on (.handOn base h) (.headed base)

/-- Whether it is an operator's act. -/
def isAct (t : Thread) : Bool :=
  match t.kind with
  | .act _ => true
  | _ => false

/-- An act reads its Journey before it claims it; every other thread claims it. -/
def fromCalled (t : Thread) (s : Storage) (answered : Bool) : Out :=
  match t.kind with
  | .act act =>
    match s.journeys.get t.journey with
    | none => ⟨.none, none, some .refused⟩
    | some r =>
      if act = .dismiss ∧ r.state = .dismissed then ⟨.none, none, some .already⟩
      else if r.state ≠ .failed ∨ r.sendPort = none then ⟨.none, none, some .refused⟩
      else t.on .none (.saw r)
  | _ => t.asksClaim s answered (.claimed none) none

/-- What a thread does with the record it read under its claim. -/
def fromTaken (t : Thread) (s : Storage) (base : Journey) (choice : Choice) : Option Out :=
  match t.kind, choice with
  | .send, .go _ =>
    if c.waitsForPlaces t.journey base then some (t.on .none (.heading base (base.streamPlaces ++ base.groupPlaces)))
    else some (t.on .none (.headed base))
  | .turn, .go _ => some (t.on .none (.heading base (base.streamPlaces ++ base.groupPlaces)))
  | .pickUp, .sendHere here answered => some (t.move s base here answered)
  | .act act, .acts entry answered =>
    some ⟨.handOn base (t.actHandOn base act entry), none,
      some (if answered && decide (s.Claimed t.journey t.token) then .done else .failed)⟩
  | _, _ => none

/-- `sequence::heading`: each place asked in turn, then its places taken where it waits for them. -/
def fromHeading (t : Thread) (s : Storage) (known : List Place) (base : Journey) (todo : List Place) (answered : Bool) :
    Out :=
  match todo with
  | place :: todo =>
    t.ask s known place (.heading base todo) (if t.kind = .turn then finish t.giveBack else t.on .none (.headed base))
  | [] =>
    if c.waitsForPlaces t.journey base then t.takeLate c s base answered
    -- a Message bound for a Work Process holds one place at it
    else if t.kind = .turn then t.on .none (.asking base (base.pointPlaces t.journey).head?.toList)
    else t.on .none (.headed base)

/-- The pass begins: one still waiting for its places is passed, the rest ask every place they name. -/
def fromHeaded (t : Thread) (base : Journey) : Out :=
  if c.waitsForPlaces t.journey base then t.behind base else t.on .none (.asking base (base.places t.journey))

def fromAsking (t : Thread) (s : Storage) (known : List Place) (base : Journey) (todo : List Place) (choice : Choice) :
    Option Out :=
  match todo, choice, t.kind with
  | place :: todo, .go _, kind =>
    some (t.ask s known place (.asking base todo) (if kind = .turn then finish t.giveBack else t.behind base))
  | [], .go _, _ => some (t.on .none (.inside base))
  -- a send thread that panicked is written Failed on the way out
  | _, .sent .failed attempts entry, .send => some (finish (.handOn base (t.sendHandOn base .failed attempts entry)))
  | _, _, _ => none

def fromInside (t : Thread) (base : Journey) (choice : Choice) : Option Out :=
  match t.kind, choice with
  | .send, .sent state attempts entry =>
    if state = .completed ∨ state = .recovering ∨ state = .failed then
      some (finish (.handOn base (t.sendHandOn base state attempts entry)))
    else none
  | .turn, .turned state published process =>
    if state = .completed ∨ state = .waiting ∨ state = .failed then
      some (finish (.handOn base (t.turnHandOn c base state published process)))
    else none
  | .turn, .turnFailed process => some (finish (.handOn base (t.turnFailed base process)))
  | _, _ => none

def fromSettling (t : Thread) (s : Storage) (known : List Place) (todo : List Place) : Out :=
  match todo with
  | place :: todo => t.ask s known place (.settling todo) (finish .none)
  | [] => finish .none

/-- What a thread does next where it stands, as the world chooses. -/
def goOn (t : Thread) (s : Storage) (known : List Place) (choice : Choice) : Option Out :=
  match t.stage with
  | .called => choice.answer.map fun answered => t.fromCalled s answered
  | .saw base => choice.answer.map fun answered => t.asksClaim s answered (.claimed (some base)) (some .refused)
  | .claimed seen => choice.answer.map fun _ => t.readUnderClaim s seen
  | .taken base => t.fromTaken c s base choice
  | .heading base todo => choice.answer.map fun answered => t.fromHeading c s known base todo answered
  | .headed base => choice.answer.map fun _ => t.fromHeaded c base
  | .asking base todo => t.fromAsking s known base todo choice
  | .inside base => t.fromInside c base choice
  | .settling todo => choice.answer.map fun _ => t.fromSettling s known todo

/-- A thread's step: it ends, or remembers what it has just read at a head, or goes on. -/
def next (t : Thread) (s : Storage) (known : List Place) (choice : Choice) : Option Out :=
  match choice, t.toRemember with
  | .quit release, _ => some ⟨if release then t.giveBack else .none, none, if t.isAct then some .failed else none⟩
  | .go _, some place => some ⟨.remember place, some { t with toRemember := none }, none⟩
  | _, some _ => none
  | choice, none => t.goOn c s known choice

/-! ### What a step can be -/

/-- A step that asks nothing: from one stage to the next. -/
inductive Moves (s : Storage) (t : Thread) : Stage → Stage → Prop where
  | saw {r : Journey} : t.isAct = true → s.journeys.get t.journey = some r → r.state = .failed → Moves s t .called (.saw r)
  | taken {seen : Option Journey} {r : Journey} : s.journeys.get t.journey = some r → (t.isAct = true → seen = some r) →
      (t.isAct = false → r.live = true) → Moves s t (.claimed seen) (.taken r)
  | heading {base : Journey} : t.isAct = false →
      Moves s t (.taken base) (.heading base (base.streamPlaces ++ base.groupPlaces))
  | straight {base : Journey} : t.kind = .send → c.waitsForPlaces t.journey base = false →
      Moves s t (.taken base) (.headed base)
  | headed {base : Journey} {todo : List Place} : t.kind ≠ .turn → Moves s t (.heading base todo) (.headed base)
  | turns {base : Journey} : t.kind = .turn → c.waitsForPlaces t.journey base = false →
      Moves s t (.heading base []) (.asking base (base.pointPlaces t.journey).head?.toList)
  | asks {base : Journey} : c.waitsForPlaces t.journey base = false →
      Moves s t (.headed base) (.asking base (base.places t.journey))
  | inside {base : Journey} : Moves s t (.asking base []) (.inside base)

/-- The question a thread asks next, and where a yes leaves it. -/
inductive Asks : Stage → Place → Stage → Prop where
  | heading {base : Journey} {place : Place} {todo : List Place} :
      Asks (.heading base (place :: todo)) place (.heading base todo)
  | asking {base : Journey} {place : Place} {todo : List Place} :
      Asks (.asking base (place :: todo)) place (.asking base todo)
  | settling {place : Place} {todo : List Place} : Asks (.settling (place :: todo)) place (.settling todo)

/-- The hand-ons a thread makes, each of the record it carries. -/
inductive Makes (s : Storage) (t : Thread) : Journey → HandOn → Prop where
  | sent {base : Journey} {state : JourneyState} {attempts : Nat} {entry : JourneyEntry} : t.kind = .send →
      (t.stage = .inside base ∨ state = .failed ∧ ∃ todo, t.stage = .asking base todo) →
      state = .completed ∨ state = .recovering ∨ state = .failed →
      Makes s t base (t.sendHandOn base state attempts entry)
  | turned {base : Journey} {state : JourneyState} {published : List Routed} {process : String} : t.kind = .turn →
      t.stage = .inside base → state = .completed ∨ state = .waiting ∨ state = .failed → Fresh s.journeys published →
      Makes s t base (t.turnHandOn c base state published process)
  | turnFailed {base : Journey} {process : String} : t.kind = .turn → t.stage = .inside base →
      Makes s t base (t.turnFailed base process)
  | acted {base : Journey} {act : Act} {entry : JourneyEntry} : t.kind = .act act → t.stage = .taken base →
      Makes s t base (t.actHandOn base act entry)
  | late {base : Journey} : t.stage = .heading base [] → c.waitsForPlaces t.journey base = true →
      Makes s t base (t.lateHandOn c base)
  | moved {base : Journey} {here : Bool} : t.kind = .pickUp → t.stage = .taken base →
      Makes s t base (t.moveHandOn base here)

/-- Where a hand-on leaves the thread that made it: gone, or, a late placement and a pick-up, at the next stage. -/
inductive Leaves (s : Storage) (t : Thread) (base : Journey) (h : HandOn) : Option Thread → Prop where
  | gone : Leaves s t base h none
  | headed : t.stage = .heading base [] → h = t.lateHandOn c base → c.waitsForPlaces t.journey base = true →
      t.kind ≠ .turn → Leaves s t base h (some { t with stage := .headed base })
  | late : t.stage = .heading base [] → h = t.lateHandOn c base → s.Claimed t.journey t.token →
      Leaves s t base h (some { t with stage := .heading h.result h.result.groupPlaces })
  | moved : t.stage = .taken base → h = t.moveHandOn base true → t.kind = .pickUp → s.Claimed t.journey t.token →
      Leaves s t base h (some { t with kind := .send, stage := .headed base })

/-- Everything a thread's step can be. -/
inductive Step (s : Storage) (known : List Place) (t : Thread) : Out → Prop where
  | ends {effect : Effect} {said : Option Said} :
      effect = .none ∨ effect = t.giveBack ∨ effect = .claim t.journey t.token ∧ s.claims.get t.journey = none →
      said = none ∨ said = some .refused ∨ said = some .failed ∨ said = some .already ∧ t.kind = .act .dismiss ∧
        (∃ r, s.journeys.get t.journey = some r ∧ r.state = .dismissed) ∧ t.stage = .called →
      (said ≠ none → t.isAct = true) → Step s known t ⟨effect, none, said⟩
  | remembers {place : Place} : t.toRemember = some place →
      Step s known t ⟨.remember place, some { t with toRemember := none }, none⟩
  | moves {stage : Stage} : t.toRemember = none → Moves c s t t.stage stage →
      Step s known t ⟨.none, some { t with stage }, none⟩
  | claims {seen : Option Journey} : t.toRemember = none → s.claims.get t.journey = none →
      (t.isAct = false ∧ seen = none ∨ ∃ base, t.stage = .saw base ∧ seen = some base) →
      Step s known t ⟨.claim t.journey t.token, some { t with stage := .claimed seen }, none⟩
  | settles {base : Journey} : t.toRemember = none → t.stage = .headed base ∨ (∃ todo, t.stage = .asking base todo) →
      Step s known t ⟨t.giveBack, some { t with stage := .settling (base.streamPlaces ++ base.groupPlaces) }, none⟩
  | asks {place : Place} {stage : Stage} : t.toRemember = none → Asks t.stage place stage →
      heads s known place = true →
      Step s known t ⟨.asked place, some { t with stage, toRemember := seenAtHead s known place }, none⟩
  | writes {base : Journey} {h : HandOn} {thread : Option Thread} {said : Option Said} : t.toRemember = none →
      Makes c s t base h → Leaves c s t base h thread →
      (said = none ∨ said = some .done ∧ s.Claimed t.journey t.token ∨ said = some .failed) →
      (t.isAct = true ↔ said ≠ none) → Step s known t ⟨.handOn base h, thread, said⟩

variable {c} {s : Storage} {known : List Place} {t : Thread}

private theorem isAct_of_kind {act : Act} (h : t.kind = .act act) : t.isAct = true := by unfold isAct; rw [h]

private theorem step_asksClaim {answered : Bool} {seen : Option Journey} {said : Option Said} (hr : t.toRemember = none)
    (hseen : t.isAct = false ∧ seen = none ∨ ∃ base, t.stage = .saw base ∧ seen = some base)
    (hsaid : said = none ∨ said = some .refused) (hact : said ≠ none → t.isAct = true) :
    Step c s known t (t.asksClaim s answered (.claimed seen) said) := by
  unfold asksClaim
  split
  · rename_i hfree
    split
    · exact .claims hr hfree hseen
    · refine .ends (.inr (.inr ⟨rfl, hfree⟩)) ?_ (fun h => hact (by rintro rfl; simp at h))
      rcases hsaid with rfl | rfl <;> simp
  · refine .ends (.inl rfl) ?_ hact
    rcases hsaid with rfl | rfl <;> simp

private theorem step_finish (effect : Effect) (h : effect = .none ∨ effect = t.giveBack) : Step c s known t (finish effect) :=
  .ends (by rcases h with h | h <;> simp [h]) (.inl rfl) (by simp)

private theorem step_fromCalled (hr : t.toRemember = none) (hs : t.stage = .called) (answered : Bool) :
    Step c s known t (t.fromCalled s answered) := by
  unfold fromCalled
  split
  · rename_i act hk
    have hact := isAct_of_kind hk
    split
    · exact .ends (.inl rfl) (by simp) fun _ => hact
    · rename_i r hget
      split
      · rename_i hd
        refine .ends (.inl rfl) (.inr (.inr (.inr ⟨rfl, ?_, ⟨r, hget, hd.2⟩, hs⟩))) fun _ => hact
        rw [hk, hd.1]
      · split
        · exact .ends (.inl rfl) (by simp) fun _ => hact
        · rename_i hgo
          simp only [ne_eq, not_or, not_not] at hgo
          exact .moves hr (hs ▸ .saw hact hget hgo.1)
  · rename_i hk
    have hact : t.isAct = false := by
      unfold isAct
      split
      · rename_i act h; exact absurd h (hk act)
      · rfl
    exact step_asksClaim hr (.inl ⟨hact, rfl⟩) (.inl rfl) (by simp)

private theorem step_readUnderClaim (hr : t.toRemember = none) {seen : Option Journey} (hs : t.stage = .claimed seen) :
    Step c s known t (t.readUnderClaim s seen) := by
  unfold readUnderClaim
  split
  · rename_i act hk
    have hact := isAct_of_kind hk
    split
    · rename_i r hget
      split
      · rename_i hseen
        exact .moves hr (hs ▸ .taken hget (fun _ => hseen) fun h => by simp [hact] at h)
      · exact .ends (.inr (.inl rfl)) (by simp) fun _ => hact
    · exact .ends (.inr (.inl rfl)) (by simp) fun _ => hact
  · rename_i hk
    have hact : t.isAct = false := by
      unfold isAct
      split
      · rename_i act h; exact absurd h (hk act)
      · rfl
    split
    · rename_i r hget
      split
      · rename_i hlive
        exact .moves hr (hs ▸ .taken hget (fun h => by simp [hact] at h) fun _ => hlive)
      · exact step_finish _ (.inr rfl)
    · exact step_finish _ (.inr rfl)

private theorem isAct_eq_false (h : t.kind = .send ∨ t.kind = .turn ∨ t.kind = .pickUp) : t.isAct = false := by
  unfold isAct
  rcases h with h | h | h <;> rw [h]

private theorem step_fromTaken (hr : t.toRemember = none) {base : Journey} (hs : t.stage = .taken base) {choice : Choice}
    {out : Out} (h : t.fromTaken c s base choice = some out) : Step c s known t out := by
  unfold fromTaken at h
  split at h
  · rename_i hk
    split at h
    · cases h
      exact .moves hr (hs ▸ .heading (isAct_eq_false (.inl hk)))
    · rename_i hw
      cases h
      exact .moves hr (hs ▸ .straight hk (by simpa using hw))
  · rename_i hk
    cases h
    exact .moves hr (hs ▸ .heading (isAct_eq_false (.inr (.inl hk))))
  · rename_i here answered hk
    cases h
    have hact := isAct_eq_false (.inr (.inr hk))
    unfold move
    simp only
    split
    · rename_i hkept
      simp only [Bool.and_eq_true, decide_eq_true_eq] at hkept
      obtain ⟨⟨rfl, -⟩, hclaimed⟩ := hkept
      exact .writes hr (.moved hk hs) (.moved hs rfl hk hclaimed) (.inl rfl) (by simp [hact])
    · exact .writes hr (.moved hk hs) .gone (.inl rfl) (by simp [hact])
  · rename_i act entry answered hk
    cases h
    refine .writes hr (.acted hk hs) .gone ?_ (by simp [isAct_of_kind hk])
    split
    · rename_i hc
      simp only [Bool.and_eq_true, decide_eq_true_eq] at hc
      exact .inr (.inl ⟨rfl, hc.2⟩)
    · exact .inr (.inr rfl)
  · cases h

private theorem step_ask (hr : t.toRemember = none) {place : Place} {yes : Stage} {no : Out}
    (hasks : Asks t.stage place yes) (hno : Step c s known t no) : Step c s known t (t.ask s known place yes no) := by
  unfold ask
  split
  · rename_i hyes
    exact .asks hr hasks hyes
  · exact hno

private theorem step_behind (hr : t.toRemember = none) {base : Journey}
    (hs : t.stage = .headed base ∨ ∃ todo, t.stage = .asking base todo) : Step c s known t (t.behind base) := by
  unfold behind
  split
  · exact .settles hr hs
  · exact step_finish _ (.inr rfl)

private theorem step_takeLate (hr : t.toRemember = none) {base : Journey} (hs : t.stage = .heading base [])
    (hact : t.isAct = false) (hw : c.waitsForPlaces t.journey base = true) (answered : Bool) :
    Step c s known t (t.takeLate c s base answered) := by
  have hsaid : t.isAct = true ↔ (none : Option Said) ≠ none := by simp [hact]
  unfold takeLate
  simp only
  split
  · rename_i hc
    simp only [Bool.and_eq_true, decide_eq_true_eq] at hc
    exact .writes hr (.late hs hw) (.late hs rfl hc.2) (.inl rfl) hsaid
  · split
    · exact .writes hr (.late hs hw) .gone (.inl rfl) hsaid
    · rename_i hk
      exact .writes hr (.late hs hw) (.headed hs rfl hw hk) (.inl rfl) hsaid

private theorem step_fromHeading (hr : t.toRemember = none) {base : Journey} {todo : List Place}
    (hs : t.stage = .heading base todo) (hact : t.isAct = false) (answered : Bool) :
    Step c s known t (t.fromHeading c s known base todo answered) := by
  unfold fromHeading
  split
  · refine step_ask hr (hs ▸ .heading) ?_
    split
    · exact step_finish _ (.inr rfl)
    · rename_i hk
      exact .moves hr (hs ▸ .headed hk)
  · split
    · rename_i hw
      exact step_takeLate hr hs hact hw answered
    · rename_i hw
      split
      · rename_i hk
        exact .moves hr (hs ▸ .turns hk (by simpa using hw))
      · rename_i hk
        exact .moves hr (hs ▸ .headed hk)

private theorem step_fromHeaded (hr : t.toRemember = none) {base : Journey} (hs : t.stage = .headed base) :
    Step c s known t (t.fromHeaded c base) := by
  unfold fromHeaded
  split
  · exact step_behind hr (.inl hs)
  · rename_i hw
    exact .moves hr (hs ▸ .asks (by simpa using hw))

private theorem step_fromAsking (hr : t.toRemember = none) {base : Journey} {todo : List Place}
    (hs : t.stage = .asking base todo) {choice : Choice} {out : Out}
    (h : t.fromAsking s known base todo choice = some out) : Step c s known t out := by
  unfold fromAsking at h
  split at h
  · cases h
    refine step_ask hr (hs ▸ .asking) ?_
    split
    · exact step_finish _ (.inr rfl)
    · exact step_behind hr (.inr ⟨_, hs⟩)
  · cases h
    exact .moves hr (hs ▸ .inside)
  · rename_i hk
    cases h
    exact .writes hr (.sent hk (.inr ⟨rfl, _, hs⟩) (by simp)) .gone (.inl rfl) (by simp [isAct_eq_false (.inl hk)])
  · cases h

private theorem step_fromInside (hr : t.toRemember = none) {base : Journey} (hs : t.stage = .inside base)
    {choice : Choice} (hf : choice.Fresh s.journeys) {out : Out} (h : t.fromInside c base choice = some out) :
    Step c s known t out := by
  unfold fromInside at h
  split at h
  · rename_i hk
    split at h
    · rename_i hstate
      cases h
      exact .writes hr (.sent hk (.inl hs) hstate) .gone (.inl rfl) (by simp [isAct_eq_false (.inl hk)])
    · cases h
  · rename_i hk
    split at h
    · rename_i hstate
      cases h
      exact .writes hr (.turned hk hs hstate hf) .gone (.inl rfl) (by simp [isAct_eq_false (.inr (.inl hk))])
    · cases h
  · rename_i hk
    cases h
    exact .writes hr (.turnFailed hk hs) .gone (.inl rfl) (by simp [isAct_eq_false (.inr (.inl hk))])
  · cases h

/-- Acts are only where they may be: a stage past the claim of any other thread is no act's. -/
def Placed (t : Thread) : Prop :=
  match t.stage with
  | .called | .claimed _ | .taken _ => True
  | .saw _ => t.isAct = true
  | .heading _ _ | .headed _ | .asking _ _ | .inside _ | .settling _ => t.isAct = false

/-- Every step of a thread is one of `Step`'s. -/
theorem step_of_next (hp : t.Placed) {choice : Choice} (hf : choice.Fresh s.journeys) {out : Out}
    (h : t.next c s known choice = some out) : Step c s known t out := by
  unfold next at h
  split at h
  · cases h
    refine .ends ?_ ?_ ?_
    · split <;> simp
    · split <;> simp
    · split <;> simp_all
  · rename_i hr
    cases h
    exact .remembers hr
  · cases h
  · rename_i hr
    unfold goOn at h
    unfold Placed at hp
    split at h <;> rename_i hs <;> simp only [hs] at hp
    · obtain ⟨answered, -, rfl⟩ := Option.map_eq_some_iff.1 h
      exact step_fromCalled hr hs answered
    · obtain ⟨answered, -, rfl⟩ := Option.map_eq_some_iff.1 h
      exact step_asksClaim hr (.inr ⟨_, hs, rfl⟩) (.inr rfl) fun _ => hp
    · obtain ⟨answered, -, rfl⟩ := Option.map_eq_some_iff.1 h
      exact step_readUnderClaim hr hs
    · exact step_fromTaken hr hs h
    · obtain ⟨answered, -, rfl⟩ := Option.map_eq_some_iff.1 h
      exact step_fromHeading hr hs hp answered
    · obtain ⟨answered, -, rfl⟩ := Option.map_eq_some_iff.1 h
      exact step_fromHeaded hr hs
    · exact step_fromAsking hr hs h
    · exact step_fromInside hr hs hf h
    · obtain ⟨answered, -, rfl⟩ := Option.map_eq_some_iff.1 h
      unfold fromSettling
      split
      · exact step_ask hr (hs ▸ .settling) (step_finish _ (.inl rfl))
      · exact step_finish _ (.inl rfl)

end Thread

end Cluster
