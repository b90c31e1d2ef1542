import XmipRuntime.Ledger.Storage

/-!
# One turn of one Instance

What a turn computes between its reads and its one write (`src/work_step/turning.rs`, `src/work_step/keys.rs`): the
keys of a Message in the sets its Work Process follows, the Instance's state as it was read or a new one, the unit
advanced on one event after the other until no work is asked for, and the write that hands on the Journey, the Instance
and its correlation keys.

The unit is opened as a flow, which is another program: a flow is any function of an Instance, an event and a time.
What its acts make of Messages — work done on one, several made one, one published — is a parameter too; the turn reads
only the event or the refusal each answers, and the Messages opened.  A turn's number counts the turns of one Instance,
so it is a `Nat`.
-/

namespace WorkStep

open Library Ledger

/-! ### What a unit is handed and what it answers -/

/-- A Message as a flow sees it. -/
structure Arrival where
  message : Nat
  values : List (String × String)
  keys : List (Nat × String)
  deriving DecidableEq

inductive Event where
  | arrived (arrival : Arrival)
  | due
  | done (node : Nat) (made : List Arrival)
  | threw (node : Nat) (code reason : String)
  deriving DecidableEq

/-- Whether it is a Message's arrival. -/
def Event.isArrival : Event → Bool
  | .arrived _ => true
  | .due | .done .. | .threw .. => false

inductive Outcome where
  | completed
  | failed (code reason : String)
  deriving DecidableEq

/-- What a flow asks for; the work itself is named by a number. -/
inductive Act where
  | work (node work message : Nat)
  | combine (node : Nat) (messages : List Nat)
  | publish (message : Nat)
  | ended (outcome : Outcome)
  deriving DecidableEq

inductive Refused where
  | notWaiting
  | ended
  | unfit (why : String)
  deriving DecidableEq

/-- An Instance: the keys it is correlated by, each of the set of that number, how many turns it has taken, when its
earliest timer is due, and what else its unit keeps. -/
structure Instance (σ : Type) where
  keys : List (Nat × String)
  turns : Nat
  nextDue : Option Int
  state : σ
  deriving DecidableEq

/-- A unit opened: how it advances an Instance on an event at a time.  It may have changed the Instance it refuses. -/
structure Flow (σ : Type) where
  advance : Instance σ → Event → Int → Instance σ × Except Refused (List Act)

/-- The form an Instance is kept in, which reads back as it was written. -/
structure Form (σ β : Type) where
  write : Instance σ → β
  read : β → Except String (Instance σ)
  read_write : ∀ i, read (write i) = .ok i

/-! ### Keys -/

inductive JourneyValue where
  | origin
  | subscription
  | previous
  deriving DecidableEq

/-- What one part of a key reads. -/
inductive KeyWord where
  | receiveLocation
  | receivePort
  | workProcess
  | sendPortGroup
  | sendPort
  | context (name : String)
  | journey (value : JourneyValue)
  deriving DecidableEq

/-- A Message bound for a Work Process: what a key reads of it and of its Journey, none of which ever changes, and what
the names gathered give, or why a route technology refused it. -/
structure Message where
  message : Nat
  process : String
  location : Option String
  port : Option String
  group : Option String
  sendPort : Option String
  origin : Option String
  subscription : Option String
  previous : Option String
  promoted : Except String (List (String × String))

/-- The value `key` reads, `promoted` gathered of the Message. -/
def Message.value (m : Message) (promoted : List (String × String)) (workProcess : String) : KeyWord → Option String
  | .receiveLocation => m.location
  | .receivePort => m.port
  | .workProcess => some workProcess
  | .sendPortGroup => m.group
  | .sendPort => m.sendPort
  | .context name => promoted.lookup name
  | .journey .origin => m.origin
  | .journey .subscription => m.subscription
  | .journey .previous => m.previous

/-- A Correlation, its keys read once. -/
structure ResolvedSet where
  name : String
  keys : List KeyWord

/-- A key's values written out in full, each with its length before it; nothing where the Message lacks a part. -/
def textOf (value : KeyWord → Option String) : List KeyWord → Option String
  | [] => some ""
  | key :: keys =>
    match value key, textOf value keys with
    | some value, some rest => some (toString value.utf8ByteSize ++ ":" ++ value ++ ";" ++ rest)
    | _, _ => none

def ResolvedSet.text (set : ResolvedSet) (m : Message) (promoted : List (String × String)) (workProcess : String) :
    Option String :=
  textOf (m.value promoted workProcess) set.keys

/-- One Work Process: its unit, the names its decisions read, the sets it follows, in order, and its queue. -/
structure Running (σ : Type) where
  name : String
  flow : Flow σ
  reads : List String
  sets : List ResolvedSet
  queue : Nat

variable {σ μ β : Type}

/-- The key of `m` in each set `running` follows that it has every part of. -/
def Running.keys (running : Running σ) (m : Message) : Except String (List (Nat × String)) :=
  m.promoted.map fun promoted =>
    running.sets.zipIdx.filterMap fun x => (x.1.text m promoted running.name).map fun key => (x.2, key)

/-- `m` as a turn sees it, `keys` its keys. -/
def Running.arrival (running : Running σ) (m : Message) (keys : List (Nat × String)) : Except String Arrival :=
  m.promoted.map fun promoted =>
    ⟨m.message, running.reads.filterMap fun name => (promoted.lookup name).map fun value => (name, value), keys⟩

/-! ### The acts carried out -/

/-- A Message bound for a Work Process and the Journey opened for it. -/
structure Opened where
  id : Nat
  journey : Journey
  message : Message

/-- What carrying out acts makes: of work and of Messages made one, the event the flow takes next; of one published,
the Journeys it opens.  `starting` is what a turn of a Message has made as it begins, by its claim's token. -/
structure Acts (μ : Type) where
  starting : Message → Nat → μ
  work : μ → Nat → Nat → Nat → Except String (Event × μ)
  combine : μ → Nat → List Nat → Except String (Event × μ)
  publish : μ → Nat → Except String μ
  opened : μ → List Opened

/-- The most acts one turn carries out. -/
def mostActs : Nat := 10000

/-- A turn's loop: what was made, the events still to take, the first of them first, how it ended and how many acts
were carried out. -/
structure Loop (μ : Type) where
  made : μ
  events : List Event
  ended : Option Outcome
  carried : Nat

/-- What one act makes, an event it answers taken after every other. -/
def Loop.act (acts : Acts μ) (l : Loop μ) : Act → Except String (Loop μ)
  | .work node work message => (acts.work l.made node work message).map fun x =>
      { l with events := l.events ++ [x.1], made := x.2 }
  | .combine node messages => (acts.combine l.made node messages).map fun x =>
      { l with events := l.events ++ [x.1], made := x.2 }
  | .publish message => (acts.publish l.made message).map fun made => { l with made }
  | .ended outcome => .ok { l with ended := some outcome }

/-- The acts one event asks for carried out in order, up to the most a turn carries out. -/
def Loop.carry (acts : Acts μ) : List Act → Loop μ → Except Refused (Loop μ)
  | [], l => .ok l
  | act :: rest, l =>
    if mostActs < l.carried + 1 then .error (.unfit "it asked for more than 10000 acts")
    else match Loop.act acts { l with carried := l.carried + 1 } act with
      | .ok l => Loop.carry acts rest l
      | .error why => .error (.unfit why)

/-- How an Instance came out of a turn: its state, what was made, and how it ended, where it did, or the refusal. -/
structure Advanced (σ μ : Type) where
  instance_ : Instance σ
  made : μ
  outcome : Except Refused (Option Outcome)

/-- An Instance advanced on every event, first in, first out, until none is left; `fuel` more events at most. -/
def advanceLoop (flow : Flow σ) (acts : Acts μ) (now : Int) : Nat → Instance σ → Loop μ → Advanced σ μ
  | 0, i, l => ⟨i, l.made, .error (.unfit "")⟩
  | fuel + 1, i, l =>
    match l.events with
    | [] => ⟨i, l.made, .ok l.ended⟩
    | event :: events =>
      match flow.advance i event now with
      | (i, .error refused) => ⟨i, l.made, .error refused⟩
      | (i, .ok asked) =>
        match Loop.carry acts asked { l with events } with
        | .ok l => advanceLoop flow acts now fuel i l
        | .error refused => ⟨i, l.made, .error refused⟩

/-- An Instance advanced on one event, and on every event its acts answer. -/
def advance (flow : Flow σ) (acts : Acts μ) (made : μ) (i : Instance σ) (event : Event) (now : Int) : Advanced σ μ :=
  advanceLoop flow acts now (mostActs + 2) i ⟨made, [event], none, 0⟩

private theorem act_bound {acts : Acts μ} {l l' : Loop μ} {act : Act} (h : Loop.act acts l act = .ok l') :
    l'.carried = l.carried ∧ l'.events.length ≤ l.events.length + 1 := by
  cases act with
  | work node work message =>
    simp only [Loop.act] at h
    cases hw : acts.work l.made node work message with
    | error why => rw [hw] at h; cases h
    | ok x => rw [hw] at h; cases h; simp
  | combine node messages =>
    simp only [Loop.act] at h
    cases hw : acts.combine l.made node messages with
    | error why => rw [hw] at h; cases h
    | ok x => rw [hw] at h; cases h; simp
  | publish message =>
    simp only [Loop.act] at h
    cases hw : acts.publish l.made message with
    | error why => rw [hw] at h; cases h
    | ok x => rw [hw] at h; cases h; simp
  | ended outcome =>
    cases h
    simp

private theorem carry_bound {acts : Acts μ} {asked : List Act} {l l' : Loop μ} (hl : l.carried ≤ mostActs)
    (h : Loop.carry acts asked l = .ok l') :
    l'.carried ≤ mostActs ∧ l.carried ≤ l'.carried ∧
      l'.events.length + l.carried ≤ l.events.length + l'.carried := by
  induction asked generalizing l with
  | nil =>
    cases h
    omega
  | cons act asked ih =>
    unfold Loop.carry at h
    split at h
    · cases h
    · rename_i hmost
      cases hact : Loop.act acts { l with carried := l.carried + 1 } act with
      | error why => rw [hact] at h; cases h
      | ok m =>
        rw [hact] at h
        obtain ⟨hcarried, hevents⟩ := act_bound hact
        simp only at hcarried hevents
        have hrest := ih (by omega) h
        omega

/-- However much fuel there is, where there is enough for every event left and every act not yet carried out: each event
taken is one fewer, and each act answers at most one. -/
theorem advanceLoop_fuel (flow : Flow σ) (acts : Acts μ) (now : Int) {fuel fuel' : Nat} {i : Instance σ} {l : Loop μ}
    (hl : l.carried ≤ mostActs) (hfuel : mostActs - l.carried + l.events.length < fuel)
    (hfuel' : mostActs - l.carried + l.events.length < fuel') :
    advanceLoop flow acts now fuel i l = advanceLoop flow acts now fuel' i l := by
  induction fuel generalizing fuel' i l with
  | zero => omega
  | succ fuel ih =>
    obtain ⟨rest, rfl⟩ : ∃ rest, fuel' = rest + 1 := ⟨fuel' - 1, by omega⟩
    unfold advanceLoop
    cases hevents : l.events with
    | nil => rfl
    | cons event events =>
      rw [hevents, List.length_cons] at hfuel hfuel'
      dsimp only
      cases flow.advance i event now with
      | mk i answer =>
        cases answer with
        | error refused => rfl
        | ok asked =>
          dsimp only
          cases hcarry : Loop.carry acts asked { l with events } with
          | error refused => rfl
          | ok m =>
            have hbound : m.carried ≤ mostActs ∧ l.carried ≤ m.carried ∧
                m.events.length + l.carried ≤ events.length + m.carried := carry_bound (by simpa using hl) hcarry
            exact ih hbound.1 (by omega) (by omega)

/-- A turn has fuel enough. -/
theorem advance_fuel (flow : Flow σ) (acts : Acts μ) (made : μ) (i : Instance σ) (event : Event) (now : Int) {fuel : Nat}
    (h : mostActs + 2 ≤ fuel) :
    advanceLoop flow acts now fuel i ⟨made, [event], none, 0⟩ = advance flow acts made i event now := by
  apply advanceLoop_fuel flow acts now (Nat.zero_le _)
  · simp only [List.length_singleton]
    omega
  · simp

/-! ### The write -/

structure InstanceRecord (β : Type) where
  workProcess : String
  turns : Nat
  ended : Bool
  body : β
  deriving DecidableEq

/-- The Message kept at its place, due again so long after `now`. -/
structure Wait where
  queue : Nat
  now : Int
  afterNanos : Nat
  deriving DecidableEq

structure Failure where
  queue : Nat
  reason : String
  deriving DecidableEq

/-- A Journey handed on under its claim: its record, the Messages opened with it, the queues it leaves, and whether it
failed or waits. -/
structure HandOn where
  journey : Nat
  token : Nat
  result : Journey
  next : List Opened
  leaves : List Nat
  failed : Option Failure
  waits : Option Wait

/-- A turn as one write: the hand-on, the record of the Instance `id`, written only over the turn `read`, the keys it is
to be found by, and those it no longer is. -/
structure Turn (β : Type) where
  handOn : HandOn
  id : Nat
  record : InstanceRecord β
  read : Nat
  keys : List Nat
  unkeyed : List Nat

/-- The cluster and the unit of each Work Process. -/
structure Setup (σ μ β : Type) where
  cluster : String
  named : String → Nat
  running : String → Running σ
  running_name : ∀ name, (running name).name = name
  acts : Acts μ
  form : Form σ β
  /-- An Instance not yet advanced. -/
  newInstance : Instance σ

/-- The identifier of the correlation key `key`, named from the Work Process, the set and the key's full values. -/
def Setup.correlation (c : Setup σ μ β) (running : Running σ) (key : Nat × String) : Nat :=
  c.named (c.cluster ++ "/work-process/" ++ running.name ++ "/correlation/" ++
    running.sets[key.1]?.elim "" ResolvedSet.name ++ "/" ++ key.2)

/-- How long after `now` it is until `due`; at once where that is past, or no `u64` holds it. -/
def afterNanos (due now : Int) : Nat :=
  if 0 ≤ due - now ∧ due - now < UInt64.size then (due - now).toNat else 0

/-- Its place in its Work Process's sequence, and whether a failure lets it go. -/
def pointOf (journey : Journey) : Option (Nat × Bool) :=
  journey.sequences.head?.map fun sequenced => (sequenced.queue, sequenced.skips)

/-- A claim on a Journey. -/
structure Claim where
  journey : Nat
  token : Nat
  deriving DecidableEq

/-- What a turn works on: its claim, the Journey read under it and its Message. -/
structure Taking where
  claim : Claim
  journey : Journey
  message : Message

/-- The state a Journey is written in, by how its Instance ended and when that is due next. -/
def stateOf (ended : Option Outcome) (due : Option Int) : JourneyState :=
  match ended, due with
  | some (.failed ..), _ => .failed
  | _, some _ => .waiting
  | _, none => .completed

/-- The hand-on of a Journey `t` works on, with what the turn made. -/
def Taking.handOn (t : Taking) (journey : Journey) (next : List Opened) : HandOn :=
  ⟨t.claim.journey, t.claim.token, journey, next, [], none, none⟩

/-- The turn as one write: the Journey, what was made, the Instance `id`, read at the turn `read`, and its
correlations, and the Message kept with a due time where a timer waits. -/
def Taking.written (c : Setup σ μ β) (t : Taking) (running : Running σ) (id read : Nat) (i : Instance σ) (made : μ)
    (ended : Option Outcome) (now : Int) : Turn β :=
  let due := if ended.isNone then i.nextDue else none
  let state := stateOf ended due
  let own := i.keys.map (c.correlation running)
  let leavesPoint := (pointOf t.journey).filter fun point =>
    decide (state = .completed) || decide (state = .failed) && point.2
  { handOn :=
      { t.handOn { t.journey with currentWorkProcess := some running.name, state } (c.acts.opened made) with
        leaves := (if state = .completed then [running.queue] else []) ++ leavesPoint.toList.map Prod.fst
        failed := match ended with
          | some (.failed code reason) => some ⟨running.queue, running.name ++ " threw " ++ code ++ ": " ++ reason⟩
          | _ => none
        waits := due.map fun due => ⟨running.queue, now, afterNanos due now⟩ }
    id, read
    record := ⟨running.name, max i.turns (read + 1), ended.isSome, c.form.write i⟩
    keys := if ended.isSome then [] else own
    unkeyed := if ended.isSome then own else [] }

/-- A Journey written Failed with why, kept in its queue for an operator. -/
def Taking.fail (t : Taking) (running : Running σ) (why : String) : HandOn :=
  { t.handOn { t.journey with currentWorkProcess := some running.name, state := .failed } [] with
    failed := some ⟨running.queue, why⟩ }

/-! ### The turn taken -/

/-- The Instance a turn advances: as its record says, or a new one where it has none or has ended. -/
def Setup.begins (c : Setup σ μ β) : Option (InstanceRecord β) → Except String (Instance σ)
  | some record => if record.ended then .ok c.newInstance else c.form.read record.body
  | none => .ok c.newInstance

/-- The event a turn of a Message takes: its timer's, where its Journey waits, or its arrival. -/
def Taking.event (t : Taking) (running : Running σ) (keys : List (Nat × String)) : Except String Event :=
  if t.journey.state = .waiting then .ok .due
  else (running.arrival t.message keys).map Event.arrived

/-- How the Instance comes out of a turn of `t` begun at `i`. -/
def Setup.advanced (c : Setup σ μ β) (t : Taking) (running : Running σ) (i : Instance σ) (event : Event) (now : Int) :
    Advanced σ μ :=
  advance running.flow c.acts (c.acts.starting t.message t.claim.token) i event now

/-- How an Instance that refused or did not comes out: how it ended, where it did; nothing where its Message is not
taken now; or why the turn fails. -/
def outcomeOf : Except Refused (Option Outcome) → Except String (Option (Option Outcome))
  | .ok ended => .ok (some ended)
  | .error .notWaiting => .ok none
  | .error .ended => .ok (some (some .completed))
  | .error (.unfit why) => .error why

/-- The turn `t` takes of the Instance `id`, its record read as `record`, ready to write; nothing where its Instance does
not take it now. -/
def Taking.take (c : Setup σ μ β) (t : Taking) (running : Running σ) (keys : List (Nat × String)) (id : Nat)
    (record : Option (InstanceRecord β)) (now : Int) : Except String (Option (Turn β)) := do
  let i ← c.begins record
  let event ← t.event running keys
  let out := c.advanced t running i event now
  let ended ← outcomeOf out.outcome
  return ended.map fun ended =>
    t.written c running id (record.elim 0 InstanceRecord.turns) out.instance_ out.made ended now

end WorkStep
