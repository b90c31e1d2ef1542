import XmipRuntime.Library.Pick
import XmipRuntime.Library.Run
import XmipRuntime.WorkStep.Turn

/-!
# Turns on any number of nodes

Turns are threads: each claims a Message, reads its Journey, looks its keys up one at a time, reads the Instance one of
them leads to and advances it, and asks Xmip Storage for one write (`src/work_step/turning.rs`).  Every request of Xmip
Storage is a step of its own, so any number of turns of any number of Messages interleave between them, and a claim may
lapse at any time.  A scan may have read its page long before, so any Message may be claimed.

Of Xmip Storage only what the turns rely on is here: a claim is granted where no live one is, a turn is written whole,
under its claim's token, over the turn its Instance was read at and where no other Instance has one of its keys.  An
identifier minted is never one there already.  The places of sequences are the Ledger's (`Ledger.Storage`); a place
taken late changes a Journey under the turn's claim, which is a step here too.
-/

namespace WorkStep

open Library Ledger

variable {σ μ β : Type}

/-! ### Xmip Storage -/

/-- A Message in its Work Process's queue: its wait, where a timer waits by it, and whether it failed. -/
structure Held where
  queue : Nat
  wait : Option Wait
  failed : Bool

structure Storage (β : Type) where
  journeys : Table Nat Journey
  messages : Table Nat Message
  /-- The live claims, by Journey, each by its token. -/
  claims : Table Nat Nat
  /-- What is in the queues of the Work Processes, by Journey. -/
  held : Table Nat Held
  instances : Table Nat (InstanceRecord β)
  /-- The Instance each correlation key leads to. -/
  keys : Table Nat Nat

namespace Storage

/-- The Message of `o` at the end of its Work Process's queue. -/
def arrive (c : Setup σ μ β) (s : Storage β) (o : Opened) : Storage β :=
  { s with
    journeys := s.journeys.put o.id o.journey
    messages := s.messages.put o.id o.message
    held := s.held.put o.id ⟨(c.running o.message.process).queue, none, false⟩ }

/-- Whether each of `opened` is a Journey of its own, not there yet, and active. -/
def Fresh (s : Storage β) (opened : List Opened) : Prop :=
  (opened.map Opened.id).Nodup ∧ ∀ o ∈ opened, s.journeys.get o.id = none ∧ o.journey.state = .active

instance (s : Storage β) (opened : List Opened) : Decidable (s.Fresh opened) :=
  inferInstanceAs (Decidable (_ ∧ ∀ o ∈ opened, _ ∧ _))

/-- What is left of a Message in its queue once `h` is written. -/
def heldAfter (held : Table Nat Held) (h : HandOn) : Table Nat Held :=
  match held.get h.journey with
  | none => held
  | some was =>
    if was.queue ∈ h.leaves then held.drop h.journey
    else held.put h.journey ⟨was.queue, h.waits, h.failed.isSome⟩

/-- `h` written: the Journey, its Message's place, what was opened with it, and its claim ended. -/
def handedOn (c : Setup σ μ β) (s : Storage β) (h : HandOn) : Storage β :=
  h.next.foldl (arrive c)
    { s with
      journeys := s.journeys.put h.journey h.result
      claims := s.claims.drop h.journey
      held := heldAfter s.held h }

/-- Whether `claim` is the live claim on its Journey. -/
def Claimed (s : Storage β) (claim : Claim) : Prop := s.claims.get claim.journey = some claim.token

instance (s : Storage β) (claim : Claim) : Decidable (s.Claimed claim) :=
  inferInstanceAs (Decidable (s.claims.get claim.journey = some claim.token))

/-- Whether Xmip Storage takes a turn: under its claim, over the turn it read, its keys no other Instance's. -/
def Accepts (s : Storage β) (turn : Turn β) : Prop :=
  s.Claimed ⟨turn.handOn.journey, turn.handOn.token⟩ ∧
    (s.instances.get turn.id).elim 0 InstanceRecord.turns = turn.read ∧
    ∀ k ∈ turn.keys, ∀ i, s.keys.get k = some i → i = turn.id

instance (s : Storage β) (turn : Turn β) : Decidable (s.Accepts turn) :=
  inferInstanceAs (Decidable (_ ∧ _ ∧ ∀ k ∈ turn.keys, ∀ i, s.keys.get k = some i → i = turn.id))

/-- The keys once those of a turn of the Instance `id` are let go of and taken. -/
def rekeyed (keys : Table Nat Nat) (id : Nat) (taken letGo : List Nat) : Table Nat Nat :=
  let kept := letGo.foldl (fun t k => if t.get k = some id then t.drop k else t) keys
  taken.foldl (fun t k => t.put k id) kept

/-- A turn written. -/
def turned (c : Setup σ μ β) (s : Storage β) (turn : Turn β) : Storage β :=
  { s.handedOn c turn.handOn with
    instances := s.instances.put turn.id turn.record
    keys := rekeyed s.keys turn.id turn.keys turn.unkeyed }

/-- A claim given back, where it is still the holder's. -/
def release (s : Storage β) (claim : Claim) : Storage β :=
  if s.Claimed claim then { s with claims := s.claims.drop claim.journey } else s

end Storage

/-! ### The Instance a Message belongs to -/

/-- The Instance the first of `keys` that leads to one leads to, else the one the Journey `id` started. -/
def Setup.resolve (c : Setup σ μ β) (running : Running σ) (table : Table Nat Nat) (id : Nat) : List (Nat × String) → Nat
  | [] => id
  | key :: keys =>
    match table.get (c.correlation running key) with
    | some i => i
    | none => c.resolve running table id keys

/-- The Instance the Message of the Journey `id` belongs to, as its keys and the keys kept say. -/
def Setup.belongs (c : Setup σ μ β) (s : Storage β) (id : Nat) : Option Nat :=
  (s.messages.get id).bind fun m =>
    ((c.running m.process).keys m).toOption.map fun keys => c.resolve (c.running m.process) s.keys id keys

/-! ### Turns -/

/-- A turn ready to write, with what it was computed from: the event it took, when, and the record it read. -/
structure Ready (β : Type) where
  turn : Turn β
  event : Event
  now : Int
  base : Option (InstanceRecord β)

/-- Where a turn stands, the Journey as it read it. -/
inductive Phase (β : Type) where
  | claimed
  | read (journey : Journey)
  | looking (journey : Journey) (keys left : List (Nat × String))
  | found (journey : Journey) (keys : List (Nat × String)) (id : Nat)
  | ready (journey : Journey) (ready : Ready β)
  | failing (journey : Journey) (why : String)

structure Turning (β : Type) where
  claim : Claim
  message : Message
  phase : Phase β

/-- An Instance's state written: by which turn, on what event, over which record, and as what. -/
structure Write (β : Type) where
  claim : Claim
  message : Message
  event : Event
  now : Int
  base : Option (InstanceRecord β)
  id : Nat
  record : InstanceRecord β

/-- Xmip Storage, the turns under way, how many tokens were minted, and every Instance's state written, the latest
first. -/
structure Sys (β : Type) where
  storage : Storage β
  turning : List (Turning β)
  minted : Nat
  log : List (Write β)

/-- What a turn does next. -/
inductive Move where
  | read
  /-- It takes its place once its Stream heads its own sequences. -/
  | place (sequences : List Sequenced)
  | keys
  | look
  /-- It reads its Instance's record and advances it. -/
  | take (now : Int)
  /-- A key or an Instance could not be read. -/
  | unread (why : String)
  | write
  | fail
  /-- It ends unwritten: released, or its claim left to lapse. -/
  | leave (released : Bool)

inductive Action where
  /-- A Publication, or a resume, brings a Message. -/
  | arrive (opened : Opened)
  | claim (id : Nat)
  | lapse (id : Nat)
  | turn (n : Nat) (move : Move)

namespace Sys

/-- The turn `t` in `phase`, the rest as they were. -/
def goesOn (s : Sys β) (rest : List (Turning β)) (t : Turning β) (phase : Phase β) : Sys β :=
  { s with turning := { t with phase } :: rest }

/-- The turn `t` over, its claim given back. -/
def released (s : Sys β) (rest : List (Turning β)) (t : Turning β) : Sys β :=
  { s with turning := rest, storage := s.storage.release t.claim }

variable (c : Setup σ μ β)

def arrive (s : Sys β) (o : Opened) : Option (Sys β) :=
  if s.storage.Fresh [o] then some { s with storage := s.storage.arrive c o } else none

def claim (s : Sys β) (id : Nat) : Option (Sys β) :=
  match s.storage.messages.get id, s.storage.claims.get id with
  | some message, none => some
      { s with
        storage := { s.storage with claims := s.storage.claims.put id s.minted }
        turning := ⟨⟨id, s.minted⟩, message, .claimed⟩ :: s.turning
        minted := s.minted + 1 }
  | _, _ => none

def lapse (s : Sys β) (id : Nat) : Sys β :=
  { s with storage := { s.storage with claims := s.storage.claims.drop id } }

/-- The Journey read: one still to be taken a turn of, or its claim given back. -/
def read (s : Sys β) (rest : List (Turning β)) (t : Turning β) : Sys β :=
  match s.storage.journeys.get t.claim.journey with
  | some journey => if journey.live then s.goesOn rest t (.read journey) else s.released rest t
  | none => s.released rest t

/-- The places of the Journey taken late, in one hand-on that keeps the claim. -/
def place (s : Sys β) (rest : List (Turning β)) (t : Turning β) (journey : Journey) (sequences : List Sequenced) :
    Sys β :=
  let placed := { journey with sequences }
  if s.storage.Claimed t.claim then
    { s with storage := { s.storage with journeys := s.storage.journeys.put t.claim.journey placed } }.goesOn rest t
      (.read placed)
  else { s with turning := rest }

/-- The next key looked up, or none left. -/
def look (s : Sys β) (rest : List (Turning β)) (t : Turning β) (journey : Journey) (keys : List (Nat × String)) :
    List (Nat × String) → Sys β
  | [] => s.goesOn rest t (.found journey keys t.claim.journey)
  | key :: left =>
    match s.storage.keys.get (c.correlation (c.running t.message.process) key) with
    | some i => s.goesOn rest t (.found journey keys i)
    | none => s.goesOn rest t (.looking journey keys left)

/-- The Instance `id` read and advanced. -/
def take (s : Sys β) (rest : List (Turning β)) (t : Turning β) (journey : Journey) (keys : List (Nat × String))
    (id : Nat) (now : Int) : Sys β :=
  let taking : Taking := ⟨t.claim, journey, t.message⟩
  let running := c.running t.message.process
  let record := s.storage.instances.get id
  match taking.take c running keys id record now, taking.event running keys with
  | .ok (some turn), .ok event => s.goesOn rest t (.ready journey ⟨turn, event, now, record⟩)
  | .ok none, _ => s.released rest t
  | .error why, _ | _, .error why => s.goesOn rest t (.failing journey why)

/-- The one write asked for. -/
def write (s : Sys β) (rest : List (Turning β)) (t : Turning β) (r : Ready β) : Option (Sys β) :=
  if s.storage.Accepts r.turn then
    if s.storage.Fresh r.turn.handOn.next then some
      { s with
        storage := s.storage.turned c r.turn
        turning := rest
        log := ⟨t.claim, t.message, r.event, r.now, r.base, r.turn.id, r.turn.record⟩ :: s.log }
    else none
  else some (s.released rest t)

/-- The Journey written Failed, where its claim stands. -/
def fail (s : Sys β) (rest : List (Turning β)) (t : Turning β) (journey : Journey) (why : String) : Sys β :=
  let taking : Taking := ⟨t.claim, journey, t.message⟩
  if s.storage.Claimed t.claim then
    { s with storage := s.storage.handedOn c (taking.fail (c.running t.message.process) why), turning := rest }
  else { s with turning := rest }

/-- What a turn does, the rest beside it. -/
def turns (s : Sys β) (rest : List (Turning β)) (t : Turning β) : Move → Option (Sys β)
  | .read => match t.phase with
    | .claimed => some (s.read rest t)
    | _ => none
  | .place sequences => match t.phase with
    | .read journey => some (s.place rest t journey sequences)
    | _ => none
  | .keys => match t.phase with
    | .read journey => match (c.running t.message.process).keys t.message with
      | .ok keys => some (s.goesOn rest t (.looking journey keys keys))
      | .error why => some (s.goesOn rest t (.failing journey why))
    | _ => none
  | .look => match t.phase with
    | .looking journey keys left => some (s.look c rest t journey keys left)
    | _ => none
  | .take now => match t.phase with
    | .found journey keys id => some (s.take c rest t journey keys id now)
    | _ => none
  | .unread why => match t.phase with
    | .looking journey .. | .found journey .. => some (s.goesOn rest t (.failing journey why))
    | _ => none
  | .write => match t.phase with
    | .ready _ r => s.write c rest t r
    | _ => none
  | .fail => match t.phase with
    | .failing journey why => some (s.fail c rest t journey why)
    | _ => none
  | .leave released => some (if released then s.released rest t else { s with turning := rest })

def step (s : Sys β) : Action → Option (Sys β)
  | .arrive o => s.arrive c o
  | .claim id => s.claim id
  | .lapse id => some (s.lapse id)
  | .turn n move => (pick s.turning n).bind fun x => s.turns c x.2 x.1 move

end Sys

/-- Nothing there yet: no Message, no Instance, no turn. -/
def Sys.opening : Sys β := ⟨⟨.empty, .empty, .empty, .empty, .empty, .empty⟩, [], 0, []⟩

/-- As a cluster starts. -/
def Starting (s : Sys β) : Prop := s = .opening

/-! ### What a write leaves -/

namespace Storage

variable {c : Setup σ μ β} {s : Storage β}

/-- What arriving Messages leave alone. -/
private theorem arriveAll_frame (opened : List Opened) (s : Storage β) :
    (opened.foldl (arrive c) s).claims = s.claims ∧ (opened.foldl (arrive c) s).instances = s.instances ∧
      (opened.foldl (arrive c) s).keys = s.keys := by
  induction opened generalizing s with
  | nil => exact ⟨rfl, rfl, rfl⟩
  | cons o opened ih => exact ih (s.arrive c o)

private theorem arriveAll_get (opened : List Opened) (s : Storage β) (id : Nat) :
    (∃ o ∈ opened, o.id = id ∧ (opened.foldl (arrive c) s).journeys.get id = some o.journey ∧
        (opened.foldl (arrive c) s).messages.get id = some o.message ∧
        (opened.foldl (arrive c) s).held.get id = some ⟨(c.running o.message.process).queue, none, false⟩) ∨
      id ∉ opened.map Opened.id ∧ (opened.foldl (arrive c) s).journeys.get id = s.journeys.get id ∧
        (opened.foldl (arrive c) s).messages.get id = s.messages.get id ∧
        (opened.foldl (arrive c) s).held.get id = s.held.get id := by
  induction opened generalizing s with
  | nil => exact .inr ⟨List.not_mem_nil, rfl, rfl, rfl⟩
  | cons o opened ih =>
    rw [List.foldl_cons, List.map_cons]
    rcases ih (s.arrive c o) with ⟨p, hp, hid, hrest⟩ | ⟨hnot, hj, hm, hh⟩
    · exact .inl ⟨p, List.mem_cons_of_mem _ hp, hid, hrest⟩
    · by_cases hid : id = o.id
      · subst hid
        refine .inl ⟨o, List.mem_cons_self .., rfl, ?_, ?_, ?_⟩
        · rw [hj]
          exact Table.get_put_self ..
        · rw [hm]
          exact Table.get_put_self ..
        · rw [hh]
          exact Table.get_put_self ..
      · refine .inr ⟨?_, ?_, ?_, ?_⟩
        · rw [List.mem_cons, not_or]
          exact ⟨hid, hnot⟩
        · rw [hj]
          exact Table.get_put_of_ne _ hid _
        · rw [hm]
          exact Table.get_put_of_ne _ hid _
        · rw [hh]
          exact Table.get_put_of_ne _ hid _

@[simp] theorem handedOn_claims (h : HandOn) : (s.handedOn c h).claims = s.claims.drop h.journey :=
  (arriveAll_frame ..).1

@[simp] theorem handedOn_instances (h : HandOn) : (s.handedOn c h).instances = s.instances :=
  (arriveAll_frame ..).2.1

@[simp] theorem handedOn_keys (h : HandOn) : (s.handedOn c h).keys = s.keys := (arriveAll_frame ..).2.2

/-- A Journey once `h` is written: one opened with it, its own, or one as it was. -/
theorem handedOn_get (h : HandOn) (id : Nat) :
    (∃ o ∈ h.next, o.id = id ∧ (s.handedOn c h).journeys.get id = some o.journey ∧
        (s.handedOn c h).messages.get id = some o.message ∧
        (s.handedOn c h).held.get id = some ⟨(c.running o.message.process).queue, none, false⟩) ∨
      id ∉ h.next.map Opened.id ∧
        (s.handedOn c h).journeys.get id = (if id = h.journey then some h.result else s.journeys.get id) ∧
        (s.handedOn c h).messages.get id = s.messages.get id ∧
        (s.handedOn c h).held.get id = (heldAfter s.held h).get id := by
  rcases arriveAll_get (c := c) h.next
    { s with
      journeys := s.journeys.put h.journey h.result
      claims := s.claims.drop h.journey
      held := heldAfter s.held h } id with hnew | ⟨hnot, hj, hm, hh⟩
  · exact .inl hnew
  · exact .inr ⟨hnot, hj.trans (Table.get_put ..), hm, hh⟩

/-- A Journey that was there is none of those opened: its own, or one as it was. -/
theorem handedOn_known {h : HandOn} (hfresh : s.Fresh h.next) {id : Nat} {j : Journey}
    (hid : s.journeys.get id = some j) :
    (s.handedOn c h).journeys.get id = (if id = h.journey then some h.result else some j) ∧
      (s.handedOn c h).messages.get id = s.messages.get id ∧
      (s.handedOn c h).held.get id = (heldAfter s.held h).get id := by
  rcases handedOn_get h id with ⟨o, ho, rfl, -⟩ | ⟨-, hj, hrest⟩
  · rw [(hfresh.2 o ho).1] at hid
    cases hid
  · exact ⟨hid ▸ hj, hrest⟩

theorem heldAfter_of_ne {held : Table Nat Held} {h : HandOn} {id : Nat} (hid : id ≠ h.journey) :
    (heldAfter held h).get id = held.get id := by
  unfold heldAfter
  split
  · rfl
  · split
    · exact Table.get_drop_of_ne _ hid
    · exact Table.get_put_of_ne _ hid _

theorem release_claims {claim : Claim} {id token : Nat} (h : (s.release claim).claims.get id = some token) :
    s.claims.get id = some token := by
  unfold release at h
  split at h
  · rw [Table.get_drop] at h
    split at h
    · cases h
    · exact h
  · exact h

/-- All a release changes is the claims. -/
theorem release_eq (claim : Claim) : s.release claim = { s with claims := (s.release claim).claims } := by
  unfold release
  split <;> rfl

end Storage

/-! ### What a step does -/

variable {c : Setup σ μ β} {s s' : Sys β}

/-- The Journey a turn has read. -/
def Phase.journey? : Phase β → Option Journey
  | .claimed => none
  | .read journey | .looking journey .. | .found journey .. | .ready journey _ | .failing journey _ => some journey

/-- A turn taken: the Instance it began with, the event, how it came out, and the write they make. -/
theorem take_cases {t : Taking} {running : Running σ} {keys : List (Nat × String)} {id : Nat}
    {record : Option (InstanceRecord β)} {now : Int} {turn : Turn β}
    (h : t.take c running keys id record now = .ok (some turn)) :
    ∃ i event ended, c.begins record = .ok i ∧ t.event running keys = .ok event ∧
      outcomeOf (c.advanced t running i event now).outcome = .ok (some ended) ∧
      turn = t.written c running id (record.elim 0 InstanceRecord.turns) (c.advanced t running i event now).instance_
        (c.advanced t running i event now).made ended now := by
  unfold Taking.take at h
  cases hi : c.begins record with
  | error why => rw [hi] at h; cases h
  | ok i =>
    cases he : t.event running keys with
    | error why => rw [hi, he] at h; cases h
    | ok event =>
      rw [hi, he] at h
      simp only [bind, Except.bind] at h
      cases ho : outcomeOf (c.advanced t running i event now).outcome with
      | error why => rw [ho] at h; cases h
      | ok ended =>
        rw [ho] at h
        cases ended with
        | none => cases h
        | some ended =>
          cases h
          exact ⟨i, event, ended, rfl, rfl, ho, rfl⟩

/-- What `r` was computed from: the Journey `journey` and the record it read. -/
def Turning.Computes (c : Setup σ μ β) (t : Turning β) (journey : Journey) (r : Ready β) : Prop :=
  ∃ keys, Taking.take c ⟨t.claim, journey, t.message⟩ (c.running t.message.process) keys r.turn.id r.base r.now =
      .ok (some r.turn) ∧
    Taking.event ⟨t.claim, journey, t.message⟩ (c.running t.message.process) keys = .ok r.event

/-- What a turn in `phase` has read of `s`, where it entered that phase there. -/
def Turning.Enters (c : Setup σ μ β) (s : Storage β) (t : Turning β) : Phase β → Prop
  | .claimed => False
  | .read journey => s.journeys.get t.claim.journey = some journey ∧ journey.live = true
  | .looking journey .. | .found journey .. | .failing journey _ => t.phase.journey? = some journey
  | .ready journey r =>
    t.phase.journey? = some journey ∧ r.base = s.instances.get r.turn.id ∧ t.Computes c journey r

/-- What one move of a turn can do. -/
inductive Moved (c : Setup σ μ β) (s : Sys β) (rest : List (Turning β)) (t : Turning β) : Move → Sys β → Prop where
  | goesOn {move : Move} {phase : Phase β} (h : t.Enters c s.storage phase) : Moved c s rest t move (s.goesOn rest t phase)
  | leaves {move : Move} {storage : Storage β} (h : storage = s.storage ∨ storage = s.storage.release t.claim) :
    Moved c s rest t move { s with turning := rest, storage }
  | placed {journey : Journey} {sequences : List Sequenced} (hphase : t.phase = .read journey)
    (hclaimed : s.storage.Claimed t.claim) :
    Moved c s rest t (.place sequences)
      { s with
        storage := { s.storage with journeys := s.storage.journeys.put t.claim.journey { journey with sequences } }
        turning := { t with phase := .read { journey with sequences } } :: rest }
  | written {journey : Journey} {r : Ready β} (hphase : t.phase = .ready journey r)
    (haccepts : s.storage.Accepts r.turn) (hfresh : s.storage.Fresh r.turn.handOn.next) :
    Moved c s rest t .write
      { s with
        storage := s.storage.turned c r.turn
        turning := rest
        log := ⟨t.claim, t.message, r.event, r.now, r.base, r.turn.id, r.turn.record⟩ :: s.log }
  | failed {journey : Journey} {why : String} (hphase : t.phase = .failing journey why)
    (hclaimed : s.storage.Claimed t.claim) :
    Moved c s rest t .fail
      { s with
        storage := s.storage.handedOn c (Taking.fail ⟨t.claim, journey, t.message⟩ (c.running t.message.process) why)
        turning := rest }

/-- An Instance read and advanced: ready to write, not taken now, or failing. -/
private theorem take_moved {rest : List (Turning β)} {t : Turning β} {journey : Journey} {keys : List (Nat × String)}
    {id : Nat} {now : Int} (hphase : t.phase = .found journey keys id) :
    Moved c s rest t (.take now) (s.take c rest t journey keys id now) := by
  have hjourney : t.phase.journey? = some journey := by rw [hphase]; rfl
  unfold Sys.take
  simp only
  split
  · rename_i turn event htake hevent
    have hid : turn.id = id := by
      obtain ⟨_, _, _, -, -, -, rfl⟩ := take_cases htake
      rfl
    refine .goesOn ⟨hjourney, by rw [hid], keys, ?_, hevent⟩
    rw [hid]
    exact htake
  · exact .leaves (.inr rfl)
  all_goals exact .goesOn hjourney

theorem turns_cases {rest : List (Turning β)} {t : Turning β} {move : Move}
    (h : s.turns c rest t move = some s') : Moved c s rest t move s' := by
  cases move with
  | read =>
    simp only [Sys.turns] at h
    split at h
    · cases h
      unfold Sys.read
      split
      · rename_i journey hj
        split
        · rename_i hlive
          exact .goesOn ⟨hj, hlive⟩
        · exact .leaves (.inr rfl)
      · exact .leaves (.inr rfl)
    · cases h
  | place sequences =>
    simp only [Sys.turns] at h
    split at h
    · rename_i journey hphase
      cases h
      unfold Sys.place
      split
      · rename_i hclaimed
        exact .placed hphase hclaimed
      · exact .leaves (.inl rfl)
    · cases h
  | keys =>
    simp only [Sys.turns] at h
    split at h
    · rename_i journey hphase
      have hjourney : t.phase.journey? = some journey := by rw [hphase]; rfl
      split at h <;> (cases h; exact .goesOn hjourney)
    · cases h
  | look =>
    simp only [Sys.turns] at h
    split at h
    · rename_i journey keys left hphase
      have hjourney : t.phase.journey? = some journey := by rw [hphase]; rfl
      cases h
      unfold Sys.look
      split
      · exact .goesOn hjourney
      · split <;> exact .goesOn hjourney
    · cases h
  | take now =>
    simp only [Sys.turns] at h
    split at h
    · rename_i hphase
      cases h
      exact take_moved hphase
    · cases h
  | unread why =>
    simp only [Sys.turns] at h
    split at h
    · rename_i hphase
      cases h
      exact .goesOn (by rw [Turning.Enters, hphase]; rfl)
    · rename_i hphase
      cases h
      exact .goesOn (by rw [Turning.Enters, hphase]; rfl)
    · cases h
  | write =>
    simp only [Sys.turns] at h
    split at h
    · rename_i hphase
      unfold Sys.write at h
      split at h
      · rename_i haccepts
        split at h
        · rename_i hfresh
          cases h
          exact .written hphase haccepts hfresh
        · cases h
      · cases h
        exact .leaves (.inr rfl)
    · cases h
  | fail =>
    simp only [Sys.turns] at h
    split at h
    · rename_i hphase
      cases h
      unfold Sys.fail
      simp only
      split
      · rename_i hclaimed
        exact .failed hphase hclaimed
      · exact .leaves (.inl rfl)
    · cases h
  | leave released =>
    simp only [Sys.turns, Option.some.injEq] at h
    subst h
    split
    · exact .leaves (.inr rfl)
    · exact .leaves (.inl rfl)

/-- What a step does to Xmip Storage, but for its claims. -/
inductive Touched (c : Setup σ μ β) (s : Sys β) : Action → Storage β → Prop where
  | same {a : Action} {claims : Table Nat Nat} : Touched c s a { s.storage with claims }
  | arrived {o : Opened} (hfresh : s.storage.Fresh [o]) : Touched c s (.arrive o) (s.storage.arrive c o)
  | placed {n : Nat} {t : Turning β} {rest : List (Turning β)} {journey : Journey} {sequences : List Sequenced}
    (hpick : pick s.turning n = some (t, rest)) (hphase : t.phase = .read journey)
    (hclaimed : s.storage.Claimed t.claim) :
    Touched c s (.turn n (.place sequences))
      { s.storage with journeys := s.storage.journeys.put t.claim.journey { journey with sequences } }
  | written {n : Nat} {t : Turning β} {rest : List (Turning β)} {journey : Journey} {r : Ready β}
    (hpick : pick s.turning n = some (t, rest)) (hphase : t.phase = .ready journey r)
    (haccepts : s.storage.Accepts r.turn) (hfresh : s.storage.Fresh r.turn.handOn.next) :
    Touched c s (.turn n .write) (s.storage.turned c r.turn)
  | failed {n : Nat} {t : Turning β} {rest : List (Turning β)} {journey : Journey} {why : String}
    (hpick : pick s.turning n = some (t, rest)) (hphase : t.phase = .failing journey why)
    (hclaimed : s.storage.Claimed t.claim) :
    Touched c s (.turn n .fail)
      (s.storage.handedOn c (Taking.fail ⟨t.claim, journey, t.message⟩ (c.running t.message.process) why))

theorem step_touched {a : Action} (h : s.step c a = some s') : Touched c s a s'.storage := by
  cases a with
  | arrive o =>
    simp only [Sys.step, Sys.arrive] at h
    split at h
    · rename_i hfresh
      cases h
      exact .arrived hfresh
    · cases h
  | claim id =>
    simp only [Sys.step, Sys.claim] at h
    split at h
    · cases h
      exact .same
    · cases h
  | lapse id =>
    cases h
    exact .same
  | turn n move =>
    obtain ⟨⟨t, rest⟩, hpick, hmove⟩ := Option.bind_eq_some_iff.1 h
    have hmoved := turns_cases hmove
    clear h hmove
    cases hmoved with
    | goesOn _ => exact .same
    | leaves h =>
      rcases h with rfl | rfl
      · exact .same
      · dsimp only
        rw [Storage.release_eq]
        exact .same
    | placed hphase hclaimed => exact .placed hpick hphase hclaimed
    | written hphase haccepts hfresh => exact .written hpick hphase haccepts hfresh
    | failed hphase hclaimed => exact .failed hpick hphase hclaimed

end WorkStep
