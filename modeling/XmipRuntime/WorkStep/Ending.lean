import XmipRuntime.Library.Answers
import XmipRuntime.WorkStep.Updates

/-!
# How a turn ends

A turn has two writes (`src/work_step/turning.rs`): `written`, the turn itself, where its Instance was advanced, and
`fail`, its Journey Failed, from every exit at which it could not be.  Both make a Journey Failed, and both have the
place in front of them that the Message holds in its Work Process's sequence.  This module says what each does with that
place, and whether the outcome the flow announced is the one written.
-/

namespace WorkStep

open Library Ledger

variable {σ μ β : Type}

/-! ### The write a turn asks for -/

/-- What a turn asks Xmip Storage to write: itself, or its Journey Failed. -/
inductive Asked (β : Type) where
  | turn (turn : Turn β)
  | failed (handOn : HandOn)

def Asked.handOn : Asked β → HandOn
  | .turn written => written.handOn
  | .failed h => h

/-- How Xmip Storage answers where a Message's Instance is looked for by its keys: the Instance and its record, or why
they are not read. -/
abbrev Lookup (β : Type) := List (Nat × String) → Except String (Nat × Option (InstanceRecord β))

/-- The turn `t` takes: its keys read, its Instance found and advanced. -/
def Taking.taken (c : Setup σ μ β) (t : Taking) (running : Running σ) (instance_ : Lookup β) (now : Int) :
    Except String (Option (Turn β)) := do
  let keys ← running.keys t.message
  let found ← instance_ keys
  t.take c running keys found.1 found.2 now

/-- What a turn asks for; nothing where its Instance does not take its Message now. -/
def Taking.asks (c : Setup σ μ β) (t : Taking) (running : Running σ) (instance_ : Lookup β) (now : Int) :
    Option (Asked β) :=
  match t.taken c running instance_ now with
  | .ok turn => turn.map .turn
  | .error why => some (.failed (t.fail running why))

/-- The exits at which a turn is not written but fails: its keys or its Instance are not read, its Instance's body is
not, its arrival is refused, or the unit or one of its acts is. -/
inductive Taking.Breaks (c : Setup σ μ β) (t : Taking) (running : Running σ) (instance_ : Lookup β) (now : Int) :
    Prop where
  | keys {why : String} : running.keys t.message = .error why → Breaks c t running instance_ now
  | lookup {keys : List (Nat × String)} {why : String} : running.keys t.message = .ok keys →
      instance_ keys = .error why → Breaks c t running instance_ now
  | body {keys : List (Nat × String)} {found : Nat × Option (InstanceRecord β)} {why : String} :
      running.keys t.message = .ok keys → instance_ keys = .ok found → c.begins found.2 = .error why →
      Breaks c t running instance_ now
  | arrival {keys : List (Nat × String)} {found : Nat × Option (InstanceRecord β)} {i : Instance σ} {why : String} :
      running.keys t.message = .ok keys → instance_ keys = .ok found → c.begins found.2 = .ok i →
      t.event running keys = .error why → Breaks c t running instance_ now
  | unfit {keys : List (Nat × String)} {found : Nat × Option (InstanceRecord β)} {i : Instance σ} {event : Event}
      {why : String} : running.keys t.message = .ok keys → instance_ keys = .ok found → c.begins found.2 = .ok i →
      t.event running keys = .ok event → (c.advanced t running i event now).outcome = .error (.unfit why) →
      Breaks c t running instance_ now

section Exits

variable {c : Setup σ μ β} {t : Taking} {running : Running σ} {instance_ : Lookup β} {now : Int}

/-- A turn taken was written by `written`, of an Instance advanced. -/
theorem Taking.taken_ok {turn : Turn β} (h : t.taken c running instance_ now = .ok (some turn)) :
    ∃ id read i made ended, turn = t.written c running id read i made ended now := by
  obtain ⟨keys, -, h⟩ := answers_iff.1 h
  obtain ⟨found, -, h⟩ := answers_iff.1 h
  obtain ⟨i, -, h⟩ := answers_iff.1 h
  obtain ⟨event, -, h⟩ := answers_iff.1 h
  obtain ⟨ended, -, h⟩ := answers_iff.1 h
  cases ended with
  | none => cases h
  | some ended =>
    cases h
    exact ⟨_, _, _, _, _, rfl⟩

/-- A turn fails by one of its exits. -/
theorem Taking.breaks_of_error {why : String} (h : t.taken c running instance_ now = .error why) :
    t.Breaks c running instance_ now := by
  rcases fails_iff.1 h with hkeys | ⟨keys, hkeys, h⟩
  · exact .keys hkeys
  rcases fails_iff.1 h with hfound | ⟨found, hfound, h⟩
  · exact .lookup hkeys hfound
  rcases fails_iff.1 h with hbody | ⟨i, hbody, h⟩
  · exact .body hkeys hfound hbody
  rcases fails_iff.1 h with hevent | ⟨event, hevent, h⟩
  · exact .arrival hkeys hfound hbody hevent
  rcases fails_iff.1 h with hout | ⟨ended, -, h⟩
  · suffices hunfit : (c.advanced t running i event now).outcome = .error (.unfit why) from
      .unfit hkeys hfound hbody hevent hunfit
    cases hadv : (c.advanced t running i event now).outcome with
    | ok ended => rw [hadv] at hout; cases hout
    | error refused =>
      rw [hadv] at hout
      cases refused with
      | notWaiting => cases hout
      | ended => cases hout
      | unfit why' => cases hout; rfl
  · cases h

theorem Taking.taken_eq {keys : List (Nat × String)} {found : Nat × Option (InstanceRecord β)}
    (hkeys : running.keys t.message = .ok keys) (hfound : instance_ keys = .ok found) :
    t.taken c running instance_ now = t.take c running keys found.1 found.2 now := by
  unfold taken
  rw [hkeys]
  simp only [bind, Except.bind, hfound]

theorem Taking.error_of_breaks (h : t.Breaks c running instance_ now) :
    ∃ why, t.taken c running instance_ now = .error why := by
  cases h with
  | @keys why hkeys => exact ⟨why, fails_iff.2 (.inl hkeys)⟩
  | @lookup keys why hkeys hfound => exact ⟨why, fails_iff.2 (.inr ⟨keys, hkeys, fails_iff.2 (.inl hfound)⟩)⟩
  | @body keys found why hkeys hfound hbody =>
    rw [taken_eq hkeys hfound]
    exact ⟨why, fails_iff.2 (.inl hbody)⟩
  | @arrival keys found i why hkeys hfound hbody hevent =>
    rw [taken_eq hkeys hfound]
    exact ⟨why, fails_iff.2 (.inr ⟨i, hbody, fails_iff.2 (.inl hevent)⟩)⟩
  | @unfit keys found i event why hkeys hfound hbody hevent hout =>
    rw [taken_eq hkeys hfound]
    refine ⟨why, fails_iff.2 (.inr ⟨i, hbody, fails_iff.2 (.inr ⟨event, hevent, fails_iff.2 (.inl ?_)⟩)⟩)⟩
    rw [hout]
    rfl

end Exits

/-! ### The place at its Work Process -/

/-- A write does with the place at the point what the point's `on_failure` says: Failed, it lets go of it only where
that is `skip`; completed, it lets go of it. -/
def Asked.Follows (asked : Asked β) (point : Nat × Bool) : Prop :=
  (asked.handOn.result.state = .failed → (point.1 ∈ asked.handOn.leaves ↔ point.2 = true)) ∧
    (asked.handOn.result.state = .completed → point.1 ∈ asked.handOn.leaves)

instance (asked : Asked β) (point : Nat × Bool) : Decidable (asked.Follows point) :=
  inferInstanceAs (Decidable ((_ → _) ∧ (_ → _)))

section Place

variable {c : Setup σ μ β} {t : Taking} {running : Running σ} {point : Nat × Bool}

/-- A turn written follows its point. -/
theorem Taking.written_follows (hpoint : pointOf t.journey = some point) (id read : Nat) (i : Instance σ) (made : μ)
    (ended : Option Outcome) (now : Int) : (Asked.turn (t.written c running id read i made ended now)).Follows point := by
  obtain ⟨queue, skips⟩ := point
  constructor
  · intro hfailed
    have hstate : stateOf ended (if ended.isNone then i.nextDue else none) = .failed := hfailed
    simp only [Asked.handOn, written, hstate, hpoint]
    cases skips <;> simp
  · intro hdone
    have hstate : stateOf ended (if ended.isNone then i.nextDue else none) = .completed := hdone
    simp only [Asked.handOn, written, hstate, hpoint]
    simp

/-- A turn failed keeps its place, so it follows its point exactly where that blocks. -/
theorem Taking.fail_follows (why : String) :
    (Asked.failed (β := β) (t.fail running why)).Follows point ↔ point.2 = false := by
  unfold Asked.Follows
  simp [Asked.handOn, fail, handOn]

/-- Every write a turn of `t` may ask for follows its point's `on_failure`, exactly where no exit fails it while its
point skips a failure. -/
theorem follows_iff_unbroken (c : Setup σ μ β) (t : Taking) (running : Running σ) (instance_ : Lookup β) (now : Int) :
    (∀ asked, t.asks c running instance_ now = some asked → ∀ point, pointOf t.journey = some point →
        asked.Follows point) ↔
      ¬ (t.Breaks c running instance_ now ∧ ∃ queue, pointOf t.journey = some (queue, true)) := by
  constructor
  · rintro h ⟨hbreaks, queue, hpoint⟩
    obtain ⟨why, hwhy⟩ := Taking.error_of_breaks hbreaks
    have hasks : t.asks c running instance_ now = some (.failed (t.fail running why)) := by
      unfold Taking.asks
      rw [hwhy]
    have := (Taking.fail_follows why).1 (h _ hasks _ hpoint)
    cases this
  · intro h asked hasks point hpoint
    unfold Taking.asks at hasks
    cases htaken : t.taken c running instance_ now with
    | ok turn =>
      rw [htaken] at hasks
      obtain ⟨turn, rfl, rfl⟩ := Option.map_eq_some_iff.1 hasks
      obtain ⟨id, read, i, made, ended, rfl⟩ := Taking.taken_ok htaken
      exact Taking.written_follows hpoint id read i made ended now
    | error why =>
      rw [htaken] at hasks
      cases hasks
      rw [Taking.fail_follows]
      by_contra hskips
      rw [Bool.not_eq_false] at hskips
      exact h ⟨Taking.breaks_of_error htaken, point.1, by rw [hpoint, ← hskips]⟩

end Place

/-- A unit that fails as soon as a Message arrives, but asks for work first, and says of all else that it has ended. -/
private def hasty : Flow Nat where
  advance i event _ :=
    match event with
    | .arrived arrival => (i, .ok [.work 1 1 arrival.message, .ended (.failed "E" "no stock")])
    | _ => (i, .error .ended)

private def hastily : Setup Nat Unit (Instance Nat) where
  cluster := "c"
  named text := text.utf8ByteSize
  running name := ⟨name, hasty, [], [], 1⟩
  running_name _ := rfl
  acts := { noActs with work := fun _ node _ _ => .ok (.done node [], ()) }
  form := asItIs
  newInstance := ⟨[], 0, none, 0⟩

/-- A turn of a Message, what its names give gathered as `promoted`, that holds a place whose sequence skips a
failure. -/
private def skipping (promoted : Except String (List (String × String))) : Taking :=
  ⟨⟨1, 7⟩, ⟨.active, none, [⟨9, true⟩], none, none, none, 0, []⟩,
    ⟨1, "Order", none, none, none, none, none, none, none, promoted⟩⟩

/-- A Message a route technology refuses fails its turn, and keeps its place in a sequence that skips a failure. -/
theorem skip_kept_by_unread_keys :
    ¬ ∀ asked, (skipping (.error "no body")).asks hastily (hastily.running "Order") (fun _ => .ok (1, none)) 0 =
        some asked → ∀ point, pointOf (skipping (.error "no body")).journey = some point → asked.Follows point := by
  intro h
  have hfollows := (Taking.fail_follows "no body").1 (h _ rfl _ rfl)
  cases hfollows

/-! ### The outcome the flow announced -/

/-- What comes of one thing a turn does: an act carried out, or a refusal, of the unit or of one of its acts. -/
inductive Answered where
  | carried (act : Act)
  | refused (why : Refused)
  deriving DecidableEq

/-- The acts one event asks for, in order, up to one that is refused. -/
def Loop.answers (acts : Acts μ) : List Act → Loop μ → List Answered
  | [], _ => []
  | act :: rest, l =>
    if mostActs < l.carried + 1 then [.refused (.unfit "it asked for more than 10000 acts")]
    else match Loop.act acts { l with carried := l.carried + 1 } act with
      | .ok l => .carried act :: Loop.answers acts rest l
      | .error why => [.refused (.unfit why)]

/-- What comes of everything a turn does, event by event. -/
def answersLoop (flow : Flow σ) (acts : Acts μ) (now : Int) : Nat → Instance σ → Loop μ → List Answered
  | 0, _, _ => [.refused (.unfit "")]
  | fuel + 1, i, l =>
    match l.events with
    | [] => []
    | event :: events =>
      match flow.advance i event now with
      | (_, .error refused) => [.refused refused]
      | (i, .ok asked) =>
        Loop.answers acts asked { l with events } ++
          match Loop.carry acts asked { l with events } with
          | .ok l => answersLoop flow acts now fuel i l
          | .error _ => []

/-- What comes of everything a turn of `t` does, from its Instance's record read as `record`. -/
def Taking.answers (c : Setup σ μ β) (t : Taking) (running : Running σ) (keys : List (Nat × String))
    (record : Option (InstanceRecord β)) (now : Int) : List Answered :=
  match c.begins record, t.event running keys with
  | .ok i, .ok event =>
    answersLoop running.flow c.acts now (mostActs + 2) i ⟨c.acts.starting t.message t.claim.token, [event], none, 0⟩
  | _, _ => []

/-- The outcome an answer announces. -/
def Answered.outcome : Answered → Option Outcome
  | .carried (.ended outcome) => some outcome
  | _ => none

section Announced

variable {acts : Acts μ} {flow : Flow σ} {now : Int}

/-- The outcome announced last, or the one before. -/
private def lastOr (answers : List Answered) (ended : Option Outcome) : Option Outcome :=
  (answers.filterMap Answered.outcome).getLast?.or ended

private theorem lastOr_append (l l' : List Answered) (ended : Option Outcome) :
    lastOr (l ++ l') ended = lastOr l' (lastOr l ended) := by
  simp [lastOr, List.getLast?_append, Option.or_assoc]

private theorem act_ended {l l' : Loop μ} {act : Act} (h : Loop.act acts l act = .ok l') :
    l'.ended = lastOr [.carried act] l.ended := by
  cases act with
  | ended outcome =>
    cases h
    rfl
  | work | combine | publish =>
    simp only [Loop.act] at h
    obtain ⟨x, -, rfl⟩ := map_answers_iff.1 h
    rfl

/-- What the acts of one event come to: where all were carried out, the outcome is the one announced last; where one was
refused, that refusal is the last of the answers. -/
private theorem answers_carry (asked : List Act) (l : Loop μ) :
    (∀ l', Loop.carry acts asked l = .ok l' →
      l'.ended = lastOr (Loop.answers acts asked l) l.ended ∧ ∀ r, .refused r ∉ Loop.answers acts asked l) ∧
    ∀ r, Loop.carry acts asked l = .error r → ∀ r', .refused r' ∈ Loop.answers acts asked l ↔ r' = r := by
  induction asked generalizing l with
  | nil =>
    constructor
    · intro l' h
      cases h
      exact ⟨rfl, by simp [Loop.answers]⟩
    · intro r h
      cases h
  | cons act asked ih =>
    unfold Loop.carry Loop.answers
    by_cases hmost : mostActs < l.carried + 1
    · simp only [hmost, if_true]
      constructor
      · intro l' h
        cases h
      · intro r h r'
        cases h
        simp
    · simp only [hmost, if_false]
      cases hact : Loop.act acts { l with carried := l.carried + 1 } act with
      | error why =>
        constructor
        · intro l' h
          cases h
        · intro r h r'
          cases h
          simp
      | ok m =>
        have hended := act_ended hact
        simp only [List.mem_cons, reduceCtorEq, false_or]
        constructor
        · intro l' h
          obtain ⟨hlast, hnone⟩ := (ih m).1 l' h
          refine ⟨?_, hnone⟩
          rw [hlast, hended, ← lastOr_append]
          rfl
        · exact (ih m).2

/-- What a turn's loop comes to: a refusal is the one answered, and where there is none the outcome is the one announced
last. -/
private theorem answers_advance (fuel : Nat) (i : Instance σ) (l : Loop μ) :
    (∀ r, (advanceLoop flow acts now fuel i l).outcome = .error r ↔ .refused r ∈ answersLoop flow acts now fuel i l) ∧
    ∀ ended, (advanceLoop flow acts now fuel i l).outcome = .ok ended →
      ended = lastOr (answersLoop flow acts now fuel i l) l.ended := by
  induction fuel generalizing i l with
  | zero => simp [advanceLoop, answersLoop, eq_comm]
  | succ fuel ih =>
    unfold advanceLoop answersLoop
    cases l.events with
    | nil => simp [lastOr, eq_comm]
    | cons event events =>
      simp only
      rcases flow.advance i event now with ⟨i', refused | asked⟩
      · simp [eq_comm]
      · simp only
        obtain ⟨hok, herror⟩ := @answers_carry μ acts asked { l with events }
        cases hcarry : Loop.carry acts asked { l with events } with
        | error r =>
          simp only [List.append_nil, herror r hcarry, Except.error.injEq, reduceCtorEq, false_implies, implies_true,
            and_true]
          exact fun r' => eq_comm
        | ok m =>
          obtain ⟨hlast, hnone⟩ := hok m hcarry
          simp only [List.mem_append, hnone, false_or]
          refine ⟨(ih i' m).1, fun ended h => ?_⟩
          rw [(ih i' m).2 ended h, hlast, lastOr_append]

end Announced

/-- The state a Journey is written in by the outcome of its Instance. -/
def Outcome.state : Outcome → JourneyState
  | .completed => .completed
  | .failed .. => .failed

/-- What is written of an outcome for an operator. -/
def Outcome.failure (running : Running σ) : Outcome → Option Failure
  | .completed => none
  | .failed code reason => some ⟨running.queue, running.name ++ " threw " ++ code ++ ": " ++ reason⟩

/-- A turn's write ends its Instance with `outcome`. -/
structure Turn.Ends (turn : Turn β) (running : Running σ) (outcome : Outcome) : Prop where
  ended : turn.record.ended = true
  state : turn.handOn.result.state = outcome.state
  failed : turn.handOn.failed = outcome.failure running

/-- Every outcome announced in a turn is the one written. -/
def Taking.WritesAnnounced (c : Setup σ μ β) (t : Taking) (running : Running σ) (keys : List (Nat × String)) (id : Nat)
    (record : Option (InstanceRecord β)) (now : Int) : Prop :=
  ∀ outcome, .carried (.ended outcome) ∈ t.answers c running keys record now →
    ∃ turn, t.take c running keys id record now = .ok (some turn) ∧ turn.Ends running outcome

/-- Once the unit has announced an outcome it announces no other, and it and its acts refuse nothing that is delivered
still; but a unit that announced it completed may answer that it has ended. -/
def Taking.SpeaksOnce (c : Setup σ μ β) (t : Taking) (running : Running σ) (keys : List (Nat × String))
    (record : Option (InstanceRecord β)) (now : Int) : Prop :=
  ∀ outcome, .carried (.ended outcome) ∈ t.answers c running keys record now →
    (∀ other, .carried (.ended other) ∈ t.answers c running keys record now →
      other.failure running = outcome.failure running) ∧
    ∀ refused, .refused refused ∈ t.answers c running keys record now → refused = .ended ∧ outcome = .completed

section Outcomes

variable {c : Setup σ μ β} {t : Taking} {running : Running σ} {keys : List (Nat × String)} {id : Nat}
  {record : Option (InstanceRecord β)} {now : Int}

/-- How a turn written ends its Instance says which outcome it was. -/
private theorem failure_of_ends {turn : Turn β} {o o' : Outcome} (h : turn.Ends running o) (h' : turn.Ends running o') :
    o.failure running = o'.failure running := h.failed.symm.trans h'.failed

private theorem completed_of_failure {o : Outcome} (h : o.failure running = Outcome.completed.failure running) :
    o = .completed := by
  cases o with
  | completed => rfl
  | failed => cases h

private theorem written_ends (read : Nat) (i : Instance σ) (made : μ) (o : Outcome) :
    (t.written c running id read i made (some o) now).Ends running o := by
  cases o with
  | completed => exact ⟨rfl, rfl, rfl⟩
  | failed code reason => exact ⟨rfl, rfl, rfl⟩

/-- A turn that answered anything advanced its Instance: its refusal is the one answered, else its outcome is the one
announced last. -/
private theorem advanced_of_answers {a : Answered} (h : a ∈ t.answers c running keys record now) :
    ∃ i event, t.take c running keys id record now =
        (outcomeOf (c.advanced t running i event now).outcome >>= fun ended => .ok (ended.map fun ended =>
          t.written c running id (record.elim 0 InstanceRecord.turns) (c.advanced t running i event now).instance_
            (c.advanced t running i event now).made ended now)) ∧
      (∀ r, (c.advanced t running i event now).outcome = .error r ↔ .refused r ∈ t.answers c running keys record now) ∧
      ∀ ended, (c.advanced t running i event now).outcome = .ok ended →
        ended = lastOr (t.answers c running keys record now) none := by
  unfold Taking.answers at h ⊢
  cases hi : c.begins record with
  | error why => simp [hi] at h
  | ok i =>
    cases hevent : t.event running keys with
    | error why => simp [hi, hevent] at h
    | ok event =>
      refine ⟨i, event, ?_, answers_advance (mostActs + 2) i _⟩
      unfold Taking.take
      rw [hi, hevent]
      rfl

/-- A turn that met a refusal writes only where that says the Instance has ended, and then that it completed. -/
private theorem take_of_refused {r : Refused} (h : .refused r ∈ t.answers c running keys record now) :
    (∀ turn, t.take c running keys id record now = .ok (some turn) → r = .ended) ∧
      (r = .ended → ∃ turn, t.take c running keys id record now = .ok (some turn) ∧ turn.Ends running .completed) := by
  obtain ⟨i, event, htake, hrefused, -⟩ := @advanced_of_answers σ μ β c t running keys id record now _ h
  rw [htake, (hrefused r).2 h]
  cases r with
  | ended => exact ⟨fun turn _ => rfl, fun _ => ⟨_, rfl, written_ends ..⟩⟩
  | notWaiting | unfit =>
    constructor
    · intro turn hturn
      cases hturn
    · intro hr
      cases hr

/-- A turn that announced an outcome and met no refusal writes the one it announced last. -/
private theorem take_of_announced {o : Outcome} (h : .carried (.ended o) ∈ t.answers c running keys record now)
    (hnone : ∀ r, .refused r ∉ t.answers c running keys record now) :
    ∃ turn last, t.take c running keys id record now = .ok (some turn) ∧ turn.Ends running last ∧
      .carried (.ended last) ∈ t.answers c running keys record now := by
  obtain ⟨i, event, htake, hrefused, hended⟩ := @advanced_of_answers σ μ β c t running keys id record now _ h
  cases hout : (c.advanced t running i event now).outcome with
  | error r => exact absurd ((hrefused r).1 hout) (hnone r)
  | ok ended =>
    have hmem : o ∈ (t.answers c running keys record now).filterMap Answered.outcome :=
      List.mem_filterMap.2 ⟨_, h, rfl⟩
    obtain ⟨last, hlast⟩ := Option.ne_none_iff_exists'.1 (mt List.getLast?_eq_none_iff.1 (List.ne_nil_of_mem hmem))
    obtain ⟨a, ha, houtcome⟩ := List.mem_filterMap.1 (List.mem_of_getLast? hlast)
    have hsome : ended = some last := by
      rw [hended ended hout, lastOr, hlast]
      rfl
    rw [htake, hout, hsome]
    refine ⟨_, last, rfl, written_ends .., ?_⟩
    rcases a with (_ | _ | _ | o') | r
    all_goals cases houtcome
    exact ha

private theorem state_of_failure {o o' : Outcome} (h : o.failure running = o'.failure running) : o.state = o'.state := by
  cases o with
  | completed =>
    cases o' with
    | completed => rfl
    | failed => cases h
  | failed =>
    cases o' with
    | completed => cases h
    | failed => rfl

/-- A turn writes the outcome its unit announced, exactly where the unit spoke once. -/
theorem writesAnnounced_iff_speaksOnce (c : Setup σ μ β) (t : Taking) (running : Running σ)
    (keys : List (Nat × String)) (id : Nat) (record : Option (InstanceRecord β)) (now : Int) :
    t.WritesAnnounced c running keys id record now ↔ t.SpeaksOnce c running keys record now := by
  constructor
  · intro h outcome houtcome
    obtain ⟨turn, htake, hends⟩ := h outcome houtcome
    constructor
    · intro other hother
      obtain ⟨turn', htake', hends'⟩ := h other hother
      rw [htake] at htake'
      cases htake'
      exact failure_of_ends hends' hends
    · intro refused hrefused
      obtain ⟨hr, hcompleted⟩ := @take_of_refused σ μ β c t running keys id record now _ hrefused
      have hended : refused = .ended := hr turn htake
      obtain ⟨turn', htake', hends'⟩ := hcompleted hended
      rw [htake] at htake'
      cases htake'
      exact ⟨hended, completed_of_failure (failure_of_ends hends hends')⟩
  · intro h outcome houtcome
    obtain ⟨hothers, hrefused⟩ := h outcome houtcome
    by_cases hany : ∃ r, .refused r ∈ t.answers c running keys record now
    · obtain ⟨r, hr⟩ := hany
      obtain ⟨rfl, rfl⟩ := hrefused r hr
      exact (take_of_refused hr).2 rfl
    · obtain ⟨turn, last, htake, hends, hlast⟩ := take_of_announced houtcome (not_exists.1 hany)
      have hsame := hothers last hlast
      exact ⟨turn, htake, hends.ended, hends.state.trans (state_of_failure hsame), hends.failed.trans hsame⟩

end Outcomes

/-- A unit asks for work and announces that it failed; what the work answers is delivered still, the unit says of it
that it has ended, and the turn is written as completed. -/
theorem failure_written_completed :
    ¬ (skipping (.ok [])).WritesAnnounced hastily (hastily.running "Order") [] 1 none 0 := by
  intro h
  obtain ⟨turn, hturn, hends⟩ := h (.failed "E" "no stock") (by decide +kernel)
  have hstate : turn.handOn.result.state = .completed := by
    cases hturn
    rfl
  have hfailed : turn.handOn.result.state = .failed := hends.state
  rw [hstate] at hfailed
  cases hfailed

end WorkStep
