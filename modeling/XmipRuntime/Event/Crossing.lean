import Mathlib.Algebra.Ring.Int.Defs
import Mathlib.Data.String.Basic
import XmipRuntime.Library.Answers

/-!
# An Event across the header

An Event as `xmip_operate.h` lays it out, read from a program and written for one (`src/ffi/event/crossing.rs`), with the
header's integers for what the Event was doing and how it ended (`src/wire.rs`).  A reader is handed texts by pointer and
length (`src/ffi/text.rs`), nothing where an optional one is left out, no time where the runtime is to stamp it, and the
diagnostics as one list of names and values in turn.

What `event_of` reads is `Readable`: no required text is empty, no optional one is there and empty, and it has a time.
Such an Event written for a program is read back as it was (`event_of_view_of`).
-/

namespace Crossing

open Library

/-! ### What crosses -/

/-- Why an Event is not read (`XMIP_E_MALFORMED`, `XMIP_E_INVALID`). -/
inductive Status where
  | malformed | invalid
  deriving DecidableEq

/-- A text as the header lends it: the bytes there are to read at its pointer, none where that is null. -/
abbrev Str := Option ByteArray

def borrow (text : String) : Str := some text.toUTF8

def scopeText : Str → Option String
  | none => some ""
  | some bytes => String.fromUTF8? bytes

@[simp] theorem scopeText_borrow (text : String) : scopeText (borrow text) = some text := by
  simp [scopeText, borrow, String.fromUTF8?, String.isValidUTF8, String.fromUTF8]

inductive Stage where
  | receive | process | send
  deriving DecidableEq

inductive Outcome where
  | success | failure | rejection | waiting | pause | timeout | exhaustedRetries | dismissal
  deriving DecidableEq

/-- The header's own: an `int` of its own for each stage and for each outcome, and the text that is lent for none. -/
structure Header where
  stage : Stage → Int32
  outcome : Outcome → Int32
  empty : Str
  stagesDiffer : Function.Injective stage
  outcomesDiffer : Function.Injective outcome
  emptyReads : scopeText empty = some ""

namespace Header

variable (header : Header)

def stageOf (value : Int32) : Option Stage :=
  if value = header.stage .receive then some .receive
  else if value = header.stage .process then some .process
  else if value = header.stage .send then some .send
  else none

def wireStage (stage : Stage) : Int32 := header.stage stage

def outcomeOf (value : Int32) : Option Outcome :=
  if value = header.outcome .success then some .success
  else if value = header.outcome .failure then some .failure
  else if value = header.outcome .rejection then some .rejection
  else if value = header.outcome .waiting then some .waiting
  else if value = header.outcome .pause then some .pause
  else if value = header.outcome .timeout then some .timeout
  else if value = header.outcome .exhaustedRetries then some .exhaustedRetries
  else if value = header.outcome .dismissal then some .dismissal
  else none

def wireOutcome (ended : Outcome) : Int32 := header.outcome ended

@[simp] theorem stageOf_wireStage (stage : Stage) : header.stageOf (header.wireStage stage) = some stage := by
  cases stage <;> simp [stageOf, wireStage, header.stagesDiffer.eq_iff]

@[simp] theorem outcomeOf_wireOutcome (ended : Outcome) : header.outcomeOf (header.wireOutcome ended) = some ended := by
  cases ended <;> simp [outcomeOf, wireOutcome, header.outcomesDiffer.eq_iff]

end Header

/-- The header's Event.  `holds` is its contract: there are as many texts to read at `diagnostics` as it says. -/
structure Wire where
  id : Str
  kind : Str
  timeUnixNanos : Int64
  action : Int32
  outcome : Int32
  scope : Str
  journey : Str
  message : Str
  stream : Str
  endpoint : Str
  module_ : Str
  artifact : Str
  party : Str
  diagnostics : Option (List Str)
  diagnosticsLen : Nat
  holds : ∀ items ∈ diagnostics, items.length = diagnosticsLen

/-- What is identified, by an identifier of its own kind. -/
inductive Kind where
  | event | journey | message | stream | party
  deriving DecidableEq

/-- How an identifier of each kind is printed, and how an Event's is read. -/
structure Identifiers (ι : Type) where
  print : Kind → ι → String
  parse : String → Option ι

/-- An identifier's text is read back as the identifier, and is never empty. -/
structure Identifiers.ReadBack {ι : Type} (ids : Identifiers ι) : Prop where
  parses : ∀ kind id, ids.parse (ids.print kind id) = some id
  shows : ∀ kind id, ids.print kind id ≠ ""

/-- The event crate's Event. -/
structure Event (ι : Type) where
  id : ι
  timeUnixNanos : Int
  kind : String
  action : Stage
  outcome : Outcome
  scope : String
  journey : Option ι
  message : Option ι
  stream : Option ι
  party : Option ι
  endpoint : Option String
  module_ : Option String
  artifact : Option String
  diagnostics : Std.ExtTreeMap String String

/-- How an Event is raised now. -/
abbrev Raises (ι : Type) := String → Stage → Outcome → String → Event ι

/-- An Event raised says what it was raised with. -/
structure Raises.Keeps {ι : Type} (raised : Raises ι) : Prop where
  kind : ∀ kind action outcome scope, (raised kind action outcome scope).kind = kind
  action : ∀ kind action outcome scope, (raised kind action outcome scope).action = action
  outcome : ∀ kind action outcome scope, (raised kind action outcome scope).outcome = outcome
  scope : ∀ kind action outcome scope, (raised kind action outcome scope).scope = scope

/-- A time that is no zero and fits the header's. -/
def Stamped (time : Int) : Prop := time ≠ 0 ∧ -2 ^ 63 ≤ time ∧ time < 2 ^ 63

/-! ### Read from a program -/

def text (value : Str) : Except Status String := (scopeText value).elim (.error .malformed) .ok

def optional (value : Str) : Except Status (Option String) :=
  (text value).map fun t => if t.isEmpty then none else some t

/-- `len` items at `items`, or none. -/
def slice {α : Type} (items : Option (List α)) (len : Nat) : List α :=
  match items with
  | none => []
  | some items => if len = 0 then [] else items.take len

/-- The names and values of `pairs` in turn, put into `diagnostics`; a last one alone is left. -/
def inserted (diagnostics : Std.ExtTreeMap String String) : List Str → Except Status (Std.ExtTreeMap String String)
  | name :: value :: pairs => do
    let n ← text name
    let v ← text value
    inserted (diagnostics.insert n v) pairs
  | _ => .ok diagnostics

variable {ι : Type}

def parsed (ids : Identifiers ι) (value : Str) : Except Status (Option ι) := do
  match ← optional value with
  | none => .ok none
  | some t => (ids.parse t).elim (.error .malformed) fun id => .ok (some id)

def eventOf (header : Header) (ids : Identifiers ι) (raised : Raises ι) (wire : Wire) : Except Status (Event ι) := do
  let kind ← text wire.kind
  let scope ← text wire.scope
  let stage ← (header.stageOf wire.action).elim (.error .invalid) .ok
  let ended ← (header.outcomeOf wire.outcome).elim (.error .invalid) .ok
  if kind.isEmpty || scope.isEmpty || wire.diagnosticsLen % 2 != 0 then .error .invalid
  else
    let event := raised kind stage ended scope
    let id ← parsed ids wire.id
    let journey ← parsed ids wire.journey
    let message ← parsed ids wire.message
    let stream ← parsed ids wire.stream
    let party ← parsed ids wire.party
    let endpoint ← optional wire.endpoint
    let module_ ← optional wire.module_
    let artifact ← optional wire.artifact
    let diagnostics ← inserted ∅ (slice wire.diagnostics wire.diagnosticsLen)
    .ok { event with
      id := id.getD event.id
      timeUnixNanos := if wire.timeUnixNanos ≠ 0 then wire.timeUnixNanos.toInt else event.timeUnixNanos
      journey, message, stream, party, endpoint, module_, artifact, diagnostics }

/-! ### Written for a program -/

structure Texts where
  id : String
  journey : String
  message : String
  stream : String
  party : String
  diagnostics : List Str

def textsOf (ids : Identifiers ι) (event : Event ι) : Texts where
  id := ids.print .event event.id
  journey := (event.journey.map (ids.print .journey)).getD ""
  message := (event.message.map (ids.print .message)).getD ""
  stream := (event.stream.map (ids.print .stream)).getD ""
  party := (event.party.map (ids.print .party)).getD ""
  diagnostics := event.diagnostics.toList.flatMap fun pair => [borrow pair.1, borrow pair.2]

/-- A text that may be left out, lent. -/
def Header.lent (header : Header) (value : Option String) : Str := value.elim header.empty borrow

/-- The header's time for `time`, its last where it does not fit. -/
def wireTime (time : Int) : Int64 := if -2 ^ 63 ≤ time ∧ time < 2 ^ 63 then Int64.ofInt time else Int64.maxValue

def viewOf (header : Header) (event : Event ι) (texts : Texts) : Wire where
  id := borrow texts.id
  kind := borrow event.kind
  timeUnixNanos := wireTime event.timeUnixNanos
  action := header.wireStage event.action
  outcome := header.wireOutcome event.outcome
  scope := borrow event.scope
  journey := borrow texts.journey
  message := borrow texts.message
  stream := borrow texts.stream
  endpoint := header.lent event.endpoint
  module_ := header.lent event.module_
  artifact := header.lent event.artifact
  party := borrow texts.party
  diagnostics := some texts.diagnostics
  diagnosticsLen := texts.diagnostics.length
  holds := by simp

/-! ### What is read is written so that it reads back -/

variable {header : Header} {ids : Identifiers ι} {raised : Raises ι} {wire : Wire} {event : Event ι}

@[simp] theorem text_borrow (t : String) : text (borrow t) = .ok t := by
  simp [text]

@[simp] theorem optional_borrow (t : String) : optional (borrow t) = .ok (if t.isEmpty then none else some t) := by
  simp [optional, Except.map]

/-- An optional text read is never there and empty. -/
theorem optional_ne_empty {value : Str} {t : Option String} (h : optional value = .ok t) : t ≠ some "" := by
  obtain ⟨s, -, rfl⟩ := map_answers_iff.1 h
  split
  · exact nofun
  · rename_i hs
    rintro ⟨⟩
    exact hs rfl

theorem optional_lent {t : Option String} (h : t ≠ some "") : optional (header.lent t) = .ok t := by
  cases t with
  | none => simp [Header.lent, optional, text, header.emptyReads, Except.map]
  | some t =>
    have ht : t.isEmpty = false := by
      rw [String.isEmpty_eq_false_iff]
      rintro rfl
      exact h rfl
    simp [Header.lent, ht]

theorem parsed_print (hids : ids.ReadBack) (kind : Kind) (id : ι) :
    parsed ids (borrow (ids.print kind id)) = .ok (some id) := by
  have hshows : (ids.print kind id).isEmpty = false := String.isEmpty_eq_false_iff.2 (hids.shows kind id)
  simp [parsed, hshows, hids.parses, bind, Except.bind]

theorem parsed_text (hids : ids.ReadBack) (kind : Kind) (id : Option ι) :
    parsed ids (borrow ((id.map (ids.print kind)).getD "")) = .ok id := by
  cases id with
  | none => simp [parsed, bind, Except.bind]
  | some id => exact parsed_print hids kind id

theorem toInt_wireTime {time : Int} (h : Stamped time) : (wireTime time).toInt = time := by
  unfold wireTime
  rw [if_pos h.2]
  exact Int64.toInt_ofInt_of_le h.2.1 h.2.2

theorem wireTime_ne_zero {time : Int} (h : Stamped time) : wireTime time ≠ 0 := by
  intro h0
  have hzero := toInt_wireTime h
  rw [h0] at hzero
  exact h.1 hzero.symm

theorem stamped_toInt {time : Int64} (h : time ≠ 0) : Stamped time.toInt := by
  refine ⟨fun h0 => h ?_, Int64.le_toInt time, Int64.toInt_lt time⟩
  exact Int64.toInt_inj.1 h0

theorem slice_length {α : Type} (items : List α) : slice (some items) items.length = items := by
  unfold slice
  dsimp only
  split
  · rename_i h
    exact (List.length_eq_zero_iff.1 h).symm
  · exact List.take_length

/-- Pairs lent are inserted one after the other. -/
theorem inserted_borrow (pairs : List (String × String)) (diagnostics : Std.ExtTreeMap String String) :
    inserted diagnostics (pairs.flatMap fun pair => [borrow pair.1, borrow pair.2]) =
      .ok (pairs.foldl (fun acc pair => acc.insert pair.1 pair.2) diagnostics) := by
  induction pairs generalizing diagnostics with
  | nil => rfl
  | cons pair pairs ih =>
    simp only [List.flatMap_cons, List.cons_append, List.nil_append, inserted, text_borrow, List.foldl_cons]
    exact ih _

/-- A sorted map's own pairs, inserted into an empty one, are the map. -/
theorem foldl_insert_toList (diagnostics : Std.ExtTreeMap String String) :
    diagnostics.toList.foldl (fun acc pair => acc.insert pair.1 pair.2) ∅ = diagnostics := by
  rw [← Std.ExtTreeMap.ofList_eq_foldl]
  refine Std.ExtTreeMap.ext_getElem? fun name => ?_
  cases hname : diagnostics[name]? with
  | some value =>
    exact Std.ExtTreeMap.getElem?_ofList_of_mem Std.ReflCmp.compare_self Std.ExtTreeMap.distinct_keys_toList
      (Std.ExtTreeMap.mem_toList_iff_getElem?_eq_some.2 hname)
  | none =>
    refine Std.ExtTreeMap.getElem?_ofList_of_contains_eq_false ?_
    rw [Std.ExtTreeMap.map_fst_toList_eq_keys, Std.ExtTreeMap.contains_keys, Std.ExtTreeMap.contains_eq_isSome_getElem?,
      hname]
    rfl

/-- What an Event read is: with its texts, and stamped. -/
structure Readable (event : Event ι) : Prop where
  kind : event.kind ≠ ""
  scope : event.scope ≠ ""
  endpoint : event.endpoint ≠ some ""
  module_ : event.module_ ≠ some ""
  artifact : event.artifact ≠ some ""
  stamped : Stamped event.timeUnixNanos

theorem readable_of_eventOf (hraised : raised.Keeps)
    (hstamped : ∀ kind action outcome scope, Stamped (raised kind action outcome scope).timeUnixNanos)
    (h : eventOf header ids raised wire = .ok event) : Readable event := by
  unfold eventOf at h
  obtain ⟨kind, -, h⟩ := answers_iff.1 h
  obtain ⟨scope, -, h⟩ := answers_iff.1 h
  obtain ⟨stage, -, h⟩ := answers_iff.1 h
  obtain ⟨ended, -, h⟩ := answers_iff.1 h
  split at h
  · cases h
  rename_i hrequired
  obtain ⟨id, -, h⟩ := answers_iff.1 h
  obtain ⟨journey, -, h⟩ := answers_iff.1 h
  obtain ⟨message, -, h⟩ := answers_iff.1 h
  obtain ⟨stream, -, h⟩ := answers_iff.1 h
  obtain ⟨party, -, h⟩ := answers_iff.1 h
  obtain ⟨endpoint, hendpoint, h⟩ := answers_iff.1 h
  obtain ⟨module_, hmodule, h⟩ := answers_iff.1 h
  obtain ⟨artifact, hartifact, h⟩ := answers_iff.1 h
  obtain ⟨diagnostics, -, h⟩ := answers_iff.1 h
  cases h
  simp only [Bool.or_eq_true, not_or, Bool.not_eq_true, String.isEmpty_eq_false_iff] at hrequired
  refine ⟨?_, ?_, optional_ne_empty hendpoint, optional_ne_empty hmodule, optional_ne_empty hartifact, ?_⟩
  · rw [hraised.kind]
    exact hrequired.1.1
  · rw [hraised.scope]
    exact hrequired.1.2
  · dsimp only
    split
    · rename_i htime
      exact stamped_toInt htime
    · exact hstamped _ _ _ _

/-- The Event's texts are one for each name and one for each value. -/
theorem diagnostics_even (pairs : List (String × String)) :
    (pairs.flatMap fun pair => [borrow pair.1, borrow pair.2]).length % 2 = 0 := by
  induction pairs with
  | nil => rfl
  | cons pair pairs ih =>
    rw [List.flatMap_cons, List.length_append]
    simp only [List.length_cons, List.length_nil]
    omega

/-- An Event like one read, written for a program, is read from that as it is. -/
theorem eventOf_viewOf (hids : ids.ReadBack) (hraised : raised.Keeps) (h : Readable event) :
    eventOf header ids raised (viewOf header event (textsOf ids event)) = .ok event := by
  have hkind : event.kind.isEmpty = false := String.isEmpty_eq_false_iff.2 h.kind
  have hscope : event.scope.isEmpty = false := String.isEmpty_eq_false_iff.2 h.scope
  have heven := diagnostics_even event.diagnostics.toList
  have hdiagnostics := inserted_borrow event.diagnostics.toList ∅
  rw [foldl_insert_toList] at hdiagnostics
  simp only [eventOf, viewOf, textsOf, text_borrow, Header.stageOf_wireStage, Header.outcomeOf_wireOutcome, slice_length,
    hdiagnostics, hkind, hscope, heven, parsed_print hids, parsed_text hids, optional_lent h.endpoint,
    optional_lent h.module_, optional_lent h.artifact, toInt_wireTime h.stamped, bind, Except.bind,
    Option.elim_some]
  simp [hraised.kind, hraised.action, hraised.outcome, hraised.scope, wireTime_ne_zero h.stamped]

/-- An Event a program raised, once read, crosses back and is read again as the same: field for field, however its
diagnostics were given. -/
theorem crosses_unchanged (header : Header) (ids : Identifiers ι) (hids : ids.ReadBack) (raised again : Raises ι)
    (hraised : raised.Keeps) (hagain : again.Keeps)
    (hstamped : ∀ kind action outcome scope, Stamped (raised kind action outcome scope).timeUnixNanos)
    (wire : Wire) (event : Event ι) (h : eventOf header ids raised wire = .ok event) :
    eventOf header ids again (viewOf header event (textsOf ids event)) = .ok event :=
  eventOf_viewOf hids hagain (readable_of_eventOf hraised hstamped h)

section Instance

/-- A header that numbers the stages and the outcomes, and lends nothing for no text. -/
private def numbered : Header where
  stage
    | .receive => 0
    | .process => 1
    | .send => 2
  outcome
    | .success => 0
    | .failure => 1
    | .rejection => 2
    | .waiting => 3
    | .pause => 4
    | .timeout => 5
    | .exhaustedRetries => 6
    | .dismissal => 7
  empty := none
  stagesDiffer := by
    intro a b h
    cases a <;> cases b <;> first | rfl | exact absurd h (by decide)
  outcomesDiffer := by
    intro a b h
    cases a <;> cases b <;> first | rfl | exact absurd h (by decide)
  emptyReads := rfl

/-- Identifiers printed as so many strokes and one. -/
private def strokes : Identifiers Nat where
  print _ id := String.ofList (List.replicate (id + 1) 'x')
  parse t := if t.toList.all (· == 'x') then some (t.toList.length - 1) else none

private theorem strokes_readBack : strokes.ReadBack where
  parses kind id := by simp [strokes]
  shows kind id := by
    rw [← String.toList_inj.ne]
    simp [strokes, List.replicate_succ]

/-- Raised at one instant, with no identifier but its own. -/
private def raisedAt (time : Int) : Raises Nat := fun kind action outcome scope =>
  ⟨0, time, kind, action, outcome, scope, none, none, none, none, none, none, none, ∅⟩

private theorem raisedAt_keeps (time : Int) : (raisedAt time).Keeps where
  kind _ _ _ _ := rfl
  action _ _ _ _ := rfl
  outcome _ _ _ _ := rfl
  scope _ _ _ _ := rfl

private theorem stamped_five : Stamped 5 := by unfold Stamped; decide

/-- A send that failed, with no identifier and no time, a Message's identifier, and one name of its diagnostics twice. -/
private def failedSend : Wire where
  id := none
  kind := borrow "send"
  timeUnixNanos := 0
  action := 2
  outcome := 1
  scope := borrow "node/send/orders"
  journey := none
  message := borrow "xxx"
  stream := none
  endpoint := borrow "orders"
  module_ := none
  artifact := borrow ""
  party := none
  diagnostics := some [borrow "z", borrow "1", borrow "a", borrow "2", borrow "z", borrow "3"]
  diagnosticsLen := 6
  holds := by simp

private def failedEvent : Event Nat :=
  ⟨0, 5, "send", .send, .failure, "node/send/orders", none, some 2, none, none, some "orders", none, none,
    ((∅ : Std.ExtTreeMap String String).insert "z" "1" |>.insert "a" "2" |>.insert "z" "3")⟩

private theorem failedSend_read : eventOf numbered strokes (raisedAt 5) failedSend = .ok failedEvent := by
  have hnone : parsed strokes none = .ok none := rfl
  have hmessage : parsed strokes (borrow "xxx") = .ok (some 2) := parsed_print strokes_readBack .message 2
  have hleft : optional none = .ok none := rfl
  have hstage : numbered.stageOf 2 = some .send := rfl
  have houtcome : numbered.outcomeOf 1 = some .failure := rfl
  simp only [eventOf, failedSend, text_borrow, optional_borrow, hnone, hmessage, hleft, hstage, houtcome, slice,
    bind, Except.bind, Option.elim_some]
  rfl

theorem failedSend_crosses_unchanged :
    eventOf numbered strokes (raisedAt 5) failedSend = .ok failedEvent ∧
      eventOf numbered strokes (raisedAt 9) (viewOf numbered failedEvent (textsOf strokes failedEvent)) =
        .ok failedEvent :=
  ⟨failedSend_read, crosses_unchanged numbered strokes strokes_readBack (raisedAt 5) (raisedAt 9) (raisedAt_keeps 5)
    (raisedAt_keeps 9) (fun _ _ _ _ => stamped_five) failedSend failedEvent failedSend_read⟩

end Instance

end Crossing
