import Mathlib.Algebra.BigOperators.Group.List.Basic
import Mathlib.Algebra.Ring.Nat
import XmipRuntime.Ledger.WriteStream

/-!
# A Message split into its records

`split::whole` (`src/split.rs`) feeds a Message's bytes to a splitting unit as they are read and writes every record the
unit completes as a Stream of its own, until the first the unit refuses; from there on it only gathers what is refused.
Where nothing was refused the Streams are made Messages, each with its position, their number and the Message they were
split from.

The unit is any state with an answer to every chunk and to the end.  What outcomes are gathered in and a Message's context
are other programs', used through what `Gathers` and `Carries` say of them; identifiers are drawn from a sequence.
-/

namespace Split

open Library
open WriteStream (Bytes Failed Kept Call StreamDigest)

/-! ### The unit and what it is fed -/

inductive Record where
  | part (bytes : Bytes)
  | refused (reason : String)
  deriving DecidableEq

/-- A splitting unit: what it answers a chunk and the end of the bytes. -/
structure SplitUnit (υ : Type) where
  feed : υ → Bytes → υ × List Record
  finish : υ → List Record

/-- A Section's reader: why there is none, or what each of its reads comes to, no bytes being the end. -/
abbrev Reads := Except String (List (Except String Bytes))

/-- The Message that is split. -/
structure Source (κ : Type) where
  id : Nat
  sections : List Reads
  context : κ

inductive ScalarValue where
  | text (value : String)
  | integer (value : Int)
  deriving DecidableEq

/-- A Message's context, by what is read of it and what it is given. -/
structure Contexts (κ : Type) where
  get : κ → String → Option ScalarValue
  withValue : κ → String → ScalarValue → κ

/-- A context given a value has it, and everything else as before. -/
def Contexts.Carries {κ : Type} (x : Contexts κ) : Prop :=
  ∀ context name value other, x.get (x.withValue context name value) other =
    if other = name then some value else x.get context other

/-- One failure gathered. -/
structure Failure where
  code : String
  reason : String
  artifact : Option String
  position : Nat
  deriving DecidableEq

/-- How outcomes are gathered: the position of the next item, one that succeeded, and one that failed. -/
structure Gathering (γ : Type) where
  new : γ
  took : γ → Nat × γ
  succeed : γ → Nat → γ
  fail : γ → String → String → Option String → Nat → γ
  isEmpty : γ → Bool
  total : γ → Nat
  failed : γ → List Failure

/-- Items are numbered from one as they are taken, and every failure is kept as it was gathered. -/
structure Gathering.Gathers {γ : Type} (x : Gathering γ) : Prop where
  new : x.total x.new = 0 ∧ x.failed x.new = []
  took : ∀ g, (x.took g).1 = x.total g + 1 ∧ x.total (x.took g).2 = x.total g + 1 ∧ x.failed (x.took g).2 = x.failed g
  succeed : ∀ g position, x.total (x.succeed g position) = x.total g ∧ x.failed (x.succeed g position) = x.failed g
  fail : ∀ g code reason artifact position, x.total (x.fail g code reason artifact position) = x.total g ∧
    x.failed (x.fail g code reason artifact position) = x.failed g ++ [⟨code, reason, artifact, position⟩]
  isEmpty : ∀ g, x.isEmpty g = true ↔ x.failed g = []

/-! ### Splitting -/

/-- The Section over a record's Stream. -/
structure Section where
  id : Nat
  stream : Kept
  deriving DecidableEq

/-- What a record is made: a Message of the next generation of the one split. -/
structure Part (κ : Type) where
  id : Nat
  previous : Nat
  sections : List Section
  context : κ

/-- What a splitting is made with. -/
structure Setup (η δ γ κ : Type) where
  (trapping : Bool)
  digest : StreamDigest η δ
  chunk : Nat
  refuses : Nat → Option String
  ids : Nat → Nat
  gathering : Gathering γ
  contexts : Contexts κ
  artifact : Option String

/-- How far a splitting is: the calls Xmip Storage took, the identifiers drawn, the Sections written and the outcomes. -/
structure State (δ γ : Type) where
  taken : List (Call δ)
  drawn : Nat
  written : List Section
  failures : γ

def codeRefused : String := "record-refused"

def nameBatch : String := "debatch.message"

def namePosition : String := "debatch.position"

def nameCount : String := "debatch.count"

variable {η δ γ κ υ : Type}

namespace Setup

variable (c : Setup η δ γ κ)

/-- What a Stream is written with, where Xmip Storage took `calls` before. -/
def writer (calls stream : Nat) : WriteStream.Setup η δ :=
  ⟨c.trapping, c.digest, stream, max c.chunk 1, fun i => c.refuses (calls + i)⟩

/-- `bytes` as a Stream in the Ledger, and the Section over it. -/
def writeSection (s : State δ γ) (bytes : Bytes) : Except Failed Section × State δ γ :=
  match (c.writer s.taken.length (c.ids s.drawn)).writeStream [.data bytes] with
  | (.error failed, taken) => (.error failed, { s with taken := s.taken ++ taken, drawn := s.drawn + 1 })
  | (.ok kept, taken) =>
    (.ok ⟨c.ids (s.drawn + 1), kept⟩, { s with taken := s.taken ++ taken, drawn := s.drawn + 2 })

/-- One record: written while none was refused, counted, or gathered as refused. -/
def writeOne (s : State δ γ) (record : Record) : Option Failed × State δ γ :=
  let position := (c.gathering.took s.failures).1
  let s := { s with failures := (c.gathering.took s.failures).2 }
  match record with
  | .part bytes =>
    if c.gathering.isEmpty s.failures then
      match c.writeSection s bytes with
      | (.error failed, s) => (some failed, s)
      | (.ok written, s) => (none, { s with
          written := s.written ++ [written]
          failures := c.gathering.succeed s.failures position })
    else (none, { s with failures := c.gathering.succeed s.failures position })
  | .refused reason =>
    (none, { s with failures := c.gathering.fail s.failures codeRefused reason c.artifact position })

/-- The records one chunk completed, in order, up to the first that could not be written. -/
def write (s : State δ γ) : List Record → Option Failed × State δ γ
  | [] => (none, s)
  | record :: records =>
    match c.writeOne s record with
    | (some failed, s) => (some failed, s)
    | (none, s) => write s records

/-- What was split made Messages: each Section one, with its position, their number and the Message split. -/
def parts (source : Source κ) (drawn : Nat) (sections : List Section) : List (Part κ) :=
  sections.zipIdx.map fun x =>
    let context := c.contexts.withValue source.context nameBatch (.text (toString source.id))
    let context := c.contexts.withValue context namePosition (.integer (x.2 + 1))
    let context := c.contexts.withValue context nameCount (.integer sections.length)
    ⟨c.ids (drawn + x.2), source.id, [x.1], context⟩

variable (u : SplitUnit υ)

/-- Why a Message could not be split for want of its bytes. -/
def unread (id : Nat) (failed : String) : Failed :=
  .said ("the Message " ++ toString id ++ " could not be read: " ++ failed)

/-- One Section's bytes fed as they are read, up to its end. -/
def feedSection (id : Nat) (unit : υ) (s : State δ γ) : List (Except String Bytes) → Option Failed × υ × State δ γ
  | [] => (none, unit, s)
  | .error failed :: _ => (some (unread id failed), unit, s)
  | .ok [] :: _ => (none, unit, s)
  | .ok chunk :: reads =>
    match c.write s (u.feed unit chunk).2 with
    | (some failed, s) => (some failed, (u.feed unit chunk).1, s)
    | (none, s) => feedSection id (u.feed unit chunk).1 s reads

/-- The Sections' bytes fed in their order. -/
def feedSections (id : Nat) (unit : υ) (s : State δ γ) : List Reads → Option Failed × υ × State δ γ
  | [] => (none, unit, s)
  | .error failed :: _ => (some (unread id failed), unit, s)
  | .ok reads :: sections =>
    match c.feedSection u id unit s reads with
    | (some failed, unit, s) => (some failed, unit, s)
    | (none, unit, s) => feedSections id unit s sections

/-- Nothing split yet. -/
def start : State δ γ := ⟨[], 0, [], c.gathering.new⟩

/-- `source` split whole: its parts, or every record's failure, or why it could not be split; and what Xmip Storage
took. -/
def whole (unit : υ) (source : Source κ) : Except Failed (Except γ (List (Part κ))) × List (Call δ) :=
  match c.feedSections u source.id unit c.start source.sections with
  | (some failed, _, s) => (.error failed, s.taken)
  | (none, unit, s) =>
    match c.write s (u.finish unit) with
    | (some failed, s) => (.error failed, s.taken)
    | (none, s) =>
      if c.gathering.isEmpty s.failures then (.ok (.ok (c.parts source s.drawn s.written)), s.taken)
      else (.ok (.error s.failures), s.taken)

end Setup

/-! ### What the unit answers -/

namespace SplitUnit

variable (u : SplitUnit υ)

/-- The records one Section's bytes complete, the unit after them, and why the Section could not be read. -/
def readSection (unit : υ) : List (Except String Bytes) → List Record × υ × Option String
  | [] => ([], unit, none)
  | .error failed :: _ => ([], unit, some failed)
  | .ok [] :: _ => ([], unit, none)
  | .ok chunk :: reads =>
    ((u.feed unit chunk).2 ++ (readSection (u.feed unit chunk).1 reads).1, (readSection (u.feed unit chunk).1 reads).2)

def readSections (unit : υ) : List Reads → List Record × υ × Option String
  | [] => ([], unit, none)
  | .error failed :: _ => ([], unit, some failed)
  | .ok reads :: sections =>
    match u.readSection unit reads with
    | (records, unit, some failed) => (records, unit, some failed)
    | (records, unit, none) => (records ++ (readSections unit sections).1, (readSections unit sections).2)

/-- The records the unit answers a Message with, as it is read, and why it could not be read to its end. -/
def records (unit : υ) (sections : List Reads) : List Record × Option String :=
  match u.readSections unit sections with
  | (records, unit, none) => (records ++ u.finish unit, none)
  | (records, _, some failed) => (records, some failed)

end SplitUnit

def Record.isPart : Record → Bool
  | .part _ => true
  | .refused _ => false

/-- The bytes of the records before the first refused. -/
def leading : List Record → List Bytes
  | .part bytes :: records => bytes :: leading records
  | _ => []

/-- Every record refused, with its position from `n` on. -/
def refusals (artifact : Option String) : Nat → List Record → List Failure
  | _, [] => []
  | n, .part _ :: records => refusals artifact (n + 1) records
  | n, .refused reason :: records => ⟨codeRefused, reason, artifact, n⟩ :: refusals artifact (n + 1) records

theorem refusals_eq_nil_iff {artifact : Option String} {n : Nat} {records : List Record} :
    refusals artifact n records = [] ↔ ∀ r ∈ records, r.isPart = true := by
  induction records generalizing n with
  | nil => simp [refusals]
  | cons r records ih =>
    cases r with
    | part bytes => simp [refusals, Record.isPart, ih]
    | refused reason => simp [refusals, Record.isPart]

/-- Where none is refused all are leading. -/
theorem map_part_leading {records : List Record} (h : ∀ r ∈ records, r.isPart = true) :
    (leading records).map .part = records := by
  induction records with
  | nil => rfl
  | cons r records ih =>
    obtain ⟨hr, hrecords⟩ := List.forall_mem_cons.1 h
    cases r with
    | part bytes => simp only [leading, List.map_cons, ih hrecords]
    | refused reason => cases hr

/-- The leading ones, and what is behind them: nothing, or one refused and the rest. -/
theorem leading_append (records : List Record) :
    records = (leading records).map .part ∨ ∃ reason rest, records = (leading records).map .part ++ .refused reason :: rest := by
  induction records with
  | nil => exact .inl rfl
  | cons r records ih =>
    cases r with
    | refused reason => exact .inr ⟨reason, records, rfl⟩
    | part bytes =>
      rcases ih with ih | ⟨reason, rest, ih⟩
      · exact .inl (by rw [leading, List.map_cons, ← ih])
      · exact .inr ⟨reason, rest, by rw [leading, List.map_cons, List.cons_append, ← ih]⟩

/-! ### Records written one after the other -/

section Write

variable {c : Setup η δ γ κ} {s s' : State δ γ}

theorem write_append_of_none {records more : List Record} (h : c.write s records = (none, s')) :
    c.write s (records ++ more) = c.write s' more := by
  induction records generalizing s with
  | nil =>
    cases h
    rfl
  | cons r records ih =>
    simp only [List.cons_append, Setup.write] at h ⊢
    split at h
    · cases h
    · exact ih h

theorem write_append_of_some {records more : List Record} {failed : Failed} (h : c.write s records = (some failed, s')) :
    c.write s (records ++ more) = (some failed, s') := by
  induction records generalizing s with
  | nil => cases h
  | cons r records ih =>
    simp only [List.cons_append, Setup.write] at h ⊢
    split at h
    · exact h
    · exact ih h

variable {u : SplitUnit υ} {unit : υ}

/-- A Section fed writes what it completes as if it were handed over at once. -/
theorem feedSection_eq (id : Nat) {reads : List (Except String Bytes)} {o : Option Failed}
    (h : c.write s (u.readSection unit reads).1 = (o, s')) :
    ∃ unit', c.feedSection u id unit s reads = (o.or ((u.readSection unit reads).2.2.map (Setup.unread id)), unit', s') ∧
      (o = none → unit' = (u.readSection unit reads).2.1) := by
  fun_induction SplitUnit.readSection u unit reads generalizing s with
  | case1 unit | case2 unit | case3 unit =>
    cases h
    exact ⟨unit, rfl, fun _ => rfl⟩
  | case4 unit chunk reads hne ih =>
    have hfeed : c.feedSection u id unit s (.ok chunk :: reads) =
        match c.write s (u.feed unit chunk).2 with
        | (some failed, s) => (some failed, (u.feed unit chunk).1, s)
        | (none, s) => c.feedSection u id (u.feed unit chunk).1 s reads := by
      cases chunk with
      | nil => exact absurd rfl hne
      | cons => rfl
    rw [hfeed]
    split
    · rename_i failed s₁ hwrite
      rw [write_append_of_some hwrite] at h
      cases h
      exact ⟨_, rfl, fun h => absurd h (by simp)⟩
    · rename_i s₁ hwrite
      rw [write_append_of_none hwrite] at h
      exact ih h

theorem feedSections_eq (id : Nat) {sections : List Reads} {o : Option Failed}
    (h : c.write s (u.readSections unit sections).1 = (o, s')) :
    ∃ unit', c.feedSections u id unit s sections =
        (o.or ((u.readSections unit sections).2.2.map (Setup.unread id)), unit', s') ∧
      (o = none → unit' = (u.readSections unit sections).2.1) := by
  fun_induction SplitUnit.readSections u unit sections generalizing s with
  | case1 unit | case2 unit =>
    cases h
    exact ⟨unit, rfl, fun _ => rfl⟩
  | case3 unit reads sections records unit₁ failed hread =>
    have hwrite : c.write s (u.readSection unit reads).1 = (o, s') := by
      rw [hread]
      exact h
    obtain ⟨unit', hfeed, hunit⟩ := feedSection_eq id hwrite
    refine ⟨unit', ?_, fun ho => by rw [hunit ho, hread]⟩
    rw [hread] at hfeed
    cases o with
    | none => simp only [Setup.feedSections, hfeed, Option.map_some, Option.none_or]
    | some failed' => simp only [Setup.feedSections, hfeed, Option.some_or]
  | case4 unit reads sections records unit₁ hread ih =>
    cases hwrite : c.write s records with
    | mk o₁ s₁ =>
      have hwrite' : c.write s (u.readSection unit reads).1 = (o₁, s₁) := by
        rw [hread]
        exact hwrite
      obtain ⟨unit', hfeed, hunit⟩ := feedSection_eq id hwrite'
      rw [hread] at hfeed hunit
      cases o₁ with
      | some failed =>
        rw [write_append_of_some hwrite] at h
        cases h
        exact ⟨unit', by simp only [Setup.feedSections, hfeed, Option.some_or], fun h => absurd h (by simp)⟩
      | none =>
        rw [write_append_of_none hwrite] at h
        obtain ⟨unit'', hfeeds, hunit'⟩ := ih h
        refine ⟨unit'', ?_, hunit'⟩
        simp only [Setup.feedSections, hfeed, Option.map_none, Option.none_or]
        rw [hunit rfl]
        exact hfeeds

/-- A Message split writes the unit's records in order, up to where one could not be written or the Message could not be
read, and says what was gathered where neither was. -/
theorem whole_eq {source : Source κ} {o : Option Failed} (h : c.write c.start (u.records unit source.sections).1 = (o, s')) :
    (∀ failed, o = some failed → c.whole u unit source = (.error failed, s'.taken)) ∧
      (∀ failed, o = none → (u.records unit source.sections).2 = some failed →
        c.whole u unit source = (.error (Setup.unread source.id failed), s'.taken)) ∧
      (o = none → (u.records unit source.sections).2 = none → c.whole u unit source =
        (.ok (if c.gathering.isEmpty s'.failures then .ok (c.parts source s'.drawn s'.written) else .error s'.failures),
          s'.taken)) := by
  rcases hread : u.readSections unit source.sections with ⟨records, unit₁, stop⟩
  cases stop with
  | some failed =>
    have hrecords : u.records unit source.sections = (records, some failed) := by simp only [SplitUnit.records, hread]
    rw [hrecords] at h ⊢
    have hwrite : c.write c.start (u.readSections unit source.sections).1 = (o, s') := by
      rw [hread]
      exact h
    obtain ⟨unit', hfeeds, -⟩ := feedSections_eq source.id hwrite
    rw [hread] at hfeeds
    cases o with
    | some failed' =>
      refine ⟨?_, fun _ h => absurd h (by simp), fun h => absurd h (by simp)⟩
      rintro _ ⟨⟩
      simp only [Setup.whole, hfeeds, Option.some_or]
    | none =>
      refine ⟨fun _ h => absurd h (by simp), ?_, fun _ h => absurd h (by simp)⟩
      rintro _ - ⟨⟩
      simp only [Setup.whole, hfeeds, Option.map_some, Option.none_or]
  | none =>
    have hrecords : u.records unit source.sections = (records ++ u.finish unit₁, none) := by
      simp only [SplitUnit.records, hread]
    rw [hrecords] at h ⊢
    rcases hwrite : c.write c.start records with ⟨o₁, s₁⟩
    have hwrite' : c.write c.start (u.readSections unit source.sections).1 = (o₁, s₁) := by
      rw [hread]
      exact hwrite
    obtain ⟨unit', hfeeds, hunit⟩ := feedSections_eq source.id hwrite'
    rw [hread] at hfeeds hunit
    cases o₁ with
    | some failed =>
      rw [write_append_of_some hwrite] at h
      cases h
      refine ⟨?_, fun _ h => absurd h (by simp), fun h => absurd h (by simp)⟩
      rintro _ ⟨⟩
      simp only [Setup.whole, hfeeds, Option.some_or]
    | none =>
      rw [write_append_of_none hwrite] at h
      have hfeeds' : c.feedSections u source.id unit c.start source.sections = (none, unit₁, s₁) := by
        rw [hfeeds, hunit rfl]
        rfl
      refine ⟨?_, fun _ _ h => absurd h (by simp), ?_⟩
      · rintro failed rfl
        simp only [Setup.whole, hfeeds', h]
      · rintro rfl -
        simp only [Setup.whole, hfeeds', h]
        split <;> rfl

end Write

/-! ### Parts written -/

open WriteStream (Ends Written content_data)

/-- How many chunks a record's bytes make. -/
def Setup.count (c : Setup η δ γ κ) (bytes : Bytes) : Nat := (c.writer 0 0).count bytes

/-- The calls that write `bytes` as the Stream `stream`. -/
def Setup.callsOf (c : Setup η δ γ κ) (stream : Nat) (bytes : Bytes) : List (Call δ) :=
  (c.writer 0 stream).calls 0 0 c.digest.start (pieces (c.writer 0 0).size bytes)

/-- The Section over `bytes`, its identifiers drawn after `drawn` others. -/
def Setup.sectionOf (c : Setup η δ γ κ) (drawn : Nat) (bytes : Bytes) : Section :=
  ⟨c.ids (drawn + 1), ⟨c.ids drawn, bytes.length % 2 ^ 64, c.count bytes % 2 ^ 32⟩⟩

/-- One item counted that succeeded. -/
def Setup.counted (c : Setup η δ γ κ) (failures : γ) : γ :=
  c.gathering.succeed (c.gathering.took failures).2 (c.gathering.took failures).1

/-- One item gathered that was refused. -/
def Setup.gathered (c : Setup η δ γ κ) (failures : γ) (reason : String) : γ :=
  c.gathering.fail (c.gathering.took failures).2 codeRefused reason c.artifact (c.gathering.took failures).1

/-- The splitting with one part written. -/
def Setup.afterPart (c : Setup η δ γ κ) (s : State δ γ) (bytes : Bytes) : State δ γ where
  taken := s.taken ++ c.callsOf (c.ids s.drawn) bytes
  drawn := s.drawn + 2
  written := s.written ++ [c.sectionOf s.drawn bytes]
  failures := c.counted s.failures

section Parts

variable {c : Setup η δ γ κ} {s s' : State δ γ}

theorem calls_writer (n stream index length : Nat) (digest : η) (ps : List Bytes) :
    (c.writer n stream).calls index length digest ps = (c.writer 0 stream).calls index length digest ps := by
  induction ps generalizing index length digest with
  | nil => rfl
  | cons piece ps ih =>
    cases ps with
    | nil => rfl
    | cons piece' ps => exact congrArg (List.cons _) (ih (index + 1) (length + piece.length) _)

/-- The bytes of a record, in memory, are what its reader gives. -/
theorem content_bytes (bytes : Bytes) : WriteStream.content [.data bytes] = .ok bytes := by
  by_cases h : bytes = []
  · subst h
    rfl
  · rw [content_data h]
    simp [WriteStream.content, Except.map]

theorem counted_spec (hg : c.gathering.Gathers) (failures : γ) :
    c.gathering.total (c.counted failures) = c.gathering.total failures + 1 ∧
      c.gathering.failed (c.counted failures) = c.gathering.failed failures := by
  obtain ⟨-, htotal, hfailed⟩ := hg.took failures
  obtain ⟨htotal', hfailed'⟩ := hg.succeed (c.gathering.took failures).2 (c.gathering.took failures).1
  exact ⟨htotal'.trans htotal, hfailed'.trans hfailed⟩

/-- How a record's Stream ends well. -/
theorem ends_iff {calls stream : Nat} {bytes : Bytes} {kept : Kept} {taken : List (Call δ)} :
    Ends (c.writer calls stream) 0 0 c.digest.start [] bytes kept taken ↔
      (∀ i < c.count bytes, c.refuses (calls + i) = none) ∧
        (c.trapping = true → c.count bytes < 2 ^ 32 ∧ bytes.length < 2 ^ 64) ∧
        kept = ⟨stream, bytes.length % 2 ^ 64, c.count bytes % 2 ^ 32⟩ ∧ taken = c.callsOf stream bytes := by
  have hcount : (pieces (c.writer calls stream).size bytes).length = c.count bytes :=
    length_pieces (c.writer calls stream).size_pos bytes
  constructor
  · rintro ⟨htakes, hbounds, hcounts, hcalls⟩
    rw [hcount] at htakes hbounds hcounts
    simp only [Nat.zero_add] at htakes hbounds hcounts
    refine ⟨htakes, hbounds, hcounts, ?_⟩
    rw [hcalls, List.nil_append, calls_writer]
    rfl
  · rintro ⟨htakes, hbounds, hcounts, hcalls⟩
    refine ⟨?_, ?_, ?_, ?_⟩
    · rw [hcount]
      simp only [Nat.zero_add]
      exact htakes
    · rw [hcount]
      simp only [Nat.zero_add]
      exact hbounds
    · rw [hcount]
      simp only [Nat.zero_add]
      exact hcounts
    · rw [hcalls, List.nil_append, calls_writer]
      rfl

theorem writeStream_bytes_iff {calls stream : Nat} {bytes : Bytes} {kept : Kept} {taken : List (Call δ)} :
    (c.writer calls stream).writeStream [.data bytes] = (.ok kept, taken) ↔
      Ends (c.writer calls stream) 0 0 c.digest.start [] bytes kept taken := by
  rw [WriteStream.writeStream_iff, content_bytes]
  constructor
  · rintro ⟨bytes', hbytes, hends⟩
    cases hbytes
    exact hends
  · exact fun hends => ⟨bytes, rfl, hends⟩

/-- A part is written where none was refused, exactly where Xmip Storage takes its calls and no sum panics. -/
theorem writeOne_part_iff (hg : c.gathering.Gathers) (hnone : c.gathering.failed s.failures = []) {bytes : Bytes} :
    c.writeOne s (.part bytes) = (none, s') ↔
      (∀ i < c.count bytes, c.refuses (s.taken.length + i) = none) ∧
        (c.trapping = true → c.count bytes < 2 ^ 32 ∧ bytes.length < 2 ^ 64) ∧ s' = c.afterPart s bytes := by
  have hempty : c.gathering.isEmpty (c.gathering.took s.failures).2 = true :=
    (hg.isEmpty _).2 ((hg.took s.failures).2.2.trans hnone)
  simp only [Setup.writeOne, hempty, if_true, Setup.writeSection]
  rcases hwrite : (c.writer s.taken.length (c.ids s.drawn)).writeStream [.data bytes] with ⟨_ | kept, taken⟩
  · constructor
    · intro h
      cases h
    · rintro ⟨htakes, hbounds, -⟩
      rw [writeStream_bytes_iff.2 (ends_iff.2 ⟨htakes, hbounds, rfl, rfl⟩)] at hwrite
      cases hwrite
  · obtain ⟨htakes, hbounds, rfl, rfl⟩ := ends_iff.1 (writeStream_bytes_iff.1 hwrite)
    constructor
    · intro h
      cases h
      exact ⟨htakes, hbounds, rfl⟩
    · rintro ⟨-, -, rfl⟩
      rfl

/-- What is taken of a part, written or not, is its Stream's. -/
theorem writeOne_part_taken {bytes : Bytes} {o : Option Failed} (h : c.writeOne s (.part bytes) = (o, s')) :
    ∀ call ∈ s'.taken, call ∈ s.taken ∨ call.chunk.stream = c.ids s.drawn := by
  simp only [Setup.writeOne] at h
  split at h
  · rcases hwrite : (c.writer s.taken.length (c.ids s.drawn)).writeStream [.data bytes] with ⟨_ | kept, taken⟩
    all_goals
      simp only [Setup.writeSection, hwrite, Prod.mk.injEq] at h
      obtain ⟨-, rfl⟩ := h
      intro call hcall
      rcases List.mem_append.1 hcall with hcall | hcall
      · exact .inl hcall
      · exact .inr (WriteStream.writeStream_own hwrite call hcall)
  · cases h
    exact fun call hcall => .inl hcall

/-- All parts are written where none was refused, exactly where Xmip Storage takes all their calls and no sum panics. -/
theorem write_parts_iff (hg : c.gathering.Gathers) {parts : List Bytes} (hnone : c.gathering.failed s.failures = []) :
    c.write s (parts.map .part) = (none, s') ↔
      (∀ i < (parts.map c.count).sum, c.refuses (s.taken.length + i) = none) ∧
        (c.trapping = true → ∀ bytes ∈ parts, c.count bytes < 2 ^ 32 ∧ bytes.length < 2 ^ 64) ∧
        s' = parts.foldl c.afterPart s := by
  induction parts generalizing s with
  | nil =>
    simp only [List.map_nil, Setup.write, Prod.mk.injEq, true_and, List.sum_nil, List.foldl_nil]
    constructor
    · rintro rfl
      exact ⟨fun i hi => absurd hi (Nat.not_lt_zero i), fun _ bytes hmem => absurd hmem List.not_mem_nil, rfl⟩
    · rintro ⟨-, -, rfl⟩
      rfl
  | cons bytes parts ih =>
    have hlength : (c.afterPart s bytes).taken.length = s.taken.length + c.count bytes := by
      show (s.taken ++ c.callsOf (c.ids s.drawn) bytes).length = _
      rw [List.length_append, Setup.callsOf, WriteStream.length_calls, length_pieces (c.writer 0 0).size_pos]
      rfl
    have hnone' : c.gathering.failed (c.afterPart s bytes).failures = [] :=
      (counted_spec hg s.failures).2.trans hnone
    have hsplit : (∀ i < ((bytes :: parts).map c.count).sum, c.refuses (s.taken.length + i) = none) ↔
        (∀ i < c.count bytes, c.refuses (s.taken.length + i) = none) ∧
          ∀ i < (parts.map c.count).sum, c.refuses ((c.afterPart s bytes).taken.length + i) = none := by
      rw [List.map_cons, List.sum_cons, hlength]
      constructor
      · intro h
        refine ⟨fun i hi => h i (by omega), fun i hi => ?_⟩
        rw [Nat.add_assoc]
        exact h (c.count bytes + i) (by omega)
      · rintro ⟨hfirst, hrest⟩ i hi
        by_cases hlt : i < c.count bytes
        · exact hfirst i hlt
        · have := hrest (i - c.count bytes) (by omega)
          rwa [Nat.add_assoc, Nat.add_sub_cancel' (Nat.le_of_not_lt hlt)] at this
    rw [hsplit, List.forall_mem_cons, List.foldl_cons, List.map_cons, Setup.write]
    split
    · rename_i failed s₁ hone
      constructor
      · intro h
        cases h
      · rintro ⟨⟨htakes, -⟩, hbounds, -⟩
        rw [(writeOne_part_iff hg hnone).2 ⟨htakes, fun hc => (hbounds hc).1, rfl⟩] at hone
        cases hone
    · rename_i s₁ hone
      obtain ⟨htakes, hbounds, rfl⟩ := (writeOne_part_iff hg hnone).1 hone
      rw [ih hnone']
      constructor
      · rintro ⟨htakes', hbounds', rfl⟩
        exact ⟨⟨htakes, htakes'⟩, fun hc => ⟨hbounds hc, hbounds' hc⟩, rfl⟩
      · rintro ⟨⟨-, htakes'⟩, hbounds', rfl⟩
        exact ⟨htakes', fun hc => (hbounds' hc).2, rfl⟩

/-! ### Once one is refused -/

theorem gathered_spec (hg : c.gathering.Gathers) (failures : γ) (reason : String) :
    c.gathering.total (c.gathered failures reason) = c.gathering.total failures + 1 ∧
      c.gathering.failed (c.gathered failures reason) =
        c.gathering.failed failures ++ [⟨codeRefused, reason, c.artifact, c.gathering.total failures + 1⟩] := by
  obtain ⟨hposition, htotal, hfailed⟩ := hg.took failures
  obtain ⟨htotal', hfailed'⟩ :=
    hg.fail (c.gathering.took failures).2 codeRefused reason c.artifact (c.gathering.took failures).1
  refine ⟨htotal'.trans htotal, ?_⟩
  rw [← hfailed, ← hposition]
  exact hfailed'

/-- Once one was refused nothing more is written, and every record is counted or gathered. -/
theorem write_failing (hg : c.gathering.Gathers) {failures : γ} (hsome : c.gathering.failed failures ≠ [])
    (records : List Record) :
    ∃ g, c.write { s with failures } records = (none, { s with failures := g }) ∧
      c.gathering.total g = c.gathering.total failures + records.length ∧
      c.gathering.failed g = c.gathering.failed failures ++ refusals c.artifact (c.gathering.total failures + 1) records := by
  induction records generalizing failures with
  | nil => exact ⟨failures, rfl, rfl, (List.append_nil _).symm⟩
  | cons r records ih =>
    cases r with
    | part bytes =>
      have hempty : c.gathering.isEmpty (c.gathering.took failures).2 = false := by
        rw [Bool.eq_false_iff, ne_eq, hg.isEmpty, (hg.took failures).2.2]
        exact hsome
      obtain ⟨htotal, hfailed⟩ := counted_spec hg failures
      obtain ⟨g, hwrite, hgtotal, hgfailed⟩ := ih (hfailed ▸ hsome : c.gathering.failed (c.counted failures) ≠ [])
      refine ⟨g, ?_, ?_, ?_⟩
      · rw [← hwrite]
        simp only [Setup.write, Setup.writeOne, hempty, Bool.false_eq_true, if_false]
        rfl
      · rw [hgtotal, htotal, List.length_cons]
        omega
      · rw [hgfailed, hfailed, htotal]
        rfl
    | refused reason =>
      obtain ⟨htotal, hfailed⟩ := gathered_spec hg failures reason
      obtain ⟨g, hwrite, hgtotal, hgfailed⟩ :=
        ih (by rw [hfailed]; simp : c.gathering.failed (c.gathered failures reason) ≠ [])
      refine ⟨g, hwrite, ?_, ?_⟩
      · rw [hgtotal, htotal, List.length_cons]
        omega
      · rw [hgfailed, hfailed, htotal, List.append_assoc]
        rfl

theorem write_refused (hg : c.gathering.Gathers) (reason : String) (records : List Record) :
    ∃ g, c.write s (.refused reason :: records) = (none, { s with failures := g }) ∧
      c.gathering.total g = c.gathering.total s.failures + records.length + 1 ∧
      c.gathering.failed g = c.gathering.failed s.failures ++
        refusals c.artifact (c.gathering.total s.failures + 1) (.refused reason :: records) := by
  obtain ⟨htotal, hfailed⟩ := gathered_spec hg s.failures reason
  obtain ⟨g, hwrite, hgtotal, hgfailed⟩ : ∃ g, c.write { s with failures := c.gathered s.failures reason } records = _ ∧ _ :=
    write_failing hg (by rw [hfailed]; simp) records
  refine ⟨g, hwrite, ?_, ?_⟩
  · rw [hgtotal, htotal]
    omega
  · rw [hgfailed, hfailed, htotal, List.append_assoc]
    rfl

/-! ### All of a Message's records -/

/-- The parts written, as they stand after. -/
theorem foldl_afterPart (hg : c.gathering.Gathers) (parts : List Bytes) (s : State δ γ) :
    (parts.foldl c.afterPart s).drawn = s.drawn + 2 * parts.length ∧
      (parts.foldl c.afterPart s).written =
        s.written ++ parts.zipIdx.map (fun x => c.sectionOf (s.drawn + 2 * x.2) x.1) ∧
      (parts.foldl c.afterPart s).taken =
        s.taken ++ (parts.zipIdx.map fun x => c.callsOf (c.ids (s.drawn + 2 * x.2)) x.1).flatten ∧
      c.gathering.total (parts.foldl c.afterPart s).failures = c.gathering.total s.failures + parts.length ∧
      c.gathering.failed (parts.foldl c.afterPart s).failures = c.gathering.failed s.failures := by
  induction parts generalizing s with
  | nil => simp
  | cons bytes parts ih =>
    obtain ⟨hdrawn, hwritten, htaken, htotal, hfailed⟩ := ih (c.afterPart s bytes)
    obtain ⟨htotal', hfailed'⟩ := counted_spec hg s.failures
    have hshift : ∀ k, (c.afterPart s bytes).drawn + 2 * k = s.drawn + 2 * (k + 1) := by
      intro k
      show s.drawn + 2 + 2 * k = _
      omega
    rw [List.foldl_cons]
    refine ⟨?_, ?_, ?_, ?_, ?_⟩
    · rw [hdrawn, hshift, List.length_cons]
    · simp only [hwritten, hshift, List.zipIdx_cons, List.map_cons, List.zipIdx_succ, List.map_map]
      show s.written ++ [c.sectionOf s.drawn bytes] ++ _ = _
      rw [List.append_assoc]
      rfl
    · simp only [htaken, hshift, List.zipIdx_cons, List.map_cons, List.zipIdx_succ, List.map_map, List.flatten_cons]
      show s.taken ++ c.callsOf (c.ids s.drawn) bytes ++ _ = _
      rw [List.append_assoc]
      rfl
    · rw [htotal, List.length_cons]
      show c.gathering.total (c.counted s.failures) + parts.length = _
      omega
    · rw [hfailed]
      exact hfailed'

/-- Xmip Storage takes every call that writes `parts`. -/
def Setup.Takes (c : Setup η δ γ κ) (parts : List Bytes) : Prop := ∀ i < (parts.map c.count).sum, c.refuses i = none

/-- Each of `parts` makes fewer chunks, and has fewer bytes, than are counted in. -/
def Setup.Bounded (c : Setup η δ γ κ) (parts : List Bytes) : Prop :=
  ∀ bytes ∈ parts, c.count bytes < 2 ^ 32 ∧ bytes.length < 2 ^ 64

theorem write_leading_iff (hg : c.gathering.Gathers) {parts : List Bytes} :
    c.write c.start (parts.map .part) = (none, s') ↔
      c.Takes parts ∧ (c.trapping = true → c.Bounded parts) ∧ s' = parts.foldl c.afterPart c.start := by
  rw [write_parts_iff hg hg.new.2]
  simp only [Setup.start, List.length_nil, Nat.zero_add]
  exact Iff.rfl

/-- What was written was taken, and panicked nowhere. -/
theorem takes_of_write (hg : c.gathering.Gathers) {records : List Record} (h : c.write c.start records = (none, s')) :
    c.Takes (leading records) ∧ (c.trapping = true → c.Bounded (leading records)) := by
  rcases leading_append records with heq | ⟨reason, rest, heq⟩
  · rw [heq] at h
    obtain ⟨htakes, hbounds, -⟩ := (write_leading_iff hg).1 h
    exact ⟨htakes, hbounds⟩
  · rw [heq] at h
    rcases hwrite : c.write c.start ((leading records).map .part) with ⟨_ | failed, s₁⟩
    · obtain ⟨htakes, hbounds, -⟩ := (write_leading_iff hg).1 hwrite
      exact ⟨htakes, hbounds⟩
    · rw [write_append_of_some hwrite] at h
      cases h

/-- Where the parts before the first refusal are taken, all records are passed: those written, and none after. -/
theorem write_records (hg : c.gathering.Gathers) {records : List Record} (htakes : c.Takes (leading records))
    (hbounds : c.trapping = true → c.Bounded (leading records)) :
    ∃ g, c.write c.start records = (none, { (leading records).foldl c.afterPart c.start with failures := g }) ∧
      c.gathering.total g = records.length ∧ c.gathering.failed g = refusals c.artifact 1 records := by
  have hwrite : c.write c.start ((leading records).map .part) = (none, (leading records).foldl c.afterPart c.start) :=
    (write_leading_iff hg).2 ⟨htakes, hbounds, rfl⟩
  obtain ⟨-, -, -, htotal, hfailed⟩ := foldl_afterPart hg (leading records) c.start
  rw [show c.gathering.total c.start.failures = 0 from hg.new.1, Nat.zero_add] at htotal
  rw [show c.gathering.failed c.start.failures = [] from hg.new.2] at hfailed
  have hparts : ∀ (n : Nat) (parts : List Bytes) (more : List Record),
      refusals c.artifact n (parts.map .part ++ more) = refusals c.artifact (n + parts.length) more := by
    intro n parts more
    induction parts generalizing n with
    | nil => rfl
    | cons bytes parts ih =>
      rw [List.map_cons, List.cons_append, refusals, ih, List.length_cons]
      congr 1
      omega
  rcases leading_append records with heq | ⟨reason, rest, heq⟩
  · refine ⟨_, by rw [← heq] at hwrite; exact hwrite, ?_, ?_⟩
    · rw [htotal]
      conv_rhs => rw [heq, List.length_map]
    · rw [hfailed]
      conv_rhs => rw [heq, ← List.append_nil (List.map _ _), hparts]
      rfl
  · obtain ⟨g, hrest, hgtotal, hgfailed⟩ := write_refused hg (s := (leading records).foldl c.afterPart c.start) reason rest
    refine ⟨g, ?_, ?_, ?_⟩
    · conv_lhs => rw [heq]
      rw [write_append_of_none hwrite, hrest]
    · rw [hgtotal, htotal]
      conv_rhs => rw [heq, List.length_append, List.length_map, List.length_cons]
      omega
    · rw [hgfailed, hfailed, htotal, List.nil_append]
      conv_rhs => rw [heq, hparts]
      rw [Nat.add_comm]

/-- Whatever was taken is of a record before the first refused. -/
theorem write_taken (hg : c.gathering.Gathers) {records : List Record} {o : Option Failed}
    (hnone : c.gathering.failed s.failures = []) (h : c.write s records = (o, s')) :
    ∀ call ∈ s'.taken, call ∈ s.taken ∨ ∃ k < (leading records).length, call.chunk.stream = c.ids (s.drawn + 2 * k) := by
  induction records generalizing s with
  | nil =>
    cases h
    exact fun call hcall => .inl hcall
  | cons r records ih =>
    cases r with
    | refused reason =>
      obtain ⟨g, hrest, -⟩ := write_refused hg (s := s) reason records
      rw [hrest] at h
      cases h
      exact fun call hcall => .inl hcall
    | part bytes =>
      have hfirst : 0 < (leading (.part bytes :: records)).length := by simp [leading]
      simp only [Setup.write] at h
      split at h
      · rename_i failed s₁ hone
        cases h
        intro call hcall
        rcases writeOne_part_taken hone call hcall with hcall | hstream
        · exact .inl hcall
        · exact .inr ⟨0, hfirst, hstream⟩
      · rename_i s₁ hone
        obtain ⟨-, -, heq⟩ := (writeOne_part_iff hg hnone).1 hone
        have hnone' : c.gathering.failed s₁.failures = [] := by
          rw [heq]
          exact (counted_spec hg s.failures).2.trans hnone
        have hdrawn : s₁.drawn = s.drawn + 2 := by
          rw [heq]
          rfl
        intro call hcall
        rcases ih hnone' h call hcall with hcall | ⟨k, hk, hstream⟩
        · rcases writeOne_part_taken hone call hcall with hcall | hstream
          · exact .inl hcall
          · exact .inr ⟨0, hfirst, hstream⟩
        · refine .inr ⟨k + 1, Nat.succ_lt_succ hk, ?_⟩
          rw [hstream, hdrawn]
          congr 1
          omega

end Parts

/-! ### What is claimed -/

/-- What record `k` of `n` of a Message is made: a Message over a Stream that is the record's bytes, with its position,
their number and the Message it was split from beside what that carries. -/
structure PartOf (c : Setup η δ γ κ) (source : Source κ) (taken : List (Call δ)) (n k : Nat) (bytes : Bytes) (p : Part κ) :
    Prop where
  previous : p.previous = source.id
  stream : ∃ written, p.sections = [written] ∧ Written (c.writer 0 written.stream.stream) bytes written.stream
    (taken.filter fun call => call.chunk.stream = written.stream.stream)
  position : c.contexts.get p.context namePosition = some (.integer (k + 1))
  count : c.contexts.get p.context nameCount = some (.integer n)
  batch : c.contexts.get p.context nameBatch = some (.text (toString source.id))
  rest : ∀ name, name ≠ nameBatch → name ≠ namePosition → name ≠ nameCount →
    c.contexts.get p.context name = c.contexts.get source.context name

/-- A Message is split into a part for every record, or none and every record refused is reported; nothing is written of a
record after the first refused; and where the Message is read and Xmip Storage takes what is written, it is split. -/
structure Splits (c : Setup η δ γ κ) (u : SplitUnit υ) (unit : υ) (source : Source κ) : Prop where
  parts : ∀ parts taken, c.whole u unit source = (.ok (.ok parts), taken) →
    (∀ r ∈ (u.records unit source.sections).1, r.isPart = true) ∧
      parts.length = (u.records unit source.sections).1.length ∧
      ∀ k bytes, (u.records unit source.sections).1[k]? = some (.part bytes) →
        ∃ p, parts[k]? = some p ∧ PartOf c source taken parts.length k bytes p
  refused : ∀ failures taken, c.whole u unit source = (.ok (.error failures), taken) →
    (∃ r ∈ (u.records unit source.sections).1, r.isPart = false) ∧
      c.gathering.total failures = (u.records unit source.sections).1.length ∧
      c.gathering.failed failures = refusals c.artifact 1 (u.records unit source.sections).1
  noMore : ∀ result taken, c.whole u unit source = (result, taken) → ∀ call ∈ taken,
    ∃ k < (leading (u.records unit source.sections).1).length, call.chunk.stream = c.ids (2 * k)
  splits : (u.records unit source.sections).2 = none → c.Takes (leading (u.records unit source.sections).1) →
    ∃ result taken, c.whole u unit source = (.ok result, taken)

section Whole

variable {c : Setup η δ γ κ} {u : SplitUnit υ} {unit : υ} {source : Source κ}

/-- What is picked of many lists by the number of the list is that list. -/
theorem flatten_zipIdx_pick {α β : Type} (f : α → List β) {l : List α} {n j : Nat} {a : α} (h : l[j]? = some a) :
    ((l.zipIdx n).map fun x => if x.2 = n + j then f x.1 else []).flatten = f a := by
  induction l generalizing n j with
  | nil => simp at h
  | cons b l ih =>
    rw [List.zipIdx_cons, List.map_cons, List.flatten_cons]
    cases j with
    | zero =>
      cases h
      have hrest : ((l.zipIdx (n + 1)).map fun x => if x.2 = n + 0 then f x.1 else []).flatten = [] := by
        rw [List.flatten_eq_nil_iff]
        intro ys hys
        obtain ⟨x, hx, rfl⟩ := List.mem_map.1 hys
        have := List.le_snd_of_mem_zipIdx hx
        rw [if_neg (by omega)]
      rw [hrest]
      simp
    | succ j =>
      have hfirst : (if n = n + (j + 1) then f b else []) = [] := if_neg (by omega)
      rw [hfirst, List.nil_append]
      have hshift : n + (j + 1) = n + 1 + j := by omega
      rw [hshift]
      exact ih h

theorem stream_of_mem_callsOf (stream : Nat) (bytes : Bytes) : ∀ call ∈ c.callsOf stream bytes, call.chunk.stream = stream :=
  WriteStream.stream_of_mem_calls (c := c.writer 0 stream) 0 0 c.digest.start _

/-- What stands after all of `parts` are written from the start. -/
theorem foldl_start (hg : c.gathering.Gathers) (parts : List Bytes) :
    (parts.foldl c.afterPart c.start).drawn = 2 * parts.length ∧
      (parts.foldl c.afterPart c.start).written = parts.zipIdx.map (fun x => c.sectionOf (2 * x.2) x.1) ∧
      (parts.foldl c.afterPart c.start).taken = (parts.zipIdx.map fun x => c.callsOf (c.ids (2 * x.2)) x.1).flatten := by
  obtain ⟨hdrawn, hwritten, htaken, -, -⟩ := foldl_afterPart hg parts c.start
  simp only [Setup.start, Nat.zero_add, List.nil_append] at hdrawn hwritten htaken
  exact ⟨hdrawn, hwritten, htaken⟩

/-- The calls that name a part's Stream are those that wrote it. -/
theorem filter_taken (hg : c.gathering.Gathers) (hids : Function.Injective c.ids) {parts : List Bytes} {k : Nat}
    {bytes : Bytes} (h : parts[k]? = some bytes) :
    ((parts.foldl c.afterPart c.start).taken.filter fun call => call.chunk.stream = c.ids (2 * k)) =
      c.callsOf (c.ids (2 * k)) bytes := by
  rw [(foldl_start hg parts).2.2, List.filter_flatten, List.map_map]
  have hpick := flatten_zipIdx_pick (c.callsOf (c.ids (2 * k))) (n := 0) h
  rw [← hpick]
  congr 1
  apply List.map_congr_left
  intro x _
  simp only [Function.comp, Nat.zero_add]
  split
  · rename_i hk
    rw [hk, List.filter_eq_self]
    exact fun call hcall => decide_eq_true (stream_of_mem_callsOf _ _ call hcall)
  · rename_i hk
    rw [List.filter_eq_nil_iff]
    intro call hcall
    simp only [decide_eq_true_eq, stream_of_mem_callsOf _ _ call hcall]
    intro heq
    have := hids heq
    omega

/-- The Message made of a Section, among those made. -/
theorem getElem?_parts {drawn k : Nat} {sections : List Section} {written : Section} (h : sections[k]? = some written) :
    ∃ p, (c.parts source drawn sections)[k]? = some p ∧ p.previous = source.id ∧ p.sections = [written] ∧
      p.context = c.contexts.withValue (c.contexts.withValue (c.contexts.withValue source.context nameBatch
        (.text (toString source.id))) namePosition (.integer (k + 1))) nameCount (.integer sections.length) := by
  refine ⟨⟨c.ids (drawn + k), source.id, [written], _⟩, ?_, rfl, rfl, rfl⟩
  rw [Setup.parts, List.getElem?_map, List.getElem?_zipIdx, h]
  simp

/-- A part made is the record it was made of, where its Stream is written. -/
theorem partOf_of_written (hctx : c.contexts.Carries) {taken : List (Call δ)} {n k : Nat} {bytes : Bytes} {p : Part κ}
    {written : Section} (hprevious : p.previous = source.id) (hsections : p.sections = [written])
    (hcontext : p.context = c.contexts.withValue (c.contexts.withValue (c.contexts.withValue source.context nameBatch
      (.text (toString source.id))) namePosition (.integer (k + 1))) nameCount (.integer n))
    (hwritten : Written (c.writer 0 written.stream.stream) bytes written.stream
      (taken.filter fun call => call.chunk.stream = written.stream.stream)) : PartOf c source taken n k bytes p := by
  have hbatch : nameBatch ≠ namePosition ∧ nameBatch ≠ nameCount ∧ namePosition ≠ nameCount := by decide
  refine ⟨hprevious, ⟨written, hsections, hwritten⟩, ?_, ?_, ?_, ?_⟩
  · rw [hcontext, hctx, if_neg hbatch.2.2, hctx, if_pos rfl]
  · rw [hcontext, hctx, if_pos rfl]
  · rw [hcontext, hctx, if_neg hbatch.2.1, hctx, if_neg hbatch.1, hctx, if_pos rfl]
  · intro name hname hname' hname''
    rw [hcontext, hctx, if_neg hname'', hctx, if_neg hname', hctx, if_neg hname]

/-- Where a Message was split, it was read and what is before the first refusal taken, and it was made what its records
say. -/
theorem whole_ok (hg : c.gathering.Gathers) {result : Except γ (List (Part κ))} {taken : List (Call δ)}
    (h : c.whole u unit source = (.ok result, taken)) :
    (u.records unit source.sections).2 = none ∧ c.Takes (leading (u.records unit source.sections).1) ∧
      (c.trapping = true → c.Bounded (leading (u.records unit source.sections).1)) ∧
      taken = ((leading (u.records unit source.sections).1).foldl c.afterPart c.start).taken ∧
      ∃ g, c.gathering.total g = (u.records unit source.sections).1.length ∧
        c.gathering.failed g = refusals c.artifact 1 (u.records unit source.sections).1 ∧
        result = if c.gathering.isEmpty g then
            .ok (c.parts source (2 * (leading (u.records unit source.sections).1).length)
              ((leading (u.records unit source.sections).1).foldl c.afterPart c.start).written)
          else .error g := by
  rcases hwrite : c.write c.start (u.records unit source.sections).1 with ⟨_ | failed, s'⟩
  · obtain ⟨-, hunread, hread⟩ := whole_eq hwrite
    obtain ⟨htakes, hbounds⟩ := takes_of_write hg hwrite
    obtain ⟨g, hwrite', htotal, hfailed⟩ := write_records hg htakes hbounds
    rw [hwrite'] at hwrite
    cases hwrite
    cases hstop : (u.records unit source.sections).2 with
    | some failed =>
      rw [hunread failed rfl hstop] at h
      cases h
    | none =>
      rw [hread rfl hstop] at h
      cases h
      refine ⟨rfl, htakes, hbounds, rfl, g, htotal, hfailed, ?_⟩
      rw [(foldl_start hg _).1]
  · rw [(whole_eq hwrite).1 failed rfl] at h
    cases h

/-- A Section of the parts written is over its record. -/
theorem getElem?_written (hg : c.gathering.Gathers) {parts : List Bytes} {k : Nat} {bytes : Bytes}
    (h : parts[k]? = some bytes) :
    (parts.foldl c.afterPart c.start).written[k]? = some (c.sectionOf (2 * k) bytes) := by
  rw [(foldl_start hg parts).2.1, List.getElem?_map, List.getElem?_zipIdx, h]
  simp

/-- Where a Message was split into parts none of its records was refused, and it was split of all of them. -/
theorem whole_parts (hg : c.gathering.Gathers) {parts : List (Part κ)} {taken : List (Call δ)}
    (h : c.whole u unit source = (.ok (.ok parts), taken)) :
    (∀ r ∈ (u.records unit source.sections).1, r.isPart = true) ∧
      parts = c.parts source (2 * (leading (u.records unit source.sections).1).length)
        ((leading (u.records unit source.sections).1).foldl c.afterPart c.start).written := by
  obtain ⟨-, -, -, -, g, -, hfailed, hresult⟩ := whole_ok hg h
  split at hresult
  · rename_i hempty
    rw [hg.isEmpty, hfailed, refusals_eq_nil_iff] at hempty
    exact ⟨hempty, Except.ok.inj hresult⟩
  · cases hresult

theorem whole_refused (hg : c.gathering.Gathers) {failures : γ} {taken : List (Call δ)}
    (h : c.whole u unit source = (.ok (.error failures), taken)) :
    (∃ r ∈ (u.records unit source.sections).1, r.isPart = false) ∧
      c.gathering.total failures = (u.records unit source.sections).1.length ∧
      c.gathering.failed failures = refusals c.artifact 1 (u.records unit source.sections).1 := by
  obtain ⟨-, -, -, -, g, htotal, hfailed, hresult⟩ := whole_ok hg h
  split at hresult
  · cases hresult
  · rename_i hempty
    cases hresult
    refine ⟨?_, htotal, hfailed⟩
    rw [hg.isEmpty, hfailed, refusals_eq_nil_iff] at hempty
    push Not at hempty
    obtain ⟨r, hr, hpart⟩ := hempty
    exact ⟨r, hr, by simpa using hpart⟩

theorem whole_length (hg : c.gathering.Gathers) {parts : List (Part κ)} {taken : List (Call δ)}
    (h : c.whole u unit source = (.ok (.ok parts), taken)) :
    parts.length = (u.records unit source.sections).1.length := by
  obtain ⟨hall, hparts⟩ := whole_parts hg h
  have hleading := congrArg List.length (map_part_leading hall)
  rw [List.length_map] at hleading
  rw [hparts, Setup.parts, List.length_map, List.length_zipIdx, (foldl_start hg _).2.1, List.length_map, List.length_zipIdx,
    hleading]

/-- Where no record was refused, a part is a leading one. -/
theorem getElem?_leading {records : List Record} (hall : ∀ r ∈ records, r.isPart = true) {k : Nat} {bytes : Bytes} :
    records[k]? = some (.part bytes) ↔ (leading records)[k]? = some bytes := by
  conv_lhs => rw [← map_part_leading hall, List.getElem?_map]
  cases (leading records)[k]? with
  | none => simp
  | some bytes' => simp

/-- The part made of record `k`, over the Section its Stream was written as. -/
theorem whole_part (hg : c.gathering.Gathers) {parts : List (Part κ)} {taken : List (Call δ)}
    (h : c.whole u unit source = (.ok (.ok parts), taken)) {k : Nat} {bytes : Bytes}
    (hk : (leading (u.records unit source.sections).1)[k]? = some bytes) :
    ∃ p, parts[k]? = some p ∧ p.previous = source.id ∧ p.sections = [c.sectionOf (2 * k) bytes] ∧
      p.context = c.contexts.withValue (c.contexts.withValue (c.contexts.withValue source.context nameBatch
        (.text (toString source.id))) namePosition (.integer (k + 1))) nameCount (.integer parts.length) := by
  obtain ⟨-, hparts⟩ := whole_parts hg h
  have hlength : parts.length =
      ((leading (u.records unit source.sections).1).foldl c.afterPart c.start).written.length := by
    rw [hparts, Setup.parts, List.length_map, List.length_zipIdx]
  rw [hlength, hparts]
  exact getElem?_parts (getElem?_written hg hk)

/-- A Message whose records make no more chunks than are counted in splits into them. -/
theorem splits_of_bounded (hg : c.gathering.Gathers) (hctx : c.contexts.Carries) (hids : Function.Injective c.ids)
    (hdigest : c.digest.Passes)
    (h : (u.records unit source.sections).2 = none → c.Takes (leading (u.records unit source.sections).1) →
      (c.trapping = true ∨ ∀ r ∈ (u.records unit source.sections).1, r.isPart = true) →
      c.Bounded (leading (u.records unit source.sections).1)) : Splits c u unit source := by
  refine ⟨?_, fun _ _ => whole_refused hg, ?_, ?_⟩
  · intro parts taken hwhole
    obtain ⟨hall, -⟩ := whole_parts hg hwhole
    obtain ⟨hread, htakes, -, htaken, -⟩ := whole_ok hg hwhole
    have hbounded := h hread htakes (.inr hall)
    refine ⟨hall, whole_length hg hwhole, ?_⟩
    intro k bytes hk
    rw [getElem?_leading hall] at hk
    obtain ⟨p, hp, hprevious, hsections, hcontext⟩ := whole_part hg hwhole hk
    refine ⟨p, hp, partOf_of_written hctx hprevious hsections hcontext ?_⟩
    obtain ⟨hcount, hlength⟩ := hbounded bytes (List.mem_of_getElem? hk)
    rw [htaken]
    show Written _ _ _ (List.filter (fun call => decide (call.chunk.stream = c.ids (2 * k))) _)
    rw [filter_taken hg hids hk]
    exact WriteStream.written_calls (c := c.writer 0 (c.ids (2 * k))) hdigest hcount hlength
  · intro result taken hwhole call hcall
    rcases hwrite : c.write c.start (u.records unit source.sections).1 with ⟨o, s'⟩
    have htaken : taken = s'.taken := by
      obtain ⟨hfailed, hunread, hread⟩ := whole_eq hwrite
      cases o with
      | some failed =>
        rw [hfailed failed rfl] at hwhole
        exact (Prod.mk.inj hwhole).2.symm
      | none =>
        cases hstop : (u.records unit source.sections).2 with
        | some failed =>
          rw [hunread failed rfl hstop] at hwhole
          exact (Prod.mk.inj hwhole).2.symm
        | none =>
          rw [hread rfl hstop] at hwhole
          exact (Prod.mk.inj hwhole).2.symm
    rcases write_taken hg hg.new.2 hwrite call (htaken ▸ hcall) with hcall | ⟨k, hk, hstream⟩
    · exact absurd hcall List.not_mem_nil
    · refine ⟨k, hk, ?_⟩
      rwa [show c.start.drawn = 0 from rfl, Nat.zero_add] at hstream
  · intro hread htakes
    have hbounds : c.trapping = true → c.Bounded (leading (u.records unit source.sections).1) :=
      fun hchecks => h hread htakes (.inl hchecks)
    obtain ⟨g, hwrite, -, -⟩ := write_records hg htakes hbounds
    exact ⟨_, _, (whole_eq hwrite).2.2 rfl hread⟩

/-- A Message that splits into its records makes no more chunks of them than are counted in. -/
theorem bounded_of_splits (hg : c.gathering.Gathers) (h : Splits c u unit source)
    (hread : (u.records unit source.sections).2 = none) (htakes : c.Takes (leading (u.records unit source.sections).1))
    (hsome : c.trapping = true ∨ ∀ r ∈ (u.records unit source.sections).1, r.isPart = true) :
    c.Bounded (leading (u.records unit source.sections).1) := by
  obtain ⟨result, taken, hwhole⟩ := h.splits hread htakes
  rcases hsome with hchecks | hall
  · exact (whole_ok hg hwhole).2.2.1 hchecks
  · cases result with
    | error failures =>
      obtain ⟨⟨r, hr, hpart⟩, -⟩ := whole_refused hg hwhole
      rw [hall r hr] at hpart
      cases hpart
    | ok parts =>
      intro bytes hbytes
      obtain ⟨k, hk⟩ := List.mem_iff_getElem?.1 hbytes
      obtain ⟨p, hp, hpart⟩ := (h.parts parts taken hwhole).2.2 k bytes ((getElem?_leading hall).2 hk)
      obtain ⟨p', hp', -, hsections, -⟩ := whole_part hg hwhole hk
      cases Option.some.inj (hp.symm.trans hp')
      obtain ⟨written, hsections', hwritten⟩ := hpart.stream
      cases List.singleton_inj.1 (hsections'.symm.trans hsections)
      exact WriteStream.bounds_of_written (c := c.writer 0 (c.ids (2 * k))) hwritten

/-- Whatever the unit, the Message and how it is read: it is split into its records in their order or not at all and every
refusal reported, exactly where the records written, where all of them are taken and, unless a sum past its bits panics,
none is refused, make no more chunks than are counted in. -/
theorem whole_splits_iff (hg : c.gathering.Gathers) (hctx : c.contexts.Carries) (hids : Function.Injective c.ids)
    (hdigest : c.digest.Passes) (u : SplitUnit υ) (unit : υ) (source : Source κ) :
    Splits c u unit source ↔
      ((u.records unit source.sections).2 = none → c.Takes (leading (u.records unit source.sections).1) →
        (c.trapping = true ∨ ∀ r ∈ (u.records unit source.sections).1, r.isPart = true) →
        c.Bounded (leading (u.records unit source.sections).1)) :=
  ⟨bounded_of_splits hg, splits_of_bounded hg hctx hids hdigest⟩

end Whole

/-! ### A Message of one record -/

/-- Outcomes gathered as how many items were taken and the failures in order. -/
def listed : Gathering (Nat × List Failure) where
  new := (0, [])
  took g := (g.1 + 1, (g.1 + 1, g.2))
  succeed g _ := g
  fail g code reason artifact position := (g.1, g.2 ++ [⟨code, reason, artifact, position⟩])
  isEmpty g := g.2.isEmpty
  total g := g.1
  failed g := g.2

theorem listed_gathers : listed.Gathers :=
  ⟨⟨rfl, rfl⟩, fun _ => ⟨rfl, rfl, rfl⟩, fun _ _ => ⟨rfl, rfl⟩, fun _ _ _ _ _ => ⟨rfl, rfl⟩,
    fun _ => List.isEmpty_iff⟩

/-- A context as a list of names and values, the latest first. -/
def values : Contexts (List (String × ScalarValue)) where
  get context name := context.lookup name
  withValue context name value := (name, value) :: context

theorem values_carries : values.Carries := by
  intro context name value other
  by_cases h : other = name
  · subst h
    simp [values]
  · have hbeq : (other == name) = false := by simpa using h
    rw [if_neg h]
    simp [values, List.lookup_cons, hbeq]

/-- A splitting in chunks of `chunk`, Storage taking everything. -/
def plain (trapping : Bool) (chunk : Nat) : Setup Bytes Bytes (Nat × List Failure) (List (String × ScalarValue)) :=
  ⟨trapping, ⟨[], (· ++ ·), id⟩, chunk, fun _ => none, id, listed, values, none⟩

theorem plain_passes (trapping : Bool) (chunk : Nat) : (plain trapping chunk).digest.Passes :=
  fun _ _ _ => List.append_assoc ..

/-- A record to every chunk. -/
def each : SplitUnit Unit := ⟨fun _ bytes => ((), [.part bytes]), fun _ => []⟩

/-- All the bytes one record. -/
def all : SplitUnit Bytes := ⟨fun held bytes => (held ++ bytes, []), fun held => [.part held]⟩

/-- Two reads, two records. -/
theorem whole_splits_two :
    Splits (plain true 2) each () ⟨7, [.ok [.ok [1], .ok [2, 3]]], []⟩ := by
  refine (whole_splits_iff listed_gathers values_carries Function.injective_id (plain_passes true 2) _ _ _).2 ?_
  intro _ _ _
  show ∀ bytes ∈ [[1], [2, 3]], _
  decide

theorem readSection_all (n : Nat) (held : Bytes) :
    all.readSection held (List.replicate n (.ok [0])) = ([], held ++ List.replicate n 0, none) := by
  induction n generalizing held with
  | zero => simp [SplitUnit.readSection]
  | succ n ih =>
    rw [List.replicate_succ, SplitUnit.readSection]
    · show ([] ++ (all.readSection (held ++ [0]) (List.replicate n (.ok [0]))).1,
        (all.readSection (held ++ [0]) (List.replicate n (.ok [0]))).2) = _
      rw [ih, List.replicate_succ]
      simp
    · simp

theorem not_splits_of_many (trapping : Bool) {n : Nat} (hn : 2 ^ 32 ≤ n) :
    ¬ Splits (plain trapping 1) all [] ⟨7, [.ok (List.replicate n (.ok [0]))], []⟩ := by
  intro h
  have hrecords : all.records [] [.ok (List.replicate n (.ok [0]))] = ([.part (List.replicate n 0)], none) := by
    simp only [SplitUnit.records, SplitUnit.readSections, readSection_all]
    rfl
  have hbounded := bounded_of_splits listed_gathers h
  simp only [hrecords] at hbounded
  have hcount := (hbounded trivial (fun _ _ => rfl) (.inr (by simp [Record.isPart])) _ (List.mem_singleton_self _)).1
  have hlength : (List.replicate n (0 : UInt8)).length = n := List.length_replicate
  have : (plain trapping 1).count (List.replicate n 0) = n := by
    show max 1 (((List.replicate n (0 : UInt8)).length + 1 - 1) / 1) = n
    rw [hlength]
    omega
  omega

/-- One record as long as there are numbers for chunks, in chunks of a byte: its Stream panics, or is miscounted. -/
theorem whole_overflows :
    ¬ Splits (plain true 1) all [] ⟨7, [.ok (List.replicate (2 ^ 32) (.ok [0]))], []⟩ ∧
      ¬ Splits (plain false 1) all [] ⟨7, [.ok (List.replicate (2 ^ 32) (.ok [0]))], []⟩ :=
  ⟨not_splits_of_many true (Nat.le_refl _), not_splits_of_many false (Nat.le_refl _)⟩

end Split
