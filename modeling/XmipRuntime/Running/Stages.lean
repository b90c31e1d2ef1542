import Mathlib.Data.String.Basic
import XmipRuntime.Library.Merged

/-!
# The records of a node's stages

What a node publishes of each Location it started and of each Send Port it sends (`stage_records`,
`src/running/publication.rs`): a record for each Location, Done with the reason where it stopped, and what each Port's
figures say, added to the record of the Send Location of its name or a record of its own.  Who stopped is told by name
alone (`Tally::fail`, `src/outcome.rs`), and only Receive Locations ever stop (`src/running/serving.rs`), so a Send
Location that has the name of one is said to have stopped, and what its Port's figures say is left out.

`stage_records_iff` says exactly when the records say what stands: when no two Locations of a stage have one name, and no
Send Location has the name of one that stopped, but where its Port's own standing could not be told apart.
-/

namespace Publishing

open Library

/-! ### What is published -/

/-- The stages a Location is started at. -/
inductive Stage where
  | receive | send
  deriving DecidableEq

def Stage.name : Stage → String
  | .receive => "receive"
  | .send => "send"

inductive Health where
  | fine | paused | working | stressed | exhausted | done | holding
  deriving DecidableEq

def severity : Health → Nat
  | .fine => 0
  | .paused => 30
  | _ => 90

def blockedSeverity : Nat := 95

/-- What a started Location's record is made of. -/
structure Location where
  stage : Stage
  name : String
  address : String
  deriving DecidableEq

/-- What a Send Port's record is made of. -/
structure PortFigures where
  sent : Nat
  failed : Nat
  waiting : Nat
  lastFailure : Option (String × String)
  failing : Nat
  blocked : Bool
  unconfirmed : Nat
  unansweredSince : Option Int
  lost : Nat
  unread : Option (Int × String)
  deriving DecidableEq

/-- The Port's state in one line; `rfc3339` says an instant in words. -/
def PortFigures.evidence (rfc3339 : Int → String) (p : PortFigures) : String :=
  "sent " ++ toString p.sent ++ ", failed " ++ toString p.failed ++ ", waiting " ++ toString p.waiting ++
    ", failed in its queue " ++ toString p.failing ++
  (if p.blocked then ", its sequence blocked behind them" else "") ++
  (if 0 < p.unconfirmed then
    ", Xmip Storage has not answered the renewal of its claims " ++ toString p.unconfirmed ++
      (p.unansweredSince.elim "" fun since => " since " ++ rfc3339 since)
  else "") ++
  (p.unread.elim "" fun (since, why) =>
    ", Xmip Storage has not answered a read of its queue since " ++ rfc3339 since ++ " (" ++ why ++ ")") ++
  (if 0 < p.lost then ", claims lost to another holder " ++ toString p.lost else "") ++
  p.lastFailure.elim "" fun (journey, why) => "; the Message of the Journey " ++ journey ++ " failed: " ++ why

structure StageRecord where
  scope : String
  standing : Health × Nat
  evidence : String
  deriving DecidableEq

def fine : Health × Nat := (.fine, severity .fine)

def scope (node : String) (stage : Stage) (name : String) : String := node ++ "/" ++ stage.name ++ "/" ++ name

/-- A Location's record before any Port's figures. -/
def locationRecord (node : String) (failures : List (String × String)) (location : Location) : StageRecord :=
  match failures.lookup location.name with
  | some why => ⟨scope node location.stage location.name, (.done, severity .done), why⟩
  | none => ⟨scope node location.stage location.name, fine, "started at " ++ location.address⟩

/-- A Port's standing and its severity. -/
def mood (sent : PortFigures) : Health × Nat :=
  match sent.failing, sent.blocked, sent.unconfirmed with
  | 0, _, 0 => if sent.unread.isSome then (.done, severity .done) else fine
  | 0, _, _ => (.done, severity .done)
  | _, false, _ => (.done, severity .done)
  | _, true, _ => (.done, blockedSeverity)

/-- A Port's figures in the record of its name: added where that is fine. -/
def withPort (rfc3339 : Int → String) (port : String × PortFigures) (record : StageRecord) : StageRecord :=
  if record.standing = fine then
    { record with standing := mood port.2, evidence := record.evidence ++ "; " ++ port.2.evidence rfc3339 }
  else record

/-- A Port's record of its own. -/
def portRecord (rfc3339 : Int → String) (node : String) (port : String × PortFigures) : StageRecord :=
  ⟨scope node .send port.1, mood port.2, "Send Port; " ++ port.2.evidence rfc3339⟩

def stageRecords (rfc3339 : Int → String) (node : String) (locations : List Location) (failures : List (String × String))
    (figures : Std.ExtTreeMap String PortFigures) : List StageRecord :=
  figures.toList.foldl (fun records port => merged StageRecord.scope (withPort rfc3339 port) (portRecord rfc3339 node port)
    records) (locations.map (locationRecord node failures))

/-! ### What stands -/

/-- Failed Messages wait, a claim is unconfirmed or the queue is unread. -/
def PortFigures.Troubled (sent : PortFigures) : Prop := 0 < sent.failing ∨ 0 < sent.unconfirmed ∨ sent.unread.isSome

/-- Failed Messages block its sequence. -/
def PortFigures.Blocks (sent : PortFigures) : Prop := 0 < sent.failing ∧ sent.blocked = true

instance (sent : PortFigures) : Decidable sent.Troubled := inferInstanceAs (Decidable (_ ∨ _))

instance (sent : PortFigures) : Decidable sent.Blocks := inferInstanceAs (Decidable (_ ∧ _))

/-- One text is said within another. -/
def Within (part whole : String) : Prop := part.toList <:+: whole.toList

/-- The records say what stands: one for each scope, a Receive Location's Done if and only if it stopped, with its reason,
a Send one's if and only if the Port of its name is troubled, the most severe where it is blocked; and every Port's
evidence is in its record. -/
structure SaysWhatStands (rfc3339 : Int → String) (node : String) (locations : List Location)
    (failures : List (String × String)) (figures : Std.ExtTreeMap String PortFigures) (records : List StageRecord) :
    Prop where
  once : (records.map StageRecord.scope).Nodup
  each : ∀ at_, at_ ∈ records.map StageRecord.scope ↔
    (∃ location ∈ locations, scope node location.stage location.name = at_) ∨
      ∃ port ∈ figures.toList, scope node .send port.1 = at_
  receive : ∀ record ∈ records, ∀ name, record.scope = scope node .receive name →
    (record.standing.1 = .done ↔ ∃ why, failures.lookup name = some why) ∧
      ∀ why, failures.lookup name = some why → record.evidence = why
  send : ∀ record ∈ records, ∀ name, record.scope = scope node .send name →
    (record.standing.1 = .done ↔ ∃ sent, figures[name]? = some sent ∧ sent.Troubled) ∧
      ∀ sent, figures[name]? = some sent → sent.Blocks → record.standing.2 = blockedSeverity
  evidence : ∀ name sent, figures[name]? = some sent →
    ∃ record ∈ records, record.scope = scope node .send name ∧ Within (sent.evidence rfc3339) record.evidence

/-- No two Locations of a stage have one name; and no Send Location has that of one that stopped, but where its Port is
troubled, does not block, and says no more than why that one stopped. -/
structure ToldApart (rfc3339 : Int → String) (locations : List Location) (failures : List (String × String))
    (figures : Std.ExtTreeMap String PortFigures) : Prop where
  named : (locations.map fun location => (location.stage, location.name)).Nodup
  apart : ∀ location ∈ locations, location.stage = .send → ∀ why, failures.lookup location.name = some why →
    ∃ sent, figures[location.name]? = some sent ∧ sent.Troubled ∧ ¬ sent.Blocks ∧ Within (sent.evidence rfc3339) why

/-! ### Scopes and standings -/

variable {rfc3339 : Int → String} {node : String} {locations : List Location} {failures : List (String × String)}
  {figures : Std.ExtTreeMap String PortFigures} {stage stage' : Stage} {name name' : String} {sent : PortFigures}
  {record : StageRecord} {location : Location}

theorem scope_inj : scope node stage name = scope node stage' name' ↔ stage = stage' ∧ name = name' := by
  constructor
  · intro h
    have hlist := congrArg String.toList h
    simp only [scope, String.toList_append, List.append_assoc, List.append_cancel_left_eq] at hlist
    cases stage <;> cases stage' <;> simp [Stage.name] at hlist
    · exact ⟨rfl, String.toList_inj.1 hlist⟩
    · exact ⟨rfl, String.toList_inj.1 hlist⟩
  · rintro ⟨rfl, rfl⟩
    rfl

theorem mood_done : (mood sent).1 = .done ↔ sent.Troubled := by
  unfold mood PortFigures.Troubled
  split
  · rename_i hf hu
    split
    · rename_i hread
      simp [hread]
    · rename_i hread
      simp [fine, hf, hu, hread]
  · rename_i hf hu
    have hpos : 0 < sent.unconfirmed := Nat.pos_of_ne_zero hu
    simp [hpos]
  · rename_i hf hb
    have hpos : 0 < sent.failing := Nat.pos_of_ne_zero hf
    simp [hpos]
  · rename_i hf hb
    have hpos : 0 < sent.failing := Nat.pos_of_ne_zero hf
    simp [hpos]

theorem mood_blocks (h : sent.Blocks) : (mood sent).2 = blockedSeverity := by
  obtain ⟨hf, hb⟩ := h
  unfold mood
  split
  · omega
  · omega
  · rename_i hfalse _ _
    cases hb.symm.trans hfalse
  · rfl

theorem within_append (whole part : String) : Within part (whole ++ part) := by
  unfold Within
  rw [String.toList_append]
  exact (List.suffix_append _ _).isInfix

@[simp] theorem withPort_scope (port : String × PortFigures) : (withPort rfc3339 port record).scope = record.scope := by
  unfold withPort
  split <;> rfl

@[simp] theorem locationRecord_scope : (locationRecord node failures location).scope =
    scope node location.stage location.name := by
  unfold locationRecord
  split <;> rfl

/-! ### The record of each scope -/

/-- The records before any Port's figures. -/
def begun (node : String) (locations : List Location) (failures : List (String × String)) : List StageRecord :=
  locations.map (locationRecord node failures)

theorem begun_scopes : (begun node locations failures).map StageRecord.scope =
    locations.map fun location => scope node location.stage location.name := by
  simp [begun]

theorem nodup_begun : ((begun node locations failures).map StageRecord.scope).Nodup ↔
    (locations.map fun location => (location.stage, location.name)).Nodup := by
  have hpairs : (locations.map fun location => scope node location.stage location.name) =
      (locations.map fun location => (location.stage, location.name)).map fun p => scope node p.1 p.2 := by
    rw [List.map_map]
    rfl
  have hinj : Function.Injective fun p : Stage × String => scope node p.1 p.2 := by
    intro p q h
    obtain ⟨h₁, h₂⟩ := scope_inj.1 h
    exact Prod.ext h₁ h₂
  rw [begun_scopes, hpairs, List.nodup_map_iff hinj]

theorem nodup_stageRecords : ((stageRecords rfc3339 node locations failures figures).map StageRecord.scope).Nodup ↔
    (locations.map fun location => (location.stage, location.name)).Nodup :=
  (nodup_foldl_merged fun _ _ => withPort_scope _).trans nodup_begun

theorem nodup_ports :
    (figures.toList.map fun port => (portRecord rfc3339 node port).scope).Nodup := by
  have hinj : Function.Injective fun name => scope node .send name := fun name name' h => (scope_inj.1 h).2
  have hports : (figures.toList.map fun port => (portRecord rfc3339 node port).scope) =
      (figures.toList.map Prod.fst).map fun name => scope node .send name := by
    rw [List.map_map]
    rfl
  rw [hports, List.nodup_map_iff hinj, List.nodup_iff_pairwise_ne, List.pairwise_map]
  refine Std.ExtTreeMap.distinct_keys_toList.imp fun h heq => h ?_
  rw [heq]
  exact Std.ReflCmp.compare_self

/-- The record of a scope, where there is one. -/
def recordAt (records : List StageRecord) (at_ : String) : Option StageRecord :=
  records.find? fun record => record.scope = at_

/-- A Location that is the only one of its stage and name has the record it began with. -/
theorem begun_at (h : (locations.map fun location => (location.stage, location.name)).Nodup) (hl : location ∈ locations) :
    recordAt (begun node locations failures) (scope node location.stage location.name) =
      some (locationRecord node failures location) := by
  have hmem : locationRecord node failures location ∈ begun node locations failures := List.mem_map_of_mem hl
  have hfind := (mem_iff_find?_key (nodup_begun.2 h)).1 hmem
  rw [locationRecord_scope] at hfind
  exact hfind

theorem begun_at_cases (h : recordAt (begun node locations failures) (scope node stage name) = some record) :
    ∃ location ∈ locations, location.stage = stage ∧ location.name = name ∧
      record = locationRecord node failures location := by
  obtain ⟨location, hl, rfl⟩ := List.mem_map.1 (List.mem_of_find?_eq_some h)
  have hscope := List.find?_some h
  rw [decide_eq_true_eq, locationRecord_scope, scope_inj] at hscope
  exact ⟨location, hl, hscope.1, hscope.2, rfl⟩

/-- No Port's figures are in the record of a scope that is no Port's. -/
theorem stageRecords_at_of_not (hnot : ∀ port ∈ figures.toList, scope node .send port.1 ≠ scope node stage name) :
    recordAt (stageRecords rfc3339 node locations failures figures) (scope node stage name) =
      recordAt (begun node locations failures) (scope node stage name) :=
  find?_foldl_merged_of_not (fun _ _ => withPort_scope _) hnot

theorem stageRecords_at_receive :
    recordAt (stageRecords rfc3339 node locations failures figures) (scope node .receive name) =
      recordAt (begun node locations failures) (scope node .receive name) :=
  stageRecords_at_of_not fun _ _ h => nomatch (scope_inj.1 h).1

theorem stageRecords_at_send (h : figures[name]? = none) :
    recordAt (stageRecords rfc3339 node locations failures figures) (scope node .send name) =
      recordAt (begun node locations failures) (scope node .send name) := by
  refine stageRecords_at_of_not fun port hport heq => ?_
  obtain ⟨-, rfl⟩ := scope_inj.1 heq
  rw [Std.ExtTreeMap.mem_toList_iff_getElem?_eq_some.1 hport] at h
  cases h

/-- A Port's figures are in the record of its name, or in one of its own. -/
theorem stageRecords_at_port (h : figures[name]? = some sent) :
    recordAt (stageRecords rfc3339 node locations failures figures) (scope node .send name) =
      some ((recordAt (begun node locations failures) (scope node .send name)).elim (portRecord rfc3339 node (name, sent))
        (withPort rfc3339 (name, sent))) :=
  find?_foldl_merged (fun _ _ => withPort_scope _) nodup_ports (Std.ExtTreeMap.mem_toList_iff_getElem?_eq_some.2 h)

/-! ### When the records say what stands -/

theorem locationRecord_of_stopped {why : String} (h : failures.lookup location.name = some why) :
    locationRecord node failures location =
      ⟨scope node location.stage location.name, (.done, severity .done), why⟩ := by
  simp only [locationRecord, h]

theorem locationRecord_of_serving (h : failures.lookup location.name = none) :
    locationRecord node failures location =
      ⟨scope node location.stage location.name, fine, "started at " ++ location.address⟩ := by
  simp only [locationRecord, h]

/-- What a Port says of itself, in a record that was fine or in one of its own. -/
structure SaysPort (rfc3339 : Int → String) (sent : PortFigures) (record : StageRecord) : Prop where
  standing : record.standing = mood sent
  evidence : Within (sent.evidence rfc3339) record.evidence

theorem saysPort_portRecord (port : String × PortFigures) :
    SaysPort rfc3339 port.2 (portRecord rfc3339 node port) := ⟨rfl, within_append _ _⟩

theorem saysPort_withPort (port : String × PortFigures) (h : record.standing = fine) :
    SaysPort rfc3339 port.2 (withPort rfc3339 port record) := by
  unfold withPort
  rw [if_pos h]
  exact ⟨rfl, within_append _ _⟩

theorem withPort_of_done (port : String × PortFigures) (h : record.standing.1 = .done) :
    withPort rfc3339 port record = record := by
  unfold withPort
  rw [if_neg]
  intro hfine
  rw [hfine] at h
  cases h

/-- The record of a Port: it says what the Port says of itself, or is a Send Location's of the name of one that stopped. -/
theorem port_cases (rfc3339 : Int → String) (node : String) (locations : List Location)
    (failures : List (String × String)) (h : figures[name]? = some sent) : ∃ record,
    recordAt (stageRecords rfc3339 node locations failures figures) (scope node .send name) = some record ∧
      (SaysPort rfc3339 sent record ∨ ∃ location ∈ locations, location.stage = .send ∧ location.name = name ∧
        ∃ why, failures.lookup name = some why ∧ record = ⟨scope node .send name, (.done, severity .done), why⟩) := by
  rw [stageRecords_at_port h]
  refine ⟨_, rfl, ?_⟩
  cases hbegun : recordAt (begun node locations failures) (scope node .send name) with
  | none => exact .inl (saysPort_portRecord (name, sent))
  | some record =>
    obtain ⟨location, hl, hstage, rfl, rfl⟩ := begun_at_cases hbegun
    cases hwhy : failures.lookup location.name with
    | none =>
      refine .inl (saysPort_withPort (location.name, sent) ?_)
      rw [locationRecord_of_serving hwhy]
    | some why =>
      refine .inr ⟨location, hl, hstage, rfl, why, rfl, ?_⟩
      rw [Option.elim_some, withPort_of_done, locationRecord_of_stopped hwhy, hstage]
      rw [locationRecord_of_stopped hwhy]

theorem saysWhatStands_of_toldApart (h : ToldApart rfc3339 locations failures figures) :
    SaysWhatStands rfc3339 node locations failures figures (stageRecords rfc3339 node locations failures figures) := by
  have honce : ((stageRecords rfc3339 node locations failures figures).map StageRecord.scope).Nodup :=
    nodup_stageRecords.2 h.named
  have hat : ∀ record ∈ stageRecords rfc3339 node locations failures figures,
      recordAt (stageRecords rfc3339 node locations failures figures) record.scope = some record :=
    fun record hr => (mem_iff_find?_key honce).1 hr
  refine ⟨honce, ?_, ?_, ?_, ?_⟩
  · intro at_
    refine (mem_keys_foldl_merged fun _ _ => withPort_scope _).trans (or_congr_left ?_)
    rw [show (locations.map (locationRecord node failures)).map StageRecord.scope = _ from begun_scopes]
    exact List.mem_map
  · intro record hr name hscope
    have hbegun := hat record hr
    rw [hscope, stageRecords_at_receive] at hbegun
    obtain ⟨location, -, -, rfl, rfl⟩ := begun_at_cases hbegun
    cases hwhy : failures.lookup location.name with
    | none =>
      rw [locationRecord_of_serving hwhy]
      exact ⟨⟨nofun, nofun⟩, nofun⟩
    | some why =>
      rw [locationRecord_of_stopped hwhy]
      refine ⟨⟨fun _ => ⟨why, rfl⟩, fun _ => rfl⟩, ?_⟩
      rintro _ ⟨⟩
      rfl
  · intro record hr name hscope
    have hrecord := hat record hr
    rw [hscope] at hrecord
    cases hport : figures[name]? with
    | none =>
      rw [stageRecords_at_send hport] at hrecord
      obtain ⟨location, hl, hstage, rfl, rfl⟩ := begun_at_cases hrecord
      cases hwhy : failures.lookup location.name with
      | none =>
        rw [locationRecord_of_serving hwhy]
        exact ⟨⟨nofun, nofun⟩, nofun⟩
      | some why =>
        -- A Send Location of the name of one that stopped has a Port.
        obtain ⟨sent, hsent, -⟩ := h.apart location hl hstage why hwhy
        cases hport.symm.trans hsent
    | some sent =>
      obtain ⟨record', hrecord', hcases⟩ := port_cases rfc3339 node locations failures hport
      cases hrecord.symm.trans hrecord'
      rcases hcases with hsaid | ⟨location, hl, hstage, rfl, why, hwhy, rfl⟩
      · rw [hsaid.standing, mood_done]
        refine ⟨⟨fun ht => ⟨sent, rfl, ht⟩, ?_⟩, ?_⟩
        · rintro ⟨_, ⟨⟩, ht⟩
          exact ht
        · rintro _ ⟨⟩ hblocks
          exact mood_blocks hblocks
      · obtain ⟨sent', hsent', htroubled, hblocks, -⟩ := h.apart location hl hstage why hwhy
        cases hport.symm.trans hsent'
        refine ⟨⟨fun _ => ⟨sent, rfl, htroubled⟩, fun _ => rfl⟩, ?_⟩
        rintro _ ⟨⟩ hb
        exact absurd hb hblocks
  · intro name sent hport
    obtain ⟨record, hrecord, hcases⟩ := port_cases rfc3339 node locations failures hport
    refine ⟨record, List.mem_of_find?_eq_some hrecord, by simpa using List.find?_some hrecord, ?_⟩
    rcases hcases with hsaid | ⟨location, hl, hstage, rfl, why, hwhy, rfl⟩
    · exact hsaid.evidence
    · obtain ⟨sent', hsent', -, -, hwithin⟩ := h.apart location hl hstage why hwhy
      cases hport.symm.trans hsent'
      exact hwithin

theorem toldApart_of_saysWhatStands (h : SaysWhatStands rfc3339 node locations failures figures
    (stageRecords rfc3339 node locations failures figures)) : ToldApart rfc3339 locations failures figures := by
  have hnamed := nodup_stageRecords.1 h.once
  refine ⟨hnamed, fun location hl hstage why hwhy => ?_⟩
  -- The Send Location's record is the one of a Location that stopped, whatever its Port says.
  have hbegun : recordAt (begun node locations failures) (scope node .send location.name) =
      some ⟨scope node .send location.name, (.done, severity .done), why⟩ := by
    rw [← hstage, begun_at hnamed hl, locationRecord_of_stopped hwhy]
  have hrecord : recordAt (stageRecords rfc3339 node locations failures figures) (scope node .send location.name) =
      some ⟨scope node .send location.name, (.done, severity .done), why⟩ := by
    cases hport : figures[location.name]? with
    | none => rw [stageRecords_at_send hport, hbegun]
    | some sent => rw [stageRecords_at_port hport, hbegun, Option.elim_some, withPort_of_done _ rfl]
  obtain ⟨hdone, hblocked⟩ := h.send _ (List.mem_of_find?_eq_some hrecord) location.name rfl
  obtain ⟨sent, hsent, htroubled⟩ := hdone.1 rfl
  refine ⟨sent, hsent, htroubled, fun hb => ?_, ?_⟩
  · cases hblocked sent hsent hb
  · obtain ⟨record, hr, hscope, hwithin⟩ := h.evidence location.name sent hsent
    have hsame := (mem_iff_find?_key h.once).1 hr
    rw [hscope] at hsame
    cases hsame.symm.trans hrecord
    exact hwithin

/-- The records say what stands if and only if each Location and Port can be told apart by what it is told by. -/
theorem stageRecords_iff (rfc3339 : Int → String) (node : String) (locations : List Location)
    (failures : List (String × String)) (figures : Std.ExtTreeMap String PortFigures) :
    SaysWhatStands rfc3339 node locations failures figures (stageRecords rfc3339 node locations failures figures) ↔
      ToldApart rfc3339 locations failures figures :=
  ⟨toldApart_of_saysWhatStands, saysWhatStands_of_toldApart⟩

/-! ### A healthy Send Location shown as stopped, and a Port hidden behind it -/

/-- A Receive Location and a Send Location of one name. -/
def ordersBothWays : List Location := [⟨.receive, "orders", "tcp"⟩, ⟨.send, "orders", "out"⟩]

/-- What the Port of that name counted: one Message failed, and blocks its sequence. -/
def ordersFigures : PortFigures := ⟨4, 1, 0, none, 1, true, 0, none, 0, none⟩

/-- The Receive Location stopped, and all that is published of the Port is that. -/
theorem orders_hidden : stageRecords (fun _ => "") "xmip:///c/node/n" ordersBothWays [("orders", "unreachable")]
    ((∅ : Std.ExtTreeMap String PortFigures).insert "orders" ordersFigures) =
      [⟨"xmip:///c/node/n/receive/orders", (.done, 90), "unreachable"⟩,
        ⟨"xmip:///c/node/n/send/orders", (.done, 90), "unreachable"⟩] := rfl

theorem orders_not_said : ¬ SaysWhatStands (fun _ => "") "xmip:///c/node/n" ordersBothWays [("orders", "unreachable")]
    ((∅ : Std.ExtTreeMap String PortFigures).insert "orders" ordersFigures)
    (stageRecords (fun _ => "") "xmip:///c/node/n" ordersBothWays [("orders", "unreachable")]
      ((∅ : Std.ExtTreeMap String PortFigures).insert "orders" ordersFigures)) := by
  intro h
  rw [orders_hidden] at h
  have hblocked := (h.send _ (List.mem_cons_of_mem _ List.mem_cons_self) "orders" rfl).2 ordersFigures rfl (by decide)
  exact absurd hblocked (by decide)

end Publishing
