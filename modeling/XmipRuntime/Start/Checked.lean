import XmipRuntime.Library.Answers
import XmipRuntime.Sequence.Points

/-!
# What a node sequences as it starts

The points of a configuration (`src/sequence/configured.rs`): each Send Port Group, Send Port, Send Location and Work
Process that names a Correlation, and the sequences a Stream holds end to end at each Receive Location.  They are read
where startup checks what only the program can answer and where it opens the Locations (`src/startup.rs`, `check` and
`open`).  A Receive Location's point that does not read is a problem there, and the node does not start; where a
destination's does not, the points of all destinations are left out.

Whether a key is a key word, what the linked technologies say of a Location and what route technologies refuse are other
programs' answers.
-/

namespace WorkStep

/-- The set `name` of `keys`, each read as a key word. -/
def ResolvedSet.read (readWord : String → Except String KeyWord) (name : String) (keys : List String) :
    Except String ResolvedSet :=
  if keys.isEmpty then .error ("the Correlation '" ++ name ++ "' has no key")
  else ((keys.mapM readWord).mapError fun why => "the Correlation '" ++ name ++ "': " ++ why).map fun keys => ⟨name, keys⟩

/-- The Message Context names its keys read. -/
def ResolvedSet.names (set : ResolvedSet) : List String :=
  set.keys.filterMap fun key =>
    match key with
    | .context name => some name
    | .receiveLocation | .receivePort | .workProcess | .sendPortGroup | .sendPort | .journey _ => none

end WorkStep

namespace Startup

open Library
open WorkStep (KeyWord ResolvedSet)
open Sequence (OnFailure PointKind Point SendPortGroup DesignedSendPort Sends)

/-! ### The configuration -/

structure Correlation where
  name : String
  keys : List String
  onFailure : Option OnFailure

structure ConfiguredLocation where
  name : String
  address : String
  scheme : String
  contract : Option String
  mechanisms : List String
  secretName : Option (Except String String)

/-- A Receive Port and its Receive Locations, each with the Correlation it names. -/
structure BoundReceivePort where
  name : String
  receiveLocations : List (String × Option String)
  correlation : Option String

/-- What startup reads of the tree a node starts: its Locations, and every point that may name a Correlation. -/
structure ExecutionTree where
  receiveLocationsToStart : List ConfiguredLocation
  receivePorts : List BoundReceivePort
  sendLocationsToStart : List ConfiguredLocation
  designedSendPorts : List (DesignedSendPort × Option String)
  sendPortGroups : List (SendPortGroup × Option String)
  sendLocationSets : List (String × String)
  workProcessSets : List (String × String)
  correlations : List Correlation

/-! ### The points -/

section Points

variable (readWord : String → Except String KeyWord)

/-- The point of `kind` called `name` that names the set `set` of `sets`. -/
def point (sets : List Correlation) (kind : PointKind) (name set : String) : Except String Point :=
  match sets.find? fun declared => decide (declared.name = set) with
  | some declared => (ResolvedSet.read readWord declared.name declared.keys).map fun set =>
      ⟨kind, name, set, declared.onFailure.getD .block⟩
  | none => .error ("the " ++ kind.word ++ " '" ++ name ++ "' names the Correlation '" ++ set ++
      "', which the cluster does not declare")

/-- The sequences a Stream received at `location` holds end to end, and the Port it is at. -/
def receivedAt (tree : ExecutionTree) (location : String) : Except String (String × List Point) :=
  let at_ := tree.receivePorts.findSome? fun port =>
    (port.receiveLocations.find? fun designed => decide (designed.1 = location)).map fun designed => (port, designed.2)
  match at_ with
  | none => .ok ("", [Point.receiveLocation location])
  | some (port, correlation) => do
    let own ← correlation.elim (.ok (Point.receiveLocation location))
      (point readWord tree.correlations .receiveLocation location)
    let rest ← port.correlation.elim (.ok []) fun set =>
      (point readWord tree.correlations .receivePort port.name set).map fun p => [p]
    return (port.name, own :: rest)

/-- A destination that names a Correlation. -/
structure Named where
  kind : PointKind
  name : String
  set : String

/-- Every Send Port, Send Port Group, Send Location and Work Process that names a Correlation. -/
def ExecutionTree.named (tree : ExecutionTree) : List Named :=
  (tree.designedSendPorts.filterMap fun port => port.2.map fun set => ⟨.sendPort, port.1.name, set⟩) ++
  (tree.sendPortGroups.filterMap fun group => group.2.map fun set => ⟨.sendPortGroup, group.1.name, set⟩) ++
  (tree.sendLocationSets.map fun location => ⟨.sendLocation, location.1, location.2⟩) ++
  tree.workProcessSets.map fun process => ⟨.workProcess, process.1, process.2⟩

/-- The points of all destinations, or what is said of each that does not read. -/
def destinations (tree : ExecutionTree) : Except (List String) (List Point) :=
  let named := tree.named.map fun n => point readWord tree.correlations n.kind n.name n.set
  if (failed named).isEmpty then .ok (answered named) else .error (failed named)

end Points

/-! ### Check and open -/

inductive Applies where
  | receive
  | send
  deriving DecidableEq

/-- Which way a transport goes. -/
structure Directions where
  receives : Bool
  sends : Bool

/-- What was linked into the program, and what it says of the configuration. -/
structure Linked (τ : Type) where
  schemeProblems : List String
  schemes : List String
  transport : ConfiguredLocation → Option τ
  technology : τ → String
  opens : τ → ConfiguredLocation → Applies → Option String → Except String Directions
  mechanisms : List String
  partyProblems : List String
  acceptedProblems : ConfiguredLocation → List String
  properties : List String
  refusals : List String → List String

structure ReceiveGate where
  location : String
  accepts : List String
  port : String
  points : List Point

structure Checked where
  gates : List ReceiveGate
  gathering : List String

structure Receiving (τ : Type) where
  configured : ConfiguredLocation
  gate : ReceiveGate
  transport : τ

section Starting

variable {τ : Type} (readWord : String → Except String KeyWord) (tree : ExecutionTree) (linked : Linked τ)

/-- Every Location the tree starts, with its stage. -/
def ExecutionTree.started : List (String × ConfiguredLocation) :=
  (tree.receiveLocationsToStart.map fun location => ("Receive Location", location)) ++
    tree.sendLocationsToStart.map fun location => ("Send Location", location)

/-- What is wrong with a Location to start: nothing carries its transport, or it names a contract. -/
def locationProblems (stage : String) (location : ConfiguredLocation) : List String :=
  (if (linked.transport location).isNone then
    ["the " ++ stage ++ " '" ++ location.name ++ "' is entered as " ++ location.address ++
      ", and this node carries no transport for " ++ location.scheme ++ "://; it carries " ++
      String.intercalate ", " linked.schemes]
  else []) ++
  location.contract.elim [] fun contract =>
    ["the " ++ stage ++ " '" ++ location.name ++ "' names the contract '" ++ contract ++
      "', and this runtime holds no Stream to a contract at arrival yet"]

def ReceiveGate.of (location : ConfiguredLocation) : Except (List String) ReceiveGate :=
  let problems := linked.acceptedProblems location ++
    (location.mechanisms.filter fun name => !linked.mechanisms.contains name).map fun name =>
      "the Receive Location '" ++ location.name ++ "' accepts '" ++ name ++
        "', and no authenticator this node was built with verifies it"
  if problems.isEmpty then .ok ⟨location.name, location.mechanisms, "", [Point.receiveLocation location.name]⟩
  else .error problems

/-- A Receive Location's gate, its Port and its sequences told. -/
def gateOf (location : ConfiguredLocation) : Except (List String) ReceiveGate := do
  let gate ← ReceiveGate.of linked location
  let at_ ← (receivedAt readWord tree location.name).mapError fun why => [why]
  return { gate with port := at_.1, points := at_.2 }

/-- Startup's checks of what only the program can answer. -/
def check : Except (List String) Checked :=
  let gates := tree.receiveLocationsToStart.map (gateOf readWord tree linked)
  let points := (answered gates).flatMap ReceiveGate.points ++ ((destinations readWord tree).toOption.getD [])
  let names := linked.properties ++ points.flatMap fun p => p.set.names
  let problems := linked.schemeProblems ++
    (tree.started.flatMap fun started => locationProblems linked started.1 started.2) ++
    linked.partyProblems ++ (failed gates).flatten ++
    (linked.refusals names).map fun refused => "a Subscription's filter cannot be read: " ++ refused
  if problems.isEmpty then .ok ⟨answered gates, names⟩ else .error problems

/-- A Location's transport, built for `side`; what is wrong with it, or nothing where nothing carries it. -/
def built (location : ConfiguredLocation) (side : Applies) : Except (List String) τ :=
  match linked.transport location with
  | none => .error []
  | some technology => do
    let secret ← location.secretName.elim (.ok none) fun name => (name.map some).mapError fun refused => [refused]
    let directions ← (linked.opens technology location side secret).mapError fun failure =>
      ["the Location '" ++ location.name ++ "': " ++ failure]
    match side with
    | .receive =>
      if directions.receives then return technology
      else .error ["the Location '" ++ location.name ++ "': " ++ linked.technology technology ++ " does not receive (ADR-0010)"]
    | .send =>
      if directions.sends then return technology
      else .error ["the Location '" ++ location.name ++ "': " ++ linked.technology technology ++ " does not send (ADR-0010)"]

/-- The Locations opened, each Receive Location with its gate, and what the node sends by. -/
def opened (gates : List ReceiveGate) : Except (List String) (List (Receiving τ) × Sends) :=
  let receiving := (tree.receiveLocationsToStart.zip gates).map fun x =>
    (built linked x.1 .receive).map fun transport => (⟨x.1, x.2, transport⟩ : Receiving τ)
  let sending := tree.sendLocationsToStart.map fun location => built linked location .send
  let problems := (failed receiving).flatten ++ (failed sending).flatten
  if problems.isEmpty then
    .ok (answered receiving,
      ⟨tree.sendPortGroups.map Prod.fst, tree.designedSendPorts.map Prod.fst, (destinations readWord tree).toOption.getD []⟩)
  else .error problems

end Starting

/-! ### What is sequenced -/

section Sequencing

variable {τ : Type}

/-- A node that started sequences all that its configuration names: a point for each destination that names a Correlation,
every Context name a key of these or of a Receive Location's points reads gathered, and each Receive Location opened with
the gate of its own configuration. -/
structure SequencesAll (readWord : String → Except String KeyWord) (tree : ExecutionTree) (linked : Linked τ)
    (checked : Checked) (receiving : List (Receiving τ)) (sends : Sends) : Prop where
  points : ∀ n ∈ tree.named, ∃ p ∈ sends.points, point readWord tree.correlations n.kind n.name n.set = .ok p
  names : ∀ p ∈ sends.points ++ receiving.flatMap fun r => r.gate.points, ∀ name ∈ p.set.names, name ∈ checked.gathering
  gates : receiving.map Receiving.configured = tree.receiveLocationsToStart ∧
    ∀ r ∈ receiving, gateOf readWord tree linked r.configured = .ok r.gate

/-- Every Correlation a destination names is declared, and its keys read. -/
def Declared (readWord : String → Except String KeyWord) (tree : ExecutionTree) : Prop :=
  ∀ n ∈ tree.named, ∃ declared, (tree.correlations.find? fun declared => decide (declared.name = n.set)) = some declared ∧
    declared.keys ≠ [] ∧ ∀ key ∈ declared.keys, ∃ word, readWord key = .ok word

variable {readWord : String → Except String KeyWord} {tree : ExecutionTree} {linked : Linked τ}

/-- Keys read where each does. -/
theorem mapM_answers_iff {keys : List String} :
    (∃ words, keys.mapM readWord = .ok words) ↔ ∀ key ∈ keys, ∃ word, readWord key = .ok word := by
  induction keys with
  | nil => simp [pure, Except.pure]
  | cons key keys ih =>
    rw [List.forall_mem_cons, ← ih, List.mapM_cons]
    constructor
    · rintro ⟨words, h⟩
      obtain ⟨word, hword, h⟩ := answers_iff.1 h
      obtain ⟨rest, hrest, -⟩ := answers_iff.1 h
      exact ⟨⟨word, hword⟩, rest, hrest⟩
    · rintro ⟨⟨word, hword⟩, rest, hrest⟩
      exact ⟨_, answers_iff.2 ⟨word, hword, answers_iff.2 ⟨rest, hrest, rfl⟩⟩⟩

theorem read_ok_iff {name : String} {keys : List String} :
    (∃ set, ResolvedSet.read readWord name keys = .ok set) ↔ keys ≠ [] ∧ ∀ key ∈ keys, ∃ word, readWord key = .ok word := by
  rw [← mapM_answers_iff]
  unfold ResolvedSet.read
  cases keys with
  | nil => simp
  | cons key keys =>
    rw [List.isEmpty_cons, if_neg Bool.false_ne_true]
    constructor
    · rintro ⟨set, h⟩
      obtain ⟨words, hwords, -⟩ := map_answers_iff.1 h
      exact ⟨List.cons_ne_nil _ _, words, mapError_answers_iff.1 hwords⟩
    · rintro ⟨-, words, hwords⟩
      exact ⟨_, map_answers_iff.2 ⟨words, mapError_answers_iff.2 hwords, rfl⟩⟩

theorem point_ok_iff {sets : List Correlation} {kind : PointKind} {name set : String} :
    (∃ p, point readWord sets kind name set = .ok p) ↔
      ∃ declared, (sets.find? fun declared => decide (declared.name = set)) = some declared ∧
        declared.keys ≠ [] ∧ ∀ key ∈ declared.keys, ∃ word, readWord key = .ok word := by
  unfold point
  cases sets.find? fun declared => decide (declared.name = set) with
  | none => simp
  | some declared =>
    constructor
    · rintro ⟨p, h⟩
      obtain ⟨set, hset, -⟩ := map_answers_iff.1 h
      exact ⟨declared, rfl, read_ok_iff.1 ⟨set, hset⟩⟩
    · rintro ⟨declared', heq, hkeys⟩
      cases heq
      obtain ⟨set, hset⟩ := (@read_ok_iff readWord declared.name declared.keys).2 hkeys
      exact ⟨_, map_answers_iff.2 ⟨set, hset, rfl⟩⟩

/-- All destinations' points read, or none of them is told. -/
theorem destinations_iff :
    Declared readWord tree ↔ failed (tree.named.map fun n => point readWord tree.correlations n.kind n.name n.set) = [] := by
  rw [failed_eq_nil_iff, List.forall_mem_map]
  exact forall₂_congr fun n _ => point_ok_iff.symm

/-- A gate that is refused says why. -/
theorem gateOf_error {location : ConfiguredLocation} {why : List String}
    (h : gateOf readWord tree linked location = .error why) : why ≠ [] := by
  rcases fails_iff.1 h with h | ⟨gate, -, h⟩
  · unfold ReceiveGate.of at h
    simp only at h
    split at h
    · cases h
    · rename_i hproblems
      cases h
      simpa using hproblems
  · rcases fails_iff.1 h with h | ⟨at_, -, h⟩
    · cases hat : receivedAt readWord tree location.name with
      | error e =>
        rw [hat] at h
        cases h
        exact List.cons_ne_nil _ _
      | ok at_ =>
        rw [hat] at h
        cases h
    · cases h

/-- A Location something carries is opened, or it is said why not. -/
theorem built_error {location : ConfiguredLocation} {side : Applies} {why : List String}
    (hcarried : (linked.transport location).isSome = true) (h : built linked location side = .error why) : why ≠ [] := by
  obtain ⟨technology, htechnology⟩ := Option.isSome_iff_exists.1 hcarried
  unfold built at h
  rw [htechnology] at h
  have hsaid : ∀ {γ : Type} {x : Except String γ} {f : String → List String}, (∀ e, f e ≠ []) →
      x.mapError f = .error why → why ≠ [] := by
    intro γ x f hf hx
    cases x with
    | error e =>
      cases hx
      exact hf e
    | ok a => cases hx
  rcases fails_iff.1 h with h | ⟨secret, -, h⟩
  · cases hsecret : location.secretName with
    | none =>
      rw [hsecret] at h
      cases h
    | some name =>
      rw [hsecret] at h
      exact hsaid (fun e => List.cons_ne_nil _ _) h
  · rcases fails_iff.1 h with h | ⟨directions, -, h⟩
    · exact hsaid (fun e => List.cons_ne_nil _ _) h
    · cases side with
      | receive =>
        simp only at h
        split at h
        · cases h
        · cases h
          exact List.cons_ne_nil _ _
      | send =>
        simp only at h
        split at h
        · cases h
        · cases h
          exact List.cons_ne_nil _ _

/-- What a tree that passes the check has: a transport carried for every Location, and a gate for each that receives. -/
theorem check_ok {checked : Checked} (h : check readWord tree linked = .ok checked) :
    (∀ location ∈ tree.receiveLocationsToStart, (linked.transport location).isSome = true) ∧
      failed (tree.receiveLocationsToStart.map (gateOf readWord tree linked)) = [] ∧
      checked.gates = answered (tree.receiveLocationsToStart.map (gateOf readWord tree linked)) ∧
      checked.gathering = linked.properties ++ (checked.gates.flatMap ReceiveGate.points ++
        ((destinations readWord tree).toOption.getD [])).flatMap fun p => p.set.names := by
  unfold check at h
  simp only at h
  split at h
  · rename_i hproblems
    cases h
    simp only [List.isEmpty_iff, List.append_eq_nil_iff] at hproblems
    obtain ⟨⟨⟨⟨-, hlocations⟩, -⟩, hgates⟩, -⟩ := hproblems
    refine ⟨?_, ?_, rfl, rfl⟩
    · intro location hlocation
      have hmem : ("Receive Location", location) ∈ tree.started :=
        List.mem_append_left _ (List.mem_map.2 ⟨location, hlocation, rfl⟩)
      have hnone := List.flatMap_eq_nil_iff.1 hlocations _ hmem
      by_contra hcarried
      simp [locationProblems, Option.not_isSome_iff_eq_none.1 hcarried] at hnone
    · refine failed_eq_nil_of_flatten hgates ?_
      intro x hx why hwhy
      obtain ⟨location, -, rfl⟩ := List.mem_map.1 hx
      exact gateOf_error hwhy
  · cases h

/-- Each Receive Location opened has the gate it was given. -/
theorem opened_ok {gates : List ReceiveGate} {receiving : List (Receiving τ)} {sends : Sends}
    (hcarried : ∀ location ∈ tree.receiveLocationsToStart, (linked.transport location).isSome = true)
    (h : opened readWord tree linked gates = .ok (receiving, sends)) :
    receiving.map (fun r => (r.configured, r.gate)) = tree.receiveLocationsToStart.zip gates ∧
      sends.points = (destinations readWord tree).toOption.getD [] := by
  unfold opened at h
  simp only at h
  split at h
  · rename_i hproblems
    cases h
    simp only [List.isEmpty_iff, List.append_eq_nil_iff] at hproblems
    refine ⟨?_, rfl⟩
    have hnone := failed_eq_nil_of_flatten hproblems.1 (by
      intro x hx why hwhy
      obtain ⟨y, hy, rfl⟩ := List.mem_map.1 hx
      cases hbuilt : built linked y.1 .receive with
      | error why' =>
        rw [hbuilt] at hwhy
        cases hwhy
        exact built_error (hcarried y.1 (List.of_mem_zip hy).1) hbuilt
      | ok transport =>
        rw [hbuilt] at hwhy
        cases hwhy)
    have hmap := @map_answered _ _ _ _ _ _ (fun r : Receiving τ => (r.configured, r.gate)) id hnone fun x r hr => by
      obtain ⟨transport, -, rfl⟩ := map_answers_iff.1 hr
      rfl
    rw [hmap, List.map_id]
  · cases h

/-- A node that started sequences all that its configuration names exactly where every Correlation a destination names is
declared and its keys read. -/
theorem sequencesAll_iff_declared {checked : Checked} {receiving : List (Receiving τ)} {sends : Sends}
    (hcheck : check readWord tree linked = .ok checked)
    (hopen : opened readWord tree linked checked.gates = .ok (receiving, sends)) :
    SequencesAll readWord tree linked checked receiving sends ↔ Declared readWord tree := by
  obtain ⟨hcarried, hgates, hanswered, hgathering⟩ := check_ok hcheck
  obtain ⟨hreceiving, hpoints⟩ := opened_ok hcarried hopen
  constructor
  · intro h n hn
    obtain ⟨p, -, hp⟩ := h.points n hn
    exact point_ok_iff.1 ⟨p, hp⟩
  · intro hdeclared
    have hdestinations := destinations_iff.1 hdeclared
    have hall : (destinations readWord tree).toOption.getD [] =
        answered (tree.named.map fun n => point readWord tree.correlations n.kind n.name n.set) := by
      unfold destinations
      simp only [hdestinations, List.isEmpty_nil, if_true]
      rfl
    obtain ⟨hpaired, hfirst⟩ := zip_answered hgates
    rw [← hanswered, ← hreceiving] at hpaired hfirst
    have hgate : ∀ r ∈ receiving, gateOf readWord tree linked r.configured = .ok r.gate := by
      intro r hr
      exact hpaired _ (List.mem_map.2 ⟨r, hr, rfl⟩)
    refine ⟨?_, ?_, ?_, hgate⟩
    · intro n hn
      obtain ⟨p, hp⟩ := point_ok_iff.2 (hdeclared n hn)
      refine ⟨p, ?_, hp⟩
      rw [hpoints, hall, mem_answered_map]
      exact ⟨n, hn, hp⟩
    · intro p hp name hname
      rw [hgathering, List.mem_append, List.mem_flatMap]
      refine .inr ⟨p, ?_, hname⟩
      rw [hpoints] at hp
      rcases List.mem_append.1 hp with hp | hp
      · exact List.mem_append_right _ hp
      · refine List.mem_append_left _ ?_
        obtain ⟨r, hr, hp⟩ := List.mem_flatMap.1 hp
        refine List.mem_flatMap.2 ⟨r.gate, ?_, hp⟩
        rw [hanswered, mem_answered_map]
        refine ⟨r.configured, ?_, hgate r hr⟩
        rw [← hfirst, List.map_map]
        exact List.mem_map.2 ⟨r, hr, rfl⟩
    · rw [← hfirst, List.map_map]
      rfl

end Sequencing

/-- The Send Port "A" naming `set`, beside "B" naming a Correlation declared, and a Receive Location. -/
private def twoPorts (set : String) : ExecutionTree where
  receiveLocationsToStart := [⟨"In", "tcp://0.0.0.0:7000", "tcp", none, [], none⟩]
  receivePorts := []
  sendLocationsToStart := []
  designedSendPorts := [(⟨"A", []⟩, some set), (⟨"B", []⟩, some "PerClient")]
  sendPortGroups := []
  sendLocationSets := []
  workProcessSets := []
  correlations := [⟨"PerClient", ["Client"], none⟩]

private def tcpLinked : Linked Unit where
  schemeProblems := []
  schemes := ["tcp"]
  transport _ := some ()
  technology _ := "tcp"
  opens _ _ _ _ := .ok ⟨true, true⟩
  mechanisms := []
  partyProblems := []
  acceptedProblems _ := []
  properties := []
  refusals _ := []

private def contextWord (key : String) : Except String KeyWord := .ok (.context key)

/-- A node both of whose Send Ports name a Correlation declared. -/
theorem sequencesAll_declared :
    ∃ checked receiving sends, check contextWord (twoPorts "PerClient") tcpLinked = .ok checked ∧
      opened contextWord (twoPorts "PerClient") tcpLinked checked.gates = .ok (receiving, sends) ∧
      SequencesAll contextWord (twoPorts "PerClient") tcpLinked checked receiving sends := by
  refine ⟨_, _, _, rfl, rfl, (sequencesAll_iff_declared rfl rfl).2 ?_⟩
  intro n hn
  refine ⟨⟨"PerClient", ["Client"], none⟩, ?_, List.cons_ne_nil _ _, fun key _ => ⟨_, rfl⟩⟩
  have hset : ∀ n ∈ (twoPorts "PerClient").named, n.set = "PerClient" := by decide +kernel
  rw [hset n hn]
  rfl

/-- One Send Port names a Correlation that is not declared: the node starts, with no point for the other either. -/
theorem undeclared_drops_every_point :
    ∃ checked receiving sends, check contextWord (twoPorts "Missing") tcpLinked = .ok checked ∧
      opened contextWord (twoPorts "Missing") tcpLinked checked.gates = .ok (receiving, sends) ∧ sends.points = [] ∧
      ¬ SequencesAll contextWord (twoPorts "Missing") tcpLinked checked receiving sends := by
  refine ⟨_, _, _, rfl, rfl, rfl, fun h => ?_⟩
  obtain ⟨p, hp, -⟩ := h.points ⟨.sendPort, "B", "PerClient"⟩ (List.mem_cons_of_mem _ (List.mem_cons_self ..))
  cases hp

end Startup
