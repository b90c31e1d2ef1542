import XmipRuntime.Start.Started

/-!
# The tree a node starts from

What a node's configuration says, validated and taken into what it starts (`src/execution_tree.rs`): everything in the
document that would stop the node starting is an error, what would start it degraded a warning, and a document with an error
is no tree.  A Location, a Module or a Work Process is started where it says so; a Location that does not say so is known by
its name.

A document is refused exactly where it is not `Valid`, and then with every problem it has (`mem_errors_of_required`); a node
that started from one has opened each Location the document and its bindings start, and no other, and hosts each Module the
document starts, among them each its Work Processes need that is not kept from starting (`started_of_document`).  A surface
asks what a node would start (`startPlanned`, `src/start.rs`), and is told that it validated only where every Location of it
starts (`startPublished_iff`).

What the configuration's reader says of a document beside, and how it binds the Applications the document names, are its own.
-/

namespace Startup

open Library
open WorkStep (KeyWord)
open Sequence (SendPortGroup DesignedSendPort)

/-! ### A node's document -/

/-- What a configuration names, and whether it says to start it. -/
structure Startable (α : Type) where
  value : α
  start : Bool

structure ExtensionManifest where
  name : String
  version : String
  path : String

structure WorkProcessConfiguration where
  name : String
  requiredModules : List String
  extensions : List ExtensionManifest

/-- The Locations a document's binding of an Xmip Application gives. -/
structure Binding where
  receiveLocations : List ConfiguredLocation
  sendPorts : List ConfiguredLocation

structure Document where
  modules : List (Startable ModuleConfiguration)
  workProcesses : List (Startable WorkProcessConfiguration)
  receiveLocations : List (Startable ConfiguredLocation)
  sendLocations : List (Startable ConfiguredLocation)
  applications : List Binding
  correlations : List Correlation

/-- The Applications a document binds, bound: what of it startup does not read is `ω`. -/
structure Bound (ω : Type) where
  receiveLocations : List (Startable ConfiguredLocation)
  receivePorts : List BoundReceivePort
  sendLocations : List (Startable ConfiguredLocation)
  designedSendPorts : List (DesignedSendPort × Option String)
  sendLocationSets : List (String × String)
  sendPortGroups : List (SendPortGroup × Option String)
  rest : ω

/-- What the configuration's reader says of a document. -/
structure Reading (ω τ : Type) where
  locationProblems : ConfiguredLocation → Applies → List String
  bindingProblems : List String
  stepProblems : List String
  tuning : Except (List String) τ
  storageProblems : List String
  databaseProblems : List String
  bound : Except (List String) (Bound ω)
  correlationProblems : Bound ω → List (String × String) → List String

structure StartupValidationReport where
  errors : List String
  warnings : List String

/-- An extension checked as a node starts, and whether it was loaded. -/
structure VerifiedExtensionNode where
  name : String
  version : String
  loadedDuringStartup : Bool
  deriving DecidableEq

/-- What a document starts, with what of it startup reads. -/
structure Built (ω τ : Type) where
  tree : ExecutionTree
  modulesToStart : List ModuleConfiguration
  workProcessesToStart : List WorkProcessConfiguration
  receiveLocationsNotStarted : List String
  sendLocationsNotStarted : List String
  verifiedExtensions : List VerifiedExtensionNode
  tuning : τ
  rest : ω

/-! ### Validated -/

section Validating

variable (isBlank : String → Bool)

/-- A Location the document names but leaves empty. -/
def validateLocation (stage : String) (location : ConfiguredLocation) : List String :=
  (if isBlank location.name then ["configured " ++ stage ++ " requires a name"] else []) ++
  if isBlank location.address then [stage ++ " '" ++ location.name ++ "' requires an address"] else []

/-- A Module a Work Process needs: an error where there is none of that name. -/
def requiredErrors (configured : List String) (owner required : String) : List String :=
  if required ∈ configured then [] else [owner ++ " requires missing module '" ++ required ++ "'"]

/-- A warning where it is there, and not started. -/
def requiredWarnings (configured started : List String) (owner required : String) : List String :=
  if required ∈ configured ∧ required ∉ started then
    [owner ++ " requires module '" ++ required ++ "', but it is configured not to start"]
  else []

def verifyExtensionManifest (owner : String) (extension : ExtensionManifest) : List String :=
  (if isBlank extension.name then [owner ++ " references an extension without a name"] else []) ++
  (if isBlank extension.version then ["extension '" ++ extension.name ++ "' requires a version"] else []) ++
  if isBlank extension.path then ["extension '" ++ extension.name ++ "' requires an entrypoint path"] else []

variable {ω τ : Type} (document : Document) (reading : Reading ω τ)

def Document.configuredModules : List String := document.modules.map fun module => module.value.name

def Document.startedModules : List String :=
  (document.modules.filter Startable.start).map fun module => module.value.name

/-- What a Work Process is called in what is said of it. -/
def WorkProcessConfiguration.owner (process : WorkProcessConfiguration) : String :=
  "Work Process '" ++ process.name ++ "'"

def moduleErrors (module : ModuleConfiguration) : List String :=
  if isBlank module.name then ["configured module requires a name"] else []

def moduleWarnings (module : ModuleConfiguration) : List String :=
  if module.manifest.capabilities.isEmpty then ["module '" ++ module.name ++ "' declares no capabilities"] else []

def workProcessErrors (process : WorkProcessConfiguration) : List String :=
  (if isBlank process.name then ["configured Work Process requires a name"] else []) ++
  (process.requiredModules.flatMap (requiredErrors document.configuredModules process.owner)) ++
  process.extensions.flatMap (verifyExtensionManifest isBlank process.owner)

def workProcessWarnings (process : WorkProcessConfiguration) : List String :=
  process.requiredModules.flatMap
    (requiredWarnings document.configuredModules document.startedModules process.owner)

/-- A Location of the document's own. -/
def ownErrors (stage : String) (side : Applies) (location : ConfiguredLocation) : List String :=
  validateLocation isBlank stage location ++ reading.locationProblems location side

def bindingErrors (binding : Binding) : List String :=
  (binding.receiveLocations.flatMap fun location => reading.locationProblems location .receive) ++
    binding.sendPorts.flatMap fun location => reading.locationProblems location .send

def Reading.tuningProblems : List String :=
  match reading.tuning with
  | .ok _ => []
  | .error problems => problems

/-- Everything in the document that would stop the node starting, and what would start it degraded. -/
def validateStartupConfiguration : StartupValidationReport where
  errors :=
    (document.modules.flatMap fun module => moduleErrors isBlank module.value) ++
    (document.workProcesses.flatMap fun process => workProcessErrors isBlank document process.value) ++
    (document.receiveLocations.flatMap fun location => ownErrors isBlank reading "Receive Location" .receive location.value) ++
    (document.sendLocations.flatMap fun location => ownErrors isBlank reading "Send Location" .send location.value) ++
    document.applications.flatMap (bindingErrors reading) ++
    reading.bindingProblems ++ reading.stepProblems ++ reading.tuningProblems ++ reading.storageProblems ++
    reading.databaseProblems
  warnings :=
    (document.modules.flatMap fun module => moduleWarnings module.value) ++
    document.workProcesses.flatMap fun process => workProcessWarnings document process.value

/-! ### Built -/

/-- The Locations that start, and the names of the rest. -/
def starting (locations : List (Startable ConfiguredLocation)) : List ConfiguredLocation × List String :=
  let parted := locations.partition Startable.start
  (parted.1.map Startable.value, parted.2.map fun location => location.value.name)

def verifiedExtension (extension : ExtensionManifest) : VerifiedExtensionNode := ⟨extension.name, extension.version, false⟩

/-- Each Work Process that names a Correlation, with it. -/
def setsOf (workProcesses : List (String × Option String)) : List (String × String) :=
  workProcesses.filterMap fun process => process.2.map fun set => (process.1, set)

/-- A document and the Work Processes of the Applications it binds, each with the Correlation it names, made the tree a node
starts from. -/
def buildExecutionTree (workProcesses : List (String × Option String)) :
    Except StartupValidationReport (Built ω τ × StartupValidationReport) :=
  let report := validateStartupConfiguration isBlank document reading
  if report.errors.isEmpty then
    match reading.bound with
    | .error problems => .error { report with errors := report.errors ++ problems }
    | .ok bound =>
      let sets := setsOf workProcesses
      let unset := reading.correlationProblems bound sets
      if unset.isEmpty then
        match reading.tuning with
        | .error problems => .error ⟨problems, []⟩
        | .ok tuning =>
          let started := (document.workProcesses.filter Startable.start).map Startable.value
          let receive := starting (document.receiveLocations ++ bound.receiveLocations)
          let send := starting (document.sendLocations ++ bound.sendLocations)
          .ok (⟨⟨receive.1, bound.receivePorts, send.1, bound.designedSendPorts, bound.sendPortGroups,
              bound.sendLocationSets, sets, document.correlations⟩,
            (document.modules.filter Startable.start).map Startable.value, started, receive.2, send.2,
            (started.flatMap WorkProcessConfiguration.extensions).map verifiedExtension, tuning, bound.rest⟩, report)
      else .error { report with errors := report.errors ++ unset }
  else .error report

end Validating

/-! ### What a document is held to -/

section Valid

variable {isBlank : String → Bool} {ω τ : Type} {document : Document} {reading : Reading ω τ}

/-- What a Work Process is held to: its name, a Module of every name it needs, and its extensions' manifests. -/
structure WorkProcessConfiguration.Valid (isBlank : String → Bool) (document : Document)
    (process : WorkProcessConfiguration) : Prop where
  named : isBlank process.name = false
  required : ∀ required ∈ process.requiredModules, required ∈ document.configuredModules
  extensions : ∀ extension ∈ process.extensions,
    isBlank extension.name = false ∧ isBlank extension.version = false ∧ isBlank extension.path = false

/-- What a Location of the document's own is held to: its name, its address, and what its technology declares. -/
structure ConfiguredLocation.Valid (isBlank : String → Bool) (reading : Reading ω τ) (side : Applies)
    (location : ConfiguredLocation) : Prop where
  named : isBlank location.name = false
  entered : isBlank location.address = false
  declared : reading.locationProblems location side = []

structure Document.Valid (isBlank : String → Bool) (document : Document) (reading : Reading ω τ) : Prop where
  modules : ∀ module ∈ document.modules, isBlank module.value.name = false
  workProcesses : ∀ process ∈ document.workProcesses, process.value.Valid isBlank document
  receiveLocations : ∀ location ∈ document.receiveLocations, location.value.Valid isBlank reading .receive
  sendLocations : ∀ location ∈ document.sendLocations, location.value.Valid isBlank reading .send
  applications : ∀ binding ∈ document.applications,
    (∀ location ∈ binding.receiveLocations, reading.locationProblems location .receive = []) ∧
      ∀ location ∈ binding.sendPorts, reading.locationProblems location .send = []
  binding : reading.bindingProblems = []
  step : reading.stepProblems = []
  tuning : reading.tuningProblems = []
  storage : reading.storageProblems = []
  database : reading.databaseProblems = []

theorem verifyExtensionManifest_eq_nil_iff {owner : String} {extension : ExtensionManifest} :
    verifyExtensionManifest isBlank owner extension = [] ↔
      isBlank extension.name = false ∧ isBlank extension.version = false ∧ isBlank extension.path = false := by
  simp [verifyExtensionManifest]

theorem requiredErrors_eq_nil_iff {configured : List String} {owner required : String} :
    requiredErrors configured owner required = [] ↔ required ∈ configured := by
  simp [requiredErrors]

theorem workProcessErrors_eq_nil_iff {process : WorkProcessConfiguration} :
    workProcessErrors isBlank document process = [] ↔ process.Valid isBlank document := by
  have hname : (if isBlank process.name then ["configured Work Process requires a name"] else []) = [] ↔
      isBlank process.name = false := by
    simp
  unfold workProcessErrors
  rw [List.append_eq_nil_iff, List.append_eq_nil_iff, hname, List.flatMap_eq_nil_iff, List.flatMap_eq_nil_iff]
  simp only [requiredErrors_eq_nil_iff, verifyExtensionManifest_eq_nil_iff]
  exact ⟨fun ⟨⟨hnamed, hrequired⟩, hextensions⟩ => ⟨hnamed, hrequired, hextensions⟩,
    fun ⟨hnamed, hrequired, hextensions⟩ => ⟨⟨hnamed, hrequired⟩, hextensions⟩⟩

theorem ownErrors_eq_nil_iff {stage : String} {side : Applies} {location : ConfiguredLocation} :
    ownErrors isBlank reading stage side location = [] ↔ location.Valid isBlank reading side := by
  have hlocation : validateLocation isBlank stage location = [] ↔
      isBlank location.name = false ∧ isBlank location.address = false := by
    simp [validateLocation]
  unfold ownErrors
  rw [List.append_eq_nil_iff, hlocation]
  exact ⟨fun ⟨⟨hnamed, hentered⟩, hdeclared⟩ => ⟨hnamed, hentered, hdeclared⟩,
    fun ⟨hnamed, hentered, hdeclared⟩ => ⟨⟨hnamed, hentered⟩, hdeclared⟩⟩

/-- A document has no error exactly where it is valid. -/
theorem errors_eq_nil_iff :
    (validateStartupConfiguration isBlank document reading).errors = [] ↔ document.Valid isBlank reading := by
  have hmodule : ∀ module : ModuleConfiguration, moduleErrors isBlank module = [] ↔ isBlank module.name = false := by
    simp [moduleErrors]
  unfold validateStartupConfiguration
  simp only [List.append_eq_nil_iff, List.flatMap_eq_nil_iff, hmodule, workProcessErrors_eq_nil_iff, ownErrors_eq_nil_iff,
    bindingErrors]
  constructor
  · rintro ⟨⟨⟨⟨⟨⟨⟨⟨⟨hmodules, hprocesses⟩, hreceive⟩, hsend⟩, happlications⟩, hbinding⟩, hstep⟩, htuning⟩, hstorage⟩,
      hdatabase⟩
    exact ⟨hmodules, hprocesses, hreceive, hsend, happlications, hbinding, hstep, htuning, hstorage, hdatabase⟩
  · rintro ⟨hmodules, hprocesses, hreceive, hsend, happlications, hbinding, hstep, htuning, hstorage, hdatabase⟩
    exact ⟨⟨⟨⟨⟨⟨⟨⟨⟨hmodules, hprocesses⟩, hreceive⟩, hsend⟩, happlications⟩, hbinding⟩, hstep⟩, htuning⟩, hstorage⟩,
      hdatabase⟩

/-- A Module that is needed and not configured is said, by its name and by what needs it. -/
theorem mem_errors_of_required {process : Startable WorkProcessConfiguration} (hprocess : process ∈ document.workProcesses)
    {required : String} (hrequired : required ∈ process.value.requiredModules)
    (hmissing : required ∉ document.configuredModules) :
    process.value.owner ++ " requires missing module '" ++ required ++ "'" ∈
      (validateStartupConfiguration isBlank document reading).errors := by
  have hsaid : process.value.owner ++ " requires missing module '" ++ required ++ "'" ∈
      workProcessErrors isBlank document process.value := by
    refine List.mem_append_left _ (List.mem_append_right _ (List.mem_flatMap.2 ⟨required, hrequired, ?_⟩))
    simp [requiredErrors, hmissing]
  simp only [validateStartupConfiguration, List.mem_append, List.mem_flatMap]
  exact .inl (.inl (.inl (.inl (.inl (.inl (.inl (.inl (.inr ⟨process, hprocess, hsaid⟩))))))))

/-- A Module that is needed and configured is started, or a warning says that it is not. -/
theorem started_or_warned (h : document.Valid isBlank reading) {process : Startable WorkProcessConfiguration}
    (hprocess : process ∈ document.workProcesses) {required : String}
    (hrequired : required ∈ process.value.requiredModules) :
    (∃ module ∈ document.modules, module.start = true ∧ module.value.name = required) ∨
      process.value.owner ++ " requires module '" ++ required ++ "', but it is configured not to start" ∈
        (validateStartupConfiguration isBlank document reading).warnings := by
  have hconfigured := (h.workProcesses process hprocess).required required hrequired
  by_cases hstarted : required ∈ document.startedModules
  · obtain ⟨module, hmodule, hname⟩ := List.mem_map.1 hstarted
    obtain ⟨hmodule, hstart⟩ := List.mem_filter.1 hmodule
    exact .inl ⟨module, hmodule, hstart, hname⟩
  · refine .inr (List.mem_append_right _ (List.mem_flatMap.2 ⟨process, hprocess, ?_⟩))
    refine List.mem_flatMap.2 ⟨required, hrequired, ?_⟩
    simp [requiredWarnings, hconfigured, hstarted]

/-! ### What is built -/

variable {workProcesses : List (String × Option String)} {built : Built ω τ} {report : StartupValidationReport}

theorem starting_eq (locations : List (Startable ConfiguredLocation)) :
    starting locations = ((locations.filter Startable.start).map Startable.value,
      (locations.filter fun location => !location.start).map fun location => location.value.name) := by
  rw [starting, List.partition_eq_filter_filter]
  rfl

/-- A tree built is a valid document's, and starts what the document and its bindings say to start. -/
theorem built_of_document (h : buildExecutionTree isBlank document reading workProcesses = .ok (built, report)) :
    document.Valid isBlank reading ∧ report = validateStartupConfiguration isBlank document reading ∧
      ∃ bound, reading.bound = .ok bound ∧ reading.correlationProblems bound (setsOf workProcesses) = [] ∧
        reading.tuning = .ok built.tuning ∧
        (built.tree.receiveLocationsToStart, built.receiveLocationsNotStarted) =
          starting (document.receiveLocations ++ bound.receiveLocations) ∧
        (built.tree.sendLocationsToStart, built.sendLocationsNotStarted) =
          starting (document.sendLocations ++ bound.sendLocations) ∧
        built.modulesToStart = (document.modules.filter Startable.start).map Startable.value := by
  unfold buildExecutionTree at h
  simp only [List.isEmpty_iff] at h
  split at h
  · rename_i hnone
    have hvalid := errors_eq_nil_iff.1 hnone
    split at h
    · cases h
    · rename_i bound hbound
      split at h
      · rename_i hset
        split at h
        · cases h
        · rename_i tuning htuning
          obtain ⟨rfl, rfl⟩ := Prod.mk.inj (Except.ok.inj h)
          exact ⟨hvalid, rfl, bound, hbound, hset, htuning, rfl, rfl, rfl⟩
      · cases h
  · cases h

/-- A document that is valid and tuned, whose bindings join and whose Correlations are its own, is made a tree. -/
theorem built_of_valid {tuning : τ} {bound : Bound ω} (hvalid : document.Valid isBlank reading)
    (htuning : reading.tuning = .ok tuning) (hbound : reading.bound = .ok bound)
    (hset : reading.correlationProblems bound (setsOf workProcesses) = []) :
    ∃ built report, buildExecutionTree isBlank document reading workProcesses = .ok (built, report) := by
  have hnone := errors_eq_nil_iff.2 hvalid
  unfold buildExecutionTree
  simp [hnone, hbound, hset, htuning]

end Valid

/-! ### A surface's start -/

/-- The two words a plan says of what it names. -/
inductive Health where
  | stressed | done
  deriving DecidableEq

structure HealthRecord where
  scope : String
  health : Health
  severity : Nat
  evidence : String

/-- A configuration that could not be read: why, and the scope that says so. -/
structure Unread where
  scope : String
  reason : String

/-- A node's configuration read: its document, and the Work Processes of the Applications it binds. -/
structure ReadConfiguration (ω τ : Type) where
  nodeName : String
  document : Document
  reading : Reading ω τ
  workProcesses : List (String × Option String)

/-- Each Location known and not started, by the stage it would serve. -/
def Built.notStarted {ω τ : Type} (built : Built ω τ) : List (String × String) :=
  (built.receiveLocationsNotStarted.map fun name => ("receive", name)) ++
    built.sendLocationsNotStarted.map fun name => ("send", name)

section Planning

variable (isBlank : String → Bool) (versionOf : ModuleConfiguration → String) (notStarted : String) {ω τ : Type}
  (subscriptionsOf : ω → Nat)

/-- What a node would start, each said of at its scope. -/
def planned (node : String) (built : Built ω τ) : List HealthRecord :=
  ⟨node, .stressed, 50, toString built.modulesToStart.length ++ " module(s), " ++
    toString built.workProcessesToStart.length ++ " process(es), " ++ toString (subscriptionsOf built.rest) ++
    " Subscription(s) validated and planned; not running \u2014 a node runs in the program that links its technologies"⟩ ::
  (built.modulesToStart.map fun module =>
    ⟨node ++ "/module/" ++ module.name, .stressed, 50, "planned, not loaded (" ++ versionOf module ++ ")"⟩) ++
  (built.workProcessesToStart.map fun process =>
    ⟨node ++ "/process/" ++ process.name, .stressed, 50,
      "planned, not started; needs " ++ String.intercalate ", " process.requiredModules⟩) ++
  ([("receive", built.tree.receiveLocationsToStart), ("send", built.tree.sendLocationsToStart)].flatMap fun stage =>
    stage.2.map fun location =>
      ⟨node ++ "/" ++ stage.1 ++ "/" ++ location.name, .stressed, 50, "planned, not started at " ++ location.address⟩) ++
  built.notStarted.map fun known => ⟨node ++ "/" ++ known.1 ++ "/" ++ known.2, .done, 0, notStarted⟩

/-- A node planned from its configuration, as a surface asks: nothing is loaded and nothing runs. -/
def startPlanned : Except Unread (ReadConfiguration ω τ) → List HealthRecord
  | .error unread => [⟨unread.scope, .done, 90, unread.reason⟩]
  | .ok read =>
    let node := "xmip:///" ++ read.nodeName
    match buildExecutionTree isBlank read.document read.reading read.workProcesses with
    | .error report => [⟨node, .done, 90, "configuration refused: " ++ String.intercalate "; " report.errors⟩]
    | .ok (built, _) => planned versionOf notStarted subscriptionsOf node built

/-- Whether a surface is told that the node validated: nothing its plan says is done. -/
def startPublished (read : Except Unread (ReadConfiguration ω τ)) : Bool :=
  !(startPlanned isBlank versionOf notStarted subscriptionsOf read).any fun record => record.health = .done

variable {isBlank versionOf notStarted subscriptionsOf}

/-- What is planned says of nothing that it is done but of a Location not started. -/
theorem planned_done_iff {node : String} {built : Built ω τ} :
    ((planned versionOf notStarted subscriptionsOf node built).any fun record => record.health = .done) = true ↔
      built.receiveLocationsNotStarted ≠ [] ∨ built.sendLocationsNotStarted ≠ [] := by
  rw [List.any_eq_true]
  constructor
  · rintro ⟨record, hrecord, hdone⟩
    by_contra hall
    obtain ⟨hreceive, hsend⟩ := not_or.1 hall
    have hknown : built.notStarted = [] := by
      simp [Built.notStarted, not_not.1 hreceive, not_not.1 hsend]
    simp only [planned, hknown, List.cons_append, List.mem_cons, List.mem_append, List.mem_map, List.mem_flatMap,
      List.not_mem_nil, or_false, List.map_nil] at hrecord
    rcases hrecord with rfl | (⟨module, -, rfl⟩ | ⟨process, -, rfl⟩) | ⟨stage, -, location, -, rfl⟩ <;> simp at hdone
  · intro hnot
    have hknown : built.notStarted ≠ [] := by
      unfold Built.notStarted
      rcases hnot with hnot | hnot <;> simp [hnot]
    obtain ⟨known, hmem⟩ := List.exists_mem_of_ne_nil _ hknown
    exact ⟨_, List.mem_append_right _ (List.mem_map_of_mem hmem), by simp⟩

theorem starting_none_iff {locations : List (Startable ConfiguredLocation)} :
    (starting locations).2 = [] ↔ ∀ location ∈ locations, location.start = true := by
  rw [starting_eq, List.map_eq_nil_iff, List.filter_eq_nil_iff]
  simp

/-- A surface is told that a node validated exactly where its configuration is read, its document is valid and tuned, its
bindings join, each Correlation named is one it has, and every Location it or its bindings name is one that starts: one
that does not, which the node knows and starts without, is told as a node that did not validate. -/
theorem startPublished_iff {read : Except Unread (ReadConfiguration ω τ)} :
    startPublished isBlank versionOf notStarted subscriptionsOf read = true ↔
      ∃ configuration, read = .ok configuration ∧
        configuration.document.Valid isBlank configuration.reading ∧ (∃ tuning, configuration.reading.tuning = .ok tuning) ∧
        ∃ bound, configuration.reading.bound = .ok bound ∧
          configuration.reading.correlationProblems bound (setsOf configuration.workProcesses) = [] ∧
          (∀ location ∈ configuration.document.receiveLocations ++ bound.receiveLocations, location.start = true) ∧
          ∀ location ∈ configuration.document.sendLocations ++ bound.sendLocations, location.start = true := by
  unfold startPublished
  rw [Bool.not_eq_true', ← Bool.not_eq_true]
  constructor
  · intro hnone
    cases read with
    | error unread => simp [startPlanned] at hnone
    | ok configuration =>
      refine ⟨configuration, rfl, ?_⟩
      simp only [startPlanned] at hnone
      split at hnone
      · simp at hnone
      · rename_i built report hbuilt
        rw [planned_done_iff] at hnone
        obtain ⟨hreceive, hsend⟩ := not_or.1 hnone
        obtain ⟨hvalid, -, bound, hbound, hset, htuning, hreceives, hsends, -⟩ := built_of_document hbuilt
        refine ⟨hvalid, ⟨_, htuning⟩, bound, hbound, hset, starting_none_iff.1 ?_, starting_none_iff.1 ?_⟩
        · rw [← hreceives]
          exact not_not.1 hreceive
        · rw [← hsends]
          exact not_not.1 hsend
  · rintro ⟨configuration, rfl, hvalid, ⟨tuning, htuning⟩, bound, hbound, hset, hreceives, hsends⟩
    obtain ⟨built, report, hbuilt⟩ := built_of_valid hvalid htuning hbound hset
    obtain ⟨-, -, bound', hbound', -, -, hreceive, hsend, -⟩ := built_of_document hbuilt
    cases hbound.symm.trans hbound'
    simp only [startPlanned, hbuilt]
    rw [planned_done_iff, not_or, not_not, not_not]
    constructor
    · rw [← starting_none_iff.2 hreceives, ← hreceive]
    · rw [← starting_none_iff.2 hsends, ← hsend]

end Planning

/-! ### A node started from a document -/

section Document

variable {readWord : String → Except String KeyWord} {accepts : ModuleDescriptor → Expectation → Except String Unit}
  {images : String → Image} {isBlank : String → Bool} {shownWords : List String → String} {sourceOf : String → String}
  {contextSource : String} {program : Program} {rest : Surroundings}
  {ω τ : Type} {document : Document} {reading : Reading ω τ} {workProcesses : List (String × Option String)}

/-- A node that started from a document: the document is valid; each Location it or its bindings start is open, in their
order and no other, on the one transport that declares its scheme and goes the way it serves; its Modules are those the
document starts; and a Module a Work Process needs runs in one of its Host Services, or a warning says that it is not to. -/
theorem started_of_document {running : Running} {events : List Event}
    (htree : rest.tree = ((buildExecutionTree isBlank document reading workProcesses).map fun x =>
      (x.1.tree, x.1.modulesToStart)).mapError StartupValidationReport.errors)
    (h : start readWord accepts images isBlank shownWords sourceOf contextSource program rest = (.ok running, events)) :
    document.Valid isBlank reading ∧ ∃ bound, reading.bound = .ok bound ∧
      running.receiving.map Receiving.configured =
        ((document.receiveLocations ++ bound.receiveLocations).filter Startable.start).map Startable.value ∧
      (∀ r ∈ running.receiving, Serves program r.configured .receive r.transport) ∧
      running.sending.map Prod.fst =
        ((document.sendLocations ++ bound.sendLocations).filter Startable.start).map Startable.value ∧
      (∀ s ∈ running.sending, Serves program s.1 .send s.2) ∧
      (running.hostServices.flatMap fun service => service.plan.modules).Perm
        ((document.modules.filter Startable.start).map fun module => module.value.manifest) ∧
      ∀ process ∈ document.workProcesses, ∀ required ∈ process.value.requiredModules,
        (∃ module ∈ document.modules, module.value.name = required ∧ ∃ service ∈ running.hostServices,
          service.state = .running ∧ module.value.manifest ∈ service.plan.modules) ∨
        process.value.owner ++ " requires module '" ++ required ++ "', but it is configured not to start" ∈
          (validateStartupConfiguration isBlank document reading).warnings := by
  rcases start_cases h with ⟨_, hcame, -⟩ | ⟨v, hvalidated, hstarted⟩
  · cases hcame
  obtain ⟨hfound, hchecked, hservices⟩ := found_of_validated hvalidated
  rcases hstarted with ⟨_, hcame, -⟩ | ⟨libraries, calls, started, hopen, haccepting, hcame, rfl⟩
  · cases hcame
  cases hcame
  obtain ⟨⟨⟨hreceiving, hserved⟩, ⟨hsending, hsent⟩, ⟨hhosted, hin⟩, -⟩, -, -⟩ :=
    whole_of_accepting hchecked hservices haccepting
  rw [htree, mapError_answers_iff, map_answers_iff] at hfound
  obtain ⟨⟨built, report⟩, hbuilt, hsame⟩ := hfound
  obtain ⟨hsame, hmodules⟩ := Prod.mk.inj hsame
  obtain ⟨hvalid, -, bound, hbound, -, -, hreceive, hsend, hstarts⟩ := built_of_document hbuilt
  rw [starting_eq] at hreceive hsend
  have hmanifests : v.modules.map ModuleConfiguration.manifest =
      (document.modules.filter Startable.start).map fun module => module.value.manifest := by
    rw [← hmodules, hstarts, List.map_map]
    rfl
  rw [hmanifests] at hhosted
  refine ⟨hvalid, bound, hbound, ?_, fun r hr => (hserved r hr).1, ?_, hsent, hhosted, ?_⟩
  · rw [hreceiving, ← hsame]
    exact (Prod.mk.inj hreceive).1
  · rw [hsending, ← hsame]
    exact (Prod.mk.inj hsend).1
  · intro process hprocess required hrequired
    rcases started_or_warned hvalid hprocess hrequired with ⟨module, hmodule, hstart, hname⟩ | hwarned
    · have hmem : module.value.manifest ∈ running.hostServices.flatMap fun service => service.plan.modules :=
        hhosted.mem_iff.2 (List.mem_map.2 ⟨module, List.mem_filter.2 ⟨hmodule, hstart⟩, rfl⟩)
      obtain ⟨service, hservice, hplanned⟩ := List.mem_flatMap.1 hmem
      exact .inl ⟨module, hmodule, hname, service, hservice, (hin service hservice).1, hplanned⟩
    · exact .inr hwarned

/-- A node whose document is not valid is refused as it is validated, with every problem of it, and nothing is taken. -/
theorem refused_of_invalid
    (htree : rest.tree = ((buildExecutionTree isBlank document reading workProcesses).map fun x =>
      (x.1.tree, x.1.modulesToStart)).mapError StartupValidationReport.errors)
    (hreads : rest.reads = .ok ()) (hreaching : rest.reaching = .ok ()) (hguard : rest.guard = .ok ())
    (hunrun : rest.unrun = []) (hinvalid : ¬ document.Valid isBlank reading) :
    ∃ problems, start readWord accepts images isBlank shownWords sourceOf contextSource program rest =
        (.error ⟨.validateStartup, problems⟩, []) ∧ problems ≠ [] ∧
      ∀ process ∈ document.workProcesses, ∀ required ∈ process.value.requiredModules,
        required ∉ document.configuredModules →
        process.value.owner ++ " requires missing module '" ++ required ++ "'" ∈ problems := by
  have herrors : (validateStartupConfiguration isBlank document reading).errors ≠ [] := fun h =>
    hinvalid (errors_eq_nil_iff.1 h)
  have hbuilt : buildExecutionTree isBlank document reading workProcesses =
      .error (validateStartupConfiguration isBlank document reading) := by
    unfold buildExecutionTree
    simp [herrors]
  have hrefused : validated readWord program rest =
      .error ⟨.validateStartup, (validateStartupConfiguration isBlank document reading).errors⟩ := by
    unfold validated
    rw [htree, hbuilt, hreads, hreaching, hguard, hunrun]
    rfl
  refine ⟨_, ?_, herrors, fun process hprocess required hrequired hmissing =>
    mem_errors_of_required hprocess hrequired hmissing⟩
  unfold start
  rw [hrefused]

end Document

/-! ### A node of one Location -/

/-- A node that does not receive as `off`; the Application it binds receives as `in`. -/
private def kioskDocument : Document where
  modules := [⟨⟨"file", "file", [], ⟨none, none, none⟩, []⟩, false⟩]
  workProcesses := [⟨⟨"approval", ["file"], []⟩, true⟩]
  receiveLocations := [⟨⟨"off", "tcp://a:8", "tcp", none, [], none⟩, false⟩]
  sendLocations := []
  applications := []
  correlations := []

private def kioskReading : Reading Unit Unit where
  locationProblems := fun _ _ => []
  bindingProblems := []
  stepProblems := []
  tuning := .ok ()
  storageProblems := []
  databaseProblems := []
  bound := .ok ⟨[⟨⟨"in", "tcp://a:9", "tcp", none, [], none⟩, true⟩], [], [], [], [], [], ()⟩
  correlationProblems := fun _ _ => []

private def kioskProgram : Program where
  transports := [⟨"tcp", ["tcp"], fun _ _ _ => .ok ⟨true, true⟩⟩]
  sources := []
  mechanisms := []
  policies := []
  locationPolicies := []
  transportIdentifiers := []
  messageIdentifiers := []
  partyProblems := []
  acceptedProblems := fun _ => []
  properties := []
  refusals := fun _ => []

private def kioskImage : Image where
  opens := .error "no library"
  exports := .ok ()
  create := statusOk
  descriptor := ⟨"", "", "", 1, 0⟩
  vtable := none
  destroy := false
  lastError := ""

private def kiosk : Surroundings where
  reads := .ok ()
  reaching := .ok ()
  guard := .ok ()
  unrun := []
  tree := ((buildExecutionTree String.isEmpty kioskDocument kioskReading []).map fun x =>
    (x.1.tree, x.1.modulesToStart)).mapError StartupValidationReport.errors
  storage := .ok ()
  pickup := .ok ()
  work := fun _ => .ok ()

private def kioskStarted : Except Refusal Running × List Event :=
  start (fun _ => .error "no key word") (fun _ _ => .ok ()) (fun _ => kioskImage) String.isEmpty (String.intercalate ", ") id
    "" kioskProgram kiosk

private theorem kiosk_starts : ∃ running events, kioskStarted = (.ok running, events) := by
  have hok : kioskStarted.1.toOption.isSome = true := by decide +kernel
  generalize kioskStarted = started at hok
  obtain ⟨came, events⟩ := started
  cases came with
  | error refused => cases hok
  | ok running => exact ⟨running, events, rfl⟩

/-- It is open as `in` alone. -/
theorem started_of_document_kiosk :
    ∃ running events, kioskStarted = (.ok running, events) ∧
      running.receiving.map (fun r => r.configured.name) = ["in"] ∧ running.sending = [] := by
  obtain ⟨running, events, hstarted⟩ := kiosk_starts
  have htree : kiosk.tree = ((buildExecutionTree String.isEmpty kioskDocument kioskReading []).map fun x =>
      (x.1.tree, x.1.modulesToStart)).mapError StartupValidationReport.errors := rfl
  obtain ⟨-, bound, hbound, hreceiving, -, hsending, -⟩ := started_of_document htree hstarted
  cases hbound
  refine ⟨running, events, hstarted, ?_, List.map_eq_nil_iff.1 hsending⟩
  rw [show (fun r : Receiving LinkedTransport => r.configured.name) = ConfiguredLocation.name ∘ Receiving.configured from rfl,
    ← List.map_map, hreceiving]
  rfl

end Startup
