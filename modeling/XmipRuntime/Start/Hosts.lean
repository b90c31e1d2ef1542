import Mathlib.Data.List.Destutter
import Mathlib.Data.String.Basic
import XmipRuntime.Library.Keyed

/-!
# The Host Services a node's Modules run in

Which Host Service a Module needs is decided by what it is written in (`host_type`), and a node plans one Host Service for
each type, its Modules in the order they were given (`plan`, `src/host.rs`).  Startup starts the ones its own process is and
refuses any other (`start_host_services`, `src/startup.rs`).

Every Module is in exactly one of the Host Services planned (`perm_plan`), and a node goes on past them exactly where each of
its Modules is written whole in Rust or whole against the C ABI (`startHostServices_ok_iff`).
-/

namespace Startup

open Library

/-! ### A Module's manifest -/

inductive ExecutionHostKind where
  | nativeRust | dotNet | java | python | cAbi | go | powerShell | bash
  deriving DecidableEq

structure ModuleCapability where
  capability : String
  executionHost : ExecutionHostKind
  trustedRequired : Bool
  deriving DecidableEq

structure ModuleEntrypoint where
  libraryPath : Option String
  executablePath : Option String
  symbol : Option String
  deriving DecidableEq

/-- A unit a Module says it holds, and whether it is a Work Process's. -/
structure ModuleUnit where
  name : String
  workProcess : Bool
  deriving DecidableEq

structure ModuleManifest where
  name : String
  capabilities : List ModuleCapability
  entrypoint : ModuleEntrypoint
  units : List ModuleUnit
  deriving DecidableEq

structure ModuleConfiguration where
  name : String
  manifest : ModuleManifest

/-! ### Host Services -/

inductive HostBitness where
  | bit32 | bit64 | bit128
  | qubit (count : Nat)
  | native
  deriving DecidableEq

structure HostServicePlan where
  hostType : String
  trusted : Bool
  bitness : HostBitness
  modules : List ModuleManifest
  deriving DecidableEq

inductive HostServiceState where
  | planned | starting | running | stopped
  | failed (why : String)
  deriving DecidableEq

structure HostService where
  plan : HostServicePlan
  state : HostServiceState
  deriving DecidableEq

/-- The Host Services the node's own process is. -/
def inProcessHosts : List String := ["native-rust-host", "c-abi-host"]

def HostService.inProcess (service : HostService) : Bool := inProcessHosts.contains service.plan.hostType

def HostService.start (service : HostService) : HostService := { service with state := .running }

def HostService.stop (service : HostService) : HostService := { service with state := .stopped }

def executionHostName : ExecutionHostKind → String
  | .nativeRust => "native-rust"
  | .dotNet => "dotnet"
  | .java => "java"
  | .python => "python"
  | .cAbi => "c-abi"
  | .go => "go"
  | .powerShell => "powershell"
  | .bash => "bash"

/-- `names` sorted, each once. -/
def sortedOnce (names : List String) : List String := (names.mergeSort fun a b => decide (a ≤ b)).destutter (· ≠ ·)

/-- The hosts its capabilities name, each once and in order. -/
def hostsOf (module : ModuleManifest) : List String :=
  sortedOnce (module.capabilities.map fun c => executionHostName c.executionHost)

/-- Which Host Service a Module needs. -/
def hostType (module : ModuleManifest) : String :=
  match hostsOf module with
  | [] => "native-rust-host"
  | [only] => only ++ "-host"
  | many => "mixed-host(" ++ String.intercalate "+" many ++ ")"

/-- A plan with no Module in it yet. -/
def HostServicePlan.bare (hostType : String) : HostServicePlan := ⟨hostType, false, .native, []⟩

/-- A Module taken into its plan. -/
def HostServicePlan.taking (module : ModuleManifest) (planned : HostServicePlan) : HostServicePlan :=
  { planned with
    trusted := planned.trusted || module.capabilities.any ModuleCapability.trustedRequired
    modules := planned.modules ++ [module] }

/-- Startup phase 4: the Host Services `modules` need, one for each host type. -/
def plan (modules : List ModuleManifest) : List HostService :=
  (gathered HostServicePlan.hostType hostType HostServicePlan.bare HostServicePlan.taking modules).map fun planned =>
    ⟨planned, .planned⟩

/-- Startup phase 5: the Host Service this process is, started; any other refused. -/
def startHostServices (services : List HostService) : Except (List String) (List HostService) :=
  let problems := (services.filter fun service => !service.inProcess).map fun service =>
    toString service.plan.modules.length ++ " Module(s) need a " ++ service.plan.hostType ++
      ", a Host Service in a process of its own, and this node starts none yet"
  if problems.isEmpty then .ok (services.map fun service => if service.inProcess then service.start else service)
  else .error problems

/-! ### Sets of names -/

private theorem mem_destutter_ne {α : Type} [DecidableEq α] {l : List α} {a : α} : a ∈ l.destutter (· ≠ ·) ↔ a ∈ l := by
  refine ⟨fun h => (List.destutter_sublist _ l).subset h, fun h => ?_⟩
  cases l with
  | nil => cases h
  | cons b l =>
    rw [List.destutter_cons']
    induction l generalizing b with
    | nil => exact h
    | cons d l ih =>
      rw [List.destutter'_cons]
      split
      · rcases List.mem_cons.1 h with rfl | h
        · exact List.mem_cons_self
        · exact List.mem_cons_of_mem _ (ih d h)
      · rename_i heq
        rw [not_not] at heq
        rcases List.mem_cons.1 h with rfl | h
        · exact ih _ List.mem_cons_self
        · rw [heq]
          exact ih d h

theorem mem_sortedOnce {names : List String} {name : String} : name ∈ sortedOnce names ↔ name ∈ names := by
  unfold sortedOnce
  rw [mem_destutter_ne, (List.mergeSort_perm _ _).mem_iff]

/-! ### What is planned -/

variable {modules : List ModuleManifest} {service : HostService}

/-- Each Module is in one Host Service, and in it once. -/
theorem perm_plan (modules : List ModuleManifest) :
    ((plan modules).flatMap fun service => service.plan.modules).Perm modules := by
  unfold plan
  rw [List.flatMap_map]
  have htake : ∀ m planned, (HostServicePlan.taking m planned).modules.Perm (planned.modules ++ [m]) :=
    fun m planned => List.Perm.refl _
  exact perm_gathered htake fun k => rfl

private theorem taken_of_foldl (own : List ModuleManifest) (k : String) :
    (own.foldl (fun r a => HostServicePlan.taking a r) (.bare k)).modules = own ∧
      ((own.foldl (fun r a => HostServicePlan.taking a r) (.bare k)).trusted = true ↔
        ∃ m ∈ own, ∃ c ∈ m.capabilities, c.trustedRequired = true) := by
  induction own using List.reverseRecOn with
  | nil => simp [HostServicePlan.bare]
  | append_singleton own a ih =>
    rw [List.foldl_concat]
    refine ⟨congrArg (· ++ [a]) ih.1, ?_⟩
    rw [HostServicePlan.taking, Bool.or_eq_true, ih.2, List.any_eq_true]
    simp only [List.mem_append, List.mem_singleton]
    constructor
    · rintro (⟨m, hm, hc⟩ | hc)
      · exact ⟨m, .inl hm, hc⟩
      · exact ⟨a, .inr rfl, hc⟩
    · rintro ⟨m, hm | rfl, hc⟩
      · exact .inl ⟨m, hm, hc⟩
      · exact .inr hc

/-- A Host Service planned has the Modules of its host type, in the order they were given, and is trusted where one of them
asks for it. -/
theorem plan_of_mem (h : service ∈ plan modules) :
    (∃ m ∈ modules, hostType m = service.plan.hostType) ∧ service.state = .planned ∧
      service.plan.modules = modules.filter (fun m => decide (hostType m = service.plan.hostType)) ∧
      (service.plan.trusted = true ↔ ∃ m ∈ service.plan.modules, ∃ c ∈ m.capabilities, c.trustedRequired = true) := by
  obtain ⟨planned, hplanned, rfl⟩ := List.mem_map.1 h
  have htake : ∀ m (planned : HostServicePlan), (HostServicePlan.taking m planned).hostType = planned.hostType :=
    fun _ _ => rfl
  have hbare : ∀ k, (HostServicePlan.bare k).hostType = k := fun _ => rfl
  obtain ⟨m, hm, rfl⟩ := (mem_gathered_iff htake hbare).1 hplanned
  have htype : (recordOf hostType HostServicePlan.bare HostServicePlan.taking modules (hostType m)).hostType = hostType m :=
    key_recordOf htake hbare modules (hostType m)
  obtain ⟨hown, htrusted⟩ := taken_of_foldl (modules.filter fun a => decide (hostType a = hostType m)) (hostType m)
  refine ⟨⟨m, hm, htype.symm⟩, rfl, ?_, ?_⟩
  · rw [htype]
    exact hown
  · unfold recordOf
    rw [hown]
    exact htrusted

/-! ### What runs in the node's own process -/

/-- Written whole in Rust, or whole against the C ABI. -/
def ModuleManifest.InProcess (module : ModuleManifest) : Prop :=
  (∀ c ∈ module.capabilities, c.executionHost = .nativeRust) ∨ ∀ c ∈ module.capabilities, c.executionHost = .cAbi

theorem mem_hostsOf_iff {module : ModuleManifest} {host : String} :
    host ∈ hostsOf module ↔ ∃ c ∈ module.capabilities, executionHostName c.executionHost = host := by
  unfold hostsOf
  rw [mem_sortedOnce, List.mem_map]

theorem executionHostName_inj {a b : ExecutionHostKind} (h : executionHostName a = executionHostName b) : a = b := by
  revert h
  cases a <;> cases b <;> decide +kernel

private theorem mixed_not_inProcess (many : String) : "mixed-host(" ++ many ++ ")" ∉ inProcessHosts := by
  intro h
  unfold inProcessHosts at h
  rw [List.mem_cons, List.mem_singleton] at h
  rcases h with h | h
  all_goals
    have hfirst := congrArg (fun s : String => s.toList.head?) h
    simp at hfirst

/-- What a Module needs is the node's own process exactly where it is written whole in Rust or whole against the C ABI. -/
theorem hostType_mem_iff {module : ModuleManifest} : hostType module ∈ inProcessHosts ↔ module.InProcess := by
  unfold hostType ModuleManifest.InProcess
  split
  · rename_i hnone
    have hcapabilities : ∀ c ∈ module.capabilities, c.executionHost = .nativeRust := by
      intro c hc
      have hmem := mem_hostsOf_iff.2 ⟨c, hc, rfl⟩
      rw [hnone] at hmem
      cases hmem
    exact ⟨fun _ => .inl hcapabilities, fun _ => by decide +kernel⟩
  · rename_i only honly
    have hall : ∀ c ∈ module.capabilities, executionHostName c.executionHost = only := by
      intro c hc
      have hmem := mem_hostsOf_iff.2 ⟨c, hc, rfl⟩
      rw [honly, List.mem_singleton] at hmem
      exact hmem
    obtain ⟨c, hc, hname⟩ := mem_hostsOf_iff.1 (honly ▸ List.mem_singleton_self only)
    have hkind : ∀ kind, only = executionHostName kind ↔ ∀ c ∈ module.capabilities, c.executionHost = kind := by
      intro kind
      constructor
      · intro heq d hd
        exact executionHostName_inj ((hall d hd).trans heq)
      · intro hkinds
        rw [← hname, hkinds c hc]
    rw [← hkind, ← hkind, ← hname]
    generalize c.executionHost = kind
    cases kind <;> decide +kernel
  · rename_i many hnone hone
    refine ⟨fun h => absurd h (mixed_not_inProcess _), fun h => ?_⟩
    exfalso
    cases hmany : hostsOf module with
    | nil => exact hnone hmany
    | cons a rest =>
      cases rest with
      | nil => exact hone a hmany
      | cons b rest =>
        have hchain : (a :: b :: rest).IsChain (· ≠ ·) := by
          rw [← hmany]
          exact List.isChain_destutter (· ≠ ·) _
        have hne : a ≠ b := (List.isChain_cons_cons.1 hchain).1
        obtain ⟨c, hc, hcname⟩ := mem_hostsOf_iff.1 (hmany ▸ List.mem_cons_self : a ∈ hostsOf module)
        obtain ⟨d, hd, hdname⟩ := mem_hostsOf_iff.1
          (hmany ▸ List.mem_cons_of_mem _ List.mem_cons_self : b ∈ hostsOf module)
        rcases h with h | h
        · exact hne (by rw [← hcname, ← hdname, h c hc, h d hd])
        · exact hne (by rw [← hcname, ← hdname, h c hc, h d hd])

/-- A node goes on past its Host Services exactly where each of its Modules runs in its own process; each is started then. -/
theorem startHostServices_ok_iff {services : List HostService} :
    startHostServices (plan modules) = .ok services ↔
      (∀ m ∈ modules, m.InProcess) ∧ services = (plan modules).map HostService.start := by
  have hall : (∀ service ∈ plan modules, service.inProcess = true) ↔ ∀ m ∈ modules, m.InProcess := by
    constructor
    · intro h m hm
      obtain ⟨service, hservice, hmem⟩ := List.mem_flatMap.1 ((perm_plan modules).mem_iff.2 hm)
      obtain ⟨-, -, hmodules, -⟩ := plan_of_mem hservice
      rw [hmodules, List.mem_filter, decide_eq_true_eq] at hmem
      have hin := h service hservice
      rw [HostService.inProcess, List.contains_iff_mem, ← hmem.2] at hin
      exact hostType_mem_iff.1 hin
    · intro h service hservice
      obtain ⟨⟨m, hm, htype⟩, -⟩ := plan_of_mem hservice
      rw [HostService.inProcess, List.contains_iff_mem, ← htype]
      exact hostType_mem_iff.2 (h m hm)
  rw [← hall]
  unfold startHostServices
  simp only [List.isEmpty_iff, List.map_eq_nil_iff, List.filter_eq_nil_iff, Bool.not_eq_true', Bool.not_eq_false]
  split
  · rename_i hin
    have hstarted : (plan modules).map (fun service => if service.inProcess = true then service.start else service) =
        (plan modules).map HostService.start := List.map_congr_left fun service hservice => if_pos (hin service hservice)
    rw [hstarted, Except.ok.injEq]
    exact ⟨fun h => ⟨hin, h.symm⟩, fun h => h.2.symm⟩
  · rename_i hsome
    exact ⟨fun h => (nomatch h), fun h => absurd h.1 hsome⟩

end Startup
