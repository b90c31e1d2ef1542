import XmipRuntime.Library.Table
import XmipRuntime.Start.Checked
import XmipRuntime.Start.Libraries

/-!
# What a program linked, and the capabilities a node registers

A Location's transport is the first linked one that declares the scheme its address is entered with (`src/linked.rs`), and a
capability is registered once, by the Module that serves it (`src/capability_registry.rs`): what the configuration uses of
what was linked, and what each Module opened claims (`load`, `src/startup.rs`).

Where no two linked transports declare one scheme there is nothing to choose between (`transport_eq_some_iff`), and a node
registers its capabilities exactly where none is claimed twice (`load_ok_iff`).
-/

namespace Startup

open Library

/-! ### What was linked -/

/-- A transport technology linked into the program. -/
structure LinkedTransport where
  technology : String
  schemes : List String
  opens : ConfiguredLocation → Applies → Option String → Except String Directions

/-- Whether a Location's address chooses it. -/
def LinkedTransport.chosenBy (linked : LinkedTransport) (location : ConfiguredLocation) : Bool :=
  linked.schemes.contains location.scheme

/-- What a program was built with, each technology by its name, the policies set up from the Locations apart, and what the
rest says of the configuration. -/
structure Program where
  transports : List LinkedTransport
  sources : List String
  mechanisms : List String
  policies : List String
  locationPolicies : List String
  transportIdentifiers : List String
  messageIdentifiers : List String
  partyProblems : List String
  acceptedProblems : ConfiguredLocation → List String
  properties : List String
  refusals : List String → List String

/-- The linked transport a Location's address chooses. -/
def transportOf (transports : List LinkedTransport) (location : ConfiguredLocation) : Option LinkedTransport :=
  transports.find? fun linked => linked.chosenBy location

/-- One sentence for each scheme two linked transports both declare. -/
def schemeProblems : List LinkedTransport → List String
  | [] => []
  | first :: rest =>
    (rest.flatMap fun second => (first.schemes.filter second.schemes.contains).map fun scheme =>
      "the scheme '" ++ scheme ++ "' is declared by both " ++ first.technology ++ " and " ++ second.technology) ++
      schemeProblems rest

/-- What startup asks of it. -/
def Program.linked (program : Program) : Linked LinkedTransport where
  schemeProblems := schemeProblems program.transports
  schemes := program.transports.flatMap LinkedTransport.schemes
  transport := transportOf program.transports
  technology := LinkedTransport.technology
  opens := LinkedTransport.opens
  mechanisms := program.mechanisms
  partyProblems := program.partyProblems
  acceptedProblems := program.acceptedProblems
  properties := program.properties
  refusals := program.refusals

/-! ### Capabilities -/

/-- How a Module came to be in the process. -/
inductive Load where
  | linked
  | library (path : String)
  deriving DecidableEq

structure RegisteredCapability where
  capability : String
  module : String
  load : Load
  deriving DecidableEq

abbrev CapabilityRegistry := Table String RegisteredCapability

/-- A capability registered, where nothing serves it yet. -/
def CapabilityRegistry.register (registry : CapabilityRegistry) (claim : RegisteredCapability) :
    Except String CapabilityRegistry :=
  match registry.get claim.capability with
  | some held => .error ("capability '" ++ claim.capability ++ "' is already registered, by '" ++ held.module ++ "'")
  | none => .ok (registry.put claim.capability claim)

/-- Each registered, and what was said of those that were not. -/
def CapabilityRegistry.registerEach (registry : CapabilityRegistry) :
    List RegisteredCapability → CapabilityRegistry × List String
  | [] => (registry, [])
  | claim :: claims =>
    match registry.register claim with
    | .ok registry => registerEach registry claims
    | .error problem =>
      let rest := registerEach registry claims
      (rest.1, problem :: rest.2)

/-- A Module's claims registered, up to the first that something serves already. -/
def CapabilityRegistry.registerModule (registry : CapabilityRegistry) :
    List RegisteredCapability → CapabilityRegistry × Option String
  | [] => (registry, none)
  | claim :: claims =>
    match registry.register claim with
    | .ok registry => registerModule registry claims
    | .error problem => (registry, some problem)

/-- Each Module's, and what was said of those that were not. -/
def CapabilityRegistry.registerModules (registry : CapabilityRegistry) :
    List (List RegisteredCapability) → CapabilityRegistry × List String
  | [] => (registry, [])
  | claims :: modules =>
    let registered := registry.registerModule claims
    let rest := registerModules registered.1 modules
    (rest.1, registered.2.toList ++ rest.2)

section Loading

variable (isBlank : String → Bool) (sourceOf : String → String) (contextSource : String) (program : Program)
  (tree : ExecutionTree) (gathering : List String) (modules : List ModuleConfiguration)

/-- What the configuration uses of what was linked: each transport a started Location chooses, each route technology a name
gathered is of, each mechanism a Receive Location accepts, and every policy and identifier. -/
def linkedClaims : List RegisteredCapability :=
  let used := sortedOnce (tree.started.filterMap fun started =>
    (transportOf program.transports started.2).map LinkedTransport.technology)
  let read := sortedOnce ((gathering.map sourceOf).filter fun source => decide (source ≠ contextSource))
  let accepted := sortedOnce (tree.receiveLocationsToStart.flatMap ConfiguredLocation.mechanisms)
  let claim (kind name : String) : RegisteredCapability := ⟨kind ++ name, name, .linked⟩
  ((program.transports.filter fun linked => used.contains linked.technology).map fun linked =>
      claim "transport:" linked.technology) ++
    ((program.sources.filter read.contains).map (claim "route:")) ++
    accepted.map (claim "authenticate:") ++
    program.policies.map (claim "authorize:") ++
    program.transportIdentifiers.map (claim "identify:transport:") ++
    program.messageIdentifiers.map (claim "identify:message:")

/-- What a Module opened from its library claims. -/
def moduleClaims (module : ModuleConfiguration) : List RegisteredCapability :=
  module.manifest.capabilities.map fun c =>
    ⟨c.capability, module.manifest.name, .library ((libraryOf isBlank module).toOption.getD "")⟩

/-- Startup phase 7: each capability registered once. -/
def load : Except (List String) CapabilityRegistry :=
  let linked := CapabilityRegistry.registerEach Table.empty (linkedClaims sourceOf contextSource program tree gathering)
  let opened := linked.1.registerModules (modules.map (moduleClaims isBlank))
  let problems := linked.2 ++ opened.2
  if problems.isEmpty then .ok opened.1 else .error problems

/-- Everything claimed. -/
def claims : List RegisteredCapability :=
  linkedClaims sourceOf contextSource program tree gathering ++ modules.flatMap (moduleClaims isBlank)

end Loading

/-! ### Which transport -/

/-- Nothing is said of the schemes exactly where no two transports share one. -/
theorem schemeProblems_eq_nil_iff {transports : List LinkedTransport} :
    schemeProblems transports = [] ↔ transports.Pairwise fun a b => ∀ scheme ∈ a.schemes, scheme ∉ b.schemes := by
  induction transports with
  | nil => simp [schemeProblems]
  | cons first rest ih =>
    unfold schemeProblems
    rw [List.append_eq_nil_iff, List.pairwise_cons, ih]
    refine and_congr_left fun _ => ?_
    simp only [List.flatMap_eq_nil_iff, List.map_eq_nil_iff, List.filter_eq_nil_iff, List.contains_iff_mem]

/-- The transport a Location's address chooses is the one transport that declares its scheme. -/
theorem transport_eq_some_iff {transports : List LinkedTransport} (h : schemeProblems transports = [])
    {location : ConfiguredLocation} {linked : LinkedTransport} :
    transportOf transports location = some linked ↔ linked ∈ transports ∧ location.scheme ∈ linked.schemes := by
  rw [schemeProblems_eq_nil_iff] at h
  unfold transportOf
  constructor
  · intro hfind
    have hchosen := List.find?_some hfind
    exact ⟨List.mem_of_find?_eq_some hfind, List.contains_iff_mem.1 hchosen⟩
  · rintro ⟨hmem, hscheme⟩
    induction transports with
    | nil => cases hmem
    | cons first rest ih =>
      obtain ⟨hfirst, hrest⟩ := List.pairwise_cons.1 h
      rcases List.mem_cons.1 hmem with rfl | hmem
      · exact List.find?_cons_of_pos (List.contains_iff_mem.2 hscheme)
      · have hnot : ¬ (first.chosenBy location = true) := fun hchosen =>
          hfirst linked hmem _ (List.contains_iff_mem.1 hchosen) hscheme
        refine (List.find?_cons_of_neg ?_).trans (ih hrest hmem)
        exact hnot

/-! ### What is registered -/

/-- The registry has each of `claims`, and nothing else; none is claimed twice. -/
structure CapabilityRegistry.Has (registry : CapabilityRegistry) (claims : List RegisteredCapability) : Prop where
  once : (claims.map RegisteredCapability.capability).Nodup
  held : ∀ capability held, registry.get capability = some held ↔ held ∈ claims ∧ held.capability = capability

namespace CapabilityRegistry

variable {registry : CapabilityRegistry} {done claims : List RegisteredCapability} {claim : RegisteredCapability}

theorem has_empty : Has Table.empty [] := ⟨List.nodup_nil, fun capability held => by simp [Table.get, Table.empty]⟩

variable (claim) in
/-- A capability is registered where it was not claimed, and refused where it was. -/
theorem Has.register (h : registry.Has done) :
    (∃ registry', registry.register claim = .ok registry' ∧ Has registry' (done ++ [claim])) ∨
      (∃ problem, registry.register claim = .error problem) ∧
        ¬ ((done ++ [claim]).map RegisteredCapability.capability).Nodup := by
  unfold CapabilityRegistry.register
  cases hget : registry.get claim.capability with
  | some held =>
    obtain ⟨hmem, hcapability⟩ := (h.held _ _).1 hget
    refine .inr ⟨⟨_, rfl⟩, fun hnodup => ?_⟩
    rw [List.map_append, List.nodup_append] at hnodup
    exact hnodup.2.2 _ (List.mem_map_of_mem hmem) _ (List.mem_singleton_self _) hcapability
  | none =>
    have hfree : ∀ other ∈ done, other.capability ≠ claim.capability := by
      intro other hother heq
      rw [(h.held _ _).2 ⟨hother, heq⟩] at hget
      cases hget
    refine .inl ⟨_, rfl, ?_, fun capability held => ?_⟩
    · rw [List.map_append, List.nodup_append]
      refine ⟨h.once, List.nodup_singleton _, ?_⟩
      intro capability hcapability other hother
      obtain ⟨x, hx, rfl⟩ := List.mem_map.1 hcapability
      rw [List.map_singleton, List.mem_singleton] at hother
      rw [hother]
      exact hfree x hx
    · rw [List.mem_append, List.mem_singleton]
      by_cases hcapability : claim.capability = capability
      · subst hcapability
        rw [Table.get_put_self, Option.some.injEq]
        constructor
        · rintro rfl
          exact ⟨.inr rfl, rfl⟩
        · rintro ⟨hmem | rfl, heq⟩
          · exact absurd heq (hfree held hmem)
          · rfl
      · rw [Table.get_put_of_ne _ (Ne.symm hcapability), h.held]
        constructor
        · rintro ⟨hmem, heq⟩
          exact ⟨.inl hmem, heq⟩
        · rintro ⟨hmem | rfl, heq⟩
          · exact ⟨hmem, heq⟩
          · exact absurd heq hcapability

/-- What is claimed twice stays so. -/
theorem not_once_append {more : List RegisteredCapability} (h : ¬ (done.map RegisteredCapability.capability).Nodup) :
    ¬ ((done ++ more).map RegisteredCapability.capability).Nodup := by
  rw [List.map_append]
  exact fun hnodup => h (hnodup.sublist (List.sublist_append_left _ _))

variable (claims) in
theorem registerEach_cases (h : registry.Has done) :
    ((registry.registerEach claims).2 = [] ∧ Has (registry.registerEach claims).1 (done ++ claims)) ∨
      ((registry.registerEach claims).2 ≠ [] ∧ ¬ ((done ++ claims).map RegisteredCapability.capability).Nodup) := by
  induction claims generalizing registry done with
  | nil =>
    rw [List.append_nil]
    exact .inl ⟨rfl, h⟩
  | cons claim claims ih =>
    have hconcat : done ++ claim :: claims = (done ++ [claim]) ++ claims := by simp
    unfold registerEach
    rcases h.register claim with ⟨registry', hok, hhas⟩ | ⟨⟨problem, herror⟩, htwice⟩
    · rw [hok, hconcat]
      exact ih hhas
    · rw [herror, hconcat]
      exact .inr ⟨List.cons_ne_nil _ _, not_once_append htwice⟩

variable (claims) in
theorem registerModule_cases (h : registry.Has done) :
    ((registry.registerModule claims).2 = none ∧ Has (registry.registerModule claims).1 (done ++ claims)) ∨
      ((registry.registerModule claims).2 ≠ none ∧ ¬ ((done ++ claims).map RegisteredCapability.capability).Nodup) := by
  induction claims generalizing registry done with
  | nil =>
    rw [List.append_nil]
    exact .inl ⟨rfl, h⟩
  | cons claim claims ih =>
    have hconcat : done ++ claim :: claims = (done ++ [claim]) ++ claims := by simp
    unfold registerModule
    rcases h.register claim with ⟨registry', hok, hhas⟩ | ⟨⟨problem, herror⟩, htwice⟩
    · rw [hok, hconcat]
      exact ih hhas
    · rw [herror, hconcat]
      exact .inr ⟨Option.some_ne_none _, not_once_append htwice⟩

theorem registerModules_cases (modules : List (List RegisteredCapability)) (h : registry.Has done) :
    ((registry.registerModules modules).2 = [] ∧ Has (registry.registerModules modules).1 (done ++ modules.flatten)) ∨
      ((registry.registerModules modules).2 ≠ [] ∧
        ¬ ((done ++ modules.flatten).map RegisteredCapability.capability).Nodup) := by
  induction modules generalizing registry done with
  | nil =>
    rw [List.flatten_nil, List.append_nil]
    exact .inl ⟨rfl, h⟩
  | cons claims modules ih =>
    unfold registerModules
    simp only
    rw [List.flatten_cons, ← List.append_assoc]
    rcases registerModule_cases claims h with ⟨hnone, hhas⟩ | ⟨hsome, htwice⟩
    · rw [hnone]
      exact ih hhas
    · refine .inr ⟨?_, not_once_append htwice⟩
      obtain ⟨problem, hproblem⟩ := Option.ne_none_iff_exists'.1 hsome
      rw [hproblem]
      exact List.cons_ne_nil _ _

end CapabilityRegistry

section Loaded

variable {isBlank : String → Bool} {sourceOf : String → String} {contextSource : String} {program : Program}
  {tree : ExecutionTree} {gathering : List String} {modules : List ModuleConfiguration}

theorem load_cases :
    (∃ registry, load isBlank sourceOf contextSource program tree gathering modules = .ok registry ∧
      registry.Has (claims isBlank sourceOf contextSource program tree gathering modules)) ∨
    (∃ problems, problems ≠ [] ∧ load isBlank sourceOf contextSource program tree gathering modules = .error problems) ∧
      ¬ ((claims isBlank sourceOf contextSource program tree gathering modules).map
        RegisteredCapability.capability).Nodup := by
  have hflat : modules.flatMap (moduleClaims isBlank) = (modules.map (moduleClaims isBlank)).flatten := rfl
  unfold load claims
  rw [hflat]
  simp only [List.isEmpty_iff, List.append_eq_nil_iff]
  rcases CapabilityRegistry.registerEach_cases (linkedClaims sourceOf contextSource program tree gathering)
    CapabilityRegistry.has_empty with ⟨hnone, hhas⟩ | ⟨hsome, htwice⟩
  · rcases CapabilityRegistry.registerModules_cases (modules.map (moduleClaims isBlank)) hhas with
      ⟨hnone', hhas'⟩ | ⟨hsome', htwice⟩
    · exact .inl ⟨_, if_pos ⟨hnone, hnone'⟩, hhas'⟩
    · refine .inr ⟨⟨_, ?_, if_neg fun h => hsome' h.2⟩, htwice⟩
      rw [hnone]
      exact hsome'
  · refine .inr ⟨⟨_, ?_, if_neg fun h => hsome h.1⟩, CapabilityRegistry.not_once_append htwice⟩
    exact fun h => hsome (List.append_eq_nil_iff.1 h).1

/-- Each capability claimed is served by who claims it, and by nothing else. -/
theorem has_of_load {registry : CapabilityRegistry}
    (h : load isBlank sourceOf contextSource program tree gathering modules = .ok registry) :
    registry.Has (claims isBlank sourceOf contextSource program tree gathering modules) := by
  rcases load_cases with ⟨registry', hok, hhas⟩ | ⟨⟨problems, -, herror⟩, -⟩
  · rw [h, Except.ok.injEq] at hok
    rw [hok]
    exact hhas
  · rw [h] at herror
    cases herror

/-- A node registers its capabilities exactly where none is claimed twice. -/
theorem load_ok_iff :
    (∃ registry, load isBlank sourceOf contextSource program tree gathering modules = .ok registry) ↔
      ((claims isBlank sourceOf contextSource program tree gathering modules).map
        RegisteredCapability.capability).Nodup := by
  constructor
  · rintro ⟨registry, h⟩
    exact (has_of_load h).once
  · intro hnodup
    rcases load_cases with ⟨registry, hok, -⟩ | ⟨-, htwice⟩
    · exact ⟨registry, hok⟩
    · exact absurd hnodup htwice

end Loaded

end Startup
