import XmipRuntime.Start.Capabilities

/-!
# A node started and stopped

A node starts in nine phases (`Running::start`, `src/running.rs`): what can refuse it does so before anything serves, and what
was taken by then is let go.  Stopping waits for what serves, then lets go of Storage and the Modules (`halt`), and halting
again, as dropping what was stopped does, finds nothing to let go.

A node that started has all that its configuration starts (`started_whole`): the phases' checks leave no way for a Location to
be left out where one opens it.  Whichever phase refuses it, or it runs and is stopped, each Module's life is whole, and its
end is not before what serves has ended (`life_of_run`).

Reading and binding the configuration, Xmip Storage, the Subscriptions taken up and the Work Processes' units are answers of
other parts.
-/

namespace Startup

open Library
open WorkStep (KeyWord)
open Sequence (Sends)

inductive StartupPhase where
  | readConfiguration | buildExecutionTree | validateStartup | planHostServices | startHostServices | loadModules
  | registerCapabilities | verifyExtensions | acceptWork
  deriving DecidableEq

structure Refusal where
  phase : StartupPhase
  problems : List String

/-- What the rest of startup answers, in its order. -/
structure Surroundings where
  reads : Except String Unit
  reaching : Except Refusal Unit
  guard : Except (List String) Unit
  unrun : List String
  tree : Except (List String) (ExecutionTree × List ModuleConfiguration)
  storage : Except Refusal Unit
  pickup : Except String Unit
  work : Libraries → Except (List String) Unit

/-- What a node takes and lets go of, in order. -/
inductive Event where
  | module (i : Nat) (call : Call)
  | serving
  | served
  | storageStopped
  deriving DecidableEq

/-- A node started; what its Modules are held by, and whether what serves is still to be waited for. -/
structure Running where
  hostServices : List HostService
  capabilities : CapabilityRegistry
  receiving : List (Receiving LinkedTransport)
  sending : List (ConfiguredLocation × LinkedTransport)
  sends : Sends
  mechanisms : List String
  serving : Bool
  libraries : Option Libraries

section Starting

variable (readWord : String → Except String KeyWord) (accepts : ModuleDescriptor → Expectation → Except String Unit)
  (images : String → Image) (isBlank : String → Bool) (shownWords : List String → String) (sourceOf : String → String)
  (contextSource : String) (program : Program) (rest : Surroundings)

def Refusal.at (phase : StartupPhase) {α : Type} (x : Except (List String) α) : Except Refusal α :=
  x.mapError (Refusal.mk phase)

/-- What the phases before any Module is loaded come to. -/
structure Validated where
  tree : ExecutionTree
  modules : List ModuleConfiguration
  checked : Checked
  hostServices : List HostService

/-- The phases before any Module is loaded. -/
def validated : Except Refusal Validated := do
  (rest.reads.mapError fun reason => [reason]) |> Refusal.at .readConfiguration
  rest.reaching
  Refusal.at .validateStartup rest.guard
  Refusal.at .validateStartup (if rest.unrun.isEmpty then .ok () else .error rest.unrun)
  let bound ← Refusal.at .validateStartup rest.tree
  let checked ← Refusal.at .validateStartup (check readWord bound.1 program.linked)
  let hostServices ← Refusal.at .startHostServices
    (startHostServices (plan (bound.2.map ModuleConfiguration.manifest)))
  return ⟨bound.1, bound.2, checked, hostServices⟩

/-- What is linked once the policies set up from the Locations are with the rest. -/
def Program.setUp : Program := { program with policies := program.policies ++ program.locationPolicies }

/-- The Send Locations opened. -/
def sendingOf (tree : ExecutionTree) : List (ConfiguredLocation × LinkedTransport) :=
  answered (tree.sendLocationsToStart.map fun location =>
    (built program.linked location .send).map fun transport => (location, transport))

/-- The phases once every Module is opened. -/
def accepting (v : Validated) (libraries : Libraries) : Except Refusal Running := do
  let capabilities ← Refusal.at .registerCapabilities
    (load isBlank sourceOf contextSource program.setUp v.tree v.checked.gathering v.modules)
  rest.storage
  let opened ← Refusal.at .acceptWork (opened readWord v.tree program.linked v.checked.gates)
  (rest.pickup.mapError fun problem => [problem]) |> Refusal.at .acceptWork
  Refusal.at .loadModules (rest.work libraries)
  let accepted := opened.1.flatMap fun receiving => receiving.configured.mechanisms
  return ⟨v.hostServices, capabilities, opened.1, sendingOf program v.tree, opened.2,
    program.mechanisms.filter accepted.contains, true, some libraries⟩

/-- Calls of the Modules, as they happen. -/
def happened (calls : List (Nat × Call)) : List Event := calls.map fun x => .module x.1 x.2

/-- A node started: what it is, or which phase refused it, and what was taken and let go on the way. -/
def start : Except Refusal Running × List Event :=
  match validated readWord program rest with
  | .error refused => (.error refused, [])
  | .ok v =>
    match Libraries.open accepts images isBlank shownWords v.modules with
    | (.error problems, calls) => (.error ⟨.loadModules, problems⟩, happened calls)
    | (.ok libraries, calls) =>
      match accepting readWord isBlank sourceOf contextSource program rest v libraries with
      | .error refused => (.error refused, happened (calls ++ libraries.letGo))
      | .ok running => (.ok running, happened calls ++ [.serving])

end Starting

/-- What serves waited for, the Host Services and Storage stopped, the Modules let go: each where it was not yet. -/
def Running.halt (running : Running) : Running × List Event :=
  ({ running with
      hostServices := running.hostServices.map HostService.stop
      serving := false
      libraries := none },
    (if running.serving then [.served] else []) ++ [.storageStopped] ++
      happened (running.libraries.elim [] Libraries.letGo))

/-- A node stopped, and then dropped. -/
def Running.stop (running : Running) : Running × List Event :=
  let halted := running.halt
  let dropped := halted.1.halt
  (dropped.1, halted.2 ++ dropped.2)

/-! ### What is opened -/

section Opening

variable {readWord : String → Except String KeyWord} {program : Program} {tree : ExecutionTree} {checked : Checked}

/-- A tree that passes the check has nothing to choose between, and a transport for every Location. -/
theorem carried_of_check (h : check readWord tree program.linked = .ok checked) :
    schemeProblems program.transports = [] ∧
      ∀ started ∈ tree.started, (transportOf program.transports started.2).isSome = true := by
  unfold check at h
  simp only at h
  split at h
  · rename_i hproblems
    simp only [List.isEmpty_iff, List.append_eq_nil_iff] at hproblems
    obtain ⟨⟨⟨⟨hschemes, hlocations⟩, -⟩, -⟩, -⟩ := hproblems
    refine ⟨hschemes, fun started hstarted => ?_⟩
    have hnone := List.flatMap_eq_nil_iff.1 hlocations _ hstarted
    by_contra hcarried
    have htransport : program.linked.transport started.2 = none := Option.not_isSome_iff_eq_none.1 hcarried
    simp [locationProblems, htransport] at hnone
  · cases h

/-- The one linked transport that declares the Location's scheme, opened for a side it serves. -/
structure Serves (program : Program) (location : ConfiguredLocation) (side : Applies) (linked : LinkedTransport) : Prop where
  declares : linked ∈ program.transports ∧ location.scheme ∈ linked.schemes
  alone : ∀ other ∈ program.transports, location.scheme ∈ other.schemes → other = linked
  opened : ∃ secret directions, linked.opens location side secret = .ok directions ∧
    (side = .receive → directions.receives = true) ∧ (side = .send → directions.sends = true)

theorem serves_of_built (hschemes : schemeProblems program.transports = []) {location : ConfiguredLocation}
    {side : Applies} {linked : LinkedTransport} (h : built program.linked location side = .ok linked) :
    Serves program location side linked := by
  unfold built at h
  split at h
  · cases h
  · rename_i technology htechnology
    obtain ⟨secret, -, h⟩ := answers_iff.1 h
    obtain ⟨directions, hdirections, h⟩ := answers_iff.1 h
    rw [mapError_answers_iff] at hdirections
    have hchosen := (transport_eq_some_iff hschemes).1 htechnology
    have halone : ∀ other ∈ program.transports, location.scheme ∈ other.schemes → other = technology := by
      intro other hother hscheme
      have hsame := (transport_eq_some_iff hschemes).2 ⟨hother, hscheme⟩
      exact Option.some.inj (hsame.symm.trans htechnology)
    cases side with
    | receive =>
      simp only at h
      split at h
      · rename_i hreceives
        cases h
        exact ⟨hchosen, halone, secret, directions, hdirections, fun _ => hreceives, fun h => (nomatch h)⟩
      · cases h
    | send =>
      simp only at h
      split at h
      · rename_i hsends
        cases h
        exact ⟨hchosen, halone, secret, directions, hdirections, fun h => (nomatch h), fun _ => hsends⟩
      · cases h

/-- Where every Location is carried, what opened them left none out. -/
theorem built_of_opened {gates : List ReceiveGate} {receiving : List (Receiving LinkedTransport)} {sends : Sends}
    (hcarried : ∀ location ∈ tree.sendLocationsToStart, (transportOf program.transports location).isSome = true)
    (h : opened readWord tree program.linked gates = .ok (receiving, sends)) :
    (∀ r ∈ receiving, built program.linked r.configured .receive = .ok r.transport) ∧
      failed (tree.sendLocationsToStart.map fun location => built program.linked location .send) = [] := by
  unfold opened at h
  simp only at h
  split at h
  · rename_i hproblems
    cases h
    simp only [List.isEmpty_iff, List.append_eq_nil_iff] at hproblems
    constructor
    · intro r hr
      obtain ⟨x, -, hx⟩ := mem_answered_map.1 hr
      obtain ⟨transport, hbuilt, rfl⟩ := map_answers_iff.1 hx
      exact hbuilt
    · refine failed_eq_nil_of_flatten hproblems.2 ?_
      intro x hx why hwhy
      obtain ⟨location, hlocation, rfl⟩ := List.mem_map.1 hx
      exact built_error (hcarried location hlocation) hwhy
  · cases h

end Opening

/-! ### What a node that started has -/

section Started

variable {readWord : String → Except String KeyWord} {accepts : ModuleDescriptor → Expectation → Except String Unit}
  {images : String → Image} {isBlank : String → Bool} {shownWords : List String → String} {sourceOf : String → String}
  {contextSource : String} {program : Program} {rest : Surroundings}

/-- All that `tree` and `modules` start is there: each Location, in the configuration's order, by the one transport that
declares its scheme, and with its own gate; each Module in one Host Service of the node's own process, running; and each
capability by who claims it. -/
structure Whole (readWord : String → Except String KeyWord) (isBlank : String → Bool) (sourceOf : String → String)
    (contextSource : String) (program : Program) (tree : ExecutionTree) (modules : List ModuleConfiguration)
    (gathering : List String) (running : Running) : Prop where
  receiving : running.receiving.map Receiving.configured = tree.receiveLocationsToStart ∧
    ∀ r ∈ running.receiving, Serves program r.configured .receive r.transport ∧
      gateOf readWord tree program.linked r.configured = .ok r.gate
  sending : running.sending.map Prod.fst = tree.sendLocationsToStart ∧
    ∀ s ∈ running.sending, Serves program s.1 .send s.2
  hosted : (running.hostServices.flatMap fun service => service.plan.modules).Perm
      (modules.map ModuleConfiguration.manifest) ∧
    ∀ service ∈ running.hostServices, service.state = .running ∧ ∀ m ∈ service.plan.modules, m.InProcess
  capabilities : running.capabilities.Has
    (claims isBlank sourceOf contextSource program.setUp tree gathering modules)

/-- What the phases before any Module is loaded found. -/
theorem found_of_validated {v : Validated} (h : validated readWord program rest = .ok v) :
    rest.tree = .ok (v.tree, v.modules) ∧ check readWord v.tree program.linked = .ok v.checked ∧
      startHostServices (plan (v.modules.map ModuleConfiguration.manifest)) = .ok v.hostServices := by
  unfold validated at h
  obtain ⟨-, -, h⟩ := answers_iff.1 h
  obtain ⟨-, -, h⟩ := answers_iff.1 h
  obtain ⟨-, -, h⟩ := answers_iff.1 h
  obtain ⟨-, -, h⟩ := answers_iff.1 h
  obtain ⟨bound, hbound, h⟩ := answers_iff.1 h
  obtain ⟨checked, hchecked, h⟩ := answers_iff.1 h
  obtain ⟨services, hservices, h⟩ := answers_iff.1 h
  cases h
  exact ⟨mapError_answers_iff.1 hbound, mapError_answers_iff.1 hchecked, mapError_answers_iff.1 hservices⟩

theorem whole_of_accepting {v : Validated} {libraries : Libraries} {running : Running}
    (hchecked : check readWord v.tree program.linked = .ok v.checked)
    (hservices : startHostServices (plan (v.modules.map ModuleConfiguration.manifest)) = .ok v.hostServices)
    (h : accepting readWord isBlank sourceOf contextSource program rest v libraries = .ok running) :
    Whole readWord isBlank sourceOf contextSource program v.tree v.modules v.checked.gathering running ∧
      running.serving = true ∧ running.libraries = some libraries := by
  unfold accepting at h
  obtain ⟨capabilities, hcapabilities, h⟩ := answers_iff.1 h
  obtain ⟨-, -, h⟩ := answers_iff.1 h
  obtain ⟨⟨receiving, sends⟩, hopened, h⟩ := answers_iff.1 h
  obtain ⟨-, -, h⟩ := answers_iff.1 h
  obtain ⟨-, -, h⟩ := answers_iff.1 h
  cases h
  have hcapabilities := has_of_load (mapError_answers_iff.1 hcapabilities)
  have hopened := mapError_answers_iff.1 hopened
  obtain ⟨hschemes, hcarried⟩ := carried_of_check hchecked
  obtain ⟨hreceived, hgates, hanswered, -⟩ := check_ok hchecked
  obtain ⟨hreceiving, -⟩ := opened_ok hreceived hopened
  obtain ⟨hbuilt, hsent⟩ := built_of_opened
    (fun location hlocation => hcarried _ (List.mem_append_right _ (List.mem_map.2 ⟨location, hlocation, rfl⟩))) hopened
  obtain ⟨hpaired, hfirst⟩ := zip_answered hgates
  rw [← hanswered, ← hreceiving] at hpaired hfirst
  refine ⟨⟨⟨?_, fun r hr => ?_⟩, ⟨?_, fun s hs => ?_⟩, ⟨?_, fun service hservice => ?_⟩, hcapabilities⟩, rfl, rfl⟩
  · rw [← hfirst, List.map_map]
    rfl
  · exact ⟨serves_of_built hschemes (hbuilt r hr), hpaired _ (List.mem_map.2 ⟨r, hr, rfl⟩)⟩
  · have hnone : failed (v.tree.sendLocationsToStart.map fun location =>
        (built program.linked location .send).map fun transport => (location, transport)) = [] := by
      rw [failed_eq_nil_iff, List.forall_mem_map] at hsent ⊢
      intro location hlocation
      obtain ⟨transport, htransport⟩ := hsent location hlocation
      exact ⟨_, map_answers_iff.2 ⟨transport, htransport, rfl⟩⟩
    have hmap := @map_answered _ _ _ _ _ _ (fun s : ConfiguredLocation × LinkedTransport => s.1) id hnone fun x s hs => by
      obtain ⟨transport, -, rfl⟩ := map_answers_iff.1 hs
      rfl
    rw [List.map_id] at hmap
    exact hmap
  · obtain ⟨location, -, hlocation⟩ := mem_answered_map.1 hs
    obtain ⟨transport, htransport, rfl⟩ := map_answers_iff.1 hlocation
    exact serves_of_built hschemes htransport
  · obtain ⟨-, hstarted⟩ := startHostServices_ok_iff.1 hservices
    show (v.hostServices.flatMap _).Perm _
    rw [hstarted, List.flatMap_map]
    exact perm_plan _
  · obtain ⟨hin, hstarted⟩ := startHostServices_ok_iff.1 hservices
    have hmem : service ∈ v.hostServices := hservice
    rw [hstarted] at hmem
    obtain ⟨planned, hplanned, rfl⟩ := List.mem_map.1 hmem
    refine ⟨rfl, fun m hm => hin m ?_⟩
    exact (perm_plan _).mem_iff.1 (List.mem_flatMap.2 ⟨planned, hplanned, hm⟩)

/-! ### A node's whole life -/

/-- The calls of the Module at the place `i`. -/
def calledAt (i : Nat) (events : List Event) : List Call :=
  events.filterMap fun
    | .module j call => if j = i then some call else none
    | _ => none

theorem calledAt_append (i : Nat) (events more : List Event) :
    calledAt i (events ++ more) = calledAt i events ++ calledAt i more := List.filterMap_append

theorem calledAt_happened (i : Nat) (calls : List (Nat × Call)) : calledAt i (happened calls) = callsOf i calls := by
  unfold calledAt happened callsOf
  rw [List.filterMap_map]
  rfl

variable (readWord accepts images isBlank shownWords sourceOf contextSource program rest) in
/-- All that happens from a node's start until it is refused, or until it was stopped and dropped. -/
def lived : List Event :=
  let started := start readWord accepts images isBlank shownWords sourceOf contextSource program rest
  started.2 ++ started.1.toOption.elim [] fun running => running.stop.2

/-- The three ways a node starts. -/
theorem start_cases {came : Except Refusal Running} {events : List Event}
    (h : start readWord accepts images isBlank shownWords sourceOf contextSource program rest = (came, events)) :
    (∃ refused, came = .error refused ∧ events = []) ∨
      ∃ v, validated readWord program rest = .ok v ∧
        ((∃ refused, came = .error refused ∧
            events = happened (Libraries.whole accepts images isBlank shownWords v.modules)) ∨
          ∃ libraries calls running, Libraries.open accepts images isBlank shownWords v.modules = (.ok libraries, calls) ∧
            accepting readWord isBlank sourceOf contextSource program rest v libraries = .ok running ∧
            came = .ok running ∧ events = happened calls ++ [.serving]) := by
  unfold start at h
  split at h
  · rename_i refused hrefused
    cases h
    exact .inl ⟨refused, rfl, rfl⟩
  · rename_i v hvalidated
    refine .inr ⟨v, hvalidated, ?_⟩
    split at h
    · rename_i problems calls hopen
      cases h
      refine .inl ⟨_, rfl, ?_⟩
      unfold Libraries.whole
      rw [hopen]
      exact congrArg happened (List.append_nil calls).symm
    · rename_i libraries calls hopen
      split at h
      · rename_i refused hrefused
        cases h
        refine .inl ⟨refused, rfl, ?_⟩
        unfold Libraries.whole
        rw [hopen]
        rfl
      · rename_i running hrunning
        cases h
        exact .inr ⟨libraries, calls, running, hopen, hrunning, rfl, rfl⟩

/-- A node that started has all its configuration starts, each Module opened once and alive. -/
theorem started_whole {running : Running} {events : List Event}
    (h : start readWord accepts images isBlank shownWords sourceOf contextSource program rest = (.ok running, events)) :
    ∃ tree modules checked, rest.tree = .ok (tree, modules) ∧ check readWord tree program.linked = .ok checked ∧
      Whole readWord isBlank sourceOf contextSource program tree modules checked.gathering running ∧
      ∀ i (hi : i < modules.length),
        ∃ held : Held, held.image = imageOf images isBlank modules[i] ∧ held.Alive (calledAt i events) := by
  rcases start_cases h with ⟨_, hcame, -⟩ | ⟨v, hvalidated, hrest⟩
  · cases hcame
  · obtain ⟨htree, hchecked, hservices⟩ := found_of_validated hvalidated
    rcases hrest with ⟨_, hcame, -⟩ | ⟨libraries, calls, started, hopen, haccepting, hcame, rfl⟩
    · cases hcame
    · cases hcame
      obtain ⟨hwhole, -, -⟩ := whole_of_accepting hchecked hservices haccepting
      refine ⟨v.tree, v.modules, v.checked, htree, hchecked, hwhole, fun i hi => ?_⟩
      have hcalled : calledAt i (happened calls ++ [.serving]) = callsOf i calls := by
        rw [calledAt_append, calledAt_happened]
        exact List.append_nil _
      rw [hcalled]
      exact Libraries.alive_of_open hopen hi

/-- A node stopped waits for what serves once, and then lets go of its Modules, once. -/
theorem stop_of_serving {running : Running} {libraries : Libraries} (hserving : running.serving = true)
    (hlibraries : running.libraries = some libraries) :
    running.stop.2 = [.served, .storageStopped] ++ happened libraries.letGo ++ [.storageStopped] := by
  unfold Running.stop Running.halt
  simp only [hserving, hlibraries]
  simp [happened]

variable (readWord accepts images isBlank shownWords sourceOf contextSource program rest) in
/-- The three ways a node's life goes: nothing taken, all taken let go before anything serves, or served and stopped. -/
theorem lived_cases :
    ((∃ refused events,
        start readWord accepts images isBlank shownWords sourceOf contextSource program rest = (.error refused, events)) ∧
      (lived readWord accepts images isBlank shownWords sourceOf contextSource program rest = [] ∨
        ∃ v, validated readWord program rest = .ok v ∧
          lived readWord accepts images isBlank shownWords sourceOf contextSource program rest =
            happened (Libraries.whole accepts images isBlank shownWords v.modules))) ∨
      ∃ v libraries calls running events, validated readWord program rest = .ok v ∧
        Libraries.open accepts images isBlank shownWords v.modules = (.ok libraries, calls) ∧
        start readWord accepts images isBlank shownWords sourceOf contextSource program rest = (.ok running, events) ∧
        lived readWord accepts images isBlank shownWords sourceOf contextSource program rest =
          happened calls ++ [.serving, .served] ++ ([.storageStopped] ++ happened libraries.letGo ++ [.storageStopped]) := by
  unfold lived
  generalize hstart : start readWord accepts images isBlank shownWords sourceOf contextSource program rest = started
  obtain ⟨came, events⟩ := started
  rcases start_cases hstart with ⟨refused, rfl, rfl⟩ | ⟨v, hvalidated, ⟨refused, rfl, rfl⟩ | hstarted⟩
  · exact .inl ⟨⟨refused, [], rfl⟩, .inl rfl⟩
  · exact .inl ⟨⟨refused, _, rfl⟩, .inr ⟨v, hvalidated, List.append_nil _⟩⟩
  · obtain ⟨libraries, calls, running, hopen, haccepting, rfl, rfl⟩ := hstarted
    obtain ⟨-, hchecked, hservices⟩ := found_of_validated hvalidated
    obtain ⟨-, hserving, hlibraries⟩ := whole_of_accepting hchecked hservices haccepting
    have hstop := stop_of_serving hserving hlibraries
    refine .inr ⟨v, libraries, calls, running, _, hvalidated, hopen, rfl, ?_⟩
    simp [Except.toOption, hstop]

/-- Whichever phase refuses a node, or it runs and is stopped: what is called of each Module from its opening is one life.
What serves does so in a node that started alone, once, and all the while each Module is alive. -/
theorem life_of_run {tree : ExecutionTree} {modules : List ModuleConfiguration} (htree : rest.tree = .ok (tree, modules))
    {i : Nat} (hi : i < modules.length) :
    Life (imageOf images isBlank modules[i])
        (calledAt i (lived readWord accepts images isBlank shownWords sourceOf contextSource program rest)) ∧
      (∀ refused events,
        start readWord accepts images isBlank shownWords sourceOf contextSource program rest = (.error refused, events) →
          Event.serving ∉ lived readWord accepts images isBlank shownWords sourceOf contextSource program rest) ∧
      ∀ running events,
        start readWord accepts images isBlank shownWords sourceOf contextSource program rest = (.ok running, events) →
          ∃ opened ended, lived readWord accepts images isBlank shownWords sourceOf contextSource program rest =
              opened ++ [.serving, .served] ++ ended ∧
            (∀ event ∈ opened ++ ended, event ≠ .serving ∧ event ≠ .served) ∧
            ∃ held : Held, held.image = imageOf images isBlank modules[i] ∧ held.Alive (calledAt i opened) := by
  have hmodules : ∀ v, validated readWord program rest = .ok v → v.modules = modules := by
    intro v hvalidated
    obtain ⟨hv, -, -⟩ := found_of_validated hvalidated
    rw [htree, Except.ok.injEq, Prod.mk.injEq] at hv
    exact hv.2.symm
  have hcalls : ∀ calls, ∀ event ∈ happened calls, event ≠ .serving ∧ event ≠ .served := by
    intro calls event hevent
    obtain ⟨call, -, rfl⟩ := List.mem_map.1 hevent
    constructor
    · intro h
      cases h
    · intro h
      cases h
  have hstorage : Event.storageStopped ≠ .serving ∧ Event.storageStopped ≠ .served := by decide
  have hlife : Life (imageOf images isBlank modules[i])
      (callsOf i (Libraries.whole accepts images isBlank shownWords modules)) := life_of_whole hi
  rcases lived_cases readWord accepts images isBlank shownWords sourceOf contextSource program rest with
    ⟨⟨refused, events, hstart⟩, hlived⟩ | ⟨v, libraries, calls, running, events, hvalidated, hopen, hstart, hlived⟩
  · rw [hstart]
    refine ⟨?_, fun _ _ _ => ?_, fun _ _ h => ?_⟩
    · rcases hlived with hlived | ⟨v, hvalidated, hlived⟩
      · rw [hlived]
        exact .unopened
      · rw [hlived, calledAt_happened, hmodules v hvalidated]
        exact hlife
    · rcases hlived with hlived | ⟨v, -, hlived⟩
      · rw [hlived]
        exact List.not_mem_nil
      · rw [hlived]
        exact fun h => (hcalls _ _ h).1 rfl
    · cases h
  · obtain rfl := hmodules v hvalidated
    rw [hstart, hlived]
    refine ⟨?_, fun _ _ h => ?_, fun _ _ _ => ?_⟩
    · have hwhole : calledAt i (happened calls ++ [.serving, .served] ++
          ([.storageStopped] ++ happened libraries.letGo ++ [.storageStopped])) = callsOf i calls ++ [] ++
            ([] ++ callsOf i libraries.letGo ++ []) := by
        simp only [calledAt_append, calledAt_happened]
        rfl
      rw [hwhole, List.append_nil, List.append_nil, List.nil_append, ← callsOf_append]
      unfold Libraries.whole at hlife
      rw [hopen] at hlife
      exact hlife
    · cases h
    · refine ⟨happened calls, [.storageStopped] ++ happened libraries.letGo ++ [.storageStopped], rfl, ?_, ?_⟩
      · intro event hevent
        simp only [List.mem_append, List.mem_singleton] at hevent
        rcases hevent with hevent | (rfl | hevent) | rfl
        · exact hcalls _ _ hevent
        · exact hstorage
        · exact hcalls _ _ hevent
        · exact hstorage
      · rw [calledAt_happened]
        exact Libraries.alive_of_open hopen hi

end Started

/-! ### A node of one Location and two Modules -/

/-- A node that receives over TCP as `shop`. -/
private def shopTree : ExecutionTree where
  receiveLocationsToStart := [⟨"in", "tcp://a:9", "tcp", none, ["tls"], none⟩]
  receivePorts := []
  sendLocationsToStart := []
  designedSendPorts := []
  sendPortGroups := []
  sendLocationSets := []
  workProcessSets := []
  correlations := []

private def shopProgram : Program where
  transports := [⟨"tcp", ["tcp"], fun _ _ _ => .ok ⟨true, false⟩⟩]
  sources := []
  mechanisms := ["tls", "kerberos"]
  policies := []
  locationPolicies := ["accepted-parties"]
  transportIdentifiers := []
  messageIdentifiers := []
  partyProblems := []
  acceptedProblems := fun _ => []
  properties := []
  refusals := fun _ => []

/-- A contract in the library at `path`. -/
private def contractAt (path : String) : ModuleConfiguration :=
  ⟨path, path, [⟨"contract:" ++ path, .nativeRust, false⟩], ⟨some path, none, none⟩, []⟩

/-- A contract that starts as `answer` says. -/
private def contractImage (answer : Int) : Image where
  opens := .ok ()
  exports := .ok ()
  create := statusOk
  descriptor := ⟨"orders", "contract", "orders", 1, 0⟩
  vtable := some ⟨1, 0, some statusOk, some answer, some statusOk⟩
  destroy := true
  lastError := "no rules"

private def shopImages (path : String) : Image := contractImage (if path = "refusing" then 3 else statusOk)

private def shop (modules : List ModuleConfiguration) : Surroundings where
  reads := .ok ()
  reaching := .ok ()
  guard := .ok ()
  unrun := []
  tree := .ok (shopTree, modules)
  storage := .ok ()
  pickup := .ok ()
  work := fun _ => .ok ()

private def shopStarted (modules : List ModuleConfiguration) : Except Refusal Running × List Event :=
  start (fun _ => .error "no key word") (fun _ _ => .ok ()) shopImages String.isEmpty (String.intercalate ", ") id ""
    shopProgram (shop modules)

private theorem shop_starts :
    ∃ running events, shopStarted [contractAt "orders", contractAt "stock"] = (.ok running, events) := by
  have hok : (shopStarted [contractAt "orders", contractAt "stock"]).1.toOption.isSome = true := by decide +kernel
  generalize shopStarted [contractAt "orders", contractAt "stock"] = started at hok
  obtain ⟨came, events⟩ := started
  cases came with
  | error refused => cases hok
  | ok running => exact ⟨running, events, rfl⟩

/-- Both its Modules are opened, and its Location is served. -/
theorem started_whole_shop :
    ∃ running events, shopStarted [contractAt "orders", contractAt "stock"] = (.ok running, events) ∧
      ∃ tree modules checked, (shop [contractAt "orders", contractAt "stock"]).tree = .ok (tree, modules) ∧
        check (fun _ => .error "no key word") tree shopProgram.linked = .ok checked ∧
        Whole (fun _ => .error "no key word") String.isEmpty id "" shopProgram tree modules checked.gathering running ∧
        ∀ i (hi : i < modules.length),
          ∃ held : Held, held.image = imageOf shopImages String.isEmpty modules[i] ∧ held.Alive (calledAt i events) := by
  obtain ⟨running, events, hstarted⟩ := shop_starts
  exact ⟨running, events, hstarted, started_whole hstarted⟩

/-- One Module does not start: the node is refused, and the other is stopped and let go. -/
theorem life_of_run_refusing :
    (lived (fun _ => .error "no key word") (fun _ _ => .ok ()) shopImages String.isEmpty (String.intercalate ", ") id ""
        shopProgram (shop [contractAt "orders", contractAt "refusing"])) =
      happened [(0, .opened), (0, .created), (0, .configured), (0, .started), (1, .opened), (1, .created), (1, .configured),
        (1, .started), (1, .destroyed), (1, .unloaded), (0, .stopped), (0, .destroyed), (0, .unloaded)] ∧
      Life (contractImage statusOk) (calledAt 0 (lived (fun _ => .error "no key word") (fun _ _ => .ok ()) shopImages
        String.isEmpty (String.intercalate ", ") id "" shopProgram (shop [contractAt "orders", contractAt "refusing"]))) := by
  obtain ⟨hlife, -⟩ := @life_of_run (fun _ => .error "no key word") (fun _ _ => .ok ()) shopImages String.isEmpty
    (String.intercalate ", ") id "" shopProgram (shop [contractAt "orders", contractAt "refusing"]) shopTree
    [contractAt "orders", contractAt "refusing"] rfl 0 (by decide)
  exact ⟨by decide +kernel, hlife⟩

end Startup
