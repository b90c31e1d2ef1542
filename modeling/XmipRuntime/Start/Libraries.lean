import XmipRuntime.Library.Answers
import XmipRuntime.Start.Hosts

/-!
# The Modules a node opens from their libraries

A node opens the library of each Module its configuration starts once, creates one instance, and starts the contracts
(`Libraries::open`, `src/library.rs`; `src/ffi/loaded_module.rs`, `src/ffi/loaded_contract.rs`).  A Module that is refused is
let go where it is refused; where one was, those opened before are stopped and let go; and what was opened is let go as the
node stops.

Whichever way each library answers, the calls a Module is given are one life (`Life`): its instance is destroyed once, after
all else, where it was created; it is stopped once where it was started; and its library is unloaded last
(`life_of_whole`).  What a library answers, and whether the host takes what it says of itself, are other programs' to say.
-/

namespace Startup

open Library

/-! ### A library, as the host meets it -/

/-- What a Module says of itself, and the words it is shown in. -/
structure ModuleDescriptor where
  shown : String
  module : String
  standard : String
  traitMajor : Nat
  traitMinor : Nat

/-- A trait's table: the version it says, and what each call answers where it carries it. -/
structure TraitTable where
  traitMajor : Nat
  traitMinor : Nat
  configure : Option Int
  start : Option Int
  stop : Option Int

/-- What a library does as it is opened and called. -/
structure Image where
  opens : Except String Unit
  exports : Except String Unit
  create : Int
  descriptor : ModuleDescriptor
  vtable : Option TraitTable
  destroy : Bool
  lastError : String

/-- What a host asks of a Module: the trait, and its version. -/
structure Expectation where
  trait : String
  traitMajor : Nat
  traitMinor : Nat

/-- What the operating system and a Module are asked for. -/
inductive Call where
  | opened | created | configured | started | stopped | destroyed | unloaded
  deriving DecidableEq

def statusOk : Int := 0

def entrypoint : String := "xmip_create_module_v1"

def contractTrait : String := "contract"

def workProcessTrait : String := "work-process"

structure LoadedModule where
  path : String
  image : Image

/-- The instance destroyed, and then its library unloaded. -/
def Image.letGo (image : Image) : List Call := (if image.destroy then [.destroyed] else []) ++ [.unloaded]

/-! ### One Module -/

section Opening

variable (accepts : ModuleDescriptor → Expectation → Except String Unit) (images : String → Image)

/-- A library opened and one instance created, kept where the host takes what it says of itself. -/
def LoadedModule.open (path : String) (expected : Expectation) : Except String LoadedModule × List Call :=
  let image := images path
  match image.opens with
  | .error why => (.error (path ++ " would not open: " ++ why), [])
  | .ok () =>
    match image.exports with
    | .error why => (.error (path ++ " exports no " ++ entrypoint ++ ": " ++ why ++
        ". Every conforming module exports exactly that symbol"), [.opened, .unloaded])
    | .ok () =>
      if image.create ≠ statusOk then
        (.error (path ++ " refused to create a module: status " ++ toString image.create ++
          ", and *out was left untouched as header section 7 requires"), [.opened, .created, .unloaded])
      else
        match accepts image.descriptor expected with
        | .error why => (.error why, [.opened, .created] ++ image.letGo)
        | .ok () => (.ok ⟨path, image⟩, [.opened, .created])

/-- The contract table of a Module, selected by what it says it is. -/
def contractOf (image : Image) : Except String TraitTable :=
  if image.descriptor.module ≠ contractTrait then
    .error (image.descriptor.shown ++ " answers the '" ++ image.descriptor.module ++ "' trait, and only '" ++
      contractTrait ++ "' can be driven from here")
  else
    match image.vtable with
    | none => .error (image.descriptor.shown ++ " names the '" ++ contractTrait ++ "' trait and carries no table")
    | some table =>
      if table.traitMajor ≠ image.descriptor.traitMajor ∨ table.traitMinor ≠ image.descriptor.traitMinor then
        .error (image.descriptor.shown ++ " declares trait " ++ toString image.descriptor.traitMajor ++ "." ++
          toString image.descriptor.traitMinor ++ " and its table says " ++ toString table.traitMajor ++ "." ++
          toString table.traitMinor ++ ": a module that disagrees with itself is not driven")
      else .ok table

/-- One call of a table's, where it carries it. -/
def asked (image : Image) (what : String) (call : Call) : Option Int → Except String Unit × List Call
  | none => (.error (image.descriptor.shown ++ " carries no " ++ what), [])
  | some answer =>
    (if answer = statusOk then .ok () else .error (image.descriptor.shown ++ " answered status " ++ toString answer ++
      " to " ++ what ++ ": " ++ image.lastError), [call])

/-- A contract configured and started. -/
def contractStarted (image : Image) : Except String Unit × List Call :=
  match contractOf image with
  | .error why => (.error why, [])
  | .ok table =>
    match asked image "configure" .configured table.configure with
    | (.error why, calls) => (.error why, calls)
    | (.ok (), calls) =>
      let started := asked image "start" .started table.start
      (started.1, calls ++ started.2)

/-- A contract stopped, whatever it answers. -/
def contractStopped (image : Image) : List Call :=
  match contractOf image with
  | .error _ => []
  | .ok table => (asked image "stop" .stopped table.stop).2

/-! ### Every Module a node starts -/

/-- A Module opened: a contract the host drives, or the library of a Work Process's unit. -/
inductive Held where
  | contract (loaded : LoadedModule)
  | flow (module unit : String) (loaded : LoadedModule)

def Held.image : Held → Image
  | .contract loaded => loaded.image
  | .flow _ _ loaded => loaded.image

/-- The trait a claim is of: what stands before its first colon. -/
def claimedTrait (capability : String) : String := String.ofList (capability.toList.takeWhile (· ≠ ':'))

variable (isBlank : String → Bool) (shownWords : List String → String)

/-- Where a Module's library is. -/
def libraryOf (module : ModuleConfiguration) : Except String String :=
  match module.manifest.entrypoint.symbol.filter (· ≠ entrypoint) with
  | some symbol => .error ("the module '" ++ module.name ++ "' names the entrypoint '" ++ symbol ++
      "'; a conforming module exports exactly " ++ entrypoint ++ " (header section 7)")
  | none =>
    match module.manifest.entrypoint.libraryPath.filter (fun path => !isBlank path),
        module.manifest.entrypoint.executablePath with
    | some path, _ => .ok path
    | none, some _ => .error ("the module '" ++ module.name ++
        "' runs as its own executable, and this runtime starts no Module out of process yet")
    | none, none => .error ("the module '" ++ module.name ++ "' names no library to load")

/-- What a Module's library does; one nothing opens where it names none. -/
def imageOf (module : ModuleConfiguration) : Image := images ((libraryOf isBlank module).toOption.getD "")

/-- One Module opened, and started where the host drives it; let go where it is refused. -/
def taken (module : ModuleConfiguration) : Except String Held × List Call :=
  match libraryOf isBlank module with
  | .error problem => (.error problem, [])
  | .ok path =>
    let traits := module.manifest.capabilities.map fun claim => claimedTrait claim.capability
    let said (why : String) := "the module '" ++ module.name ++ "': " ++ why
    if traits = [workProcessTrait] then
      match LoadedModule.open accepts images path ⟨workProcessTrait, 1, 0⟩ with
      | (.error why, calls) => (.error (said why), calls)
      | (.ok loaded, calls) =>
        -- a unit's library holds one unit, its descriptor's standard naming it
        let unit := loaded.image.descriptor.standard
        if module.manifest.units.any fun declared => declared.name == unit && declared.workProcess then
          (.ok (.flow module.name unit loaded), calls)
        else
          (.error ("the module '" ++ module.name ++ "' holds the unit '" ++ unit ++
            "', which its manifest does not declare as a " ++ workProcessTrait ++ " unit"), calls ++ loaded.image.letGo)
    else if traits ≠ [contractTrait] then
      (.error ("the module '" ++ module.name ++ "' claims " ++ shownWords traits ++ "; this runtime drives the '" ++
        contractTrait ++ "' and '" ++ workProcessTrait ++ "' tables of a loaded module and no other yet"), [])
    else
      match LoadedModule.open accepts images path ⟨contractTrait, 1, 0⟩ with
      | (.error why, calls) => (.error (said why), calls)
      | (.ok loaded, calls) =>
        match contractStarted loaded.image with
        | (.error why, more) => (.error (said why), calls ++ more ++ loaded.image.letGo)
        | (.ok (), more) => (.ok (.contract loaded), calls ++ more)

/-- The Modules opened, each by its place in the configuration. -/
structure Libraries where
  opened : List (Nat × LoadedModule)
  flows : List (Nat × String × String × LoadedModule)

/-- Calls of the Module at the place `i`. -/
def placed (i : Nat) (calls : List Call) : List (Nat × Call) := calls.map fun call => (i, call)

/-- The contracts stopped, and then every instance destroyed and its library unloaded. -/
def Libraries.letGo (libraries : Libraries) : List (Nat × Call) :=
  (libraries.opened.flatMap fun x => placed x.1 (contractStopped x.2.image)) ++
    (libraries.opened.flatMap fun x => placed x.1 x.2.image.letGo) ++
    libraries.flows.flatMap fun x => placed x.1 x.2.2.2.image.letGo

/-- What each Module came to, by its place. -/
def takenAll (modules : List ModuleConfiguration) : List (Nat × Except String Held × List Call) :=
  modules.zipIdx.map fun x => (x.2, taken accepts images isBlank shownWords x.1)

/-- What was opened of the Modules that were not refused. -/
def librariesOf (results : List (Nat × Except String Held × List Call)) : Libraries where
  opened := results.filterMap fun x =>
    match x.2.1 with
    | .ok (.contract loaded) => some (x.1, loaded)
    | _ => none
  flows := results.filterMap fun x =>
    match x.2.1 with
    | .ok (.flow module unit loaded) => some (x.1, module, unit, loaded)
    | _ => none

/-- Startup phase 6: every Module opened, or each that was refused said and the rest let go. -/
def Libraries.open (modules : List ModuleConfiguration) : Except (List String) Libraries × List (Nat × Call) :=
  let results := takenAll accepts images isBlank shownWords modules
  let problems := failed (results.map fun x => x.2.1)
  let calls := results.flatMap fun x => placed x.1 x.2.2
  if problems.isEmpty then (.ok (librariesOf results), calls)
  else (.error problems, calls ++ (librariesOf results).letGo)

end Opening

/-! ### One Module's life -/

/-- What is asked of an instance between its creation and its end: a contract started is stopped, where it can be, and one
that is not started is not. -/
inductive Asked (image : Image) : List Call → Prop where
  | nothing : Asked image []
  | configured : Asked image [.configured]
  | unstarted (table : TraitTable) (answer : Int) : contractOf image = .ok table → table.start = some answer →
      answer ≠ statusOk → Asked image [.configured, .started]
  | started (table : TraitTable) : contractOf image = .ok table → table.start = some statusOk →
      Asked image ([.configured, .started] ++ if table.stop.isSome then [.stopped] else [])

/-- What is called of a library from its opening until it is let go: an instance created is destroyed once, after all that
is asked of it, and the library is unloaded last. -/
inductive Life (image : Image) : List Call → Prop where
  | unopened : Life image []
  | noEntrypoint : Life image [.opened, .unloaded]
  | uncreated : image.create ≠ statusOk → Life image [.opened, .created, .unloaded]
  | created {calls : List Call} : image.create = statusOk → Asked image calls →
      Life image ([.opened, .created] ++ calls ++ image.letGo)

/-- What is called of a Module that was opened, while the node has it: nothing of its end. -/
def Held.Alive : Held → List Call → Prop
  | .contract loaded, calls => loaded.image.create = statusOk ∧ calls = [.opened, .created, .configured, .started] ∧
      ∃ table, contractOf loaded.image = .ok table ∧ table.start = some statusOk
  | .flow _ _ loaded, calls => loaded.image.create = statusOk ∧ calls = [.opened, .created]

/-- What is called of a Module that was opened as it is let go. -/
def Held.letGo : Held → List Call
  | .contract loaded => contractStopped loaded.image ++ loaded.image.letGo
  | .flow _ _ loaded => loaded.image.letGo

/-- What a Module came to, by what was called of it: refused and let go, or alive. -/
inductive Came (image : Image) : Except String Held → List Call → Prop where
  | refused {why : String} {calls : List Call} : Life image calls → Came image (.error why) calls
  | held {held : Held} {calls : List Call} : held.image = image → held.Alive calls → Came image (.ok held) calls

theorem Life.bare {image : Image} (h : image.create = statusOk) : Life image ([.opened, .created] ++ image.letGo) := by
  have hlife := Life.created h .nothing
  rw [List.append_nil] at hlife
  exact hlife

/-- A contract is started, or refused having been asked no more than to configure and to start. -/
theorem asked_of_contractStarted {image : Image} {came : Except String Unit} {calls : List Call}
    (h : contractStarted image = (came, calls)) :
    (∃ why, came = .error why ∧ Asked image calls) ∨
      (came = .ok () ∧ calls = [.configured, .started] ∧
        ∃ table, contractOf image = .ok table ∧ table.start = some statusOk) := by
  unfold contractStarted at h
  cases htable : contractOf image with
  | error why =>
    rw [htable] at h
    cases h
    exact .inl ⟨why, rfl, .nothing⟩
  | ok table =>
    simp only [htable] at h
    cases hconfigure : table.configure with
    | none =>
      simp only [hconfigure, asked] at h
      cases h
      exact .inl ⟨_, rfl, .nothing⟩
    | some answer =>
      simp only [hconfigure, asked] at h
      by_cases hok : answer = statusOk
      · simp only [if_pos hok] at h
        cases hstart : table.start with
        | none =>
          simp only [hstart] at h
          cases h
          exact .inl ⟨_, rfl, .configured⟩
        | some answer =>
          simp only [hstart] at h
          by_cases hstarted : answer = statusOk
          · rw [if_pos hstarted] at h
            cases h
            exact .inr ⟨rfl, rfl, table, rfl, by rw [hstart, hstarted]⟩
          · rw [if_neg hstarted] at h
            cases h
            exact .inl ⟨_, rfl, .unstarted table answer htable hstart hstarted⟩
      · simp only [if_neg hok] at h
        cases h
        exact .inl ⟨_, rfl, .configured⟩

section Opened

variable {accepts : ModuleDescriptor → Expectation → Except String Unit} {images : String → Image}
  {isBlank : String → Bool} {shownWords : List String → String}

/-- A library is opened and its instance created, or let go where it is refused. -/
theorem LoadedModule.came_of_open {path : String} {expected : Expectation} {came : Except String LoadedModule}
    {calls : List Call} (h : LoadedModule.open accepts images path expected = (came, calls)) :
    (∃ why, came = .error why ∧ Life (images path) calls) ∨
      (came = .ok ⟨path, images path⟩ ∧ calls = [.opened, .created] ∧ (images path).create = statusOk) := by
  unfold LoadedModule.open at h
  simp only at h
  split at h
  · cases h
    exact .inl ⟨_, rfl, .unopened⟩
  · split at h
    · cases h
      exact .inl ⟨_, rfl, .noEntrypoint⟩
    · split at h
      · rename_i hcreate
        cases h
        exact .inl ⟨_, rfl, .uncreated hcreate⟩
      · rename_i hcreate
        rw [not_not] at hcreate
        split at h
        · cases h
          exact .inl ⟨_, rfl, .bare hcreate⟩
        · cases h
          exact .inr ⟨rfl, rfl, hcreate⟩

variable (accepts images isBlank shownWords) in
theorem came_of_taken (module : ModuleConfiguration) :
    Came (imageOf images isBlank module) (taken accepts images isBlank shownWords module).1
      (taken accepts images isBlank shownWords module).2 := by
  generalize h : taken accepts images isBlank shownWords module = result
  obtain ⟨came, calls⟩ := result
  unfold taken at h
  split at h
  · cases h
    exact .refused .unopened
  · rename_i path hpath
    have himage : images path = imageOf images isBlank module := by
      unfold imageOf
      rw [hpath]
      rfl
    rw [← himage]
    simp only at h
    split at h
    · split at h
      · rename_i hopen
        cases h
        rcases LoadedModule.came_of_open hopen with ⟨-, -, hlife⟩ | ⟨hok, -⟩
        · exact .refused hlife
        · cases hok
      · rename_i hopen
        rcases LoadedModule.came_of_open hopen with ⟨_, hrefused, -⟩ | ⟨hok, rfl, hcreate⟩
        · cases hrefused
        · cases hok
          split at h
          · cases h
            exact .held rfl ⟨hcreate, rfl⟩
          · cases h
            exact .refused (.bare hcreate)
    · split at h
      · cases h
        exact .refused .unopened
      · split at h
        · rename_i hopen
          cases h
          rcases LoadedModule.came_of_open hopen with ⟨-, -, hlife⟩ | ⟨hok, -⟩
          · exact .refused hlife
          · cases hok
        · rename_i hopen
          rcases LoadedModule.came_of_open hopen with ⟨_, hrefused, -⟩ | ⟨hok, rfl, hcreate⟩
          · cases hrefused
          · cases hok
            split at h
            · rename_i hstarted
              cases h
              rcases asked_of_contractStarted hstarted with ⟨-, -, hasked⟩ | ⟨hok, -⟩
              · exact .refused (.created hcreate hasked)
              · cases hok
            · rename_i hstarted
              cases h
              rcases asked_of_contractStarted hstarted with ⟨_, hrefused, -⟩ | ⟨-, rfl, htable⟩
              · cases hrefused
              · exact .held rfl ⟨hcreate, rfl, htable⟩

/-! ### Every Module's life -/

/-- The calls of the Module at the place `i`. -/
def callsOf (i : Nat) (calls : List (Nat × Call)) : List Call :=
  calls.filterMap fun x => if x.1 = i then some x.2 else none

theorem callsOf_append (i : Nat) (calls more : List (Nat × Call)) :
    callsOf i (calls ++ more) = callsOf i calls ++ callsOf i more := List.filterMap_append

theorem callsOf_placed (i j : Nat) (calls : List Call) : callsOf i (placed j calls) = if j = i then calls else [] := by
  unfold callsOf placed
  rw [List.filterMap_map]
  by_cases h : j = i
  · rw [if_pos h]
    simp [h]
  · rw [if_neg h]
    simp [h]

section Places

variable {β : Type} {xs : List (Nat × β)} {f : β → List Call}

theorem callsOf_flatMap_of_none {i : Nat} (h : ∀ x ∈ xs, x.1 ≠ i) :
    callsOf i (xs.flatMap fun x => placed x.1 (f x.2)) = [] := by
  induction xs with
  | nil => rfl
  | cons x xs ih =>
    obtain ⟨hx, hxs⟩ := List.forall_mem_cons.1 h
    rw [List.flatMap_cons, callsOf_append, callsOf_placed, if_neg hx, ih hxs]
    rfl

/-- Where no place is taken twice, the calls of one are those made at it. -/
theorem callsOf_flatMap_of_mem (hnodup : (xs.map Prod.fst).Nodup) {x : Nat × β} (hx : x ∈ xs) :
    callsOf x.1 (xs.flatMap fun x => placed x.1 (f x.2)) = f x.2 := by
  induction xs with
  | nil => cases hx
  | cons y xs ih =>
    rw [List.map_cons, List.nodup_cons] at hnodup
    rw [List.flatMap_cons, callsOf_append, callsOf_placed]
    rcases List.mem_cons.1 hx with rfl | hx
    · rw [if_pos rfl, callsOf_flatMap_of_none fun z hz heq => hnodup.1 (List.mem_map.2 ⟨z, hz, heq⟩), List.append_nil]
    · have hne : y.1 ≠ x.1 := fun heq => hnodup.1 (List.mem_map.2 ⟨x, hx, heq.symm⟩)
      rw [if_neg hne, ih hnodup.2 hx]
      rfl

end Places

variable (accepts images isBlank shownWords) in
/-- All that is called of the Modules from phase 6 until they are let go: where one was refused, or as the node stops. -/
def Libraries.whole (modules : List ModuleConfiguration) : List (Nat × Call) :=
  let opened := Libraries.open accepts images isBlank shownWords modules
  opened.2 ++ opened.1.toOption.elim [] Libraries.letGo

variable (accepts images isBlank shownWords) in
theorem nodup_takenAll (modules : List ModuleConfiguration) :
    ((takenAll accepts images isBlank shownWords modules).map Prod.fst).Nodup := by
  have hplaces : (takenAll accepts images isBlank shownWords modules).map Prod.fst = List.range modules.length := by
    unfold takenAll
    rw [List.map_map, List.range_eq_range']
    exact List.zipIdx_map_snd 0 modules
  rw [hplaces]
  exact List.nodup_range

/-- The calls of the Modules opened, and then of their being let go. -/
theorem Libraries.whole_eq (modules : List ModuleConfiguration) :
    Libraries.whole accepts images isBlank shownWords modules =
      ((takenAll accepts images isBlank shownWords modules).flatMap fun x => placed x.1 x.2.2) ++
        (librariesOf (takenAll accepts images isBlank shownWords modules)).letGo := by
  unfold Libraries.whole Libraries.open
  simp only
  split
  · rfl
  · rw [List.append_assoc]
    exact congrArg _ (List.append_nil _)

private theorem nodup_filterMap_places {β γ : Type} {xs : List (Nat × β)} {f : Nat × β → Option (Nat × γ)}
    (hf : ∀ x y, f x = some y → y.1 = x.1) (h : (xs.map Prod.fst).Nodup) : ((xs.filterMap f).map Prod.fst).Nodup := by
  induction xs with
  | nil => exact List.nodup_nil
  | cons x xs ih =>
    rw [List.map_cons, List.nodup_cons] at h
    cases hx : f x with
    | none =>
      rw [List.filterMap_cons_none hx]
      exact ih h.2
    | some y =>
      rw [List.filterMap_cons_some hx, List.map_cons, List.nodup_cons]
      refine ⟨fun hmem => h.1 ?_, ih h.2⟩
      obtain ⟨z, hz, heq⟩ := List.mem_map.1 hmem
      obtain ⟨w, hw, hwz⟩ := List.mem_filterMap.1 hz
      exact List.mem_map.2 ⟨w, hw, by rw [← hf w z hwz, heq, hf x y hx]⟩

/-- What is called of a Module as it is let go: nothing where it was refused, and else its end. -/
theorem callsOf_letGo {results : List (Nat × Except String Held × List Call)} (hnodup : (results.map Prod.fst).Nodup)
    {x : Nat × Except String Held × List Call} (hx : x ∈ results) :
    callsOf x.1 (librariesOf results).letGo = x.2.1.toOption.elim [] Held.letGo := by
  have hopened : ((librariesOf results).opened.map Prod.fst).Nodup := by
    refine nodup_filterMap_places (fun x y hxy => ?_) hnodup
    split at hxy
    · cases hxy
      rfl
    · cases hxy
  have hflows : ((librariesOf results).flows.map Prod.fst).Nodup := by
    refine nodup_filterMap_places (fun x y hxy => ?_) hnodup
    split at hxy
    · cases hxy
      rfl
    · cases hxy
  have huniq : ∀ y ∈ results, y.1 = x.1 → y = x := fun y hy heq => List.inj_on_of_nodup_map hnodup hy hx heq
  have hnotOpened (hcontract : ∀ loaded, x.2.1 ≠ .ok (.contract loaded)) : ∀ y ∈ (librariesOf results).opened, y.1 ≠ x.1 := by
    intro y hy heq
    obtain ⟨z, hz, hzy⟩ := List.mem_filterMap.1 hy
    split at hzy
    · rename_i loaded hz'
      cases hzy
      rw [huniq z hz heq] at hz'
      exact hcontract loaded hz'
    · cases hzy
  have hnotFlow (hflow : ∀ module unit loaded, x.2.1 ≠ .ok (.flow module unit loaded)) :
      ∀ y ∈ (librariesOf results).flows, y.1 ≠ x.1 := by
    intro y hy heq
    obtain ⟨z, hz, hzy⟩ := List.mem_filterMap.1 hy
    split at hzy
    · rename_i module unit loaded hz'
      cases hzy
      rw [huniq z hz heq] at hz'
      exact hflow module unit loaded hz'
    · cases hzy
  unfold Libraries.letGo
  rw [callsOf_append, callsOf_append]
  obtain ⟨i, came, calls⟩ := x
  cases came with
  | error why =>
    rw [callsOf_flatMap_of_none (f := fun loaded => contractStopped loaded.image) (hnotOpened fun _ h => (nomatch h)),
      callsOf_flatMap_of_none (f := fun loaded => loaded.image.letGo) (hnotOpened fun _ h => (nomatch h)),
      callsOf_flatMap_of_none (f := fun y => y.2.2.image.letGo) (hnotFlow fun _ _ _ h => (nomatch h))]
    rfl
  | ok held =>
    cases held with
    | contract loaded =>
      have hmem : (i, loaded) ∈ (librariesOf results).opened := List.mem_filterMap.2 ⟨_, hx, rfl⟩
      rw [callsOf_flatMap_of_mem (f := fun loaded => contractStopped loaded.image) hopened hmem,
        callsOf_flatMap_of_mem (f := fun loaded => loaded.image.letGo) hopened hmem,
        callsOf_flatMap_of_none (f := fun y => y.2.2.image.letGo) (hnotFlow fun _ _ _ h => (nomatch h)), List.append_nil]
      rfl
    | flow module unit loaded =>
      have hmem : (i, module, unit, loaded) ∈ (librariesOf results).flows := List.mem_filterMap.2 ⟨_, hx, rfl⟩
      rw [callsOf_flatMap_of_none (f := fun loaded => contractStopped loaded.image) (hnotOpened fun _ h => (nomatch h)),
        callsOf_flatMap_of_none (f := fun loaded => loaded.image.letGo) (hnotOpened fun _ h => (nomatch h)),
        callsOf_flatMap_of_mem (f := fun y => y.2.2.image.letGo) hflows hmem]
      rfl

/-- A Module that is alive has its end before it. -/
theorem Held.life_of_alive {held : Held} {calls : List Call} (h : held.Alive calls) :
    Life held.image (calls ++ held.letGo) := by
  cases held with
  | contract loaded =>
    obtain ⟨hcreate, rfl, table, htable, hstart⟩ := h
    have hstopped : contractStopped loaded.image = if table.stop.isSome then [.stopped] else [] := by
      unfold contractStopped
      rw [htable]
      cases hstop : table.stop with
      | none => simp [asked, hstop]
      | some answer => simp [asked, hstop]
    have hlife := Life.created hcreate (.started table htable hstart)
    rw [← hstopped] at hlife
    simpa [Held.letGo, Held.image] using hlife
  | flow module unit loaded =>
    obtain ⟨hcreate, rfl⟩ := h
    exact .bare hcreate

/-- While the node has its Modules each was opened once, and nothing of its end was asked. -/
theorem Libraries.alive_of_open {modules : List ModuleConfiguration} {libraries : Libraries} {calls : List (Nat × Call)}
    (h : Libraries.open accepts images isBlank shownWords modules = (.ok libraries, calls)) {i : Nat}
    (hi : i < modules.length) :
    ∃ held : Held, held.image = imageOf images isBlank modules[i] ∧ held.Alive (callsOf i calls) := by
  unfold Libraries.open at h
  simp only at h
  split at h
  · rename_i hproblems
    cases h
    rw [List.isEmpty_iff, failed_eq_nil_iff] at hproblems
    have hmem : (i, taken accepts images isBlank shownWords modules[i]) ∈
        takenAll accepts images isBlank shownWords modules :=
      List.mem_map.2 ⟨(modules[i], i), List.mk_mem_zipIdx_iff_getElem?.2 (List.getElem?_eq_getElem hi), rfl⟩
    obtain ⟨held, hheld⟩ := hproblems _ (List.mem_map.2 ⟨_, hmem, rfl⟩)
    have hnodup := nodup_takenAll accepts images isBlank shownWords modules
    rw [callsOf_flatMap_of_mem (f := fun y : Except String Held × List Call => y.2) hnodup hmem]
    have hcame := came_of_taken accepts images isBlank shownWords modules[i]
    rw [hheld] at hcame
    cases hcame with
    | held himage halive => exact ⟨held, himage, halive⟩
  · cases h

/-- Whatever the libraries answer, and wherever one of them is refused, what is called of each Module is one life. -/
theorem life_of_whole {modules : List ModuleConfiguration} {i : Nat} (hi : i < modules.length) :
    Life (imageOf images isBlank modules[i]) (callsOf i (Libraries.whole accepts images isBlank shownWords modules)) := by
  have hmem : (i, taken accepts images isBlank shownWords modules[i]) ∈
      takenAll accepts images isBlank shownWords modules :=
    List.mem_map.2 ⟨(modules[i], i), List.mk_mem_zipIdx_iff_getElem?.2 (List.getElem?_eq_getElem hi), rfl⟩
  have hnodup := nodup_takenAll accepts images isBlank shownWords modules
  rw [Libraries.whole_eq, callsOf_append, callsOf_letGo hnodup hmem,
    callsOf_flatMap_of_mem (f := fun y : Except String Held × List Call => y.2) hnodup hmem]
  have hcame := came_of_taken accepts images isBlank shownWords modules[i]
  generalize taken accepts images isBlank shownWords modules[i] = result at hcame
  obtain ⟨came, calls⟩ := result
  cases hcame with
  | refused hlife =>
    show Life _ (calls ++ [])
    rw [List.append_nil]
    exact hlife
  | held himage halive =>
    rw [← himage]
    exact Held.life_of_alive halive

end Opened

end Startup
