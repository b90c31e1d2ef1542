import Mathlib.Data.List.Basic
import Mathlib.Logic.Function.Basic
import XmipRuntime.Library.Run

/-!
# A node's local endpoint

A node answers the surfaces on its machine on a socket in a folder of its own (`src/plane/local.rs`).  Where it is follows
from its name by one rule, which the node binds by and every surface connects by (`place_in`).  Who connects is the account
the kernel says, judged against the admitted (`src/plane/local/unix.rs`).

A node making its endpoint looks whether a socket is there, connects to it, and where nobody listens removes it and binds its
own; a node that stops removes its socket and closes its listener after; one that crashes leaves the socket where it is.
Between each of these the file system is every other process's.  Where no node binds while another has found the socket there
dead and not removed it yet, a node that listens always has the socket at the path (`owns_of_reach`); and what crashed nodes
left never keeps a node from starting (`listens_of_none`).

The system's accounts, groups and folders are its own to say.
-/

namespace Endpoint

open Library

/-! ### Where it is -/

/-- A character no name in the folder has. -/
def leaving (c : Char) : Bool := decide (c ∈ ['/', '\\', ':', '\x00'])

section Places

variable (isBlank : List Char → Bool) (folder suffix : String)

/-- The name in the folder: `name`, or what its place is called. -/
def bareName (name : String) : List Char :=
  (name.toList.dropPrefix? folder.toList).elim name.toList fun inside => (inside.dropSuffix? suffix.toList).getD inside

/-- Whether a name is none, or would leave the folder. -/
def leaves (bare : List Char) : Bool :=
  isBlank bare || decide (bare = ['.']) || decide (bare = ['.', '.']) || bare.any leaving

/-- Where the endpoint called `name` is. -/
def placeIn (name : String) : Except String String :=
  let bare := bareName folder suffix name
  if leaves isBlank bare then
    .error ("the local endpoint \"" ++ name ++ "\" is no name in " ++ folder ++ "; it is a name like xmip-node1")
  else .ok (folder ++ String.ofList bare ++ suffix)

variable {isBlank folder suffix} {name place : String}

theorem bareName_place (bare : List Char) : bareName folder suffix (folder ++ String.ofList bare ++ suffix) = bare := by
  have hlist : (folder ++ String.ofList bare ++ suffix).toList = folder.toList ++ (bare ++ suffix.toList) := by
    simp [String.toList_append]
  have hprefix : (folder.toList ++ (bare ++ suffix.toList)).dropPrefix? folder.toList = some (bare ++ suffix.toList) :=
    List.dropPrefix?_append_of_beq _ (beq_self_eq_true _)
  have hsuffix : (bare ++ suffix.toList).dropSuffix? suffix.toList = some bare :=
    List.dropSuffix?_eq_some_iff.2 ⟨suffix.toList, rfl, beq_self_eq_true _⟩
  unfold bareName
  rw [hlist, hprefix]
  simp [hsuffix]

/-- A name has a place exactly where it stays in the folder: the folder, the name and what every place ends in. -/
theorem placeIn_ok_iff :
    placeIn isBlank folder suffix name = .ok place ↔
      leaves isBlank (bareName folder suffix name) = false ∧
        place = folder ++ String.ofList (bareName folder suffix name) ++ suffix := by
  unfold placeIn
  simp only
  by_cases h : leaves isBlank (bareName folder suffix name) = true
  · simp [h]
  · rw [Bool.not_eq_true] at h
    simp [h, eq_comm]

/-- A place is its own place: an endpoint is called by its name or by where it is. -/
theorem placeIn_place (h : placeIn isBlank folder suffix name = .ok place) :
    placeIn isBlank folder suffix place = .ok place := by
  obtain ⟨hstays, rfl⟩ := placeIn_ok_iff.1 h
  rw [placeIn_ok_iff, bareName_place]
  exact ⟨hstays, rfl⟩

end Places

/-! ### Who is admitted -/

/-- What the system says of accounts, groups and a folder. -/
structure System where
  userNamed : String → Option Nat
  groupNamed : String → Option Nat
  userOf : Nat → Option String
  groupOf : Nat → Option (String × List String)
  folder : Except String (Nat × Nat)
  node : Nat
  nodeGroup : Nat

/-- Who a node admits beside its own account and the superuser. -/
structure Admitted where
  users : List Nat
  groups : List Nat
  deriving DecidableEq

namespace Admitted

/-- Nobody. -/
def nobody : Admitted := ⟨[], []⟩

section

variable (system : System)

/-- The users and groups `names` name; a name that is both is both. -/
def named : List String → Except String Admitted
  | [] => .ok nobody
  | name :: names =>
    let user := system.userNamed name
    let group := system.groupNamed name
    if user.isNone && group.isNone then .error ("the system knows no user or group called \"" ++ name ++ "\"")
    else (named names).map fun rest => ⟨user.toList ++ rest.users, group.toList ++ rest.groups⟩

/-- Whether an account is a member of a group beyond its primary one. -/
def member (uid gid : Nat) : Bool :=
  match system.userOf uid, system.groupOf gid with
  | some user, some group => group.2.contains user
  | _, _ => false

/-- Whether an account may open the endpoint. -/
def admits (admitted : Admitted) (uid gid : Nat) : Bool :=
  decide (uid = system.node) || decide (uid = 0) || admitted.users.contains uid ||
    admitted.groups.any fun group => decide (group = gid) || member system uid group

end

variable {system : System} {names : List String} {admitted : Admitted}

theorem named_ok (h : named system names = .ok admitted) :
    (∀ uid, uid ∈ admitted.users ↔ ∃ name ∈ names, system.userNamed name = some uid) ∧
      ∀ gid, gid ∈ admitted.groups ↔ ∃ name ∈ names, system.groupNamed name = some gid := by
  induction names generalizing admitted with
  | nil =>
    cases h
    simp [nobody]
  | cons name names ih =>
    simp only [named] at h
    split at h
    · cases h
    · cases hrest : named system names with
      | error why =>
        rw [hrest] at h
        cases h
      | ok rest =>
        rw [hrest] at h
        cases h
        obtain ⟨husers, hgroups⟩ := ih hrest
        simp [husers, hgroups]

/-- An account may open the endpoint exactly where it is the node's or the superuser's, or `[operate] admit` names it or a
group it is in. -/
theorem admits_iff (h : named system names = .ok admitted) {uid gid : Nat} :
    admitted.admits system uid gid = true ↔ uid = system.node ∨ uid = 0 ∨ ∃ name ∈ names,
      system.userNamed name = some uid ∨
        ∃ group, system.groupNamed name = some group ∧ (group = gid ∨ member system uid group = true) := by
  obtain ⟨husers, hgroups⟩ := named_ok h
  unfold admits
  simp only [Bool.or_eq_true, decide_eq_true_eq, List.contains_iff_mem, List.any_eq_true, husers, hgroups]
  constructor
  · rintro (((rfl | rfl) | ⟨name, hname, huser⟩) | ⟨group, ⟨name, hname, hgroup⟩, hin⟩)
    · exact .inl rfl
    · exact .inr (.inl rfl)
    · exact .inr (.inr ⟨name, hname, .inl huser⟩)
    · exact .inr (.inr ⟨name, hname, .inr ⟨group, hgroup, hin⟩⟩)
  · rintro (rfl | rfl | ⟨name, hname, huser | ⟨group, hgroup, hin⟩⟩)
    · exact .inl (.inl (.inl rfl))
    · exact .inl (.inl (.inr rfl))
    · exact .inl (.inr ⟨name, hname, huser⟩)
    · exact .inr ⟨group, ⟨name, hname, hgroup⟩, hin⟩

end Admitted

/-- The account connecting, where the node admits it. -/
def caller (system : System) (admitted : Admitted) (uid gid : Nat) : Except String String :=
  let name := (system.userOf uid).getD ("uid " ++ toString uid)
  if admitted.admits system uid gid then .ok name
  else .error ("REFUSED. " ++ name ++ " is not admitted to this node's local endpoint: " ++
    "[operate] admit names who may open it beside the node's account")

section Making

variable (system : System)

/-- The group a shared socket belongs to. -/
def socketGroup : Option String → Except String (Nat × String)
  | none => .ok (system.nodeGroup, (system.groupOf system.nodeGroup).elim ("gid " ++ toString system.nodeGroup) Prod.fst)
  | some name =>
    match system.groupNamed name with
    | some gid => .ok (gid, (system.groupOf gid).elim name Prod.fst)
    | none => .error ("[operate] group: the system knows no group called \"" ++ name ++ "\"")

/-- Whether the folder is the node's or the superuser's, and written by nobody else. -/
def guarded (at_ : String) : Except String Unit :=
  match system.folder with
  | .error why => .error (at_ ++ ": " ++ why ++ "; the service manager makes it for the node's account")
  | .ok (owner, mode) =>
    if owner ≠ system.node ∧ owner ≠ 0 then
      .error (at_ ++ " belongs to uid " ++ toString owner ++ ", not the node's account or the superuser")
    else if mode &&& 0o022 ≠ 0 then
      .error (at_ ++ " may be written by others (mode " ++ String.ofList (Nat.toDigits 8 (mode &&& 0o7777)) ++
        "); a local endpoint is made only in a folder only its owner writes")
    else .ok ()

/-- Whom the socket is to be for, before it is made: the admitted, and the group of one that is shared. -/
def admitting (at_ : String) (names : List String) (group : Option String) : Except String (Admitted × Option Nat) := do
  let admitted ← Admitted.named system names
  let group ← if admitted ≠ .nobody then (socketGroup system group).map fun group => some group.1 else .ok none
  guarded system at_
  return (admitted, group)

end Making

/-! ### The socket at a path -/

/-- A socket file: whose listener it is, and who may connect. -/
structure File where
  socket : Nat
  mode : Option Nat
  group : Option Nat
  deriving DecidableEq

/-- Whom a node's socket is for. -/
structure For where
  admitted : Admitted
  group : Option Nat
  deriving DecidableEq

/-- Where a node is in making its endpoint, answering on it, or letting go of it. -/
inductive Stage where
  | idle
  /-- A socket is there: about to connect to it. -/
  | found (whom : For)
  /-- Nobody listens on it: about to remove it. -/
  | stale (whom : For)
  /-- Nothing is there: about to bind. -/
  | free (whom : For)
  /-- Bound: about to give it its group and mode. -/
  | bound (whom : For) (socket : Nat)
  | listening (whom : For) (socket : Nat)
  /-- Told to stop: its thread about to let go of the endpoint. -/
  | stopping (socket : Nat)
  /-- Its socket file removed: its listener about to be closed. -/
  | closing (socket : Nat)
  deriving DecidableEq

/-- Whether it has found the socket dead, and not removed it yet. -/
def Stage.removing : Stage → Bool
  | .stale _ => true
  | _ => false

/-- The listener a node holds. -/
def Stage.holds : Stage → Option Nat
  | .bound _ k | .listening _ k | .stopping k | .closing k => some k
  | .idle | .found _ | .stale _ | .free _ => none

/-- The listener a node holds and has not let go of. -/
def Stage.live : Stage → Option Nat
  | .bound _ k | .listening _ k | .stopping k => some k
  | .idle | .found _ | .stale _ | .free _ | .closing _ => none

structure World where
  file : Option File
  stages : Nat → Stage
  /-- The next socket made. -/
  next : Nat
  /-- How many nodes there are. -/
  nodes : Nat
  /-- Each caller that reached a node, and what it was told. -/
  called : List (Nat × Except String String)

inductive Action where
  /-- `bind` begun, with what its configuration admits, and the path looked at. -/
  | look (i : Nat) (system : System) (at_ : String) (names : List String) (group : Option String)
  | connect (i : Nat)
  | remove (i : Nat)
  | bind (i : Nat)
  /-- The group and the mode given to the socket, or refused. -/
  | permit (i : Nat) (given : Bool)
  /-- A caller connected to the path, and was judged where a node listens. -/
  | call (i : Nat) (system : System) (uid gid : Nat)
  | stop (i : Nat)
  /-- The socket file removed, whosever it is. -/
  | letGo (i : Nat)
  | close (i : Nat)
  | crash (i : Nat)

namespace World

variable (w : World)

def at_ (i : Nat) (stage : Stage) : World := { w with stages := Function.update w.stages i stage }

/-- Whether somebody listens on the socket at the path. -/
def answers : Bool :=
  match w.file with
  | none => false
  | some file => (List.range w.nodes).any fun i => decide ((w.stages i).holds = some file.socket)

def step : Action → Option World
  | .look i system path names group =>
    match w.stages i with
    | .idle =>
      if i < w.nodes then
        match admitting system path names group with
        | .error _ => some w
        | .ok (admitted, group) =>
          some (w.at_ i (if w.file.isSome then .found ⟨admitted, group⟩ else .free ⟨admitted, group⟩))
      else none
    | _ => none
  | .connect i =>
    match w.stages i with
    -- another node listens there: the start is refused
    | .found whom => some (w.at_ i (if w.answers then .idle else .stale whom))
    | _ => none
  | .remove i =>
    match w.stages i with
    -- the file gone meanwhile: removing it fails, and the start is refused
    | .stale whom => some { w.at_ i (if w.file.isSome then .free whom else .idle) with file := none }
    | _ => none
  | .bind i =>
    match w.stages i with
    | .free whom =>
      -- a file made meanwhile: binding fails, and the start is refused
      if w.file.isSome then some (w.at_ i .idle)
      else some { w.at_ i (.bound whom w.next) with file := some ⟨w.next, none, none⟩, next := w.next + 1 }
    | _ => none
  | .permit i given =>
    match w.stages i with
    | .bound whom k =>
      if given && w.file.isSome then
        some { w.at_ i (.listening whom k) with
          file := w.file.map fun file =>
            { file with mode := some (if whom.admitted = .nobody then 0o600 else 0o660), group := whom.group } }
      -- refused: the listener is closed, and the socket left where it is
      else some (w.at_ i .idle)
    | _ => none
  | .call i system uid gid =>
    match w.stages i with
    | .listening whom k =>
      if (w.file.map File.socket) = some k then
        some { w with called := w.called ++ [(k, caller system whom.admitted uid gid)] }
      else none
    | _ => none
  | .stop i =>
    match w.stages i with
    | .listening _ k => some (w.at_ i (.stopping k))
    | _ => none
  | .letGo i =>
    match w.stages i with
    | .stopping k => some { w.at_ i (.closing k) with file := none }
    | _ => none
  | .close i =>
    match w.stages i with
    | .closing _ => some (w.at_ i .idle)
    | _ => none
  | .crash i => if i < w.nodes then some (w.at_ i .idle) else none

/-! ### Whose the socket at the path is -/

/-- Nothing at the path, and no node begun. -/
def Begins (w : World) : Prop := w.file = none ∧ ∀ i, w.stages i = .idle

/-- A node binds only while no other has found the socket there dead and not removed it yet. -/
def Apart (w : World) : Action → Prop
  | .bind _ => (List.range w.nodes).all fun j => !(w.stages j).removing
  | _ => True

instance (w : World) (a : Action) : Decidable (Apart w a) := by
  unfold Apart
  split <;> infer_instance

variable {w}

/-- Each node that holds a listener holds one of its own, each that has not let go of it has its socket at the path, and
none has while another is about to remove what it found there. -/
structure Owned (w : World) : Prop where
  within : ∀ i, w.stages i ≠ .idle → i < w.nodes
  made : ∀ i k, (w.stages i).holds = some k → k < w.next
  apart : ∀ i j k, (w.stages i).holds = some k → (w.stages j).holds = some k → i = j
  own : ∀ i k, (w.stages i).live = some k → w.file.map File.socket = some k
  removing : ∀ i j, (w.stages i).removing = true → (w.stages j).live = none

theorem holds_of_live {stage : Stage} {k : Nat} (h : stage.live = some k) : stage.holds = some k := by
  cases stage <;> simp_all [Stage.live, Stage.holds]

theorem at_same (i : Nat) (stage : Stage) : (w.at_ i stage).stages i = stage := Function.update_self ..

theorem at_of_ne {i j : Nat} (stage : Stage) (h : j ≠ i) : (w.at_ i stage).stages j = w.stages j :=
  Function.update_of_ne h ..

/-- A node moved to a stage in which it holds no more than it did, the path left as it is. -/
theorem Owned.at_ (h : Owned w) {i : Nat} {stage : Stage} (hi : i < w.nodes)
    (hholds : ∀ k, stage.holds = some k → (w.stages i).holds = some k)
    (hlive : ∀ k, stage.live = some k → (w.stages i).live = some k)
    (hremoving : stage.removing = true → ∀ j, (w.stages j).live = none) : Owned (w.at_ i stage) where
  within j hj := by
    by_cases hji : j = i
    · rw [hji]
      exact hi
    · rw [at_of_ne stage hji] at hj
      exact h.within j hj
  made j k hk := by
    by_cases hji : j = i
    · rw [hji, at_same] at hk
      exact h.made i k (hholds k hk)
    · rw [at_of_ne stage hji] at hk
      exact h.made j k hk
  apart j l k hj hl := by
    have hback : ∀ m, ((w.at_ i stage).stages m).holds = some k → (w.stages m).holds = some k := by
      intro m hm
      by_cases hmi : m = i
      · rw [hmi, at_same] at hm
        rw [hmi]
        exact hholds k hm
      · rwa [at_of_ne stage hmi] at hm
    exact h.apart j l k (hback j hj) (hback l hl)
  own j k hk := by
    by_cases hji : j = i
    · rw [hji, at_same] at hk
      exact h.own i k (hlive k hk)
    · rw [at_of_ne stage hji] at hk
      exact h.own j k hk
  removing j l hj := by
    have hnone : (w.stages l).live = none → ((w.at_ i stage).stages l).live = none := by
      intro hl
      by_cases hli : l = i
      · rw [hli, at_same]
        rw [hli] at hl
        cases hstage : stage.live with
        | none => rfl
        | some k =>
          rw [hlive k hstage] at hl
          cases hl
      · rw [at_of_ne stage hli]
        exact hl
    by_cases hji : j = i
    · rw [hji, at_same] at hj
      exact hnone (hremoving hj l)
    · rw [at_of_ne stage hji] at hj
      exact hnone (h.removing j l hj)

/-- Another file at the path, of whoever has its socket there. -/
theorem Owned.file (h : Owned w) {file : Option File}
    (hown : ∀ i k, (w.stages i).live = some k → file.map File.socket = some k) : Owned { w with file } :=
  ⟨h.within, h.made, h.apart, hown, h.removing⟩

/-- A node that comes to hold nothing. -/
theorem Owned.idle (h : Owned w) {i : Nat} (hi : i < w.nodes) : Owned (w.at_ i .idle) :=
  h.at_ hi (fun k hk => by cases hk) (fun k hk => by cases hk) fun hr => by cases hr

/-- Two nodes that have not let go of their listeners are one. -/
theorem Owned.one (h : Owned w) {i j k l : Nat} (hi : (w.stages i).live = some k) (hj : (w.stages j).live = some l) :
    i = j := by
  have hsame : some k = some l := (h.own i k hi).symm.trans (h.own j l hj)
  rw [← Option.some.inj hsame] at hj
  exact h.apart i j k (holds_of_live hi) (holds_of_live hj)

/-- Who connects where a node has not let go of its listener is answered. -/
theorem Owned.answers (h : Owned w) {i k : Nat} (hi : (w.stages i).live = some k) : w.answers = true := by
  obtain ⟨file, hfile, hsocket⟩ := Option.map_eq_some_iff.1 (h.own i k hi)
  have hin : i < w.nodes := h.within i fun hidle => by rw [hidle] at hi; cases hi
  unfold World.answers
  rw [hfile]
  refine List.any_eq_true.2 ⟨i, List.mem_range.2 hin, decide_eq_true ?_⟩
  rw [hsocket]
  exact holds_of_live hi

theorem Owned.bind (h : Owned w) {i : Nat} {whom : For} (hi : w.stages i = .free whom) (hok : Apart w (.bind i))
    (hfile : w.file.isSome = false) :
    Owned { w.at_ i (.bound whom w.next) with file := some ⟨w.next, none, none⟩, next := w.next + 1 } := by
  have hin : i < w.nodes := h.within i fun hidle => by rw [hi] at hidle; cases hidle
  have hnone : ∀ j, (w.stages j).live = none := by
    intro j
    cases hj : (w.stages j).live with
    | none => rfl
    | some k =>
      obtain ⟨file, hsome, -⟩ := Option.map_eq_some_iff.1 (h.own j k hj)
      rw [hsome] at hfile
      cases hfile
  have hat : ∀ j, j ≠ i → (Function.update w.stages i (.bound whom w.next)) j = w.stages j := fun j hj =>
    Function.update_of_ne hj ..
  have hsame : (Function.update w.stages i (.bound whom w.next)) i = .bound whom w.next := Function.update_self ..
  refine ⟨fun j hj => ?_, fun j k hk => ?_, fun j l k hj hl => ?_, fun j k hk => ?_, fun j l hj => ?_⟩
  · by_cases hji : j = i
    · rw [hji]
      exact hin
    · have hidle : w.stages j ≠ .idle := fun hidle => hj ((hat j hji).trans hidle)
      exact h.within j hidle
  · show k < w.next + 1
    by_cases hji : j = i
    · have hk : some w.next = some k := by rw [hji] at hk; exact (congrArg Stage.holds hsame).symm.trans hk
      rw [Option.some.injEq] at hk
      omega
    · have hk := h.made j k ((congrArg Stage.holds (hat j hji)).symm.trans hk)
      omega
  · have hother : ∀ m, m ≠ i → (Function.update w.stages i (.bound whom w.next) m).holds = some k → k < w.next :=
      fun m hm hk => h.made m k ((congrArg Stage.holds (hat m hm)).symm.trans hk)
    have hself : (Function.update w.stages i (.bound whom w.next) i).holds = some k → k = w.next := fun hk =>
      (Option.some.inj ((congrArg Stage.holds hsame).symm.trans hk)).symm
    by_cases hji : j = i
    · by_cases hli : l = i
      · rw [hji, hli]
      · have hlt := hother l hli hl
        rw [hji] at hj
        have heq := hself hj
        omega
    · by_cases hli : l = i
      · have hlt := hother j hji hj
        rw [hli] at hl
        have heq := hself hl
        omega
      · exact h.apart j l k ((congrArg Stage.holds (hat j hji)).symm.trans hj)
          ((congrArg Stage.holds (hat l hli)).symm.trans hl)
  · by_cases hji : j = i
    · rw [hji] at hk
      exact (congrArg Stage.live hsame).symm.trans hk
    · have hk := (congrArg Stage.live (hat j hji)).symm.trans hk
      rw [hnone j] at hk
      cases hk
  · by_cases hji : j = i
    · rw [hji] at hj
      have hj := (congrArg Stage.removing hsame).symm.trans hj
      cases hj
    · have hj := (congrArg Stage.removing (hat j hji)).symm.trans hj
      have hjn : j < w.nodes := h.within j fun hidle => by rw [hidle] at hj; cases hj
      have hall := List.all_eq_true.1 hok j (List.mem_range.2 hjn)
      rw [hj] at hall
      cases hall

theorem Owned.step {a : Action} {w' : World} (h : Owned w) (hok : Apart w a) (hs : w.step a = some w') : Owned w' := by
  have hbegun : ∀ {i stage}, w.stages i = stage → stage ≠ .idle → i < w.nodes := by
    intro i stage hi hstage
    exact h.within i (hi ▸ hstage)
  cases a with
  | look i system path names group =>
    simp only [World.step] at hs
    split at hs
    · rename_i hi
      split at hs
      · rename_i hin
        split at hs
        · cases hs
          exact h
        · cases hs
          refine h.at_ hin ?_ ?_ ?_
          all_goals by_cases hfile : w.file.isSome = true <;> simp [hfile, Stage.holds, Stage.live, Stage.removing]
      · cases hs
    · cases hs
  | connect i =>
    simp only [World.step] at hs
    split at hs
    · rename_i whom hi
      have hin := hbegun hi (by simp)
      cases hs
      by_cases hanswers : w.answers = true
      · rw [if_pos hanswers]
        exact h.idle hin
      · rw [if_neg hanswers]
        refine h.at_ hin (by simp [Stage.holds]) (by simp [Stage.live]) fun _ j => ?_
        cases hj : (w.stages j).live with
        | none => rfl
        | some k => exact absurd (h.answers hj) hanswers
    · cases hs
  | remove i =>
    simp only [World.step] at hs
    split at hs
    · rename_i whom hi
      have hin := hbegun hi (by simp)
      cases hs
      have hnone : ∀ j, (w.stages j).live = none := fun j => h.removing i j (by rw [hi]; rfl)
      have hmoved : Owned (w.at_ i (if w.file.isSome = true then .free whom else .idle)) := by
        refine h.at_ hin ?_ ?_ ?_
        all_goals by_cases hfile : w.file.isSome = true <;> simp [hfile, Stage.holds, Stage.live, Stage.removing]
      refine hmoved.file fun j k hj => ?_
      exfalso
      by_cases hji : j = i
      · rw [hji, at_same] at hj
        by_cases hfile : w.file.isSome = true <;> simp [hfile, Stage.live] at hj
      · rw [at_of_ne _ hji, hnone j] at hj
        cases hj
    · cases hs
  | bind i =>
    simp only [World.step] at hs
    split at hs
    · rename_i whom hi
      split at hs
      · cases hs
        exact h.idle (hbegun hi (by simp))
      · rename_i hfile
        cases hs
        exact h.bind hi hok (Bool.not_eq_true _ ▸ hfile)
    · cases hs
  | permit i given =>
    simp only [World.step] at hs
    split at hs
    · rename_i whom k hi
      have hin := hbegun hi (by simp)
      split at hs
      · cases hs
        have hmoved : Owned (w.at_ i (.listening whom k)) :=
          h.at_ hin (by simp [hi, Stage.holds]) (by simp [hi, Stage.live]) (by simp [Stage.removing])
        refine hmoved.file fun j l hj => ?_
        have hown := hmoved.own j l hj
        rw [Option.map_map]
        exact hown
      · cases hs
        exact h.idle hin
    · cases hs
  | call i system uid gid =>
    simp only [World.step] at hs
    split at hs
    · split at hs
      · cases hs
        exact ⟨h.within, h.made, h.apart, h.own, h.removing⟩
      · cases hs
    · cases hs
  | stop i =>
    simp only [World.step] at hs
    split at hs
    · rename_i whom k hi
      cases hs
      exact h.at_ (hbegun hi (by simp)) (by simp [hi, Stage.holds]) (by simp [hi, Stage.live]) (by simp [Stage.removing])
    · cases hs
  | letGo i =>
    simp only [World.step] at hs
    split at hs
    · rename_i k hi
      cases hs
      have hmoved : Owned (w.at_ i (.closing k)) :=
        h.at_ (hbegun hi (by simp)) (by simp [hi, Stage.holds]) (by simp [Stage.live]) (by simp [Stage.removing])
      refine hmoved.file fun j l hj => ?_
      exfalso
      by_cases hji : j = i
      · rw [hji, at_same] at hj
        cases hj
      · rw [at_of_ne _ hji] at hj
        have hlive : (w.stages i).live = some k := by rw [hi]; rfl
        exact hji (h.one hj hlive)
    · cases hs
  | close i =>
    simp only [World.step] at hs
    split at hs
    · rename_i k hi
      cases hs
      exact h.idle (hbegun hi (by simp))
    · cases hs
  | crash i =>
    simp only [World.step] at hs
    split at hs
    · rename_i hin
      cases hs
      exact h.idle hin
    · cases hs

theorem owned_of_reach (h : Reach World.step Apart Begins w) : Owned w := by
  refine h.invariant ?_ fun w a w' howned hok hs => howned.step hok hs
  rintro w ⟨-, hidle⟩
  refine ⟨fun i hi => absurd (hidle i) hi, fun i k hk => ?_, fun i j k hk => ?_, fun i k hk => ?_, fun i j hr => ?_⟩
  · rw [hidle i] at hk
    cases hk
  · rw [hidle i] at hk
    cases hk
  · rw [hidle i] at hk
    cases hk
  · rw [hidle i] at hr
    cases hr

theorem apart_bind {i : Nat} (h : ∀ j, (w.stages j).removing = false) : Apart w (.bind i) := by
  refine List.all_eq_true.2 fun j _ => ?_
  rw [h j]
  rfl

theorem step_permit {i k : Nat} {whom : For} {file : File} (hi : w.stages i = .bound whom k) (hfile : w.file = some file) :
    w.step (.permit i true) = some { w.at_ i (.listening whom k) with
      file := some { file with mode := some (if whom.admitted = .nobody then 0o600 else 0o660), group := whom.group } } := by
  simp [World.step, hi, hfile]

/-- Nothing at the path: a node that found so comes to listen there. -/
theorem listens_of_free {i : Nat} {whom : For} (hi : w.stages i = .free whom) (hfile : w.file = none)
    (hremoving : ∀ j, (w.stages j).removing = false) :
    ∃ w', runWhere World.step Apart w [.bind i, .permit i true] = some w' ∧ w'.stages i = .listening whom w.next ∧
      w'.file = some ⟨w.next, some (if whom.admitted = .nobody then 0o600 else 0o660), whom.group⟩ := by
  have hbind : w.step (.bind i) =
      some { w.at_ i (.bound whom w.next) with file := some ⟨w.next, none, none⟩, next := w.next + 1 } := by
    simp [World.step, hi, hfile]
  have hpermit := step_permit (show ({ w.at_ i (.bound whom w.next) with
    file := some ⟨w.next, none, none⟩, next := w.next + 1 } : World).stages i = .bound whom w.next from at_same ..) rfl
  exact ⟨_, runWhere_cons_iff.2 ⟨apart_bind hremoving, _, hbind, runWhere_cons_iff.2 ⟨trivial, _, hpermit, rfl⟩⟩,
    at_same .., rfl⟩

/-- What nodes that crashed left at the path keeps no node from starting: where none holds a listener, one whose
configuration is fit comes to listen there by steps of its own. -/
theorem listens_of_none {i : Nat} {system : System} {path : String} {names : List String} {group : Option String}
    {admitted : Admitted} {gid : Option Nat} (hin : i < w.nodes) (hidle : w.stages i = .idle)
    (hnone : ∀ j, (w.stages j).holds = none) (hremoving : ∀ j, (w.stages j).removing = false)
    (hfit : admitting system path names group = .ok (admitted, gid)) :
    ∃ w', (runWhere World.step Apart w [.look i system path names group, .bind i, .permit i true] = some w' ∨
        runWhere World.step Apart w
          [.look i system path names group, .connect i, .remove i, .bind i, .permit i true] = some w') ∧
      w'.stages i = .listening ⟨admitted, gid⟩ w.next ∧
      w'.file = some ⟨w.next, some (if admitted = .nobody then 0o600 else 0o660), gid⟩ := by
  have hothers : ∀ stage, stage.removing = false → ∀ j, ((w.at_ i stage).stages j).removing = false := by
    intro stage hstage j
    by_cases hji : j = i
    · rw [hji, at_same]
      exact hstage
    · rw [at_of_ne stage hji]
      exact hremoving j
  cases hfile : w.file with
  | none =>
    have hlook : w.step (.look i system path names group) = some (w.at_ i (.free ⟨admitted, gid⟩)) := by
      simp [World.step, hidle, hin, hfit, hfile]
    obtain ⟨w', hrun, hlistens, hmade⟩ :=
      @listens_of_free (w.at_ i (.free ⟨admitted, gid⟩)) i ⟨admitted, gid⟩ (at_same ..) hfile (hothers _ rfl)
    exact ⟨w', .inl (runWhere_cons_iff.2 ⟨trivial, _, hlook, hrun⟩), hlistens, hmade⟩
  | some file =>
    have hlook : w.step (.look i system path names group) = some (w.at_ i (.found ⟨admitted, gid⟩)) := by
      simp [World.step, hidle, hin, hfit, hfile]
    -- nobody listens, so nobody answers
    have hdead : (w.at_ i (.found ⟨admitted, gid⟩)).answers = false := by
      have hholds : ∀ j, ((w.at_ i (.found ⟨admitted, gid⟩)).stages j).holds = none := by
        intro j
        by_cases hji : j = i
        · rw [hji, at_same]
          rfl
        · rw [at_of_ne _ hji]
          exact hnone j
      have hat : (w.at_ i (.found ⟨admitted, gid⟩)).file = some file := hfile
      simp [World.answers, hat, hholds]
    have hconnect : (w.at_ i (.found ⟨admitted, gid⟩)).step (.connect i) =
        some ((w.at_ i (.found ⟨admitted, gid⟩)).at_ i (.stale ⟨admitted, gid⟩)) := by
      simp [World.step, at_same, hdead]
    have htwice : ∀ a b, (w.at_ i a).at_ i b = w.at_ i b := by
      intro a b
      unfold World.at_
      rw [Function.update_idem]
    rw [htwice] at hconnect
    have hremove : (w.at_ i (.stale ⟨admitted, gid⟩)).step (.remove i) =
        some { w.at_ i (.free ⟨admitted, gid⟩) with file := none } := by
      have hat : (w.at_ i (.stale ⟨admitted, gid⟩)).file = some file := hfile
      simp only [World.step, at_same, hat, Option.isSome_some, if_true, htwice]
    obtain ⟨w', hrun, hlistens, hmade⟩ :=
      @listens_of_free { w.at_ i (.free ⟨admitted, gid⟩) with file := none } i ⟨admitted, gid⟩ (at_same ..) rfl
        (hothers _ rfl)
    refine ⟨w', .inr (runWhere_cons_iff.2 ⟨trivial, _, hlook, ?_⟩), hlistens, hmade⟩
    exact runWhere_cons_iff.2 ⟨trivial, _, hconnect, runWhere_cons_iff.2 ⟨trivial, _, hremove, hrun⟩⟩

/-! ### Two nodes of one name -/

/-- A machine whose runtime folder is the superuser's, and where no other account is known. -/
private def machine : System where
  userNamed _ := none
  groupNamed _ := none
  userOf _ := none
  groupOf _ := none
  folder := .ok (0, 0o755)
  node := 1000
  nodeGroup := 1000

private def look (i : Nat) : Action := .look i machine "/run/xmip" [] none

/-- Nothing at the path, and two nodes. -/
private def twoNodes : World := ⟨none, fun _ => .idle, 0, 2, []⟩

/-- Two nodes that start at once where one crashed: the second removes the first's socket, and the first listens where nobody
comes. -/
theorem lost_of_overlapping :
    ∃ w, Reach World.step Always Begins w ∧ (w.stages 0).live = some 1 ∧ w.file.map File.socket = some 2 := by
  obtain ⟨w, hreach, hw⟩ := Reach.exists_of_runWhere World.step Always (show Begins twoNodes from ⟨rfl, fun _ => rfl⟩)
    [look 0, .bind 0, .crash 0, look 0, look 1, .connect 0, .connect 1, .remove 0, .bind 0, .permit 0 true, .remove 1,
      .bind 1]
    (fun w => decide ((w.stages 0).live = some 1 ∧ w.file.map File.socket = some 2)) (by decide +kernel)
  exact ⟨w, hreach, of_decide_eq_true hw⟩

/-- A node starts where another crashed. -/
theorem listens_of_none_left :
    ∃ w' : World, w'.stages 0 = .listening ⟨.nobody, none⟩ 6 ∧ w'.file = some ⟨6, some 0o600, none⟩ := by
  let left : World := ⟨some ⟨5, some 0o600, none⟩, fun _ => .idle, 6, 1, []⟩
  obtain ⟨w', -, hlistens, hfile⟩ := @listens_of_none left 0 machine "/run/xmip" [] none .nobody none (by decide) rfl
    (fun _ => rfl) (fun _ => rfl) (by rfl)
  exact ⟨w', hlistens, hfile⟩

end World

end Endpoint
