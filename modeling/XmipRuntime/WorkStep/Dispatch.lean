import XmipRuntime.Library.Pick
import XmipRuntime.Library.Run

/-!
# The Work Process step's dispatching

One thread of a node dispatches its Work Processes (`src/work_step/dispatch.rs`): it waits until a queue is asked for, a
timer is due or a scan is, reads what is due in each queue, and takes a turn of each Message no turn of this node has
already: on the Work pool, or, where its Work Process names a Correlation, on its own thread, one after the other.  The
Messages in a turn are kept by their Journeys in `owned`, put there before the turn and taken out once it has ended.

A turn is another module's; how it ends comes with the step that ends it, and that it panics is one of the ways: on the
pool's thread the panic is caught (`src/pool.rs`), on the dispatching thread it ends the dispatching.  A step is one hold
of the step's lock or of the pool's, with what its thread does by itself up to the next.
-/

namespace WorkStep.Dispatch

open Library

/-- A Work Process a node runs: its name, its queue, and whether it names a Correlation. -/
structure Process where
  name : String
  queue : Nat
  sequenced : Bool
  deriving DecidableEq

/-- An entry of a queue as Xmip Storage answers it. -/
structure Held where
  journey : Nat
  failed : Bool

/-- How a turn ended. -/
inductive Turned where
  | done
  | waits (why : String)
  | failed (why : String)
  | unwritten (why : String)
  deriving DecidableEq

/-- What a node is told of its Work Processes: its own name, the processes, and how often every queue is read. -/
structure Setup where
  node : String
  running : List Process
  scan : Nat

/-- The most entries of a queue read at once. -/
def page : Nat := 64

/-- What one read of a queue answers: the entries, and how long until the next that is not due yet is. -/
structure Page where
  held : List Held
  nextDueIn : Option Nat

/-! ### What the step keeps -/

structure State where
  /-- The Messages in a turn on this node, by Journey. -/
  owned : List Nat
  /-- Queues to read now. -/
  asked : List Nat
  /-- When each queue next has a timer due, as its last read showed. -/
  due : List (Nat × Nat)
  closed : Bool

namespace State

def asking (s : State) (queue : Nat) : State :=
  { s with asked := if queue ∈ s.asked then s.asked else s.asked ++ [queue] }

/-- Read `queue` now, where it is one of a Work Process this node runs. -/
def ask (c : Setup) (s : State) (queue : Nat) : State :=
  if c.running.any fun p => decide (p.queue = queue) then s.asking queue else s

/-- Read every queue now. -/
def askEvery (c : Setup) (s : State) : State := c.running.foldl (fun s p => s.asking p.queue) s

/-- The Journey's Message in a turn now; `none`, where one of it is under way here. -/
def own (s : State) (journey : Nat) : Option State :=
  if journey ∈ s.owned then none else some { s with owned := s.owned ++ [journey] }

/-- Its turn ended; `again`, where the next of its queue may go on now. -/
def disown (s : State) (journey queue : Nat) (again : Bool) : State :=
  let s := { s with owned := s.owned.filter fun j => decide (j ≠ journey) }
  if again then s.asking queue else s

/-- A timer of `queue` is due at `time`. -/
def noted (s : State) (queue time : Nat) : State :=
  match s.due.findIdx? fun d => decide (d.1 = queue) with
  | some i => { s with due := s.due.modify i fun d => (d.1, min d.2 time) }
  | none => { s with due := s.due ++ [(queue, time)] }

/-- Whether it is closed and the queues to read, at `now`, where there are any or a scan is due at `until_`; what is due at
`later` is taken, once it stopped waiting. -/
def next (s : State) (now later until_ : Nat) : Option ((Bool × List Nat) × State) :=
  let wakes := s.due.foldl (fun wakes d => min wakes d.2) until_
  if s.closed ∨ s.asked ≠ [] ∨ wakes ≤ now then
    let due := s.due.filter fun d => decide (d.2 ≤ later)
    let asked := due.foldl (fun asked d => if d.1 ∈ asked then asked else asked ++ [d.1]) s.asked
    some ((s.closed, asked), { s with asked := [], due := s.due.filter fun d => decide (later < d.2) })
  else none

/-- What is due in `queue`, read a page at a time to its end, as Xmip Storage answers one read after the other; where it
answers no more, what was read so far. -/
def read (s : State) (queue now : Nat) : List Page → List Held × State
  | [] => ([], s)
  | p :: pages =>
    let s := p.nextDueIn.elim s fun left => s.noted queue (now + left)
    if p.held.length = page then
      let (more, s) := s.read queue now pages
      (p.held ++ more, s)
    else (p.held, s)

end State

/-! ### The threads -/

/-- Where the reading of one queue is: the entries of it seen, those still to come, and the queues to read after it. -/
structure Scan where
  process : Process
  seen : List Nat
  held : List Held
  rest : List Process

/-- Where the dispatching thread is. -/
inductive Dispatching where
  | waits
  | reads (rest : List Process)
  | scans (scan : Scan)
  /-- A Message's Journey is owned and its turn to be handed to the pool, or taken here. -/
  | holds (scan : Scan) (journey : Nat)
  | turns (scan : Scan) (journey : Nat)
  /-- A turn taken here is done, and every queue to be asked. -/
  | tells (scan : Scan)
  | ended

/-- A piece of the pool's work: a turn of one Message. -/
structure Piece where
  process : Process
  journey : Nat

/-- What a thread of the pool is at. -/
inductive Work where
  | turns (piece : Piece)
  | tells

structure Sys where
  state : State
  /-- When every queue is read next. -/
  nextScan : Nat
  dispatching : Dispatching
  queued : List Piece
  working : List Work
  audited : List String

/-- A node that has taken no turn yet; one that runs no Work Process dispatches none. -/
def Starts (c : Setup) (s : Sys) : Prop :=
  s = ⟨⟨[], [], [], false⟩, s.nextScan, if c.running.isEmpty then .ended else .waits, [], [], []⟩

inductive Action where
  | ask (queue : Nat)
  | askEvery
  | close
  | wake (now later after : Nat)
  /-- The next queue read, with Xmip Storage's answers. -/
  | read (now : Nat) (pages : List Page)
  | own
  | hand
  /-- The turn on the dispatching thread ends; with `none`, in a panic. -/
  | turnHere (how : Option Turned)
  | tellHere
  /-- A thread of the pool takes the first piece queued. -/
  | take
  /-- The turn on a thread of the pool ends; with `none`, in a panic. -/
  | turn (i : Nat) (how : Option Turned)
  | tell (i : Nat)

namespace Sys

/-- What is said of how a turn ended. -/
def telling (c : Setup) (name : String) : Turned → List String
  | .failed why => [c.node ++ ": " ++ name ++ ": " ++ why]
  | .unwritten why => [c.node ++ ": " ++ why]
  | _ => []

/-- A turn of `journey` ended: what it ended as told, and the Message owned no more. -/
def settled (c : Setup) (s : Sys) (process : Process) (journey : Nat) (how : Turned) : Sys :=
  { s with
    state := s.state.disown journey process.queue (decide (how = .done))
    audited := s.audited ++ telling c process.name how }

/-- The dispatching thread's steps: it waits and reads the queues; it owns what is due and takes a turn of it. -/
def dispatch (c : Setup) (s : Sys) : Action → Option Sys
  | .wake now later after =>
    match s.dispatching with
    | .waits => do
      let ((closed, asked), state) ← s.state.next now later s.nextScan
      if closed then some { s with state, dispatching := .ended }
      else
        let all := decide (s.nextScan ≤ after)
        let rest := c.running.filter fun p => all || decide (p.queue ∈ asked)
        some { s with state, nextScan := if all then after + c.scan else s.nextScan, dispatching := .reads rest }
    | _ => none
  | .read now pages =>
    match s.dispatching with
    | .reads [] => some { s with dispatching := .waits }
    | .reads (process :: rest) =>
      let (held, state) := s.state.read process.queue now pages
      some { s with state, dispatching := .scans ⟨process, [], held, rest⟩ }
    | _ => none
  | .own =>
    match s.dispatching with
    | .scans ⟨_, _, [], rest⟩ => some { s with dispatching := .reads rest }
    | .scans ⟨process, seen, entry :: held, rest⟩ =>
      if entry.failed then some { s with dispatching := .scans ⟨process, seen, held, rest⟩ }
      else if entry.journey ∈ seen then some { s with dispatching := .scans ⟨process, seen, held, rest⟩ }
      else
        let scan := ⟨process, entry.journey :: seen, held, rest⟩
        match s.state.own entry.journey with
        | some state => some { s with state, dispatching := .holds scan entry.journey }
        | none => some { s with dispatching := .scans scan }
    | _ => none
  | .hand =>
    match s.dispatching with
    | .holds scan journey =>
      if scan.process.sequenced then some { s with dispatching := .turns scan journey }
      else some { s with queued := s.queued ++ [⟨scan.process, journey⟩], dispatching := .scans scan }
    | _ => none
  | .turnHere how =>
    match s.dispatching with
    | .turns scan journey =>
      match how with
      | none => some { s with dispatching := .ended }
      | some how => some { s.settled c scan.process journey how with
          dispatching := if how = .done then .tells scan else .scans scan }
    | _ => none
  | .tellHere =>
    match s.dispatching with
    | .tells scan => some { s with state := s.state.askEvery c, dispatching := .scans scan }
    | _ => none
  | _ => none

/-- The pool's threads: one takes the first piece queued and the turn it is; a panic of it is caught, and the thread takes
the next. -/
def work (c : Setup) (s : Sys) : Action → Option Sys
  | .take =>
    match s.queued with
    | [] => none
    | piece :: queued => some { s with queued, working := .turns piece :: s.working }
  | .turn i how => do
    let (w, working) ← pick s.working i
    match w with
    | .turns piece =>
      match how with
      | none => some { s with working }
      | some how => some { s.settled c piece.process piece.journey how with
          working := if how = .done then .tells :: working else working }
    | .tells => none
  | .tell i => do
    let (w, working) ← pick s.working i
    match w with
    | .tells => some { s with state := s.state.askEvery c, working }
    | .turns _ => none
  | _ => none

/-- One step. -/
def next (c : Setup) (s : Sys) (a : Action) : Option Sys :=
  match a with
  | .ask queue => some { s with state := s.state.ask c queue }
  | .askEvery => some { s with state := s.state.askEvery c }
  | .close => some { s with state := { s.state with closed := true } }
  | .wake .. | .read .. | .own | .hand | .turnHere _ | .tellHere => s.dispatch c a
  | .take | .turn .. | .tell _ => s.work c a

end Sys

/-! ### What a step does to the Messages owned -/

namespace State

variable (c : Setup) (s : State)

@[simp] theorem asking_owned (queue : Nat) : (s.asking queue).owned = s.owned := rfl

@[simp] theorem ask_owned (queue : Nat) : (s.ask c queue).owned = s.owned := by
  unfold ask
  split <;> rfl

@[simp] theorem askEvery_owned : (s.askEvery c).owned = s.owned := by
  unfold askEvery
  induction c.running generalizing s with
  | nil => rfl
  | cons p running ih => exact (ih (s.asking p.queue)).trans (s.asking_owned p.queue)

@[simp] theorem disown_owned (journey queue : Nat) (again : Bool) :
    (s.disown journey queue again).owned = s.owned.filter fun j => decide (j ≠ journey) := by
  unfold disown
  dsimp only
  split <;> rfl

@[simp] theorem noted_owned (queue time : Nat) : (s.noted queue time).owned = s.owned := by
  unfold noted
  split <;> rfl

theorem next_owned {s s' : State} {now later until_ : Nat} {answer : Bool × List Nat}
    (h : s.next now later until_ = some (answer, s')) : s'.owned = s.owned := by
  obtain ⟨-, h⟩ := Option.ite_none_right_eq_some.1 h
  cases h
  rfl

theorem read_owned (queue now : Nat) (pages : List Page) : (s.read queue now pages).2.owned = s.owned := by
  induction pages generalizing s with
  | nil => rfl
  | cons p pages ih =>
    have hnoted : (p.nextDueIn.elim s fun left => s.noted queue (now + left)).owned = s.owned := by
      cases p.nextDueIn with
      | none => rfl
      | some left => exact s.noted_owned _ _
    unfold read
    dsimp only
    split
    · exact (ih _).trans hnoted
    · exact hnoted

end State

def Dispatching.journey? : Dispatching → Option Nat
  | .holds _ journey | .turns _ journey => some journey
  | _ => none

def Work.journey? : Work → Option Nat
  | .turns piece => some piece.journey
  | .tells => none

/-- The turns under way, by Journey: the one in the dispatching thread's hands, those queued and those on the pool's
threads. -/
def Sys.turns (s : Sys) : List Nat :=
  s.dispatching.journey?.toList ++ (s.queued.map Piece.journey ++ s.working.filterMap Work.journey?)

/-- Whether a turn ends in a panic. -/
def Action.panics : Action → Bool
  | .turnHere none | .turn _ none => true
  | _ => false

/-- What a step does to the turns under way and to the Messages owned; the last, where it is a panic. -/
inductive Sys.Turns (s s' : Sys) : Bool → Prop
  | goesOn : s'.state.owned = s.state.owned → s'.turns.Perm s.turns → Turns s s' false
  | begins {j : Nat} : j ∉ s.state.owned → s'.state.owned = s.state.owned ++ [j] → s'.turns.Perm (j :: s.turns) →
      Turns s s' false
  | ends {j : Nat} : s'.state.owned = s.state.owned.filter (fun i => decide (i ≠ j)) → s.turns.Perm (j :: s'.turns) →
      Turns s s' false
  | breaks {j : Nat} : s'.state.owned = s.state.owned → s.turns.Perm (j :: s'.turns) → Turns s s' true

namespace Sys

variable {c : Setup} {s s' : Sys} {a : Action}

@[simp] theorem settled_owned (process : Process) (journey : Nat) (how : Turned) :
    (s.settled c process journey how).state.owned = s.state.owned.filter fun j => decide (j ≠ journey) :=
  s.state.disown_owned ..

/-- A step of the dispatching thread that has the same turn in hand after it, where no other thread goes on. -/
private theorem Turns.same (howned : s'.state.owned = s.state.owned)
    (hhand : s'.dispatching.journey? = s.dispatching.journey?) (hqueued : s'.queued = s.queued)
    (hworking : s'.working = s.working) : s.Turns s' false := by
  refine .goesOn howned ?_
  unfold Sys.turns
  rw [hhand, hqueued, hworking]

private theorem dispatch_turns (h : s.dispatch c a = some s') : s.Turns s' a.panics := by
  cases a with
  | wake now later after =>
    unfold dispatch at h
    dsimp only at h
    split at h
    · rename_i hwaits
      obtain ⟨⟨⟨closed, asked⟩, state⟩, hnext, h⟩ := Option.bind_eq_some_iff.1 h
      have howned := State.next_owned hnext
      dsimp only at h
      split at h
      · cases h
        exact .same howned (by rw [hwaits]; rfl) rfl rfl
      · cases h
        exact .same howned (by rw [hwaits]; rfl) rfl rfl
    · cases h
  | read now pages =>
    unfold dispatch at h
    dsimp only at h
    split at h
    · rename_i hreads
      cases h
      exact .same rfl (by rw [hreads]; rfl) rfl rfl
    · rename_i process rest hreads
      cases h
      exact .same (State.read_owned ..) (by rw [hreads]; rfl) rfl rfl
    · cases h
  | own =>
    unfold dispatch at h
    dsimp only at h
    split at h
    · rename_i hscans
      cases h
      exact .same rfl (by rw [hscans]; rfl) rfl rfl
    · rename_i process seen entry held rest hscans
      split at h
      · cases h
        exact .same rfl (by rw [hscans]; rfl) rfl rfl
      · split at h
        · cases h
          exact .same rfl (by rw [hscans]; rfl) rfl rfl
        · split at h
          · rename_i state hown
            cases h
            unfold State.own at hown
            obtain ⟨hnot, hown⟩ := Option.ite_none_left_eq_some.1 hown
            cases hown
            exact .begins hnot rfl (by simp [turns, hscans, Dispatching.journey?])
          · cases h
            exact .same rfl (by rw [hscans]; rfl) rfl rfl
    · cases h
  | hand =>
    unfold dispatch at h
    dsimp only at h
    split at h
    · rename_i scan journey hholds
      split at h
      · cases h
        exact .goesOn rfl (by simp [turns, hholds, Dispatching.journey?])
      · cases h
        refine .goesOn rfl ?_
        simp only [turns, hholds, Dispatching.journey?, Option.toList_none, Option.toList_some, List.nil_append,
          List.map_append, List.map_cons, List.map_nil, List.append_assoc, List.singleton_append]
        exact List.perm_middle
    · cases h
  | turnHere how =>
    unfold dispatch at h
    dsimp only at h
    split at h
    · rename_i scan journey hturns
      split at h
      · cases h
        exact .breaks (j := journey) rfl (by simp [turns, hturns, Dispatching.journey?])
      · cases h
        refine .ends (settled_owned (c := c) ..) ?_
        split <;> simp [turns, settled, hturns, Dispatching.journey?]
    · cases h
  | tellHere =>
    unfold dispatch at h
    dsimp only at h
    split at h
    · rename_i htells
      cases h
      exact .same (State.askEvery_owned ..) (by rw [htells]; rfl) rfl rfl
    · cases h
  | ask | askEvery | close | take | turn | tell => cases h

private theorem work_turns (h : s.work c a = some s') : s.Turns s' a.panics := by
  cases a with
  | take =>
    unfold work at h
    dsimp only at h
    split at h
    · cases h
    · rename_i piece queued hqueued
      cases h
      refine .goesOn rfl ?_
      simp only [turns, hqueued, Work.journey?, List.map_cons, List.cons_append]
      exact List.Perm.append_left _ List.perm_middle
  | turn i how =>
    obtain ⟨⟨w, working⟩, hpick, h⟩ := Option.bind_eq_some_iff.1 h
    dsimp only at h
    split at h
    · rename_i piece
      have hturns : s.turns.Perm (piece.journey :: ({ s with working } : Sys).turns) := by
        have hworking := ((pick_perm hpick).filterMap Work.journey?).symm
        rw [List.filterMap_cons_some (show Work.journey? (.turns piece) = some piece.journey from rfl)] at hworking
        simp only [turns]
        refine (List.Perm.append_left _ (List.Perm.append_left _ hworking)).trans ?_
        rw [← List.append_assoc, ← List.append_assoc]
        exact List.perm_middle
      split at h
      · cases h
        exact .breaks rfl hturns
      · cases h
        refine .ends (settled_owned (c := c) ..) (hturns.trans ?_)
        split <;> exact .refl _
    · cases h
  | tell i =>
    obtain ⟨⟨w, working⟩, hpick, h⟩ := Option.bind_eq_some_iff.1 h
    dsimp only at h
    split at h
    · cases h
      refine .goesOn (State.askEvery_owned ..) ?_
      have hworking := (pick_perm hpick).filterMap Work.journey?
      rw [List.filterMap_cons_none (show Work.journey? .tells = none from rfl)] at hworking
      exact List.Perm.append_left _ (List.Perm.append_left _ hworking)
    · cases h
  | ask | askEvery | close | wake | read | own | hand | turnHere | tellHere => cases h

theorem next_turns (h : s.next c a = some s') : s.Turns s' a.panics := by
  cases a with
  | ask queue =>
    cases h
    exact .goesOn (State.ask_owned ..) (.refl _)
  | askEvery =>
    cases h
    exact .goesOn (State.askEvery_owned ..) (.refl _)
  | close =>
    cases h
    exact .goesOn rfl (.refl _)
  | wake | read | own | hand | turnHere | tellHere => exact dispatch_turns (c := c) h
  | take | turn | tell => exact work_turns (c := c) h

/-! ### The Messages owned are those in a turn -/

/-- The Messages owned are those a turn is under way of. -/
def Drains (s : Sys) : Prop := ∀ j, j ∈ s.state.owned ↔ j ∈ s.turns

/-- And no Message is in two turns. -/
structure Owns (s : Sys) : Prop where
  drains : s.Drains
  nodup : s.turns.Nodup

/-- A step that is no panic leaves it so. -/
theorem Owns.next (hs : s.Owns) (h : s.Turns s' false) : s'.Owns := by
  cases h with
  | goesOn howned hturns =>
    refine ⟨fun j => ?_, hturns.nodup_iff.2 hs.nodup⟩
    rw [howned, hturns.mem_iff]
    exact hs.drains j
  | @begins j hnot howned hturns =>
    refine ⟨fun i => ?_, ?_⟩
    · rw [howned, hturns.mem_iff, List.mem_append, List.mem_singleton, List.mem_cons, hs.drains i, or_comm]
    · rw [hturns.nodup_iff, List.nodup_cons]
      exact ⟨fun hj => hnot ((hs.drains j).2 hj), hs.nodup⟩
  | @ends j howned hturns =>
    have hnodup := List.nodup_cons.1 (hturns.nodup_iff.1 hs.nodup)
    refine ⟨fun i => ?_, hnodup.2⟩
    rw [howned, List.mem_filter, hs.drains i, hturns.mem_iff, List.mem_cons, decide_eq_true_eq]
    constructor
    · rintro ⟨rfl | hi, hne⟩
      · exact absurd rfl hne
      · exact hi
    · intro hi
      exact ⟨.inr hi, fun heq => hnodup.1 (heq ▸ hi)⟩

/-- A panic leaves the Message whose turn it was owned. -/
theorem Owns.not_drains (hs : s.Owns) (h : s.Turns s' true) : ¬s'.Drains := by
  cases h with
  | @breaks j howned hturns =>
    intro hdrains
    have hnodup := List.nodup_cons.1 (hturns.nodup_iff.1 hs.nodup)
    have howns : j ∈ s.state.owned := (hs.drains j).2 (hturns.mem_iff.2 (List.mem_cons_self ..))
    exact hnodup.1 ((hdrains j).1 (howned ▸ howns))

/-- A Message owned with no turn of it under way. -/
def Stranded (j : Nat) (s : Sys) : Prop := j ∈ s.state.owned ∧ j ∉ s.turns

/-- It stays so: no turn of it ends, and none begins. -/
theorem stranded_stays {j : Nat} (hs : s.Stranded j) {panics : Bool} (h : s.Turns s' panics) : s'.Stranded j := by
  obtain ⟨howns, hturn⟩ := hs
  cases h with
  | goesOn howned hturns => exact ⟨howned ▸ howns, fun hj => hturn (hturns.mem_iff.1 hj)⟩
  | begins hnot howned hturns =>
    refine ⟨howned ▸ List.mem_append_left _ howns, fun hj => ?_⟩
    rcases List.mem_cons.1 (hturns.mem_iff.1 hj) with rfl | hj
    · exact hnot howns
    · exact hturn hj
  | @ends i howned hturns =>
    have hne : j ≠ i := fun heq => hturn (hturns.mem_iff.2 (heq ▸ List.mem_cons_self ..))
    refine ⟨?_, fun hj => hturn (hturns.mem_iff.2 (List.mem_cons_of_mem _ hj))⟩
    rw [howned, List.mem_filter, decide_eq_true_eq]
    exact ⟨howns, hne⟩
  | breaks howned hturns =>
    exact ⟨howned ▸ howns, fun hj => hturn (hturns.mem_iff.2 (List.mem_cons_of_mem _ hj))⟩

end Sys

/-- No turn panics. -/
def Calm (_ : Sys) (a : Action) : Prop := a.panics = false

instance (s : Sys) (a : Action) : Decidable (Calm s a) := inferInstanceAs (Decidable (_ = _))

/-- In every run in which no turn panics the Messages owned are those a turn is under way of; and the first turn that panics
ends that. -/
theorem owned_drains_iff (c : Setup) :
    (∀ s, Reach (Sys.next c) Calm (Starts c) s → s.Drains) ∧
      ∀ s a s', Reach (Sys.next c) Calm (Starts c) s → s.next c a = some s' → (s'.Drains ↔ a.panics = false) := by
  have hstarts : ∀ s, Starts c s → s.Owns := by
    intro s hs
    rw [hs]
    refine ⟨fun j => ?_, ?_⟩
    · split <;> exact Iff.rfl
    · split <;> exact List.nodup_nil
  have hstep : ∀ s a s', s.Owns → Calm s a → s.next c a = some s' → s'.Owns := by
    intro s a s' hs hcalm hnext
    exact hs.next (hcalm ▸ Sys.next_turns hnext)
  refine ⟨fun s h => (Reach.invariant hstarts hstep h).drains, fun s a s' h hnext => ?_⟩
  have hs : s.Owns := Reach.invariant hstarts hstep h
  constructor
  · intro hdrains
    by_contra hpanics
    rw [Bool.not_eq_false] at hpanics
    exact hs.not_drains (hpanics ▸ Sys.next_turns hnext) hdrains
  · intro hcalm
    exact (hstep s a s' hs hcalm hnext).drains

/-- A node that runs one Work Process, whose Messages take their turns on the pool. -/
def oneProcess : Setup := ⟨"node", [⟨"orders", 3, false⟩], 1000⟩

/-- The one Message of the queue read at the node's first scan and handed to the pool. -/
def handedOn : List Action :=
  [.wake 0 0 0, .read 0 [⟨[⟨7, false⟩], none⟩], .own, .hand, .own, .read 0 [], .take]

private def oneProcessAtStart : Sys := ⟨⟨[], [], [], false⟩, 0, .waits, [], [], []⟩

/-- The turn is done, and the Message owned no more. -/
theorem owned_drains_done :
    ∃ s, Reach (Sys.next oneProcess) Calm (Starts oneProcess) s ∧ s.Drains ∧ s.turns = [] ∧ s.state.owned = [] := by
  obtain ⟨s, hs, hp⟩ := Reach.exists_of_runWhere (Sys.next oneProcess) Calm
    (show Starts oneProcess oneProcessAtStart from rfl)
    (List.flatten [handedOn, [.turn 0 (some .done), .tell 0]])
    (fun s => decide (s.turns = []) && decide (s.state.owned = [])) (by decide +kernel)
  simp only [Bool.and_eq_true, decide_eq_true_eq] at hp
  exact ⟨s, hs, (owned_drains_iff oneProcess).1 s hs, hp.1, hp.2⟩

/-- The turn panics: the Message is owned with no turn of it under way, and is so in every state from then on. -/
theorem owned_not_drained :
    ∃ s, Reach (Sys.next oneProcess) Always (Starts oneProcess) s ∧ 7 ∈ s.state.owned ∧ 7 ∉ s.turns ∧ ¬s.Drains ∧
      ∀ s', Reach (Sys.next oneProcess) Always (· = s) s' → 7 ∈ s'.state.owned ∧ 7 ∉ s'.turns := by
  obtain ⟨s, hs, hp⟩ := Reach.exists_of_runWhere (Sys.next oneProcess) Always
    (show Starts oneProcess oneProcessAtStart from rfl)
    (List.flatten [handedOn, [.turn 0 none]])
    (fun s => decide (7 ∈ s.state.owned) && decide (7 ∉ s.turns)) (by decide +kernel)
  simp only [Bool.and_eq_true, decide_eq_true_eq] at hp
  refine ⟨s, hs, hp.1, hp.2, fun hdrains => hp.2 ((hdrains 7).1 hp.1), fun s' hs' => ?_⟩
  have hstranded : s'.Stranded 7 :=
    Reach.invariant (fun _ heq => heq ▸ hp) (fun _ _ _ hs _ h => Sys.stranded_stays hs (Sys.next_turns h)) hs'
  exact hstranded

end WorkStep.Dispatch
