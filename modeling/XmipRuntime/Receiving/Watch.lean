import XmipRuntime.Receiving.Nudged

/-!
# A directory watched for a Location

A Receive Location's drop directory is watched by a thread of its own (`DirectoryWatch`, `src/directory_watch.rs`): it waits
in the kernel until a file is left there or the watch is dropped, and tells the Location's `Nudge` of what changed
(`Watched`, `src/receiving/watched.rs`).  What the kernel keeps of changes, and when it lets go of them, is each system's own:
inotify keeps events until they are read, which the thread does until none is left; kqueue clears as it wakes; Windows clears
as it wakes and is armed again (`src/directory_watch/inotify.rs`, `kqueue.rs`, `src/ffi/directory_watch.rs`).

The machine is a Location's rest and the words that end it (`Nudged`), with the one that tells of changes this thread.  A
change is a file left in the directory; a receive lists every one made before it began.
-/

namespace DirectoryWatch

open Library

/-! ### The machine -/

inductive System where
  | inotify | kqueue | windows
  deriving DecidableEq

/-- Where the watch's thread is. -/
inductive Thread where
  /-- The watch has not begun. -/
  | unbegun
  /-- In the kernel. -/
  | waits
  /-- Woken by a change: to read what waits, or to arm the wait again. -/
  | takes
  /-- To tell the Location: to take the lock. -/
  | calls
  /-- With the lock: to set the word, and then to wake everyone. -/
  | tells
  | told
  | finished
  deriving DecidableEq

structure State where
  location : Nudged.State
  /-- The changes made; those made as the watch began; and those made as the last receive did. -/
  changes : Nat
  since : Option Nat
  listed : Nat
  /-- Those the kernel keeps, and those it let go of that the Location was not told of yet. -/
  pending : List Nat
  taken : List Nat
  thread : Thread
  ended : Bool
  /-- The thread's own steps. -/
  worked : Nat
  deriving DecidableEq

def Begins (s : State) : Prop := ∃ location, Nudged.Begins location ∧ s = ⟨location, 0, none, 0, [], [], .unbegun, false, 0⟩

inductive Action where
  /-- A step of the Location's, or of another that shares the stop. -/
  | location (a : Nudged.Action)
  | changes
  | wakes
  /-- Some of the events that wait are read. -/
  | reads (count : Nat)
  /-- None is left, or the read failed. -/
  | stops (failed : Bool)
  | arms
  /-- The kernel refuses the wait. -/
  | refused
  | tells
  | stores
  | notifies
  /-- The watch is dropped: its end is written. -/
  | ends
  deriving DecidableEq

namespace State

/-- Whether a step of the Location's machine is the watch's thread's. -/
def telling (s : State) : Nudged.Action → Bool
  | .tells => true
  | .stores | .notifies => s.thread = .tells ∨ s.thread = .told
  | _ => false

/-- A step of the thread's, to `thread`. -/
def goes (s : State) (thread : Thread) : State := { s with thread, worked := s.worked + 1 }

/-- What the kernel keeps let go of. -/
def take (s : State) (count : Nat) : State :=
  { s with taken := s.taken ++ s.pending.take count, pending := s.pending.drop count }

/-- The watch begun, a receive begun, or neither: what the Location's step is to the rest. -/
def locates (s : State) (location : Nudged.State) : Nudged.Action → State
  | .watches => { s with location, since := some s.changes, thread := .waits }
  | .begins => { s with location, listed := s.changes }
  | _ => { s with location }

/-- The wait ended by a change. -/
def woken (s : State) : System → State
  | .inotify => s.goes .takes
  | .kqueue => (s.take s.pending.length).goes .calls
  | .windows => (s.take s.pending.length).goes .takes

end State

def step (system : System) (s : State) : Action → Option State
  | .location a =>
    if s.telling a then none
    else (s.location.step a).map fun location => s.locates location a
  | .changes =>
    some { s with
      changes := s.changes + 1
      pending := if s.since.isSome then s.pending ++ [s.changes] else s.pending }
  | .wakes =>
    if s.thread = .waits then
      if s.ended then some (s.goes .finished) else if s.pending = [] then none else some (s.woken system)
    else none
  | .reads count =>
    if system = .inotify ∧ s.thread = .takes ∧ s.pending ≠ [] ∧ 0 < count then some ((s.take count).goes .takes) else none
  | .stops failed =>
    if system = .inotify ∧ s.thread = .takes ∧ (s.pending = [] ∨ failed) then some (s.goes .calls) else none
  | .arms => if system = .windows ∧ s.thread = .takes then some (s.goes .calls) else none
  | .refused =>
    if s.thread = .waits ∨ system = .windows ∧ s.thread = .takes then some (s.goes .finished) else none
  | .tells => if s.thread = .calls then (s.location.step .tells).map fun location => { s.goes .tells with location } else none
  | .stores =>
    if s.thread = .tells then (s.location.step .stores).map fun location => { s.goes .told with location, taken := [] }
    else none
  | .notifies =>
    if s.thread = .told then (s.location.step .notifies).map fun location => { s.goes .waits with location } else none
  | .ends => if s.location.phase = .left ∧ s.since.isSome then some { s with ended := true } else none

/-- What a step does. -/
inductive Taken (system : System) (s : State) : Action → State → Prop where
  | watches {location : Nudged.State} : s.location.step .watches = some location →
      Taken system s (.location .watches) { s with location, since := some s.changes, thread := .waits }
  | begins {location : Nudged.State} : s.location.step .begins = some location →
      Taken system s (.location .begins) { s with location, listed := s.changes }
  | location {a : Nudged.Action} {location : Nudged.State} : a ≠ .watches → a ≠ .begins → s.telling a = false →
      s.location.step a = some location → Taken system s (.location a) { s with location }
  | changes : Taken system s .changes { s with
      changes := s.changes + 1
      pending := if s.since.isSome then s.pending ++ [s.changes] else s.pending }
  | ended : s.thread = .waits → s.ended = true → Taken system s .wakes (s.goes .finished)
  | wakes : s.thread = .waits → s.ended = false → s.pending ≠ [] → Taken system s .wakes (s.woken system)
  | reads {count : Nat} : system = .inotify → s.thread = .takes → s.pending ≠ [] → 0 < count →
      Taken system s (.reads count) ((s.take count).goes .takes)
  | stops {failed : Bool} : system = .inotify → s.thread = .takes → s.pending = [] ∨ failed = true →
      Taken system s (.stops failed) (s.goes .calls)
  | arms : system = .windows → s.thread = .takes → Taken system s .arms (s.goes .calls)
  | refused : s.thread = .waits ∨ system = .windows ∧ s.thread = .takes → Taken system s .refused (s.goes .finished)
  | tells {location : Nudged.State} : s.thread = .calls → s.location.step .tells = some location →
      Taken system s .tells { s.goes .tells with location }
  | stores {location : Nudged.State} : s.thread = .tells → s.location.step .stores = some location →
      Taken system s .stores { s.goes .told with location, taken := [] }
  | notifies {location : Nudged.State} : s.thread = .told → s.location.step .notifies = some location →
      Taken system s .notifies { s.goes .waits with location }
  | ends : s.location.phase = .left → s.since.isSome = true → Taken system s .ends { s with ended := true }

variable {system : System} {s s' t : State} {a : Action}

theorem State.locates_of_ne {location : Nudged.State} {a : Nudged.Action} (hwatches : a ≠ .watches) (hbegins : a ≠ .begins) :
    s.locates location a = { s with location } := by
  cases a <;> simp_all [State.locates]

theorem taken_of_step (h : step system s a = some s') : Taken system s a s' := by
  unfold step at h
  split at h
  · rename_i a
    split at h
    · cases h
    · rename_i htelling
      obtain ⟨location, hstep, rfl⟩ := Option.map_eq_some_iff.1 h
      by_cases hwatches : a = .watches
      · subst hwatches
        exact .watches hstep
      by_cases hbegins : a = .begins
      · subst hbegins
        exact .begins hstep
      rw [State.locates_of_ne hwatches hbegins]
      exact .location hwatches hbegins (Bool.not_eq_true _ ▸ htelling) hstep
  · cases h
    exact .changes
  · split at h
    · rename_i hthread
      split at h
      · rename_i hended
        cases h
        exact .ended hthread hended
      · rename_i hended
        split at h
        · cases h
        · rename_i hpending
          cases h
          exact .wakes hthread (Bool.not_eq_true _ ▸ hended) hpending
    · cases h
  · split at h
    · rename_i hreads
      obtain ⟨hsystem, hthread, hpending, hcount⟩ := hreads
      cases h
      exact .reads hsystem hthread hpending hcount
    · cases h
  · split at h
    · rename_i hstops
      obtain ⟨hsystem, hthread, hnone⟩ := hstops
      cases h
      exact .stops hsystem hthread hnone
    · cases h
  · split at h
    · rename_i harms
      cases h
      exact .arms harms.1 harms.2
    · cases h
  · split at h
    · rename_i hrefused
      cases h
      exact .refused hrefused
    · cases h
  · split at h
    · rename_i hthread
      obtain ⟨location, hstep, rfl⟩ := Option.map_eq_some_iff.1 h
      exact .tells hthread hstep
    · cases h
  · split at h
    · rename_i hthread
      obtain ⟨location, hstep, rfl⟩ := Option.map_eq_some_iff.1 h
      exact .stores hthread hstep
    · cases h
  · split at h
    · rename_i hthread
      obtain ⟨location, hstep, rfl⟩ := Option.map_eq_some_iff.1 h
      exact .notifies hthread hstep
    · cases h
  · split at h
    · rename_i hends
      cases h
      exact .ends hends.1 hends.2
    · cases h

/-! ### What holds in every state -/

/-- A step of the Location's machine that is not the thread's, and does not begin the watch, leaves it watched or not, the
lock the thread's or not, as often told as it was, and the Location gone where it is. -/
theorem kept_of_location {l l' : Nudged.State} {a : Nudged.Action} (hl : Nudged.Sound l) (h : Nudged.Taken l a l')
    (hwatches : a ≠ .watches) (htells : a ≠ .tells)
    (hlock : a = .stores ∨ a = .notifies → ∀ stored, l.lock ≠ some (.teller stored)) :
    l'.watched = l.watched ∧ (∀ stored, l'.lock = some (.teller stored) ↔ l.lock = some (.teller stored)) ∧
      l'.tells = l.tells ∧ (l.phase = .left → l'.phase = .left) := by
  have hheld := hl.held
  cases h with
  | watches => exact absurd rfl hwatches
  | tells => exact absurd rfl htells
  | storesWord h => exact absurd h (hlock (.inl rfl) _)
  | notifies h =>
    have hnot := hlock (.inr rfl)
    refine ⟨rfl, fun stored => ?_, rfl, fun hp => ?_⟩
    · simp [hnot stored]
    · simp [hp]
  | _ => refine ⟨rfl, fun stored => ?_, rfl, fun hp => ?_⟩ <;> simp_all [Nudged.State.goes, Nudged.State.hear]

/-- What every step keeps: the watch has begun where the Location is watched, and only then has it a thread; who tells holds
the lock; nothing taken is left untold in the kernel, where kqueue takes as it wakes; and the watch is dropped once the
Location serves no more. -/
structure Sound (system : System) (s : State) : Prop where
  location : Nudged.Sound s.location
  watched : s.location.watched = true ↔ s.thread ≠ .unbegun
  since : s.since = none ↔ s.thread = .unbegun
  tells : s.location.lock = some (.teller false) ↔ s.thread = .tells
  told : s.location.lock = some (.teller true) ↔ s.thread = .told
  taken : s.thread = .unbegun ∨ s.thread = .waits ∨ s.thread = .told → s.taken = []
  cleared : system = .kqueue → s.thread ≠ .takes
  ended : s.ended = true → s.location.phase = .left ∧ s.thread ≠ .unbegun

theorem begins_sound (h : Begins s) : Sound system s := by
  obtain ⟨location, hlocation, rfl⟩ := h
  have hsound := Nudged.begins_sound hlocation
  subst hlocation
  refine ⟨hsound, ?_, ?_, ?_, ?_, ?_, ?_, ?_⟩ <;> simp

/-- The thread, in the kernel or of it, goes on: what the kernel keeps it may let go of. -/
theorem Sound.goes (h : Sound system s) (hfrom : s.thread = .waits ∨ s.thread = .takes) {thread : Thread}
    (hthread : thread = .takes ∧ system ≠ .kqueue ∨ thread = .calls ∨ thread = .finished) (pending taken : List Nat) :
    Sound system { s.goes thread with pending, taken } := by
  obtain ⟨location, watched, since, tells, told, -, cleared, ended⟩ := h
  refine ⟨location, ?_, ?_, ?_, ?_, ?_, ?_, ?_⟩ <;> rcases hthread with ⟨rfl, hsystem⟩ | rfl | rfl <;>
    rcases hfrom with hfrom | hfrom <;> simp_all [State.goes]

theorem Sound.kept_of_telling (h : Sound system s) {a : Nudged.Action} {location : Nudged.State}
    (htaken : Nudged.Taken s.location a location) (hwatches : a ≠ .watches) (htelling : s.telling a = false) :
    location.watched = s.location.watched ∧
      (∀ stored, location.lock = some (.teller stored) ↔ s.location.lock = some (.teller stored)) ∧
      location.tells = s.location.tells ∧ (s.location.phase = .left → location.phase = .left) := by
  have htells : a ≠ .tells := by
    rintro rfl
    cases htelling
  refine kept_of_location h.location htaken hwatches htells fun ha stored hlock => ?_
  have hthread : s.thread = .tells ∨ s.thread = .told := by
    cases stored with
    | false => exact .inl (h.tells.1 hlock)
    | true => exact .inr (h.told.1 hlock)
  rcases ha with rfl | rfl <;> simp [State.telling, hthread] at htelling

theorem Sound.step (h : Sound system s) (ht : Taken system s a s') : Sound system s' := by
  cases ht with
  | watches hstep =>
    have htaken := Nudged.taken_of_step hstep
    have hsound := h.location.step htaken
    cases htaken with
    | watches hp hw =>
      have hunbegun : s.thread = .unbegun := by
        by_contra hne
        cases hw.symm.trans (h.watched.2 hne)
      obtain ⟨-, watched, since, tells, told, taken, cleared, ended⟩ := h
      refine ⟨hsound, ?_, ?_, ?_, ?_, ?_, ?_, ?_⟩ <;> simp_all
  | begins hstep =>
    have htaken := Nudged.taken_of_step hstep
    obtain ⟨hwatched, hlock, -, hleft⟩ := kept_of_location h.location htaken nofun nofun nofun
    exact ⟨h.location.step htaken, by rw [hwatched]; exact h.watched, h.since, (hlock _).trans h.tells,
      (hlock _).trans h.told, h.taken, h.cleared, fun he => (h.ended he).imp_left hleft⟩
  | location hwatches hbegins htelling hstep =>
    rename_i a location
    have htaken := Nudged.taken_of_step hstep
    obtain ⟨hwatched, hlock, -, hleft⟩ := h.kept_of_telling htaken hwatches htelling
    exact ⟨h.location.step htaken, by rw [hwatched]; exact h.watched, h.since, (hlock _).trans h.tells,
      (hlock _).trans h.told, h.taken, h.cleared, fun he => (h.ended he).imp_left hleft⟩
  | changes => exact ⟨h.location, h.watched, h.since, h.tells, h.told, h.taken, h.cleared, h.ended⟩
  | ended hthread hended => exact h.goes (.inl hthread) (.inr (.inr rfl)) _ _
  | wakes hthread =>
    cases system with
    | inotify => exact h.goes (.inl hthread) (.inl ⟨rfl, nofun⟩) _ _
    | kqueue => exact h.goes (.inl hthread) (.inr (.inl rfl)) _ _
    | windows => exact h.goes (.inl hthread) (.inl ⟨rfl, nofun⟩) _ _
  | reads hsystem hthread => exact h.goes (.inr hthread) (.inl ⟨rfl, by simp [hsystem]⟩) _ _
  | stops hsystem hthread => exact h.goes (.inr hthread) (.inr (.inl rfl)) _ _
  | arms hsystem hthread => exact h.goes (.inr hthread) (.inr (.inl rfl)) _ _
  | refused hthread => exact h.goes (hthread.imp_right And.right) (.inr (.inr rfl)) _ _
  | tells hthread hstep =>
    have htaken := Nudged.taken_of_step hstep
    have hsound := h.location.step htaken
    cases htaken with
    | tells hw hl =>
      obtain ⟨-, watched, since, tells, told, taken, cleared, ended⟩ := h
      refine ⟨hsound, ?_, ?_, ?_, ?_, ?_, ?_, ?_⟩ <;> simp_all [State.goes]
  | stores hthread hstep =>
    have hlock := h.tells.2 hthread
    have htaken := Nudged.taken_of_step hstep
    have hsound := h.location.step htaken
    cases htaken with
    | storesWord =>
      obtain ⟨-, watched, since, tells, told, taken, cleared, ended⟩ := h
      refine ⟨hsound, ?_, ?_, ?_, ?_, ?_, ?_, ?_⟩ <;> simp_all [State.goes]
    | storesStop hother => cases hlock.symm.trans hother
  | notifies hthread hstep =>
    have htaken := Nudged.taken_of_step hstep
    have hsound := h.location.step htaken
    cases htaken with
    | notifies =>
      obtain ⟨-, watched, since, tells, told, taken, cleared, ended⟩ := h
      refine ⟨hsound, ?_, ?_, ?_, ?_, ?_, ?_, ?_⟩ <;> simp_all [State.goes]
  | ends hleft hsince =>
    refine ⟨h.location, h.watched, h.since, h.tells, h.told, h.taken, h.cleared, fun _ => ⟨hleft, fun hunbegun => ?_⟩⟩
    rw [h.since.2 hunbegun] at hsince
    cases hsince

theorem reach_sound (h : Reach (step system) Always Begins s) : Sound system s :=
  h.invariant (fun _ => begins_sound) fun _ _ _ hs _ hstep => hs.step (taken_of_step hstep)

/-! ### From a change to the receive that lists it -/

/-- A change since the watch began that no receive lists: the kernel keeps it, the thread has it to tell, or the Location is
told; unless the thread is finished. -/
def Kept (s : State) : Prop :=
  ∀ first, s.since = some first → ∀ n, first ≤ n → n < s.changes →
    n < s.listed ∨ n ∈ s.pending ∨ n ∈ s.taken ∨ s.location.Told ∨ s.thread = .finished

/-- What a step is to the Location: nothing, or a step of its own machine that begins no receive where this does not. -/
theorem location_of_taken (ht : Taken system s a s') :
    s'.location = s.location ∨
      ∃ b, s.location.step b = some s'.location ∧ (a ≠ .location .begins → b ≠ .begins) := by
  cases ht with
  | watches hstep => exact .inr ⟨_, hstep, fun _ => nofun⟩
  | begins hstep => exact .inr ⟨_, hstep, fun ha => absurd rfl ha⟩
  | location hwatches hbegins htelling hstep => exact .inr ⟨_, hstep, fun _ => hbegins⟩
  | wakes => cases system <;> exact .inl rfl
  | tells hthread hstep => exact .inr ⟨_, hstep, fun _ => nofun⟩
  | stores hthread hstep => exact .inr ⟨_, hstep, fun _ => nofun⟩
  | notifies hthread hstep => exact .inr ⟨_, hstep, fun _ => nofun⟩
  | _ => exact .inl rfl

/-- Told, the Location goes on to a receive whatever the watch does. -/
theorem Sound.told_step (h : Sound system s) (htold : s.location.Told) (ht : Taken system s a s')
    (ha : a ≠ .location .begins) :
    s'.location.Told ∧ s'.location.waited = s.location.waited ∧
      s'.location.took + s'.location.toGo ≤ s.location.took + s.location.toGo := by
  rcases location_of_taken ht with hsame | ⟨b, hstep, hb⟩
  · rw [hsame]
    exact ⟨htold, rfl, Nat.le_refl _⟩
  · exact h.location.told_step htold (Nudged.taken_of_step hstep) (hb ha)

/-- What the kernel let go of and what it keeps are what it kept. -/
theorem mem_take {n : Nat} (count : Nat) (hn : n ∈ s.pending ∨ n ∈ s.taken) :
    n ∈ (s.take count).pending ∨ n ∈ (s.take count).taken := by
  unfold State.take
  simp only [List.mem_append]
  rcases hn with hn | hn
  · rw [← List.take_append_drop count s.pending, List.mem_append] at hn
    exact hn.elim (fun hn => .inr (.inr hn)) .inl
  · exact .inr (.inl hn)

theorem Kept.step (hkept : Kept s) (h : Sound system s) (ht : Taken system s a s') : Kept s' := by
  intro first hfirst n hle hlt
  by_cases hbegins : a = .location .begins
  · subst hbegins
    cases ht with
    | begins => exact .inl hlt
    | location _ hbegins => exact absurd rfl hbegins
  -- Told before, told after; else where the change is.
  have htold : s.location.Told → s'.location.Told := fun htold => (h.told_step htold ht hbegins).1
  have hwhere (hsince : s.since = some first) (hchanges : n < s.changes) (hlisted : s'.listed = s.listed)
      (hmem : n ∈ s.pending ∨ n ∈ s.taken → n ∈ s'.pending ∨ n ∈ s'.taken)
      (hfinished : s.thread = .finished → s'.thread = .finished) :
      n < s'.listed ∨ n ∈ s'.pending ∨ n ∈ s'.taken ∨ s'.location.Told ∨ s'.thread = .finished := by
    rw [hlisted]
    rcases hkept first hsince n hle hchanges with hn | hn | hn | hn | hn
    · exact .inl hn
    · exact .inr ((hmem (.inl hn)).imp_right .inl)
    · exact .inr ((hmem (.inr hn)).imp_right .inl)
    · exact .inr (.inr (.inr (.inl (htold hn))))
    · exact .inr (.inr (.inr (.inr (hfinished hn))))
  cases ht with
  | watches =>
    cases hfirst
    exact absurd hlt (Nat.not_lt.2 hle)
  | begins => exact absurd rfl hbegins
  | location => exact hwhere hfirst hlt rfl id id
  | changes =>
    rcases Nat.lt_succ_iff_lt_or_eq.1 hlt with hlt | rfl
    · refine hwhere hfirst hlt rfl (Or.imp_left fun hn => ?_) id
      split
      · exact List.mem_append_left _ hn
      · exact hn
    · have hsome : s.since.isSome = true := by rw [hfirst]; rfl
      exact .inr (.inl (by simp [hsome]))
  | ended | refused => exact .inr (.inr (.inr (.inr rfl)))
  | wakes hthread =>
    have hfinished : s.thread = .finished → (s.woken system).thread = .finished := fun h => nomatch h.symm.trans hthread
    cases system with
    | inotify => exact hwhere hfirst hlt rfl id hfinished
    | kqueue | windows => exact hwhere hfirst hlt rfl (mem_take _) hfinished
  | reads _ hthread => exact hwhere hfirst hlt rfl (mem_take _) fun hfinished => nomatch hfinished.symm.trans hthread
  | stops _ hthread | arms _ hthread => exact hwhere hfirst hlt rfl id fun hfinished => nomatch hfinished.symm.trans hthread
  | tells hthread | notifies hthread => exact hwhere hfirst hlt rfl id fun hfinished => nomatch hfinished.symm.trans hthread
  | stores hthread hstep =>
    have hlock := h.tells.2 hthread
    cases Nudged.taken_of_step hstep with
    | storesWord => exact .inr (.inr (.inr (.inl (.inl (by simp)))))
    | storesStop hother => cases hlock.symm.trans hother
  | ends => exact hwhere hfirst hlt rfl id id

theorem reach_kept (h : Reach (step system) Always Begins s) : Kept s := by
  let inv (s : State) : Prop := Sound system s ∧ Kept s
  have hrun : inv s := h.invariant ?_ ?_
  · exact hrun.2
  · rintro _ hbegins
    refine ⟨begins_sound hbegins, ?_⟩
    obtain ⟨location, -, rfl⟩ := hbegins
    exact nofun
  · rintro _ _ _ ⟨hsound, hkept⟩ - hstep
    have htaken := taken_of_step hstep
    exact ⟨hsound.step htaken, hkept.step hsound htaken⟩

/-- The most steps of its own before the thread has told the Location. -/
def State.toTell (s : State) : Nat :=
  match s.thread with
  | .told => 5 + s.pending.length
  | .waits => 4 + s.pending.length
  | .takes => 3 + s.pending.length
  | .calls => 2
  | .tells => 1
  | .unbegun | .finished => 0

/-- The most before it is finished, once the watch is dropped. -/
def State.toEnd (s : State) : Nat :=
  match s.thread with
  | .takes => 5 + s.pending.length
  | .calls => 4
  | .tells => 3
  | .told => 2
  | .waits => 1
  | .unbegun | .finished => 0

/-- The thread goes on: by a step of its own, or once the lock it is to take is let go of. -/
def State.GoesOn (system : System) (s : State) : Prop :=
  (∃ a ∈ [.wakes, .reads 1, .stops false, .arms, .tells, .stores, .notifies],
      (DirectoryWatch.step system s a).isSome = true) ∨
    s.thread = .calls ∧ ∃ holder, s.location.lock = some holder

/-- It goes on, but where it waits in the kernel for a change or is finished. -/
theorem Sound.goesOn (h : Sound system s) (hbegan : s.thread ≠ .unbegun) (hfinished : s.thread ≠ .finished)
    (hwaits : s.thread = .waits → s.ended = true ∨ s.pending ≠ []) : s.GoesOn system := by
  cases hthread : s.thread with
  | unbegun => exact absurd hthread hbegan
  | finished => exact absurd hthread hfinished
  | waits =>
    refine .inl ⟨.wakes, by simp, ?_⟩
    rcases hwaits hthread with hended | hpending
    · simp [DirectoryWatch.step, hthread, hended]
    · simp only [DirectoryWatch.step, hthread, hpending, if_true, if_false]
      split <;> rfl
  | takes =>
    cases system with
    | inotify =>
      by_cases hpending : s.pending = []
      · exact .inl ⟨.stops false, by simp, by simp [DirectoryWatch.step, hthread, hpending]⟩
      · exact .inl ⟨.reads 1, by simp, by simp [DirectoryWatch.step, hthread, hpending]⟩
    | kqueue => exact absurd hthread (h.cleared rfl)
    | windows => exact .inl ⟨.arms, by simp, by simp [DirectoryWatch.step, hthread]⟩
  | calls =>
    cases hlock : s.location.lock with
    | some holder => exact .inr ⟨hthread, holder, hlock⟩
    | none =>
      have hwatched : s.location.watched = true := h.watched.2 hbegan
      exact .inl ⟨.tells, by simp, by simp [DirectoryWatch.step, Nudged.State.step, hthread, hlock, hwatched]⟩
  | tells =>
    have hlock := h.tells.2 hthread
    exact .inl ⟨.stores, by simp, by simp [DirectoryWatch.step, Nudged.State.step, hthread, hlock]⟩
  | told =>
    have hlock := h.told.2 hthread
    exact .inl ⟨.notifies, by simp, by simp [DirectoryWatch.step, Nudged.State.step, hthread, hlock]⟩

theorem length_drop_lt {count : Nat} (hpending : s.pending ≠ []) (hcount : 0 < count) :
    (s.pending.drop count).length < s.pending.length := by
  have hpos := List.length_pos_of_ne_nil hpending
  rw [List.length_drop]
  omega

/-- Where a step of its own takes the thread. -/
inductive Moved (s s' : State) : Prop where
  | woken : s.thread = .waits → s.ended = false → s'.thread = .takes ∨ s'.thread = .calls → Moved s s'
  | finishes : s.thread = .waits ∨ s.thread = .takes → s'.thread = .finished → Moved s s'
  | reads : s.thread = .takes → s'.thread = .takes → s'.pending.length + s.changes < s.pending.length + s'.changes → Moved s s'
  | calls : s.thread = .takes → s'.thread = .calls → Moved s s'
  | tells : s.thread = .calls → s'.thread = .tells → Moved s s'
  | told : s.thread = .tells → s'.thread = .told → s'.location.Told → Moved s s'
  | waits : s.thread = .told → s'.thread = .waits → Moved s s'

/-- A step is the thread's own or leaves it where it is, and keeps no more in the kernel than the changes made in it. -/
theorem Sound.moved (h : Sound system s) (hbegan : s.since ≠ none) (ht : Taken system s a s') :
    s'.pending.length + s.changes ≤ s.pending.length + s'.changes ∧ s.changes ≤ s'.changes ∧
      (s'.worked = s.worked ∧ s'.thread = s.thread ∨ s'.worked = s.worked + 1 ∧ Moved s s') := by
  cases ht with
  | watches hstep =>
    cases Nudged.taken_of_step hstep with
    | watches hp hw => cases hw.symm.trans (h.watched.2 fun hunbegun => hbegan (h.since.2 hunbegun))
  | begins => exact ⟨Nat.le_refl _, Nat.le_refl _, .inl ⟨rfl, rfl⟩⟩
  | location => exact ⟨Nat.le_refl _, Nat.le_refl _, .inl ⟨rfl, rfl⟩⟩
  | changes =>
    refine ⟨?_, Nat.le_succ _, .inl ⟨rfl, rfl⟩⟩
    simp only
    split
    · rw [List.length_append, List.length_singleton]
      omega
    · omega
  | ended hthread => exact ⟨Nat.le_refl _, Nat.le_refl _, .inr ⟨rfl, .finishes (.inl hthread) rfl⟩⟩
  | wakes hthread hgoing =>
    have hpending : (s.woken system).pending.length ≤ s.pending.length := by
      cases system <;> simp [State.woken, State.take, State.goes]
    refine ⟨?_, ?_, .inr ⟨?_, .woken hthread hgoing ?_⟩⟩
    · cases system <;> exact Nat.add_le_add_right hpending s.changes
    · cases system <;> exact Nat.le_refl _
    · cases system <;> rfl
    · cases system with
      | kqueue => exact .inr rfl
      | _ => exact .inl rfl
  | reads _ hthread hpending hcount =>
    have hlt := length_drop_lt hpending hcount
    have hless := Nat.add_lt_add_right hlt s.changes
    exact ⟨Nat.le_of_lt hless, Nat.le_refl _, .inr ⟨rfl, .reads hthread rfl hless⟩⟩
  | stops _ hthread => exact ⟨Nat.le_refl _, Nat.le_refl _, .inr ⟨rfl, .calls hthread rfl⟩⟩
  | arms _ hthread => exact ⟨Nat.le_refl _, Nat.le_refl _, .inr ⟨rfl, .calls hthread rfl⟩⟩
  | refused hthread => exact ⟨Nat.le_refl _, Nat.le_refl _, .inr ⟨rfl, .finishes (hthread.imp_right And.right) rfl⟩⟩
  | tells hthread => exact ⟨Nat.le_refl _, Nat.le_refl _, .inr ⟨rfl, .tells hthread rfl⟩⟩
  | stores hthread hstep =>
    have hlock := h.tells.2 hthread
    cases Nudged.taken_of_step hstep with
    | storesWord => exact ⟨Nat.le_refl _, Nat.le_refl _, .inr ⟨rfl, .told hthread rfl (.inl (by simp))⟩⟩
    | storesStop hother => cases hlock.symm.trans hother
  | notifies hthread => exact ⟨Nat.le_refl _, Nat.le_refl _, .inr ⟨rfl, .waits hthread rfl⟩⟩
  | ends => exact ⟨Nat.le_refl _, Nat.le_refl _, .inl ⟨rfl, rfl⟩⟩

/-- A step takes the thread nearer to telling, but for a change made meanwhile; or the Location is told. -/
theorem Sound.toTell_step (h : Sound system s) (hbegan : s.since ≠ none) (ht : Taken system s a s') :
    s'.location.Told ∨ s'.worked + s'.toTell + s.changes ≤ s.worked + s.toTell + s'.changes := by
  obtain ⟨hpending, hchanges, ⟨hworked, hthread⟩ | ⟨hworked, hmoved⟩⟩ := h.moved hbegan ht
  · refine .inr ?_
    unfold State.toTell
    rw [hthread, hworked]
    cases s.thread <;> simp only <;> omega
  · cases hmoved with
    | told _ _ htold => exact .inl htold
    | woken hthread _ hthread' =>
      refine .inr ?_
      rcases hthread' with hthread' | hthread' <;> simp only [State.toTell, hthread, hthread', hworked] <;> omega
    | finishes hthread hthread' =>
      refine .inr ?_
      rcases hthread with hthread | hthread <;> simp only [State.toTell, hthread, hthread', hworked] <;> omega
    | reads hthread hthread' | calls hthread hthread' | tells hthread hthread' | waits hthread hthread' =>
      refine .inr ?_
      simp only [State.toTell, hthread, hthread', hworked]
      omega

/-- Once the watch is dropped a step takes the thread nearer to its end, but for a change made meanwhile. -/
theorem Sound.toEnd_step (h : Sound system s) (hended : s.ended = true) (ht : Taken system s a s') :
    s'.worked + s'.toEnd + s.changes ≤ s.worked + s.toEnd + s'.changes := by
  have hbegan : s.since ≠ none := fun hnone => (h.ended hended).2 (h.since.1 hnone)
  obtain ⟨hpending, hchanges, ⟨hworked, hthread⟩ | ⟨hworked, hmoved⟩⟩ := h.moved hbegan ht
  · unfold State.toEnd
    rw [hthread, hworked]
    cases s.thread <;> simp only <;> omega
  · cases hmoved with
    | woken _ hgoing => cases hgoing.symm.trans hended
    | finishes hthread hthread' =>
      rcases hthread with hthread | hthread <;> simp only [State.toEnd, hthread, hthread', hworked] <;> omega
    | reads hthread hthread' | calls hthread hthread' | tells hthread hthread' | told hthread hthread'
    | waits hthread hthread' =>
      simp only [State.toEnd, hthread, hthread', hworked]
      omega

/-- What a step leaves of the rest, once the watch has begun. -/
theorem Sound.left_of_taken (h : Sound system s) (hbegan : s.since ≠ none) (ht : Taken system s a s') :
    s'.since = s.since ∧ (s.ended = true → s'.ended = true) ∧ (a ≠ .location .begins → s'.listed = s.listed) ∧
      (a ≠ .refused → s'.thread = .finished → s.thread = .finished ∨ s.ended = true) := by
  cases ht with
  | watches hstep =>
    cases Nudged.taken_of_step hstep with
    | watches hp hw => cases hw.symm.trans (h.watched.2 fun hunbegun => hbegan (h.since.2 hunbegun))
  | begins => exact ⟨rfl, id, fun ha => absurd rfl ha, fun _ => .inl⟩
  | location => exact ⟨rfl, id, fun _ => rfl, fun _ => .inl⟩
  | changes => exact ⟨rfl, id, fun _ => rfl, fun _ => .inl⟩
  | ended hthread hended => exact ⟨rfl, id, fun _ => rfl, fun _ _ => .inr hended⟩
  | wakes => cases system <;> exact ⟨rfl, id, fun _ => rfl, fun _ => nofun⟩
  | refused => exact ⟨rfl, id, fun _ => rfl, fun ha => absurd rfl ha⟩
  | ends => exact ⟨rfl, fun _ => rfl, fun _ => rfl, fun _ => .inl⟩
  | _ => exact ⟨rfl, id, fun _ => rfl, fun _ => nofun⟩

/-- A thread finished tells nothing. -/
theorem Sound.finished_step (h : Sound system s) (hfinished : s.thread = .finished) (ht : Taken system s a s') :
    s'.thread = .finished ∧ s'.location.tells = s.location.tells := by
  have hwatched : s.location.watched = true := h.watched.2 (by simp [hfinished])
  cases ht with
  | watches hstep =>
    cases Nudged.taken_of_step hstep with
    | watches hp hw => cases hw.symm.trans hwatched
  | begins hstep =>
    cases Nudged.taken_of_step hstep with
    | begins => exact ⟨hfinished, rfl⟩
  | location hwatches hbegins htelling hstep =>
    obtain ⟨-, -, htells, -⟩ := h.kept_of_telling (Nudged.taken_of_step hstep) hwatches htelling
    exact ⟨hfinished, htells⟩
  | changes | ends => exact ⟨hfinished, rfl⟩
  | ended hthread | wakes hthread | reads _ hthread | stops _ hthread | arms _ hthread | tells hthread | stores hthread
  | notifies hthread =>
    cases hfinished.symm.trans hthread
  | refused => exact ⟨rfl, rfl⟩

theorem toTell_le (s : State) : s.toTell ≤ 5 + s.pending.length := by
  unfold State.toTell
  split <;> omega

theorem toEnd_le (s : State) : s.toEnd ≤ 5 + s.pending.length := by
  unfold State.toEnd
  split <;> omega

theorem toGo_le_of_watched {location : Nudged.State} (h : location.watched = true) : location.toGo ≤ 7 := by
  unfold Nudged.State.toGo
  rw [h]
  split <;> simp

/-! ### Whole runs -/

/-- Told, until the next receive begins: no rest is waited out. -/
theorem told_run (hs : Reach (step system) Always Begins s) (hbegan : s.since ≠ none) (htold : s.location.Told)
    (h : Reach (step system) (fun _ a => a ≠ .location .begins) (· = s) t) :
    t.location.waited = s.location.waited ∧ t.location.took ≤ s.location.took + 7 ∧ t.location.Woken ∧ t.location.GoesOn := by
  have hsound := reach_sound hs
  let inv (t : State) : Prop := Sound system t ∧ t.location.Told ∧ t.location.waited = s.location.waited ∧
    t.location.took + t.location.toGo ≤ s.location.took + s.location.toGo
  have hrun : inv t := h.invariant ?_ ?_
  · obtain ⟨hsound', htold', hwaited, htook⟩ := hrun
    have hgo := toGo_le_of_watched (hsound.watched.2 fun hunbegun => hbegan (hsound.since.2 hunbegun))
    have hwoken := hsound'.location.woken_of_told htold'
    exact ⟨hwaited, by omega, hwoken, hsound'.location.goesOn hwoken⟩
  · rintro _ rfl
    exact ⟨hsound, htold, rfl, Nat.le_refl _⟩
  · rintro u a u' ⟨hsound', htold', hwaited, htook⟩ ha hstep
    have htaken := taken_of_step hstep
    obtain ⟨htold'', hwaited', htook'⟩ := hsound'.told_step htold' htaken ha
    exact ⟨hsound'.step htaken, htold'', hwaited'.trans hwaited, Nat.le_trans htook' htook⟩

/-- From a change that no receive lists to the next receive, no wait refused: the Location is told, or the thread goes on to
tell it. -/
theorem tells_run (hs : Reach (step system) Always Begins s) (hfinished : s.thread ≠ .finished) {first n : Nat}
    (hfirst : s.since = some first) (hle : first ≤ n) (hlt : n < s.changes) (hlisted : s.listed ≤ n)
    (h : Reach (step system) (fun _ a => a ≠ .location .begins ∧ a ≠ .refused) (· = s) t) :
    t.since = some first ∧ n < t.changes ∧
      (t.location.Told ∨ t.worked + s.changes ≤ s.worked + 5 + s.pending.length + t.changes ∧ t.GoesOn system) := by
  let inv (t : State) : Prop := Sound system t ∧ Kept t ∧ t.since = some first ∧ t.listed = s.listed ∧ s.changes ≤ t.changes ∧
    (t.thread = .finished → t.ended = true) ∧
    (t.location.Told ∨ t.worked + t.toTell + s.changes ≤ s.worked + s.toTell + t.changes)
  have hrun : inv t := h.invariant ?_ ?_
  · obtain ⟨hsound, hkept, hsince, hsame, hmore, hend, htold⟩ := hrun
    refine ⟨hsince, by omega, ?_⟩
    by_cases hnow : t.location.Told
    · exact .inl hnow
    -- Not told, the watch is not dropped, and the change is where the thread is to find it.
    have hgoing : t.ended = true → False := fun hended => hnow (.inr (.inr (.inr (hsound.ended hended).1)))
    have hfinished' : t.thread ≠ .finished := fun hfinished => hgoing (hend hfinished)
    have hbegan : t.thread ≠ .unbegun := by
      intro hunbegun
      cases hsince.symm.trans (hsound.since.2 hunbegun)
    have hwaits : t.thread = .waits → t.ended = true ∨ t.pending ≠ [] := by
      intro hthread
      refine .inr fun hpending => ?_
      have htaken := hsound.taken (.inr (.inl hthread))
      rcases hkept first hsince n hle (by omega) with hn | hn | hn | hn | hn
      · omega
      · simp [hpending] at hn
      · simp [htaken] at hn
      · exact hnow hn
      · exact hfinished' hn
    have hbound := htold.resolve_left hnow
    have hle := toTell_le s
    exact .inr ⟨by omega, hsound.goesOn hbegan hfinished' hwaits⟩
  · rintro _ rfl
    exact ⟨reach_sound hs, reach_kept hs, hfirst, rfl, Nat.le_refl _, fun ho => absurd ho hfinished, .inr (Nat.le_refl _)⟩
  · rintro u a u' ⟨hsound, hkept, hsince, hsame, hmore, hend, htold⟩ ⟨hbegins, hrefused⟩ hstep
    have htaken := taken_of_step hstep
    have hbegan : u.since ≠ none := by simp [hsince]
    obtain ⟨hsince', hended', hlisted', hfinished'⟩ := hsound.left_of_taken hbegan htaken
    obtain ⟨-, hmore', -⟩ := hsound.moved hbegan htaken
    refine ⟨hsound.step htaken, hkept.step hsound htaken, hsince'.trans hsince, (hlisted' hbegins).trans hsame,
      Nat.le_trans hmore hmore', fun ho => hended' ((hfinished' hrefused ho).elim hend id), ?_⟩
    rcases htold with htold | hbound
    · exact .inl (hsound.told_step htold htaken hbegins).1
    · rcases hsound.toTell_step hbegan htaken with htold | hnearer
      · exact .inl htold
      · exact .inr (by omega)

/-- The watch dropped, its thread goes on to its end, and tells nothing from there. -/
theorem ended_run (hs : Reach (step system) Always Begins s) (hended : s.ended = true)
    (h : Reach (step system) Always (· = s) t) :
    t.worked + s.changes ≤ s.worked + 5 + s.pending.length + t.changes ∧ (t.thread ≠ .finished → t.GoesOn system) ∧
      (t.thread = .finished → ∀ u, Reach (step system) Always (· = t) u →
        u.thread = .finished ∧ u.location.tells = t.location.tells) := by
  let inv (t : State) : Prop := Sound system t ∧ t.ended = true ∧ s.changes ≤ t.changes ∧
    t.worked + t.toEnd + s.changes ≤ s.worked + s.toEnd + t.changes
  have hrun : inv t := h.invariant ?_ ?_
  · obtain ⟨hsound, hended', hmore, hbound⟩ := hrun
    have hle := toEnd_le s
    have hgoes : t.thread ≠ .finished → t.GoesOn system := fun hfinished =>
      hsound.goesOn (hsound.ended hended').2 hfinished fun _ => .inl hended'
    refine ⟨by omega, hgoes, fun hfinished u hu => ?_⟩
    let inv' (u : State) : Prop := Sound system u ∧ u.thread = .finished ∧ u.location.tells = t.location.tells
    have hrun' : inv' u := hu.invariant ?_ ?_
    · exact hrun'.2
    · rintro _ rfl
      exact ⟨hsound, hfinished, rfl⟩
    · rintro v a v' ⟨hsound, hfinished, htells⟩ - hstep
      have htaken := taken_of_step hstep
      obtain ⟨hfinished', htells'⟩ := hsound.finished_step hfinished htaken
      exact ⟨hsound.step htaken, hfinished', htells'.trans htells⟩
  · rintro _ rfl
    exact ⟨reach_sound hs, hended, Nat.le_refl _, Nat.le_refl _⟩
  · rintro u a u' ⟨hsound, hended', hmore, hbound⟩ - hstep
    have htaken := taken_of_step hstep
    have hbegan : u.since ≠ none := fun hnone => (hsound.ended hended').2 (hsound.since.1 hnone)
    obtain ⟨-, hended'', -, -⟩ := hsound.left_of_taken hbegan htaken
    obtain ⟨-, hmore', -⟩ := hsound.moved hbegan htaken
    have hnearer := hsound.toEnd_step hended' htaken
    exact ⟨hsound.step htaken, hended'' hended', Nat.le_trans hmore hmore', by omega⟩

/-- Where the thread waits, the kernel keeps nothing and the Location is asleep, a receive has listed every change since the
watch began. -/
theorem listed_of_quiet (h : Reach (step system) Always Begins s) (hthread : s.thread = .waits) (hpending : s.pending = [])
    (hasleep : s.location.phase = .asleep) {first n : Nat} (hfirst : s.since = some first) (hle : first ≤ n)
    (hlt : n < s.changes) : n < s.listed := by
  have hsound := reach_sound h
  rcases reach_kept h first hfirst n hle hlt with hn | hn | hn | hn | hn
  · exact hn
  · simp [hpending] at hn
  · simp [hsound.taken (.inr (.inl hthread))] at hn
  · have hword := hn.ne_nil (.inl (by rw [hasleep]; rfl))
    have htold := hsound.told.1 (hsound.location.told hasleep hword)
    cases hthread.symm.trans htold
  · cases hthread.symm.trans hn

/-- No change is missed.  From a change made since the watch began that no receive lists, until the next receive begins and
lists it: the Location is told and from there waits no rest out, or the thread goes on to tell it, in as few steps as there
are changes and five more; where all is quiet every change is listed.  And the watch dropped, its thread goes on to its end
and tells nothing from there. -/
theorem none_missed (system : System) :
    (∀ s, Reach (step system) Always Begins s → s.thread ≠ .finished → ∀ first, s.since = some first →
      ∀ n, first ≤ n → n < s.changes → s.listed ≤ n →
      ∀ t, Reach (step system) (fun _ a => a ≠ .location .begins ∧ a ≠ .refused) (· = s) t →
        (∀ t', step system t (.location .begins) = some t' → n < t'.listed) ∧
        ((t.location.Told ∧ ∀ u, Reach (step system) (fun _ a => a ≠ .location .begins) (· = t) u →
            u.location.waited = t.location.waited ∧ u.location.took ≤ t.location.took + 7 ∧ u.location.Woken ∧
              u.location.GoesOn) ∨
          t.worked + s.changes ≤ s.worked + 5 + s.pending.length + t.changes ∧ t.GoesOn system)) ∧
    (∀ s, Reach (step system) Always Begins s → s.thread = .waits → s.pending = [] → s.location.phase = .asleep →
      ∀ first, s.since = some first → ∀ n, first ≤ n → n < s.changes → n < s.listed) ∧
    ∀ s, Reach (step system) Always Begins s → s.ended = true → ∀ t, Reach (step system) Always (· = s) t →
      t.worked + s.changes ≤ s.worked + 5 + s.pending.length + t.changes ∧ (t.thread ≠ .finished → t.GoesOn system) ∧
        (t.thread = .finished → ∀ u, Reach (step system) Always (· = t) u →
          u.thread = .finished ∧ u.location.tells = t.location.tells) := by
  refine ⟨fun s hs hfinished first hfirst n hle hlt hlisted t h => ?_, ?_, fun s hs hended t h => ended_run hs hended h⟩
  · obtain ⟨hsince, hlt', htells⟩ := tells_run hs hfinished hfirst hle hlt hlisted h
    have ht : Reach (step system) Always Begins t := hs.trans (h.mono fun _ _ _ => trivial)
    refine ⟨fun t' hbegins => ?_, htells.imp_left fun htold => ⟨htold, fun u hu => ?_⟩⟩
    · cases taken_of_step hbegins with
      | begins => exact hlt'
      | location _ hne => exact absurd rfl hne
    · exact told_run ht (by simp [hsince]) htold hu
  · intro s hs hthread hpending hasleep first hfirst n hle hlt
    exact listed_of_quiet hs hthread hpending hasleep hfirst hle hlt

/-- A Location that watches and sleeps as a file is left; the thread tells of it; the Location lists it and sleeps again; and
the node stops and the watch is dropped. -/
private def leaves : List Action :=
  [.location .watches, .location (.rests false), .location .hears, .location .locks, .location .looks,
    .location (.decides false), .changes]

private def tellsThen : List Action := [.wakes, .reads 1, .stops false, .tells, .stores]

private def listsThen : List Action :=
  [.notifies, .location .locks, .location .looks, .location (.decides false), .location .answers, .location .begins,
    .location (.rests false), .location .hears, .location .locks, .location .looks, .location (.decides false)]

private def dropsThen : List Action :=
  [.location .raises, .location .stores, .location .notifies, .location .locks, .location .looks, .location .answers,
    .location .leaves, .ends]

private def unwatched : State :=
  ⟨⟨false, [], 0, none, false, false, .works, 0, [], 0, 0⟩, 0, none, 0, [], [], .unbegun, false, 0⟩

private def left : State :=
  ⟨⟨false, [], 0, none, true, true, .asleep, 1, [], 0, 6⟩, 1, some 0, 0, [0], [], .waits, false, 0⟩

private def told : State :=
  ⟨⟨false, [0], 1, some (.teller true), true, true, .asleep, 1, [], 0, 6⟩, 1, some 0, 0, [], [], .told, false, 5⟩

private def quiet : State :=
  ⟨⟨false, [], 1, none, true, true, .asleep, 2, [(0, 1)], 0, 16⟩, 1, some 0, 1, [], [], .waits, false, 6⟩

private def dropped : State :=
  ⟨⟨true, [], 1, none, true, true, .left, 2, [(0, 1)], 0, 20⟩, 1, some 0, 1, [], [], .waits, true, 6⟩

private theorem reach_left : Reach (step .inotify) Always Begins left :=
  .of_runWhere (.start ⟨_, rfl, rfl⟩) (show runWhere (step .inotify) Always unwatched leaves = some left by decide)

private theorem told_of_left :
    Reach (step .inotify) (fun _ a => a ≠ .location .begins ∧ a ≠ .refused) (· = left) told :=
  .of_runWhere (.start rfl) (show runWhere (step .inotify) _ left tellsThen = some told by decide)

private theorem reach_quiet : Reach (step .inotify) Always Begins quiet :=
  .of_runWhere (reach_left.trans (told_of_left.mono fun _ _ _ => trivial))
    (show runWhere (step .inotify) Always told listsThen = some quiet by decide)

private theorem reach_dropped : Reach (step .inotify) Always Begins dropped :=
  .of_runWhere reach_quiet (show runWhere (step .inotify) Always quiet dropsThen = some dropped by decide)

/-- The file is told of while the Location sleeps, and is listed where all is quiet; and the watch's thread is to end. -/
theorem none_missed_dropped :
    (told.location.Told ∨ told.worked + left.changes ≤ left.worked + 5 + left.pending.length + told.changes ∧
      told.GoesOn .inotify) ∧ 0 < quiet.listed ∧ dropped.GoesOn .inotify := by
  obtain ⟨hmissed, hquiet, hended⟩ := none_missed .inotify
  have htold := (hmissed left reach_left (by decide) 0 rfl 0 (by decide) (by decide) (by decide) told told_of_left).2
  refine ⟨htold.imp_left And.left, hquiet quiet reach_quiet rfl rfl rfl 0 rfl 0 (by decide) (by decide), ?_⟩
  exact (hended dropped reach_dropped rfl dropped (.start rfl)).2.1 (by decide)

end DirectoryWatch
