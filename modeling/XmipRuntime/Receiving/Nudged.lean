import Mathlib.Data.List.Nodup
import XmipRuntime.Library.Run

/-!
# A Location's rest, and the words that end it

A Receive Location rests between two receives until its time is over, the node's stop is raised, or its far end tells of a
change (`Stopping::rest`, `src/stopping.rs`; `src/receiving/watched.rs`, `serve`, `src/receiving.rs`).  The word of a change
is a flag set under the stop's lock and swapped off by the rest that hears it, first without the lock and then within the
wait's condition; a stop is a flag set under the same lock, for good.  Whoever sets one wakes all that wait before it lets
the lock go.

The machine is one Location against any number of threads that tell it, raise the stop, or take the lock and wake everyone
for another Location.  A step is one access of what they share.  A wait checks its condition under the lock each time it
wakes, and ends by its time only where the condition says to go on waiting; it may wake at any time.
-/

namespace Nudged

open Library

/-! ### The machine -/

/-- Who holds the stop's lock: the Location; one that tells or raises, its flag set or not yet; or another Location's. -/
inductive Holder where
  | location
  | teller (stored : Bool)
  | raiser (stored : Bool)
  | other
  deriving DecidableEq

/-- Where the Location is in its serve. -/
inductive Phase where
  /-- In all it does but rest: to begin the watch, and then to rest. -/
  | works
  /-- In a rest, before it looks whether it was told; of no time at all, or of some. -/
  | rests (zero : Bool)
  /-- Heard nothing: to take the lock. -/
  | hushed
  /-- With the lock, to look whether the stop is raised. -/
  | locked
  /-- With the lock, and the stop not raised: to look whether it was told. -/
  | lowered
  | asleep
  /-- Woken, or its time over: to take the lock again. -/
  | woken
  /-- To say whether the stop is raised. -/
  | ending
  | rested (said : Bool)
  /-- It serves no more. -/
  | left
  deriving DecidableEq

structure State where
  raised : Bool
  /-- The tells whose word no rest has heard: the flag is set where there is one. -/
  told : List Nat
  tells : Nat
  lock : Option Holder
  watched : Bool
  /-- Whether the rest under way is one a word ends. -/
  nudged : Bool
  phase : Phase
  /-- The rests begun; each tell heard, with the rest that heard it; and the rests whose time ended them. -/
  rests : Nat
  heard : List (Nat × Nat)
  waited : Nat
  /-- The Location's own steps. -/
  took : Nat
  deriving DecidableEq

def Begins (s : State) : Prop := s = ⟨false, [], 0, none, false, false, .works, 0, [], 0, 0⟩

inductive Action where
  | watches
  | rests (zero : Bool)
  | hears
  | locks
  | looks
  /-- Whether its time is over. -/
  | decides (over_ : Bool)
  | answers
  | begins
  | leaves
  /-- Its time is over, or it wakes for nothing. -/
  | wakes
  | tells
  | raises
  | others
  | stores
  | notifies
  deriving DecidableEq

namespace State

/-- Whether a rest that looks is told. -/
def word (s : State) : Bool := s.nudged && !s.told.isEmpty

/-- A step of the Location's, to `phase`. -/
def goes (s : State) (phase : Phase) : State := { s with phase, took := s.took + 1 }

/-- The flag swapped off by the rest under way. -/
def hear (s : State) : State :=
  { s with told := [], heard := s.heard ++ s.told.map fun tell => (tell, s.rests) }

def step (s : State) : Action → Option State
  | .watches => if s.phase = .works ∧ s.watched = false then some { s with watched := true, took := s.took + 1 } else none
  | .rests zero =>
    if s.phase = .works then some { s.goes (.rests zero) with nudged := s.watched, rests := s.rests + 1 } else none
  | .hears =>
    match s.phase with
    | .rests true => some (s.goes .ending)
    | .rests false => if s.word then some (s.hear.goes .ending) else some (s.goes .hushed)
    | _ => none
  | .locks =>
    if (s.phase = .hushed ∨ s.phase = .woken) ∧ s.lock = none then some { s.goes .locked with lock := some .location }
    else none
  | .looks =>
    if s.phase = .locked then
      if s.raised then some { s.goes .ending with lock := none } else some (s.goes .lowered)
    else none
  | .decides over_ =>
    if s.phase = .lowered then
      if s.word then some { s.hear.goes .ending with lock := none }
      else if over_ then some { s.goes .ending with lock := none, waited := s.waited + 1 }
      else some { s.goes .asleep with lock := none }
    else none
  | .answers => if s.phase = .ending then some (s.goes (.rested s.raised)) else none
  | .begins =>
    match s.phase with
    | .rested _ => some (s.goes .works)
    | _ => none
  | .leaves =>
    match s.phase with
    | .rested _ => some (s.goes .left)
    | _ => none
  | .wakes => if s.phase = .asleep then some { s with phase := .woken } else none
  | .tells => if s.watched ∧ s.lock = none then some { s with lock := some (.teller false) } else none
  | .raises => if s.lock = none then some { s with lock := some (.raiser false) } else none
  | .others => if s.lock = none then some { s with lock := some .other } else none
  | .stores =>
    match s.lock with
    | some (.teller false) => some { s with lock := some (.teller true), told := s.told ++ [s.tells], tells := s.tells + 1 }
    | some (.raiser false) => some { s with lock := some (.raiser true), raised := true }
    | _ => none
  | .notifies =>
    if s.lock = some (.teller true) ∨ s.lock = some (.raiser true) ∨ s.lock = some .other then
      some { s with lock := none, phase := if s.phase = .asleep then .woken else s.phase }
    else none

end State

/-- What a step does. -/
inductive Taken (s : State) : Action → State → Prop where
  | watches : s.phase = .works → s.watched = false → Taken s .watches { s with watched := true, took := s.took + 1 }
  | rests (zero : Bool) : s.phase = .works →
      Taken s (.rests zero) { s.goes (.rests zero) with nudged := s.watched, rests := s.rests + 1 }
  | atOnce : s.phase = .rests true → Taken s .hears (s.goes .ending)
  | heard : s.phase = .rests false → s.word = true → Taken s .hears (s.hear.goes .ending)
  | hushed : s.phase = .rests false → s.word = false → Taken s .hears (s.goes .hushed)
  | locks : s.phase = .hushed ∨ s.phase = .woken → s.lock = none →
      Taken s .locks { s.goes .locked with lock := some .location }
  | raised : s.phase = .locked → s.raised = true → Taken s .looks { s.goes .ending with lock := none }
  | lowered : s.phase = .locked → s.raised = false → Taken s .looks (s.goes .lowered)
  | told (over_ : Bool) : s.phase = .lowered → s.word = true →
      Taken s (.decides over_) { s.hear.goes .ending with lock := none }
  | waitedOut : s.phase = .lowered → s.word = false →
      Taken s (.decides true) { s.goes .ending with lock := none, waited := s.waited + 1 }
  | sleeps : s.phase = .lowered → s.word = false → Taken s (.decides false) { s.goes .asleep with lock := none }
  | answers : s.phase = .ending → Taken s .answers (s.goes (.rested s.raised))
  | begins (said : Bool) : s.phase = .rested said → Taken s .begins (s.goes .works)
  | leaves (said : Bool) : s.phase = .rested said → Taken s .leaves (s.goes .left)
  | wakes : s.phase = .asleep → Taken s .wakes { s with phase := .woken }
  | tells : s.watched = true → s.lock = none → Taken s .tells { s with lock := some (.teller false) }
  | raises : s.lock = none → Taken s .raises { s with lock := some (.raiser false) }
  | others : s.lock = none → Taken s .others { s with lock := some .other }
  | storesWord : s.lock = some (.teller false) →
      Taken s .stores { s with lock := some (.teller true), told := s.told ++ [s.tells], tells := s.tells + 1 }
  | storesStop : s.lock = some (.raiser false) → Taken s .stores { s with lock := some (.raiser true), raised := true }
  | notifies : s.lock = some (.teller true) ∨ s.lock = some (.raiser true) ∨ s.lock = some .other →
      Taken s .notifies { s with lock := none, phase := if s.phase = .asleep then .woken else s.phase }

variable {s s' t : State} {a : Action}

theorem taken_of_step (h : s.step a = some s') : Taken s a s' := by
  unfold State.step at h
  split at h
  · split at h
    · rename_i hp
      cases h
      exact .watches hp.1 hp.2
    · cases h
  · split at h
    · rename_i hp
      cases h
      exact .rests _ hp
    · cases h
  · split at h
    · rename_i hp
      cases h
      exact .atOnce hp
    · rename_i hp
      split at h
      · rename_i hw
        cases h
        exact .heard hp hw
      · rename_i hw
        cases h
        exact .hushed hp (Bool.not_eq_true _ ▸ hw)
    · cases h
  · split at h
    · rename_i hp
      cases h
      exact .locks hp.1 hp.2
    · cases h
  · split at h
    · rename_i hp
      split at h
      · rename_i hr
        cases h
        exact .raised hp hr
      · rename_i hr
        cases h
        exact .lowered hp (Bool.not_eq_true _ ▸ hr)
    · cases h
  · split at h
    · rename_i hp
      split at h
      · rename_i hw
        cases h
        exact .told _ hp hw
      · rename_i hw
        split at h
        · rename_i hover
          cases h
          rw [hover]
          exact .waitedOut hp (Bool.not_eq_true _ ▸ hw)
        · rename_i hover
          cases h
          rw [Bool.eq_false_iff.2 hover]
          exact .sleeps hp (Bool.not_eq_true _ ▸ hw)
    · cases h
  · split at h
    · rename_i hp
      cases h
      exact .answers hp
    · cases h
  · split at h
    · rename_i said hp
      cases h
      exact .begins said hp
    · cases h
  · split at h
    · rename_i said hp
      cases h
      exact .leaves said hp
    · cases h
  · split at h
    · rename_i hp
      cases h
      exact .wakes hp
    · cases h
  · split at h
    · rename_i hp
      cases h
      exact .tells hp.1 hp.2
    · cases h
  · split at h
    · rename_i hl
      cases h
      exact .raises hl
    · cases h
  · split at h
    · rename_i hl
      cases h
      exact .others hl
    · cases h
  · split at h
    · rename_i hl
      cases h
      exact .storesWord hl
    · rename_i hl
      cases h
      exact .storesStop hl
    · cases h
  · split at h
    · rename_i hl
      cases h
      exact .notifies hl
    · cases h

/-! ### What holds in every state -/

/-- In a rest that may still wait. -/
def Phase.waits : Phase → Bool
  | .rests _ | .hushed | .locked | .lowered | .asleep | .woken => true
  | _ => false

/-- What every step keeps: the Location has the lock where it looks at the flags; a rest is one a word ends where the far
end is watched, and only there is it told; and where the Location is asleep with a flag set, whoever set it has the lock
and is still to wake it. -/
structure Sound (s : State) : Prop where
  held : s.lock = some .location ↔ s.phase = .locked ∨ s.phase = .lowered
  nudged : s.phase.waits = true → s.nudged = s.watched
  watched : s.told ≠ [] ∨ (∃ stored, s.lock = some (.teller stored)) → s.watched = true
  lowered : s.phase = .lowered → s.raised = false
  told : s.phase = .asleep → s.told ≠ [] → s.lock = some (.teller true)
  stop : s.phase = .asleep → s.raised = true → s.lock = some (.raiser true)

theorem begins_sound (h : Begins s) : Sound s := by
  subst h
  refine ⟨?_, ?_, ?_, ?_, ?_, ?_⟩ <;> simp [Phase.waits]

theorem Sound.word_of_told (h : Sound s) (hp : s.phase.waits = true) (ht : s.told ≠ []) : s.word = true := by
  unfold State.word
  rw [h.nudged hp, h.watched (.inl ht)]
  cases hs : s.told with
  | nil => exact absurd hs ht
  | cons => rfl

theorem Sound.step (h : Sound s) (ht : Taken s a s') : Sound s' := by
  cases ht with
  | locks hp hl =>
    have hwaits : s.phase.waits = true := by rcases hp with hp | hp <;> rw [hp] <;> rfl
    exact ⟨by simp [State.goes], fun _ => h.nudged hwaits, fun ht => h.watched (ht.imp_right (by simp)), nofun, nofun, nofun⟩
  | sleeps hp hw =>
    have hwaits : s.phase.waits = true := by rw [hp]; rfl
    have hnone : s.told = [] := by
      by_contra hne
      cases hw.symm.trans (h.word_of_told hwaits hne)
    refine ⟨by simp [State.goes], fun _ => h.nudged hwaits, fun ht => h.watched (ht.imp_right (by simp)), nofun, ?_, ?_⟩
    · exact fun _ ht => absurd hnone ht
    · exact fun _ hr => nomatch hr.symm.trans (h.lowered hp)
  | notifies hl =>
    -- Asleep it is woken; else it goes on where it is, and it is not the Location that lets the lock go.
    have hnot : ¬(s.phase = .locked ∨ s.phase = .lowered) := by
      rw [← h.held]
      rcases hl with hl | hl | hl <;> rw [hl] <;> nofun
    have hwatched : s.told ≠ [] → s.watched = true := fun ht => h.watched (.inl ht)
    by_cases hp : s.phase = .asleep
    · have hnudged := h.nudged (by rw [hp]; rfl)
      refine ⟨?_, ?_, ?_, ?_, ?_, ?_⟩ <;> simp_all
    · have hnudged := h.nudged
      refine ⟨?_, ?_, ?_, ?_, ?_, ?_⟩ <;> simp_all
  | _ =>
    obtain ⟨held, nudged, watched, lowered, told, stop⟩ := h
    refine ⟨?_, ?_, ?_, ?_, ?_, ?_⟩ <;> simp_all [State.goes, State.hear, Phase.waits]

theorem reach_sound (h : Reach State.step Always Begins s) : Sound s :=
  h.invariant (fun _ => begins_sound) fun _ _ _ hs _ hstep => hs.step (taken_of_step hstep)

/-- A tell's word is heard by no rest yet, or by one: there is one place each tell made is at. -/
structure Once (s : State) : Prop where
  made : ∀ tell ∈ s.told ++ s.heard.map Prod.fst, tell < s.tells
  once : (s.told ++ s.heard.map Prod.fst).Nodup

theorem Once.step (h : Once s) (ht : Taken s a s') : Once s' := by
  obtain ⟨made, once⟩ := h
  have hhear : (s.hear.told ++ s.hear.heard.map Prod.fst).Perm (s.told ++ s.heard.map Prod.fst) := by
    simp only [State.hear, List.nil_append, List.map_append, List.map_map, Function.comp_def, List.map_id']
    exact List.perm_append_comm
  cases ht with
  | heard => exact ⟨fun tell ht => made tell (hhear.mem_iff.1 ht), hhear.nodup_iff.2 once⟩
  | told => exact ⟨fun tell ht => made tell (hhear.mem_iff.1 ht), hhear.nodup_iff.2 once⟩
  | storesWord =>
    have hperm : ((s.told ++ [s.tells]) ++ s.heard.map Prod.fst).Perm (s.tells :: (s.told ++ s.heard.map Prod.fst)) := by
      rw [List.append_assoc]
      exact List.perm_middle
    refine ⟨fun tell ht => ?_, hperm.nodup_iff.2 (List.nodup_cons.2 ⟨fun hmem => ?_, once⟩)⟩
    · rcases List.mem_cons.1 (hperm.mem_iff.1 ht) with rfl | ht
      · exact Nat.lt_succ_self _
      · exact Nat.lt_succ_of_lt (made tell ht)
    · exact Nat.lt_irrefl _ (made _ hmem)
  | _ => exact ⟨made, once⟩

theorem reach_once (h : Reach State.step Always Begins s) : Once s := by
  refine h.invariant ?_ fun _ _ _ hs _ hstep => hs.step (taken_of_step hstep)
  rintro _ rfl
  exact ⟨nofun, List.nodup_nil⟩

/-! ### From a flag set on -/

/-- The most steps of its own before the Location begins a receive or serves no more, where it does not sleep. -/
def State.toGo (s : State) : Nat :=
  match s.phase with
  | .works => if s.watched then 7 else 8
  | .rests _ => 6
  | .hushed | .asleep | .woken => 5
  | .locked => 4
  | .lowered => 3
  | .ending => 2
  | .rested _ => 1
  | .left => 0

/-- Asleep only while one that set a flag is still to wake it. -/
def State.Woken (s : State) : Prop :=
  s.phase = .asleep → s.lock = some (.teller true) ∨ s.lock = some (.raiser true)

/-- A word is to be heard, or the rest that heard one is over. -/
def State.Told (s : State) : Prop :=
  s.told ≠ [] ∨ s.phase = .ending ∨ (∃ said, s.phase = .rested said) ∨ s.phase = .left

theorem Sound.woken_of_told (h : Sound s) (ht : s.Told) : s.Woken := by
  intro hp
  rcases ht with ht | ht | ⟨said, ht⟩ | ht
  · exact .inl (h.told hp ht)
  all_goals cases hp.symm.trans ht

/-- In a rest that may still wait, a word is still to be heard. -/
theorem State.Told.ne_nil (ht : s.Told) (hp : s.phase.waits = true ∨ s.phase = .works) : s.told ≠ [] := by
  rcases ht with ht | ht | ⟨said, ht⟩ | ht
  · exact ht
  all_goals
    rw [ht] at hp
    exact absurd hp (by simp [Phase.waits])

theorem Sound.not_hushed (h : Sound s) (ht : s.Told) (hp : s.phase.waits = true) : s.word = true :=
  h.word_of_told hp (ht.ne_nil (.inl hp))

/-- Told, the Location goes on to a receive: it does not wait a rest out, and each step of its own is one fewer to go. -/
theorem Sound.told_step (h : Sound s) (ht : s.Told) (hs : Taken s a s') (ha : a ≠ .begins) :
    s'.Told ∧ s'.waited = s.waited ∧ s'.took + s'.toGo ≤ s.took + s.toGo := by
  cases hs with
  | watches hp hw => cases hw.symm.trans (h.watched (.inl (ht.ne_nil (.inr hp))))
  | rests zero hp =>
    have hne := ht.ne_nil (.inr hp)
    exact ⟨.inl hne, rfl, by simp only [State.toGo, State.goes, hp, h.watched (.inl hne), if_true]; omega⟩
  | atOnce hp => exact ⟨.inr (.inl rfl), rfl, by simp only [State.toGo, State.goes, hp]; omega⟩
  | heard hp => exact ⟨.inr (.inl rfl), rfl, by simp only [State.toGo, State.goes, State.hear, hp]; omega⟩
  | hushed hp hw => cases hw.symm.trans (h.not_hushed ht (by rw [hp]; rfl))
  | locks hp =>
    have hwaits : s.phase.waits = true := by rcases hp with hp | hp <;> rw [hp] <;> rfl
    refine ⟨.inl (ht.ne_nil (.inl hwaits)), rfl, ?_⟩
    rcases hp with hp | hp <;> simp only [State.toGo, State.goes, hp] <;> omega
  | raised hp => exact ⟨.inr (.inl rfl), rfl, by simp only [State.toGo, State.goes, hp]; omega⟩
  | lowered hp =>
    have hwaits : s.phase.waits = true := by rw [hp]; rfl
    exact ⟨.inl (ht.ne_nil (.inl hwaits)), rfl, by simp only [State.toGo, State.goes, hp]; omega⟩
  | told over_ hp => exact ⟨.inr (.inl rfl), rfl, by simp only [State.toGo, State.goes, State.hear, hp]; omega⟩
  | waitedOut hp hw => cases hw.symm.trans (h.not_hushed ht (by rw [hp]; rfl))
  | sleeps hp hw => cases hw.symm.trans (h.not_hushed ht (by rw [hp]; rfl))
  | answers hp => exact ⟨.inr (.inr (.inl ⟨_, rfl⟩)), rfl, by simp only [State.toGo, State.goes, hp]; omega⟩
  | begins => exact absurd rfl ha
  | leaves said hp => exact ⟨.inr (.inr (.inr rfl)), rfl, by simp [State.toGo, State.goes, hp]⟩
  | wakes hp =>
    have hwaits : s.phase.waits = true := by rw [hp]; rfl
    exact ⟨.inl (ht.ne_nil (.inl hwaits)), rfl, by simp [State.toGo, hp]⟩
  | tells => exact ⟨ht, rfl, Nat.le_refl _⟩
  | raises => exact ⟨ht, rfl, Nat.le_refl _⟩
  | others => exact ⟨ht, rfl, Nat.le_refl _⟩
  | storesWord => exact ⟨.inl (by simp), rfl, Nat.le_refl _⟩
  | storesStop => exact ⟨ht, rfl, Nat.le_refl _⟩
  | notifies =>
    by_cases hp : s.phase = .asleep
    · have hwaits : s.phase.waits = true := by rw [hp]; rfl
      exact ⟨.inl (ht.ne_nil (.inl hwaits)), rfl, by simp [State.toGo, hp]⟩
    · refine ⟨?_, rfl, by simp [State.toGo, hp]⟩
      rw [if_neg hp]
      exact ht

/-- The stop raised, no rest is waited out, and each step of the Location's own in one is one fewer to go. -/
theorem Sound.raised_step (h : Sound s) (hr : s.raised = true) (hs : Taken s a s') :
    s'.raised = true ∧ s'.waited = s.waited ∧ ((s.phase.waits = true ∨ s.phase = .ending) → a ≠ .answers →
      (s'.phase.waits = true ∨ s'.phase = .ending) ∧ s'.took + s'.toGo ≤ s.took + s.toGo) := by
  have hlowered : s.phase ≠ .lowered := fun hp => nomatch hr.symm.trans (h.lowered hp)
  cases hs with
  | watches hp => exact ⟨hr, rfl, fun hw => absurd hw (by simp [hp, Phase.waits])⟩
  | rests zero hp => exact ⟨hr, rfl, fun hw => absurd hw (by simp [hp, Phase.waits])⟩
  | atOnce hp => exact ⟨hr, rfl, fun _ _ => ⟨.inr rfl, by simp only [State.toGo, State.goes, hp]; omega⟩⟩
  | heard hp => exact ⟨hr, rfl, fun _ _ => ⟨.inr rfl, by simp only [State.toGo, State.goes, State.hear, hp]; omega⟩⟩
  | hushed hp => exact ⟨hr, rfl, fun _ _ => ⟨.inl rfl, by simp only [State.toGo, State.goes, hp]; omega⟩⟩
  | locks hp =>
    refine ⟨hr, rfl, fun _ _ => ⟨.inl rfl, ?_⟩⟩
    rcases hp with hp | hp <;> simp only [State.toGo, State.goes, hp] <;> omega
  | raised hp => exact ⟨hr, rfl, fun _ _ => ⟨.inr rfl, by simp only [State.toGo, State.goes, hp]; omega⟩⟩
  | lowered hp hl => cases hr.symm.trans hl
  | told over_ hp => exact absurd hp hlowered
  | waitedOut hp => exact absurd hp hlowered
  | sleeps hp => exact absurd hp hlowered
  | answers => exact ⟨hr, rfl, fun _ ha => absurd rfl ha⟩
  | begins said hp => exact ⟨hr, rfl, fun hw => absurd hw (by simp [hp, Phase.waits])⟩
  | leaves said hp => exact ⟨hr, rfl, fun hw => absurd hw (by simp [hp, Phase.waits])⟩
  | wakes hp => exact ⟨hr, rfl, fun _ _ => ⟨.inl rfl, by simp [State.toGo, hp]⟩⟩
  | tells => exact ⟨hr, rfl, fun hw _ => ⟨hw, Nat.le_refl _⟩⟩
  | raises => exact ⟨hr, rfl, fun hw _ => ⟨hw, Nat.le_refl _⟩⟩
  | others => exact ⟨hr, rfl, fun hw _ => ⟨hw, Nat.le_refl _⟩⟩
  | storesWord => exact ⟨hr, rfl, fun hw _ => ⟨hw, Nat.le_refl _⟩⟩
  | storesStop => exact ⟨rfl, rfl, fun hw _ => ⟨hw, Nat.le_refl _⟩⟩
  | notifies =>
    refine ⟨hr, rfl, fun hw _ => ?_⟩
    by_cases hp : s.phase = .asleep
    · exact ⟨.inl (by rw [if_pos hp]; rfl), by simp [State.toGo, hp]⟩
    · exact ⟨by rw [if_neg hp]; exact hw, by simp [State.toGo, hp]⟩

theorem Sound.woken_of_raised (h : Sound s) (hr : s.raised = true) : s.Woken := fun hp => .inr (h.stop hp hr)

/-! ### Whole runs -/

/-- The Location's own steps. -/
def Action.own : Action → Bool
  | .wakes | .tells | .raises | .others | .stores | .notifies => false
  | _ => true

/-- The Location goes on: by a step of its own; once whoever set a flag and has the lock wakes it; once the lock it is to
take is let go of; or it serves no more. -/
def State.GoesOn (s : State) : Prop :=
  (∃ a, a.own = true ∧ (s.step a).isSome = true) ∨
    s.phase = .asleep ∧ (s.lock = some (.teller true) ∨ s.lock = some (.raiser true)) ∨
    (s.phase = .hushed ∨ s.phase = .woken) ∧ (∃ holder, s.lock = some holder ∧ holder ≠ .location) ∨ s.phase = .left

theorem Sound.goesOn (h : Sound s) (hw : s.Woken) : s.GoesOn := by
  have hlocks : s.phase = .hushed ∨ s.phase = .woken → s.GoesOn := by
    intro hp
    cases hl : s.lock with
    | none => exact .inl ⟨.locks, rfl, by simp only [State.step, hp, hl]; rfl⟩
    | some holder =>
      refine .inr (.inr (.inl ⟨hp, holder, hl, ?_⟩))
      rintro rfl
      have hphase := h.held.1 hl
      rcases hp with hp | hp <;> rw [hp] at hphase <;> exact absurd hphase (by simp)
  cases hp : s.phase with
  | works => exact .inl ⟨.rests true, rfl, by simp only [State.step, hp]; rfl⟩
  | rests zero =>
    cases zero with
    | true => exact .inl ⟨.hears, rfl, by simp only [State.step, hp]; rfl⟩
    | false =>
      refine .inl ⟨.hears, rfl, ?_⟩
      simp only [State.step, hp]
      split <;> rfl
  | hushed => exact hlocks (.inl hp)
  | locked =>
    refine .inl ⟨.looks, rfl, ?_⟩
    simp only [State.step, hp, if_true]
    split <;> rfl
  | lowered =>
    refine .inl ⟨.decides true, rfl, ?_⟩
    simp only [State.step, hp, if_true]
    split <;> rfl
  | asleep => exact .inr (.inl ⟨hp, hw hp⟩)
  | woken => exact hlocks (.inr hp)
  | ending => exact .inl ⟨.answers, rfl, by simp only [State.step, hp]; rfl⟩
  | rested said => exact .inl ⟨.begins, rfl, by simp only [State.step, hp]; rfl⟩
  | left => exact .inr (.inr (.inr hp))

/-- From where a word is to be heard to the next receive, no rest is waited out. -/
theorem told_run (hs : Reach State.step Always Begins s) (ht : s.told ≠ [])
    (h : Reach State.step (fun _ a => a ≠ .begins) (· = s) t) :
    t.waited = s.waited ∧ t.took ≤ s.took + 7 ∧ t.Woken ∧ t.GoesOn := by
  let inv (t : State) : Prop := Sound t ∧ t.Told ∧ t.waited = s.waited ∧ t.took + t.toGo ≤ s.took + s.toGo
  have hrun : inv t := h.invariant ?_ ?_
  · obtain ⟨hsound, htold, hwaited, htook⟩ := hrun
    have hwatched := (reach_sound hs).watched (.inl ht)
    have hgo : s.toGo ≤ 7 := by
      unfold State.toGo
      rw [hwatched]
      split <;> simp
    have hwoken := hsound.woken_of_told htold
    exact ⟨hwaited, by omega, hwoken, hsound.goesOn hwoken⟩
  · rintro _ rfl
    exact ⟨reach_sound hs, .inl ht, rfl, Nat.le_refl _⟩
  · rintro u a u' ⟨hsound, htold, hwaited, htook⟩ ha hstep
    have htaken := taken_of_step hstep
    obtain ⟨htold', hwaited', htook'⟩ := hsound.told_step htold htaken ha
    exact ⟨hsound.step htaken, htold', hwaited'.trans hwaited, Nat.le_trans htook' htook⟩

/-- Once the stop is raised no rest is waited out, and each says that it is raised. -/
theorem raised_run (hs : Reach State.step Always Begins s) (hr : s.raised = true) (h : Reach State.step Always (· = s) t) :
    t.waited = s.waited ∧ t.Woken ∧ t.GoesOn ∧ ∀ t', t.step .answers = some t' → t'.phase = .rested true := by
  let inv (t : State) : Prop := Sound t ∧ t.raised = true ∧ t.waited = s.waited
  have hrun : inv t := h.invariant ?_ ?_
  · obtain ⟨hsound, hraised, hwaited⟩ := hrun
    have hwoken := hsound.woken_of_raised hraised
    refine ⟨hwaited, hwoken, hsound.goesOn hwoken, fun t' ht' => ?_⟩
    cases taken_of_step ht'
    exact congrArg Phase.rested hraised
  · rintro _ rfl
    exact ⟨reach_sound hs, hr, rfl⟩
  · rintro u a u' ⟨hsound, hraised, hwaited⟩ - hstep
    have htaken := taken_of_step hstep
    obtain ⟨hraised', hwaited', -⟩ := hsound.raised_step hraised htaken
    exact ⟨hsound.step htaken, hraised', hwaited'.trans hwaited⟩

theorem toGo_le_of_rest (hp : s.phase.waits = true ∨ s.phase = .ending) : s.toGo ≤ 6 := by
  unfold State.toGo
  split <;> simp_all [Phase.waits]

/-- A rest under way once the stop is raised ends within six steps of the Location's own. -/
theorem raised_rest (hs : Reach State.step Always Begins s) (hr : s.raised = true)
    (hp : s.phase.waits = true ∨ s.phase = .ending) (h : Reach State.step (fun _ a => a ≠ .answers) (· = s) t) :
    t.took ≤ s.took + 6 := by
  let inv (t : State) : Prop :=
    Sound t ∧ t.raised = true ∧ (t.phase.waits = true ∨ t.phase = .ending) ∧ t.took + t.toGo ≤ s.took + s.toGo
  have hrun : inv t := h.invariant ?_ ?_
  · obtain ⟨-, -, -, htook⟩ := hrun
    have hgo := toGo_le_of_rest hp
    omega
  · rintro _ rfl
    exact ⟨reach_sound hs, hr, hp, Nat.le_refl _⟩
  · rintro u a u' ⟨hsound, hraised, hphase, htook⟩ ha hstep
    have htaken := taken_of_step hstep
    obtain ⟨hraised', -, hrest⟩ := hsound.raised_step hraised htaken
    obtain ⟨hphase', htook'⟩ := hrest hphase ha
    exact ⟨hsound.step htaken, hraised', hphase', Nat.le_trans htook' htook⟩

/-- No word and no stop is lost.  From where a tell's word is set, until the Location begins its next receive, no rest is
waited out and it takes at most seven steps of its own; once the stop is raised no rest is waited out, each that ends says
so, and one under way takes at most six; through all of it the Location goes on.  And no two rests hear one tell. -/
theorem none_lost :
    (∀ s, Reach State.step Always Begins s → s.told ≠ [] →
      ∀ t, Reach State.step (fun _ a => a ≠ .begins) (· = s) t →
        t.waited = s.waited ∧ t.took ≤ s.took + 7 ∧ t.Woken ∧ t.GoesOn) ∧
    (∀ s, Reach State.step Always Begins s → s.raised = true →
      (∀ t, Reach State.step Always (· = s) t →
        t.waited = s.waited ∧ t.Woken ∧ t.GoesOn ∧ ∀ t', t.step .answers = some t' → t'.phase = .rested true) ∧
      (s.phase.waits = true ∨ s.phase = .ending →
        ∀ t, Reach State.step (fun _ a => a ≠ .answers) (· = s) t → t.took ≤ s.took + 6)) ∧
    ∀ s, Reach State.step Always Begins s → ∀ tell rest rest', (tell, rest) ∈ s.heard → (tell, rest') ∈ s.heard →
      rest = rest' := by
  refine ⟨fun s hs ht t h => told_run hs ht h,
    fun s hs hr => ⟨fun t h => raised_run hs hr h, fun hp t h => raised_rest hs hr hp h⟩, ?_⟩
  intro s hs tell rest rest' h h'
  have honce := (List.nodup_append.1 (reach_once hs).once).2.1
  have heq := List.inj_on_of_nodup_map honce h h' rfl
  exact (Prod.mk.inj heq).2

/-- A Location that began its watch, sleeps, and is told of a change; and is then stopped. -/
private def toldAsleep : List Action :=
  [.watches, .rests false, .hears, .locks, .looks, .decides false, .tells, .stores]

private def stoppedThen : List Action := [.notifies, .raises, .stores]

private def first : State := ⟨false, [], 0, none, false, false, .works, 0, [], 0, 0⟩

private def told : State := ⟨false, [0], 1, some (.teller true), true, true, .asleep, 1, [], 0, 6⟩

private def stopped : State := ⟨true, [0], 1, some (.raiser true), true, true, .woken, 1, [], 0, 6⟩

private def ended : State := ⟨true, [0], 1, none, true, true, .ending, 1, [], 0, 8⟩

private theorem reach_told : Reach State.step Always Begins told :=
  .of_runWhere (.start rfl) (show runWhere State.step Always first toldAsleep = some told by decide)

private theorem reach_stopped : Reach State.step Always Begins stopped :=
  .of_runWhere reach_told (show runWhere State.step Always told stoppedThen = some stopped by decide)

/-- Told asleep; stopped, no rest waited out since the tell; and from the stop on, its rest at its end two steps later. -/
theorem told_then_stopped : ∃ t s e, Reach State.step Always Begins t ∧ t.told ≠ [] ∧
    Reach State.step (fun _ a => a ≠ .begins) (· = t) s ∧ s.raised = true ∧
    Reach State.step (fun _ a => a ≠ .answers) (· = s) e ∧
    (s.waited = t.waited ∧ s.took ≤ t.took + 7 ∧ s.Woken ∧ s.GoesOn) ∧
    (e.waited = s.waited ∧ e.Woken ∧ e.GoesOn ∧ ∀ e', e.step .answers = some e' → e'.phase = .rested true) ∧
    e.took ≤ s.took + 6 := by
  have hstopped : Reach State.step (fun _ a => a ≠ .begins) (· = told) stopped :=
    .of_runWhere (.start rfl) (show runWhere State.step _ told stoppedThen = some stopped by decide)
  have hended : Reach State.step (fun _ a => a ≠ .answers) (· = stopped) ended :=
    .of_runWhere (.start rfl) (show runWhere State.step _ stopped [.notifies, .locks, .looks] = some ended by decide)
  exact ⟨told, stopped, ended, reach_told, by decide, hstopped, rfl, hended,
    none_lost.1 told reach_told (by decide) stopped hstopped,
    (none_lost.2.1 stopped reach_stopped rfl).1 ended (hended.mono fun _ _ _ => trivial),
    (none_lost.2.1 stopped reach_stopped rfl).2 (.inl rfl) ended hended⟩

end Nudged
