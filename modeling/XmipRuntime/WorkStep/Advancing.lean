import Mathlib.Data.Prod.Lex
import XmipRuntime.Library.Answers
import XmipRuntime.Library.Halts
import XmipRuntime.WorkStep.Turn

/-!
# A turn ends

`Taking::advance` (`src/work_step/turning.rs`) step by step, with no bound on how long it goes on: an event taken and the
unit asked what it wants done, or one act it asked for carried out, which may answer an event to take after every other.
Beside what the loop keeps stands what it did: the events taken, those that came to be taken, and the acts carried out.

Each act carried out brings at most one event and is counted; each event taken is one fewer, though it may ask for any
number of acts.  So the acts left to count with the events left, and then the acts asked for, go down together, and
whatever the unit and its acts are the loop ends (`advance_ends`), with what `advance` computes.
-/

namespace WorkStep

open Library

variable {σ μ : Type}

/-- Where the loop stands: the Instance, the loop's own, the acts asked for and not carried out yet; and what it did: the
events taken, all there were to take so far, and the acts carried out, each in order. -/
structure Going (σ μ : Type) where
  instance_ : Instance σ
  loop : Loop μ
  asked : List Act
  taken : List Event
  queued : List Event
  done : List Act

/-- Why the loop ends: no event left, refused by the unit or where an act was carried out, or asked for too many acts. -/
inductive Ended where
  | noneLeft (ended : Option Outcome)
  | refused (why : Refused)
  | tooMany
  deriving DecidableEq

def Ended.outcome : Ended → Except Refused (Option Outcome)
  | .noneLeft ended => .ok ended
  | .refused why => .error why
  | .tooMany => .error (.unfit "it asked for more than 10000 acts")

namespace Going

/-- One step of the loop; where it ends, the Instance as it is then. -/
def next (flow : Flow σ) (acts : Acts μ) (now : Int) (s : Going σ μ) : Going σ μ ⊕ Instance σ × Ended :=
  match s.asked with
  | act :: asked =>
    if mostActs < s.loop.carried + 1 then .inr (s.instance_, .tooMany)
    else match Loop.act acts { s.loop with carried := s.loop.carried + 1 } act with
      | .error why => .inr (s.instance_, .refused (.unfit why))
      | .ok loop => .inl { s with
          loop, asked
          queued := s.queued ++ loop.events.drop s.loop.events.length
          done := s.done ++ [act] }
  | [] =>
    match s.loop.events with
    | [] => .inr (s.instance_, .noneLeft s.loop.ended)
    | event :: events =>
      match flow.advance s.instance_ event now with
      | (i, .error refused) => .inr (i, .refused refused)
      | (i, .ok asked) => .inl { s with
          instance_ := i
          loop := { s.loop with events }
          asked
          taken := s.taken ++ [event] }

/-- A loop that begins with `event`. -/
def begins (made : μ) (i : Instance σ) (event : Event) : Going σ μ := ⟨i, ⟨made, [event], none, 0⟩, [], [], [event], []⟩

variable {flow : Flow σ} {acts : Acts μ} {now : Int} {s s' : Going σ μ}

/-- What is kept: the events taken and those left are all there were to take, in order, and the acts carried out are
counted and no more than the most. -/
structure Keeps (s : Going σ μ) : Prop where
  inOrder : s.taken ++ s.loop.events = s.queued
  counted : s.done.length = s.loop.carried
  most : s.loop.carried ≤ mostActs

theorem begins_keeps (made : μ) (i : Instance σ) (event : Event) : (begins made i event).Keeps :=
  ⟨rfl, rfl, Nat.zero_le _⟩

/-- An act leaves the events there were, and one more at most. -/
theorem act_events {l l' : Loop μ} {act : Act} (h : Loop.act acts l act = .ok l') :
    l'.carried = l.carried ∧ ∃ more : List Event, l'.events = l.events ++ more ∧ more.length ≤ 1 := by
  cases act with
  | work node work message =>
    obtain ⟨x, -, rfl⟩ := map_answers_iff.1 h
    exact ⟨rfl, [x.1], rfl, Nat.le_refl _⟩
  | combine node messages =>
    obtain ⟨x, -, rfl⟩ := map_answers_iff.1 h
    exact ⟨rfl, [x.1], rfl, Nat.le_refl _⟩
  | publish message =>
    obtain ⟨made, -, rfl⟩ := map_answers_iff.1 h
    exact ⟨rfl, [], (List.append_nil _).symm, Nat.zero_le _⟩
  | ended outcome =>
    cases h
    exact ⟨rfl, [], (List.append_nil _).symm, Nat.zero_le _⟩

/-- What one step does: an act carried out, within the most, or an event taken. -/
theorem next_cases (h : s.next flow acts now = .inl s') :
    (∃ act more, s.asked = act :: s'.asked ∧ s.loop.carried + 1 ≤ mostActs ∧ s'.loop.carried = s.loop.carried + 1 ∧
      s'.loop.events = s.loop.events ++ more ∧ more.length ≤ 1 ∧ s'.queued = s.queued ++ more ∧ s'.taken = s.taken ∧
      s'.done = s.done ++ [act]) ∨
    ∃ event, s.asked = [] ∧ s.loop.events = event :: s'.loop.events ∧ s'.loop.carried = s.loop.carried ∧
      s'.queued = s.queued ∧ s'.taken = s.taken ++ [event] ∧ s'.done = s.done := by
  unfold next at h
  split at h
  · rename_i act asked hasked
    split at h
    · cases h
    · rename_i hmost
      split at h
      · cases h
      · rename_i loop hact
        cases h
        obtain ⟨hcarried, more, hevents, hmore⟩ := act_events hact
        refine .inl ⟨act, more, hasked, by omega, hcarried, hevents, hmore, ?_, rfl, rfl⟩
        dsimp only at hevents ⊢
        rw [hevents, List.drop_left]
  · rename_i hasked
    split at h
    · cases h
    · rename_i event events hevents
      split at h
      · cases h
      · cases h
        exact .inr ⟨event, hasked, hevents, rfl, rfl, rfl, rfl⟩

theorem Keeps.next (h : s.Keeps) (hs : s.next flow acts now = .inl s') : s'.Keeps := by
  obtain ⟨act, more, -, hmost, hcarried, hevents, -, hqueued, htaken, hdone⟩ | ⟨event, -, hevents, hcarried, hqueued, htaken,
    hdone⟩ := next_cases hs
  · refine ⟨?_, ?_, by omega⟩
    · rw [htaken, hevents, hqueued, ← h.inOrder, List.append_assoc]
    · rw [hdone, hcarried, ← h.counted, List.length_append, List.length_singleton]
  · refine ⟨?_, ?_, by rw [hcarried]; exact h.most⟩
    · rw [htaken, hqueued, ← h.inOrder, hevents, List.append_assoc, List.singleton_append]
    · rw [hdone, hcarried]
      exact h.counted

/-- The acts left to count with the events left, and the acts asked for. -/
def measure (s : Going σ μ) : Nat × Nat := (mostActs - s.loop.carried + s.loop.events.length, s.asked.length)

theorem measure_next (hs : s.next flow acts now = .inl s') :
    Prod.Lex (· < ·) (· < ·) s'.measure s.measure := by
  obtain ⟨act, more, hasked, hmost, hcarried, hevents, hmore, -⟩ | ⟨event, -, hevents, hcarried, -⟩ := next_cases hs
  · have hlen : s'.loop.events.length ≤ s.loop.events.length + 1 := by
      rw [hevents, List.length_append]
      omega
    unfold measure
    rw [hcarried, hasked, List.length_cons]
    rcases Nat.lt_or_ge (mostActs - (s.loop.carried + 1) + s'.loop.events.length)
      (mostActs - s.loop.carried + s.loop.events.length) with hlt | hge
    · exact .left _ _ hlt
    · have heq : mostActs - (s.loop.carried + 1) + s'.loop.events.length =
          mostActs - s.loop.carried + s.loop.events.length := by omega
      rw [heq]
      exact .right _ (Nat.lt_succ_self _)
  · refine .left _ _ ?_
    rw [hcarried, hevents, List.length_cons]
    omega

/-- What bounds the events to come never goes up, and an event taken makes it smaller. -/
theorem measure_le (hs : s.next flow acts now = .inl s') :
    s'.measure.1 ≤ s.measure.1 ∧ (s.asked = [] → s'.measure.1 < s.measure.1) := by
  obtain ⟨act, more, hasked, hmost, hcarried, hevents, hmore, -⟩ | ⟨event, -, hevents, hcarried, -⟩ := next_cases hs
  · refine ⟨?_, fun h => by rw [hasked] at h; cases h⟩
    unfold measure
    dsimp only
    rw [hcarried, hevents, List.length_append]
    omega
  · unfold measure
    dsimp only
    rw [hcarried, hevents, List.length_cons]
    omega

/-- A loop where it stands, carried on with so much fuel. -/
def resumed (flow : Flow σ) (acts : Acts μ) (now : Int) (fuel : Nat) (s : Going σ μ) : Advanced σ μ :=
  match Loop.carry acts s.asked s.loop with
  | .ok l => advanceLoop flow acts now fuel s.instance_ l
  | .error refused => ⟨s.instance_, s.loop.made, .error refused⟩

theorem resumed_noneLeft {fuel : Nat} (hasked : s.asked = []) (hevents : s.loop.events = []) :
    resumed flow acts now (fuel + 1) s = ⟨s.instance_, s.loop.made, .ok s.loop.ended⟩ := by
  simp only [resumed, hasked, Loop.carry, advanceLoop, hevents]

theorem resumed_refuses {fuel : Nat} {event : Event} {events : List Event} {i : Instance σ} {refused : Refused}
    (hasked : s.asked = []) (hevents : s.loop.events = event :: events)
    (hadvance : flow.advance s.instance_ event now = (i, .error refused)) :
    resumed flow acts now (fuel + 1) s = ⟨i, s.loop.made, .error refused⟩ := by
  simp only [resumed, hasked, Loop.carry, advanceLoop, hevents, hadvance]

theorem resumed_event {fuel : Nat} {event : Event} {events : List Event} {i : Instance σ} {asked : List Act}
    (hasked : s.asked = []) (hevents : s.loop.events = event :: events)
    (hadvance : flow.advance s.instance_ event now = (i, .ok asked)) :
    resumed flow acts now (fuel + 1) s =
      resumed flow acts now fuel ⟨i, { s.loop with events }, asked, s.taken ++ [event], s.queued, s.done⟩ := by
  cases hcarry : Loop.carry acts asked { s.loop with events } with
  | ok l => simp only [resumed, hasked, Loop.carry, advanceLoop, hevents, hadvance, hcarry]
  | error refused => simp only [resumed, hasked, Loop.carry, advanceLoop, hevents, hadvance, hcarry]

/-- What a loop comes to is what it is computed to come to, with fuel enough. -/
theorem resumed_of_comes {t : Going σ μ} {e : Instance σ × Ended} (h : Comes (next flow acts now) s t e) {fuel : Nat}
    (hfuel : s.measure.1 < fuel) :
    (resumed flow acts now fuel s).instance_ = e.1 ∧ (resumed flow acts now fuel s).outcome = e.2.outcome ∧
      ∀ ended, e.2 = .noneLeft ended → (resumed flow acts now fuel s).made = t.loop.made := by
  induction h generalizing fuel with
  | @ends s e he =>
    unfold next at he
    split at he
    · rename_i act asked hasked
      unfold resumed Loop.carry
      rw [hasked]
      dsimp only
      split at he
      · rename_i hmost
        cases he
        rw [if_pos hmost]
        exact ⟨rfl, rfl, fun _ h => by cases h⟩
      · rename_i hmost
        rw [if_neg hmost]
        split at he
        · rename_i why hact
          cases he
          rw [hact]
          exact ⟨rfl, rfl, fun _ h => by cases h⟩
        · cases he
    · rename_i hasked
      obtain ⟨fuel, rfl⟩ : ∃ n, fuel = n + 1 := ⟨fuel - 1, by omega⟩
      split at he
      · rename_i hevents
        cases he
        rw [resumed_noneLeft hasked hevents]
        exact ⟨rfl, rfl, fun _ _ => rfl⟩
      · rename_i event events hevents
        split at he
        · rename_i i refused hadvance
          cases he
          rw [resumed_refuses hasked hevents hadvance]
          exact ⟨rfl, rfl, fun _ h => by cases h⟩
        · cases he
  | @goes s s' t e hn _ ih =>
    obtain ⟨hle, hlt⟩ := measure_le hn
    obtain ⟨hinstance, houtcome, hmade⟩ := ih (Nat.lt_of_le_of_lt hle hfuel)
    unfold next at hn
    split at hn
    · rename_i act asked hasked
      split at hn
      · cases hn
      · rename_i hmost
        split at hn
        · cases hn
        · rename_i loop hact
          cases hn
          unfold resumed at hinstance houtcome hmade ⊢
          rw [hasked, Loop.carry, if_neg hmost, hact]
          dsimp only at hinstance houtcome hmade ⊢
          cases hcarry : Loop.carry acts asked loop with
          | ok l =>
            rw [hcarry] at hinstance houtcome hmade
            exact ⟨hinstance, houtcome, hmade⟩
          | error refused =>
            rw [hcarry] at hinstance houtcome
            refine ⟨hinstance, houtcome, fun ended he => ?_⟩
            rw [he] at houtcome
            cases houtcome
    · rename_i hasked
      obtain ⟨fuel, rfl⟩ : ∃ n, fuel = n + 1 := ⟨fuel - 1, by omega⟩
      have hfuel' : s'.measure.1 < fuel := by
        have := hlt hasked
        omega
      obtain ⟨hinstance, houtcome, hmade⟩ := ih hfuel'
      split at hn
      · cases hn
      · rename_i event events hevents
        split at hn
        · cases hn
        · rename_i i asked hadvance
          cases hn
          rw [resumed_event hasked hevents hadvance]
          exact ⟨hinstance, houtcome, hmade⟩

/-- The loop as `advance` computes it. -/
theorem resumed_begins (made : μ) (i : Instance σ) (event : Event) :
    resumed flow acts now (mostActs + 2) (begins made i event) = advance flow acts made i event now := rfl

end Going

/-- Why a loop that has come to `t` ends there, the Instance `j` then. -/
inductive Ends (flow : Flow σ) (acts : Acts μ) (now : Int) (t : Going σ μ) (j : Instance σ) : Ended → Prop
  /-- Every event there was to take was taken, and every act carried out. -/
  | noneLeft : t.taken = t.queued → t.loop.events = [] → t.asked = [] → j = t.instance_ →
      Ends flow acts now t j (.noneLeft t.loop.ended)
  /-- The unit refused the next event. -/
  | unit {event : Event} {events : List Event} {why : Refused} : t.asked = [] → t.loop.events = event :: events →
      flow.advance t.instance_ event now = (j, .error why) → Ends flow acts now t j (.refused why)
  /-- The next act could not be carried out. -/
  | act {act : Act} {asked : List Act} {why : String} : t.asked = act :: asked → t.loop.carried < mostActs →
      Loop.act acts { t.loop with carried := t.loop.carried + 1 } act = .error why → j = t.instance_ →
      Ends flow acts now t j (.refused (.unfit why))
  /-- The most acts were carried out, and one more asked for. -/
  | tooMany {act : Act} {asked : List Act} : t.asked = act :: asked → t.done.length = mostActs → j = t.instance_ →
      Ends flow acts now t j .tooMany

theorem ends_of_next {flow : Flow σ} {acts : Acts μ} {now : Int} {t : Going σ μ} (hkeeps : t.Keeps) {j : Instance σ}
    {ended : Ended} (h : t.next flow acts now = .inr (j, ended)) : Ends flow acts now t j ended := by
  unfold Going.next at h
  split at h
  · rename_i act asked hasked
    split at h
    · rename_i hmost
      cases h
      have hle := hkeeps.most
      exact .tooMany hasked (by rw [hkeeps.counted]; omega) rfl
    · rename_i hmost
      split at h
      · rename_i why hact
        cases h
        exact .act hasked (by omega) hact rfl
      · cases h
  · rename_i hasked
    split at h
    · rename_i hevents
      cases h
      have hall := hkeeps.inOrder
      rw [hevents, List.append_nil] at hall
      exact .noneLeft hall hevents hasked rfl
    · rename_i event events hevents
      split at h
      · rename_i i refused hadvance
        cases h
        exact .unit hasked hevents hadvance
      · cases h

/-- Whatever the unit and its acts are, a turn's loop ends: with no event left, refused, or where an act is asked for past
the most.  The events were taken in the order they came to be taken, no more acts than the most were carried out, and how
it ends is what `advance` computes. -/
theorem advance_ends (flow : Flow σ) (acts : Acts μ) (made : μ) (i : Instance σ) (event : Event) (now : Int) :
    ∃ (t : Going σ μ) (j : Instance σ) (ended : Ended),
      Comes (Going.next flow acts now) (.begins made i event) t (j, ended) ∧ Ends flow acts now t j ended ∧
      t.taken ++ t.loop.events = t.queued ∧ t.done.length ≤ mostActs ∧
      (advance flow acts made i event now).instance_ = j ∧
      (advance flow acts made i event now).outcome = ended.outcome := by
  have hstep (s s' : Going σ μ) (h : s.Keeps) (hs : s.next flow acts now = .inl s') :
      s'.Keeps ∧ Prod.Lex (· < ·) (· < ·) s'.measure s.measure := ⟨h.next hs, Going.measure_next hs⟩
  obtain ⟨t, ⟨j, ended⟩, hcomes⟩ :=
    Comes.of_decreasing (Prod.lex Nat.lt_wfRel Nat.lt_wfRel).wf Going.measure hstep (Going.begins_keeps made i event)
  obtain ⟨hkeeps, hends⟩ := hcomes.invariant (fun s s' (h : s.Keeps) hs => h.next hs) (Going.begins_keeps made i event)
  have hfuel : (Going.begins made i event).measure.1 < mostActs + 2 := by
    show mostActs - 0 + 1 < mostActs + 2
    omega
  obtain ⟨hinstance, houtcome, -⟩ := Going.resumed_of_comes hcomes hfuel
  rw [Going.resumed_begins] at hinstance houtcome
  refine ⟨t, j, ended, hcomes, ends_of_next hkeeps hends, hkeeps.inOrder, ?_, hinstance, houtcome⟩
  rw [hkeeps.counted]
  exact hkeeps.most

end WorkStep
