import Mathlib.Data.List.Perm.Subperm
import XmipRuntime.Departure.Standing

/-!
# Tries and the Locations they were made on

The active Location goes between the nodes of a Port as a number: its place in the list of the node that wrote it.  Where
each node that takes the Message up has the same Locations up to the active one (`Sys.Agrees`), the number is of the same
Location there, and every pass goes on where the one before it left off.
-/

namespace Departing

open Library

variable {port : Port} {n : Nat}

namespace Sys

/-- Up to the active Location the node has those of the node that wrote the attempts.  Where the active one is not yet tried,
another not tried may stand before it. -/
def Agrees (s : Sys) (locations : List Nat) : Prop :=
  let loc := s.kept.attempts.location.toNat
  locations.take loc = s.wroteOn.take loc ∧ (locations[loc]? = s.wroteOn[loc]? ∨
    s.kept.attempts.tries = 0 ∧ (s.wroteOn[loc]?.any fun p => p ∈ locations) = true)

instance (s : Sys) (locations : List Nat) : Decidable (s.Agrees locations) :=
  inferInstanceAs (Decidable (locations.take s.kept.attempts.location.toNat = _ ∧
    (locations[s.kept.attempts.location.toNat]? = _ ∨ s.kept.attempts.tries = 0 ∧ _)))

/-- The node of every pass agrees with the one before. -/
def Same (s : Sys) : Action → Prop
  | .pass locations _ _ _ => s.Agrees locations
  | .retry => True

instance (s : Sys) : (a : Action) → Decidable (s.Same a)
  | .pass locations _ _ _ => inferInstanceAs (Decidable (s.Agrees locations))
  | .retry => inferInstanceAs (Decidable True)

end Sys

/-! ### From one node to the next -/

/-- Where a send stands on one node, it stands on another that agrees with it. -/
theorem Standing.moved {on on' : List Nat} {log : Log} {loc p : Nat} (h : Standing port on loc p log)
    (hon : on.Pairwise (· < ·)) (hon' : on'.Pairwise (· < ·)) (htake : on'.take loc = on.take loc)
    (hactive : on'[loc]? = on[loc]? ∨ (triesOf p log).length = 0 ∧ p ∈ on') :
    ∃ q, Standing port on' loc q log ∧ (triesOf q log).length = (triesOf p log).length := by
  have hsame : ∀ i, i < loc → on'[i]? = on[i]? := by
    intro i hi
    have he : (on'.take loc)[i]? = (on.take loc)[i]? := by rw [htake]
    rwa [List.getElem?_take_of_lt hi, List.getElem?_take_of_lt hi] at he
  have hearlier : ∀ i q, i < loc → on'[i]? = some q → UsedUp port q log := by
    intro i q hi hq
    exact h.earlier i q hi (hsame i hi ▸ hq)
  rcases hactive with hhere | ⟨hzero, hmem⟩
  · refine ⟨p, ⟨⟨hearlier, ?_, h.inOrder, h.allowed⟩, hhere.trans h.here, h.again, h.left⟩, rfl⟩
    intro e he
    obtain ⟨i, hi, hei⟩ := h.within e he
    refine ⟨i, hi, ?_⟩
    rcases Nat.lt_or_eq_of_le hi with hlt | rfl
    · exact (hsame i hlt).trans hei
    · exact hhere.trans hei
  · -- The active Location was not tried, so what was tried stands before it, and is the same here.
    have hwithin : ∀ e ∈ log, ∃ i < loc, on'[i]? = some e.1 := by
      intro e he
      obtain ⟨i, hi, hei⟩ := h.within e he
      rcases Nat.lt_or_eq_of_le hi with hlt | rfl
      · exact ⟨i, hlt, (hsame i hlt).trans hei⟩
      · obtain rfl : p = e.1 := Option.some.inj (h.here.symm.trans hei)
        have hnil : triesOf e.1 log = [] := List.eq_nil_of_length_eq_zero hzero
        have hin : e.2 ∈ triesOf e.1 log := mem_triesOf.2 he
        rw [hnil] at hin
        cases hin
    obtain ⟨j, hj⟩ := List.mem_iff_getElem?.1 hmem
    have hloc : loc < on'.length := by
      by_contra hge
      have hjlt : j < on'.length := (List.getElem?_eq_some_iff.1 hj).1
      have hlt := lt_of_getElem? hon ((hsame j (by omega)).symm.trans hj) h.here (by omega)
      omega
    have hq : on'[loc]? = some on'[loc] := List.getElem?_eq_getElem hloc
    have hnil : triesOf on'[loc] log = [] := by
      refine triesOf_eq_nil fun e he heq => ?_
      obtain ⟨i, hi, hei⟩ := hwithin e he
      have hlt := lt_of_getElem? hon' hei hq hi
      omega
    have hpos : 0 < port.tries.toNat := by
      have := h.left
      omega
    refine ⟨on'[loc], ⟨⟨hearlier, ?_, h.inOrder, h.allowed⟩, hq, by simp [hnil], by simpa [hnil] using hpos⟩,
      by simp [hnil, hzero]⟩
    intro e he
    obtain ⟨i, hi, hei⟩ := hwithin e he
    exact ⟨i, Nat.le_of_lt hi, hei⟩

/-! ### What a pass writes -/

/-- What the Ledger keeps of a send, against the tries written. -/
inductive Stands (port : Port) (on : List Nat) (log : Log) : Kept → Prop where
  | waiting {kept : Kept} (p : Nat) : kept.state = .waiting → Standing port on kept.attempts.location.toNat p log →
      kept.attempts.tries.toNat = (triesOf p log).length → Stands port on log kept
  | completed {kept : Kept} (loc p : Nat) : kept.state = .completed → Sent port on loc p log → Stands port on log kept
  | failed {kept : Kept} (loc p : Nat) : kept.state = .failed → GivenUp port on loc p log → Stands port on log kept

/-- What a pass that left `progress` writes, where it writes anything. -/
theorem handOn_cases (kept : Kept) (departed : List Departed) (progress : Progress) (lost : Bool) (answer : Answer) :
    (∃ ended, (ended = .lost ∨ ended = .untried ∨ ended = .unwritten) ∧
      handOn kept departed progress lost answer = (ended, kept)) ∨
    (progress.sent = true ∧ handOn kept departed progress lost answer = (.completed, ⟨progress.attempts, .completed⟩)) ∨
    (progress.sent = false ∧ progress.givenUp = none ∧
      handOn kept departed progress lost answer = (.waiting, ⟨progress.attempts, .waiting⟩)) ∨
    progress.sent = false ∧ progress.givenUp.isSome = true ∧
      handOn kept departed progress lost answer = (.failed, ⟨progress.attempts, .failed⟩) := by
  unfold handOn
  split
  · exact .inl ⟨.lost, .inl rfl, rfl⟩
  split
  · exact .inl ⟨.untried, .inr (.inl rfl), rfl⟩
  dsimp only
  cases answer with
  | refused => exact .inl ⟨.lost, .inl rfl, rfl⟩
  | unwritten => exact .inl ⟨.unwritten, .inr (.inr rfl), rfl⟩
  | written =>
    refine .inr ?_
    cases hsent : progress.sent with
    | true => exact .inl ⟨rfl, by simp⟩
    | false =>
      refine .inr ?_
      cases hgiven : progress.givenUp with
      | none => exact .inl ⟨rfl, rfl, by simp [Progress.waiting, hsent, hgiven]⟩
      | some _ => exact .inr ⟨rfl, rfl, by simp [Progress.waiting, hsent, hgiven]⟩

/-- A place is read back as it was written, of a Port of at most 2³² Locations. -/
theorem Progress.toNat_location_attempts {progress : Progress} (h : progress.location < UInt32.size) :
    progress.attempts.location.toNat = progress.location := by
  unfold Progress.attempts
  rw [if_pos h]
  exact UInt32.toNat_ofNat_of_lt' h

theorem length_le_of_serves {locations : List Nat} (h : Sys.Serves n locations) : locations.length ≤ n := by
  have hnodup : locations.Nodup := h.2.1.imp Nat.ne_of_lt
  have hsub : locations ⊆ List.range n := fun p hp => List.mem_range.2 (h.2.2 p hp)
  simpa using (List.subperm_of_subset hnodup hsub).length_le

/-- What a pass writes stands as the pass left the send. -/
theorem stands_of_handOn {locations : List Nat} {log : Log} {progress : Progress} (hn : n ≤ UInt32.size)
    (hserves : Sys.Serves n locations) (hends : Ends port locations log progress) (kept : Kept)
    (departed : List Departed) (lost : Bool) (answer : Answer) :
    (∃ ended, ¬ (ended = .completed ∨ ended = .waiting ∨ ended = .failed) ∧
      handOn kept departed progress lost answer = (ended, kept)) ∨
    ∃ ended kept', (ended = .completed ∨ ended = .waiting ∨ ended = .failed) ∧
      handOn kept departed progress lost answer = (ended, kept') ∧ Stands port locations log kept' ∧
      (ended = .failed → progress.sent = false ∧ progress.givenUp.isSome = true) := by
  rcases handOn_cases kept departed progress lost answer with
    ⟨ended, hended, hw⟩ | ⟨hsent, hw⟩ | ⟨hsent, hgiven, hw⟩ | ⟨hsent, hgiven, hw⟩
  · refine .inl ⟨ended, ?_, hw⟩
    rcases hended with rfl | rfl | rfl <;> decide
  · refine .inr ⟨_, _, .inl rfl, hw, ?_, by simp⟩
    cases hends with
    | sent p _ h => exact .completed _ p rfl h
    | givenUp _ hnot => exact absurd (hsent.symm.trans hnot) (by decide)
    | waiting _ hnot => exact absurd (hsent.symm.trans hnot) (by decide)
  · refine .inr ⟨_, _, .inr (.inl rfl), hw, ?_, by simp⟩
    cases hends with
    | sent _ h => exact absurd (hsent.symm.trans h) (by decide)
    | givenUp _ _ h => simp [hgiven] at h
    | waiting p _ _ h htries =>
      have hloc : progress.location < UInt32.size := by
        have hlt := (List.getElem?_eq_some_iff.1 h.here).1
        have hle := length_le_of_serves hserves
        omega
      have hread := Progress.toNat_location_attempts hloc
      exact .waiting p rfl (hread ▸ h) htries
  · refine .inr ⟨_, _, .inr (.inr rfl), hw, ?_, fun _ => ⟨hsent, hgiven⟩⟩
    cases hends with
    | sent _ h => exact absurd (hsent.symm.trans h) (by decide)
    | givenUp p _ _ h => exact .failed _ p rfl h
    | waiting _ _ h => simp [h] at hgiven

/-! ### Every run -/

/-- A pass that begins where the tries written left the send, and goes on from there. -/
structure Pass.GoesOn (port : Port) (n : Nat) (x : Pass) : Prop where
  serves : Sys.Serves n x.locations
  active : ∀ p, x.active = some p → p ∈ x.locations
  stands : ∃ p, Standing port x.locations x.attempts.location.toNat p x.recorded ∧
    x.attempts.tries.toNat = (triesOf p x.recorded).length
  onward : ∀ e ∈ x.tries, e.1 ∈ x.locations.drop x.attempts.location.toNat
  ends : ∃ progress, Ends port x.locations (x.recorded ++ x.tries) progress ∧
    x.attempts.location.toNat ≤ progress.location ∧
    (x.failed = true → progress.sent = false ∧ progress.givenUp.isSome = true)

/-- Every pass goes on from the one before it, and the attempts kept are of the tries written. -/
structure Sys.Consistent (port : Port) (n : Nat) (s : Sys) : Prop where
  serves : Sys.Serves n s.wroteOn
  stands : Stands port s.wroteOn s.recorded s.kept
  passes : ∀ x ∈ s.passes, x.GoesOn port n

namespace Sys

variable {s : Sys} {locations : List Nat}

/-- On a node that agrees with the one that wrote the attempts the send stands as they say. -/
theorem Consistent.standing (h : s.Consistent port n) (hwaits : s.kept.state = .waiting) (hserves : Serves n locations)
    (hagrees : s.Agrees locations) :
    ∃ p, Standing port locations s.kept.attempts.location.toNat p s.recorded ∧
      s.kept.attempts.tries.toNat = (triesOf p s.recorded).length := by
  cases h.stands with
  | completed _ _ hstate => exact absurd (hstate.symm.trans hwaits) (by decide)
  | failed _ _ hstate => exact absurd (hstate.symm.trans hwaits) (by decide)
  | waiting p _ hstands htries =>
    have hactive : locations[s.kept.attempts.location.toNat]? = s.wroteOn[s.kept.attempts.location.toNat]? ∨
        (triesOf p s.recorded).length = 0 ∧ p ∈ locations := by
      rcases hagrees.2 with hsame | ⟨hzero, hmem⟩
      · exact .inl hsame
      · rw [hstands.here] at hmem
        rw [hzero] at htries
        exact .inr ⟨htries.symm, of_decide_eq_true hmem⟩
    obtain ⟨q, hq, hlength⟩ := hstands.moved h.serves.2.1 hserves.2.1 hagrees.1 hactive
    exact ⟨q, hq, htries.trans hlength.symm⟩

/-- The active Location is one of such a node's. -/
theorem Agrees.active_mem (hagrees : s.Agrees locations) {p : Nat}
    (hp : s.wroteOn[s.kept.attempts.location.toNat]? = some p) : p ∈ locations := by
  rcases hagrees.2 with hsame | ⟨-, hmem⟩
  · exact List.mem_of_getElem? (hsame.trans hp)
  · rw [hp] at hmem
    exact of_decide_eq_true hmem

theorem departTo_of (locations : List Nat) (look : Nat → Option Outcome) (attempts : Attempts) :
    departTo port locations look (.of attempts) =
      departPort port locations.length look (locations.drop attempts.location.toNat) (.of attempts) := rfl

theorem consistent_of_passOn (hn : n ≤ UInt32.size) (h : s.Consistent port n) (hwaits : s.kept.state = .waiting)
    (hserves : Serves n locations) (hagrees : s.Agrees locations) (look : Nat → Option Outcome) (lost : Bool)
    (answer : Answer) : (s.passOn port locations look lost answer).Consistent port n := by
  obtain ⟨p, hstands, htries⟩ := h.standing hwaits hserves hagrees
  have hends := ends_of_departPort hserves.2.1 look (locations.drop s.kept.attempts.location.toNat) (.of s.kept.attempts)
    s.recorded rfl rfl rfl hstands htries
  obtain ⟨honward, hle⟩ := @places_of_departPort port locations.length look
    (locations.drop s.kept.attempts.location.toNat) (.of s.kept.attempts)
  unfold passOn
  rw [departTo_of]
  generalize departPort port locations.length look (locations.drop s.kept.attempts.location.toNat)
    (.of s.kept.attempts) = went at hends honward hle
  obtain ⟨departed, progress⟩ := went
  have hpass : ∀ failed : Bool, (failed = true → progress.sent = false ∧ progress.givenUp.isSome = true) →
      Pass.GoesOn port n ⟨locations, s.kept.attempts, s.wroteOn[s.kept.attempts.location.toNat]?, s.recorded,
        triesIn departed, failed⟩ := fun failed hfailed =>
    ⟨hserves, fun _ => hagrees.active_mem, ⟨p, hstands, htries⟩, honward, progress, hends, hle, hfailed⟩
  dsimp only
  rcases stands_of_handOn hn hserves hends s.kept departed lost answer with
    ⟨ended, hnot, hw⟩ | ⟨ended, kept', hwrote, hw, hkept, hfailed⟩
  · rw [hw]
    have hended : ended ≠ .failed := fun he => hnot (.inr (.inr he))
    refine ⟨by simpa [hnot] using h.serves, by simpa [hnot] using h.stands, ?_⟩
    intro x hx
    rcases List.mem_cons.1 hx with rfl | hx
    · exact hpass _ (by simp [hended])
    · exact h.passes x hx
  · rw [hw]
    refine ⟨by simpa [hwrote] using hserves, by simpa [hwrote] using hkept, ?_⟩
    intro x hx
    rcases List.mem_cons.1 hx with rfl | hx
    · exact hpass _ (by simpa using hfailed)
    · exact h.passes x hx

theorem serves_range (hn : 0 < n) : Serves n (List.range n) := by
  refine ⟨?_, List.pairwise_lt_range, fun p hp => List.mem_range.1 hp⟩
  intro hnil
  have hzero : n = 0 := List.range_eq_nil.1 hnil
  omega

theorem consistent_starting (hn : 0 < n) (passes : List Pass) (hpasses : ∀ x ∈ passes, x.GoesOn port n) :
    ({ starting n with passes } : Sys).Consistent port n where
  serves := serves_range hn
  stands := by
    have hpos : 0 < port.tries.toNat := port.tries_pos
    refine .waiting 0 rfl ⟨⟨?_, ?_, .nil, ?_⟩, ?_, ?_, hpos⟩ rfl
    · intro i p hi
      exact absurd hi (Nat.not_lt_zero i)
    · intro e he
      cases he
    · intro hlt
      exact absurd hlt (Nat.lt_irrefl 0)
    · exact List.getElem?_range hn
    · intro o ho
      cases ho
  passes := hpasses

/-- Every state reached by passes on nodes that agree keeps attempts that are of the tries written. -/
theorem consistent_of_reach (hn : n ≤ UInt32.size) (hpos : 0 < n)
    (h : Reach (step port n) Same (Starts n) s) : s.Consistent port n := by
  refine Reach.invariant (fun s hs => ?_) (fun s a s' hinv hsame hstep => ?_) h
  · rw [show s = _ from hs]
    exact consistent_starting hpos [] (by simp)
  · cases a with
    | pass locations look lost answer =>
      simp only [step, Option.ite_none_right_eq_some, Option.some.injEq] at hstep
      obtain ⟨⟨hwaits, hserves⟩, rfl⟩ := hstep
      exact consistent_of_passOn hn hinv hwaits hserves hsame look lost answer
    | retry =>
      simp only [step, Option.ite_none_right_eq_some, Option.some.injEq] at hstep
      obtain ⟨-, rfl⟩ := hstep
      exact consistent_starting hpos s.passes hinv.passes

/-- No node serves a Port of no Locations. -/
theorem starting_of_reach_zero {ok : Sys → Action → Prop} (h : Reach (step port 0) ok (Starts 0) s) : s = starting 0 := by
  refine @Reach.invariant _ _ _ _ _ (fun s => s = starting 0) (fun s hs => hs) (fun s a s' hinv _ hstep => ?_) _ h
  subst hinv
  cases a with
  | pass locations look lost answer =>
    simp only [step, Option.ite_none_right_eq_some] at hstep
    obtain ⟨p, hp⟩ := List.exists_mem_of_ne_nil _ hstep.1.2.1
    exact absurd (hstep.1.2.2.2 p hp) (Nat.not_lt_zero p)
  | retry =>
    simp only [step, Option.ite_none_right_eq_some] at hstep
    exact absurd hstep.1 (by decide)

end Sys

/-! ### The same Location on every node -/

/-- A pass counts the tries written only against the Location they were made on, tries none again that used up its tries,
passes over none of its node's that did not, and, on a node without the active Location, fails nothing with a Location left
untried. -/
structure Pass.Located (port : Port) (n : Nat) (x : Pass) : Prop where
  counted : ∀ p, x.locations[x.attempts.location.toNat]? = some p →
    x.attempts.tries.toNat = (triesOf p x.recorded).length
  notAgain : ∀ log₁ e log₂, x.recorded ++ x.tries = log₁ ++ e :: log₂ → ¬ UsedUp port e.1 log₁
  skipsNone : ∀ i p, x.locations[i]? = some p →
    (i < x.attempts.location.toNat ∨ (∃ j e, i < j ∧ e ∈ x.tries ∧ x.locations[j]? = some e.1) ∨
      x.failed = true ∧ port.failover = true) → UsedUp port p (x.recorded ++ x.tries)
  notFailed : ∀ a, x.active = some a → a ∉ x.locations → x.failed = true →
    ∀ p < n, triesOf p (x.recorded ++ x.tries) ≠ []

theorem Pass.GoesOn.located {x : Pass} (h : x.GoesOn port n) : x.Located port n where
  counted := by
    intro p hp
    obtain ⟨q, hstands, htries⟩ := h.stands
    rw [← Option.some.inj (hstands.here.symm.trans hp)]
    exact htries
  notAgain := by
    intro log₁ e log₂ he
    obtain ⟨progress, hends, -⟩ := h.ends
    exact hends.not_usedUp he
  skipsNone := by
    intro i p hp hpassed
    obtain ⟨progress, hends, hle, hfailed⟩ := h.ends
    rcases hpassed with hlt | ⟨j, e, hij, he, hj⟩ | ⟨hf, hover⟩
    · exact hends.reached.earlier i p (by omega) hp
    · exact hends.earlier_of_tried h.serves.2.1 hj (List.mem_append_right _ he) hij hp
    · obtain ⟨hsent, hgiven⟩ := hfailed hf
      cases hends with
      | sent _ hs => exact absurd (hsent.symm.trans hs) (by decide)
      | waiting _ _ hnone => simp [hnone] at hgiven
      | givenUp q _ _ hends => exact hends.usedUp_of_failover hover hp
  notFailed := by
    intro a ha hnot
    exact absurd (h.active a ha) hnot

namespace Sys

/-- In every run of passes on nodes that agree up to the active Location, tries are counted against the Location they were
made on. -/
theorem located_of_reach {s : Sys} (hn : n ≤ UInt32.size) (h : Reach (step port n) Same (Starts n) s) :
    ∀ x ∈ s.passes, x.Located port n := by
  intro x hx
  rcases Nat.eq_zero_or_pos n with rfl | hpos
  · rw [starting_of_reach_zero h] at hx
    cases hx
  · exact ((consistent_of_reach hn hpos h).passes x hx).located

/-- A Port that tries a Location twice and fails over. -/
private def twice : Port := ⟨"orders", some 1, true⟩

/-- The first Location fails finally, the second to be tried again, the third takes the Message. -/
private def second : Nat → Option Outcome
  | 0 => some (.failed false "refused")
  | 1 => some (.failed true "timed out")
  | _ => some .sent

theorem located_on_two_nodes : ∃ s, s.passes.length = 2 ∧ s.kept.state = .completed ∧
    Reach (step twice 3) Same (Starts 3) s ∧ ∀ x ∈ s.passes, x.Located twice 3 := by
  obtain ⟨s, hs, hp⟩ := Reach.exists_of_runWhere (step twice 3) Same
    (show Starts 3 (starting 3) from rfl)
    [.pass [0, 1] second false .written, .pass [0, 1, 2] second false .written]
    (fun s => s.passes.length = 2 ∧ s.kept.state = .completed) (by decide +kernel)
  obtain ⟨hlength, hstate⟩ := of_decide_eq_true hp
  exact ⟨s, hlength, hstate, hs, located_of_reach (by decide) hs⟩

/-- A node of the first two Locations leaves the second active with one try left; a node of the last two takes the place for
its own second, the third Location, which then fails its one try: the Message has failed with a try left. -/
theorem counted_elsewhere : ∃ s, Reach (step twice 3) Always (Starts 3) s ∧ ¬ ∀ x ∈ s.passes, x.Located twice 3 := by
  obtain ⟨s, hs, hp⟩ := Reach.exists_of_runWhere (step twice 3) Always
    (show Starts 3 (starting 3) from rfl)
    [.pass [0, 1] second false .written, .pass [1, 2] (fun _ => some (.failed true "timed out")) false .written]
    (fun s => s.kept.state = .failed ∧ s.passes.any fun x => decide (x.locations[x.attempts.location.toNat]? = some 2 ∧
      x.attempts.tries.toNat ≠ (triesOf 2 x.recorded).length)) (by decide +kernel)
  obtain ⟨-, hany⟩ := of_decide_eq_true hp
  obtain ⟨x, hx, hcount⟩ := List.any_eq_true.1 hany
  obtain ⟨hhere, hne⟩ := of_decide_eq_true hcount
  exact ⟨s, hs, fun hall => hne ((hall x hx).counted 2 hhere)⟩

end Sys

end Departing
