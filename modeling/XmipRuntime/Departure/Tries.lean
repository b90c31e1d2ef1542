import XmipRuntime.Departure.Located

/-!
# Tries and failover across passes

On nodes that have all of a Port's Locations the tries written are one after the other in the Port's order, none more often
than it says, nothing after the Message was sent or given up, and given up once the last Location the policy allows is used
up (`Sys.Exact`).  Of a pass that was not written nothing is kept: the next begins where it began.
-/

namespace Departing

open Library

variable {port : Port} {n : Nat} {log : Log} {loc p : Nat}

/-- The last Location the Port's policy allows. -/
def lastAllowed (port : Port) (n : Nat) : Nat := if port.failover then n - 1 else 0

/-- Tries one after the other in the Port's order, as its policy says. -/
structure InTurn (port : Port) (n : Nat) (log : Log) : Prop where
  inOrder : log.Pairwise (·.1 ≤ ·.1)
  /-- A Location is tried once every one before it failed its tries or failed finally. -/
  earlier : ∀ p e, e ∈ log → p < e.1 → UsedUp port p log
  bounded : ∀ p, (triesOf p log).length ≤ port.tries.toNat
  afterSent : ∀ log₁ p log₂, log = log₁ ++ (p, .sent) :: log₂ → log₂ = []
  afterGivenUp : ∀ log₁ e log₂, log = log₁ ++ e :: log₂ → ¬ UsedUp port (lastAllowed port n) log₁

namespace Sys

/-- Every node has all of the Port's Locations. -/
def Whole (n : Nat) (_ : Sys) : Action → Prop
  | .pass locations _ _ _ => locations = List.range n
  | .retry => True

instance (n : Nat) (s : Sys) : (a : Action) → Decidable (Whole n s a)
  | .pass locations _ _ _ => inferInstanceAs (Decidable (locations = List.range n))
  | .retry => inferInstanceAs (Decidable True)

/-- The tries written are in turn, and those of every pass after the ones written before it; the attempts kept count them. -/
structure Exact (port : Port) (n : Nat) (s : Sys) : Prop where
  recorded : InTurn port n s.recorded
  passes : ∀ x ∈ s.passes, InTurn port n (x.recorded ++ x.tries)
  completed : s.kept.state = .completed ↔ ∃ p, (p, .sent) ∈ s.recorded
  failed : s.kept.state = .failed ↔ UsedUp port (lastAllowed port n) s.recorded
  counted : s.kept.state = .waiting →
    s.kept.attempts.tries.toNat = (triesOf s.kept.attempts.location.toNat s.recorded).length
  /-- The count a pass begins with has room for its try; at each Location it fails over to it begins from none. -/
  noOverflow : ∀ x ∈ s.passes, x.attempts.tries.toNat + 1 < UInt32.size

end Sys

/-! ### On a node of all Locations -/

theorem getElem?_range_some {i : Nat} : (List.range n)[i]? = some p ↔ i < n ∧ i = p := by
  constructor
  · intro h
    obtain ⟨hi, he⟩ := List.getElem?_eq_some_iff.1 h
    rw [List.length_range] at hi
    rw [List.getElem_range] at he
    exact ⟨hi, he⟩
  · rintro ⟨hi, rfl⟩
    exact List.getElem?_range hi

namespace Reached

theorem place_le (h : Reached port (List.range n) loc log) {e : Nat × Outcome} (he : e ∈ log) : e.1 < n ∧ e.1 ≤ loc := by
  obtain ⟨i, hi, hei⟩ := h.within e he
  obtain ⟨hlt, rfl⟩ := getElem?_range_some.1 hei
  exact ⟨hlt, hi⟩

/-- No Location after the last the policy allows is reached. -/
theorem le_lastAllowed (h : Reached port (List.range n) loc log) (hloc : loc < n) : loc ≤ lastAllowed port n := by
  unfold lastAllowed
  split
  · omega
  · rename_i hover
    by_contra hlt
    exact hover (h.allowed (by omega))

end Reached

theorem UsedUp.exists_mem (h : UsedUp port p log) : ∃ o, (p, o) ∈ log := by
  obtain ⟨before, last, he, -⟩ := h
  exact ⟨last, mem_triesOf.1 (by simp [he])⟩

/-- Where the last Location allowed is used up it is the active one. -/
theorem Reached.eq_lastAllowed (h : Reached port (List.range n) loc log) (hloc : loc < n)
    (hused : UsedUp port (lastAllowed port n) log) : loc = lastAllowed port n := by
  obtain ⟨o, ho⟩ := hused.exists_mem
  have hle := (h.place_le ho).2
  have hge := h.le_lastAllowed hloc
  omega

theorem Ends.location_lt {on : List Nat} {progress : Progress} (h : Ends port on log progress) :
    progress.location < on.length := by
  cases h with
  | sent _ _ h => exact (List.getElem?_eq_some_iff.1 h.here).1
  | givenUp _ _ _ h => exact (List.getElem?_eq_some_iff.1 h.here).1
  | waiting _ _ _ h _ => exact (List.getElem?_eq_some_iff.1 h.here).1

theorem Ends.inTurn {progress : Progress} (h : Ends port (List.range n) log progress) : InTurn port n log where
  inOrder := h.reached.inOrder
  earlier := by
    rintro p ⟨q, o⟩ he hlt
    have hq := (h.reached.place_le he).1
    exact h.earlier_of_tried List.pairwise_lt_range (getElem?_range_some.2 ⟨hq, rfl⟩) he hlt
      (getElem?_range_some.2 ⟨Nat.lt_trans hlt hq, rfl⟩)
  bounded := fun p => (h.tries_of p).2
  afterSent := by
    rintro log₁ p log₂ he
    cases log₂ with
    | nil => rfl
    | cons e log₂ =>
      obtain ⟨q, o⟩ := e
      have hle : p ≤ q := by
        have hpair := h.reached.inOrder
        rw [he, List.pairwise_append] at hpair
        exact (List.pairwise_cons.1 hpair.2.1).1 _ (List.mem_cons_self ..)
      have hsent : (p, .sent) ∈ log := by simp [he]
      have hq : (q, o) ∈ log := by simp [he]
      rcases Nat.lt_or_eq_of_le hle with hlt | rfl
      · have hqn := (h.reached.place_le hq).1
        have hused := h.earlier_of_tried List.pairwise_lt_range (getElem?_range_some.2 ⟨hqn, rfl⟩) hq hlt
          (getElem?_range_some.2 ⟨Nat.lt_trans hlt hqn, rfl⟩)
        exact absurd hsent hused.not_sent
      · have htries : triesOf p log = triesOf p log₁ ++ .sent :: o :: triesOf p log₂ := by
          rw [he, triesOf_append]
          simp [triesOf]
        have hagain := (h.tries_of p).1 .sent (by simp [htries, List.dropLast_append_of_ne_nil])
        exact absurd hagain (by decide)
  afterGivenUp := by
    rintro log₁ ⟨q, o⟩ log₂ he hused
    obtain ⟨o', ho'⟩ := hused.exists_mem
    have hq : (q, o) ∈ log := by simp [he]
    have hle : lastAllowed port n ≤ q := by
      have hpair := h.reached.inOrder
      rw [he, List.pairwise_append] at hpair
      exact hpair.2.2 _ ho' _ (List.mem_cons_self ..)
    have hloc : progress.location < n := by simpa using h.location_lt
    have hge : q ≤ lastAllowed port n := Nat.le_trans (h.reached.place_le hq).2 (h.reached.le_lastAllowed hloc)
    obtain rfl : q = lastAllowed port n := by omega
    exact h.not_usedUp he hused

/-- What is kept of a send is what a pass made of it. -/
theorem Stands.ends {on : List Nat} {kept : Kept} (h : Stands port on log kept) :
    ∃ progress, Ends port on log progress := by
  cases h with
  | waiting p _ hstands htries => exact ⟨.of kept.attempts, .waiting p rfl rfl hstands htries⟩
  | completed loc p _ hsent => exact ⟨⟨true, loc, 0, none⟩, .sent p rfl hsent⟩
  | failed loc p _ hgiven => exact ⟨⟨false, loc, 0, some ""⟩, .givenUp p rfl rfl hgiven⟩

theorem Standing.not_sent {on : List Nat} (h : Standing port on loc p log) (q : Nat) : (q, .sent) ∉ log := by
  intro hmem
  obtain ⟨i, hi, hq⟩ := h.within _ hmem
  rcases Nat.lt_or_eq_of_le hi with hlt | rfl
  · exact (h.earlier i q hlt hq).not_sent hmem
  · obtain rfl : p = q := Option.some.inj (h.here.symm.trans hq)
    exact absurd (h.again .sent (mem_triesOf.2 hmem)) (by decide)

theorem GivenUp.not_sent {on : List Nat} (h : GivenUp port on loc p log) (q : Nat) : (q, .sent) ∉ log := by
  intro hmem
  obtain ⟨i, hi, hq⟩ := h.within _ hmem
  rcases Nat.lt_or_eq_of_le hi with hlt | rfl
  · exact (h.earlier i q hlt hq).not_sent hmem
  · obtain rfl : p = q := Option.some.inj (h.here.symm.trans hq)
    exact h.usedUp.not_sent hmem

theorem Sent.mem {on : List Nat} (h : Sent port on loc p log) : (p, .sent) ∈ log := by
  obtain ⟨before, he, -⟩ := h.sent
  exact mem_triesOf.1 (by simp [he])

theorem Stands.completed_iff {on : List Nat} {kept : Kept} (h : Stands port on log kept) :
    kept.state = .completed ↔ ∃ p, (p, .sent) ∈ log := by
  cases h with
  | waiting p hstate hstands => simp [hstate, hstands.not_sent]
  | completed loc p hstate hsent => exact iff_of_true hstate ⟨p, hsent.mem⟩
  | failed loc p hstate hgiven => simp [hstate, hgiven.not_sent]

/-- Given up exactly where the last Location the policy allows failed its tries or failed finally. -/
theorem Stands.failed_iff {kept : Kept} (h : Stands port (List.range n) log kept) :
    kept.state = .failed ↔ UsedUp port (lastAllowed port n) log := by
  cases h with
  | waiting p hstate hstands =>
    obtain ⟨hloc, rfl⟩ := getElem?_range_some.1 hstands.here
    refine iff_of_false (by simp [hstate]) fun hused => ?_
    rw [← hstands.toReached.eq_lastAllowed hloc hused] at hused
    exact hstands.not_usedUp hused
  | completed loc p hstate hsent =>
    obtain ⟨hloc, rfl⟩ := getElem?_range_some.1 hsent.here
    refine iff_of_false (by simp [hstate]) fun hused => ?_
    rw [← hsent.toReached.eq_lastAllowed hloc hused] at hused
    exact hused.not_sent hsent.mem
  | failed loc p hstate hgiven =>
    obtain ⟨hloc, rfl⟩ := getElem?_range_some.1 hgiven.here
    have hlast : loc = lastAllowed port n := by
      have hle := hgiven.toReached.le_lastAllowed hloc
      have hge : lastAllowed port n ≤ loc := by
        unfold lastAllowed
        split
        · rename_i hover
          have := hgiven.last hover
          rw [List.length_range] at this
          omega
        · omega
      omega
    exact iff_of_true hstate (hlast ▸ hgiven.usedUp)

/-! ### Every run -/

namespace Sys

variable {s : Sys}

theorem wroteOn_of_passOn (look : Nat → Option Outcome) (lost : Bool) (answer : Answer)
    (h : s.wroteOn = List.range n) : (s.passOn port (List.range n) look lost answer).wroteOn = List.range n := by
  unfold passOn
  dsimp only
  split
  · rfl
  · exact h

/-- Nodes that have all of the Port's Locations agree. -/
theorem same_of_whole (h : Reach (step port n) (Whole n) (Starts n) s) :
    Reach (step port n) Same (Starts n) s ∧ s.wroteOn = List.range n ∧ ∀ x ∈ s.passes, x.locations = List.range n := by
  induction h with
  | start hs =>
    refine ⟨.start hs, ?_⟩
    rw [show _ = starting n from hs]
    exact ⟨rfl, by simp [starting]⟩
  | @next s s' a _ hwhole hstep ih =>
    obtain ⟨hreach, hon, hpasses⟩ := ih
    have hsame : s.Same a := by
      cases a with
      | pass locations look lost answer =>
        obtain rfl : locations = List.range n := hwhole
        exact ⟨by rw [hon], .inl (by rw [hon])⟩
      | retry => trivial
    refine ⟨.next hreach hsame hstep, ?_⟩
    cases a with
    | pass locations look lost answer =>
      obtain rfl : locations = List.range n := hwhole
      simp only [step, Option.ite_none_right_eq_some, Option.some.injEq] at hstep
      obtain ⟨-, rfl⟩ := hstep
      refine ⟨wroteOn_of_passOn look lost answer hon, fun x hx => ?_⟩
      rcases List.mem_cons.1 hx with rfl | hx
      · rfl
      · exact hpasses x hx
    | retry =>
      simp only [step, Option.ite_none_right_eq_some, Option.some.injEq] at hstep
      obtain ⟨-, rfl⟩ := hstep
      exact ⟨rfl, hpasses⟩

theorem inTurn_nil : InTurn port n [] where
  inOrder := .nil
  earlier := fun _ _ he => absurd he List.not_mem_nil
  bounded := fun p => Nat.zero_le _
  afterSent := by simp
  afterGivenUp := by simp

theorem not_usedUp_nil : ¬ UsedUp port p [] := fun h => by
  obtain ⟨o, ho⟩ := h.exists_mem
  cases ho

/-- In every run on nodes that have all of the Port's Locations, the tries written are exact. -/
theorem tries_exact_of_reach (hn : n ≤ UInt32.size) (h : Reach (step port n) (Whole n) (Starts n) s) : s.Exact port n := by
  obtain ⟨hsame, hon, hall⟩ := same_of_whole h
  rcases Nat.eq_zero_or_pos n with rfl | hpos
  · rw [starting_of_reach_zero hsame]
    refine ⟨inTurn_nil, by simp [starting], by simp [starting], ?_, fun _ => rfl, by simp [starting]⟩
    exact iff_of_false (by simp [starting]) not_usedUp_nil
  · have hkept := consistent_of_reach hn hpos hsame
    have hstands := hon ▸ hkept.stands
    refine ⟨?_, ?_, hstands.completed_iff, hstands.failed_iff, ?_, ?_⟩
    · obtain ⟨progress, hends⟩ := hstands.ends
      exact hends.inTurn
    · intro x hx
      obtain ⟨progress, hends, -⟩ := (hkept.passes x hx).ends
      rw [hall x hx] at hends
      exact hends.inTurn
    · intro hwaits
      cases hstands with
      | completed _ _ hstate => exact absurd (hstate.symm.trans hwaits) (by decide)
      | failed _ _ hstate => exact absurd (hstate.symm.trans hwaits) (by decide)
      | waiting p _ hstands htries =>
        obtain ⟨-, rfl⟩ := getElem?_range_some.1 hstands.here
        exact htries
    · intro x hx
      obtain ⟨p, hstands, htries⟩ := (hkept.passes x hx).stands
      have hleft := hstands.left
      have hlt := port.tries.toNat_lt
      unfold UInt32.size
      omega

/-- A Port that tries a Location twice and fails over. -/
private def orders : Port := ⟨"orders", some 1, true⟩

/-- The first Location fails finally, and the second fails to be tried again. -/
private def refusing : Nat → Option Outcome
  | 0 => some (.failed false "refused")
  | _ => some (.failed true "timed out")

theorem exact_of_three_passes : ∃ s, s.kept.state = .failed ∧ s.passes.length = 3 ∧
    Reach (step orders 2) (Whole 2) (Starts 2) s ∧ s.Exact orders 2 := by
  obtain ⟨s, hs, hp⟩ := Reach.exists_of_runWhere (step orders 2) (Whole 2) (show Starts 2 (starting 2) from rfl)
    [.pass [0, 1] refusing false .refused, .pass [0, 1] refusing false .written, .pass [0, 1] refusing false .written]
    (fun s => s.kept.state = .failed ∧ s.passes.length = 3) (by decide +kernel)
  obtain ⟨hstate, hlength⟩ := of_decide_eq_true hp
  exact ⟨s, hstate, hlength, hs, tries_exact_of_reach (by decide) hs⟩

/-! ### What is not kept -/

/-- A pass goes through Locations that fail finally, one after the other. -/
theorem departPort_finals {length k : Nat} {look : Nat → Option Outcome} {detail : String} (remaining : List Nat)
    (standing : Progress) (hover : port.failover = true) (hk : k ≤ remaining.length) (hlength : standing.location + k < length)
    (hlook : ∀ i, standing.location ≤ i → i < standing.location + k → look i = some (.failed false detail))
    (htries : standing.tries = 0) :
    departPort port length look remaining standing =
      let rest := departPort port length look (remaining.drop k) { standing with location := standing.location + k }
      ((remaining.take k).map (fun place => .tried place (.failed false detail)) ++ rest.1, rest.2) := by
  induction k generalizing remaining standing with
  | zero => simp
  | succ k ih =>
    cases remaining with
    | nil => simp at hk
    | cons place remaining =>
      have hnext := ih remaining { standing with location := standing.location + 1, tries := 0 } (by simpa using hk)
        (by simp only; omega) (fun i hi hlt => hlook i (Nat.le_of_succ_le hi) (by simp only at hlt; omega)) rfl
      rw [departPort, hlook _ (Nat.le_refl _) (by omega)]
      simp only [Outcome.again]
      rw [if_neg (by simp), if_neg (by simp), if_pos ⟨hover, by omega⟩, hnext]
      simp [htries, Nat.add_assoc, Nat.add_comm 1 k]

/-- A pass over Locations that all fail finally but the last, to be tried again. -/
theorem departTo_finals {look : Nat → Option Outcome} {detail later : String} (N : Nat) (hover : port.failover = true)
    (htries : 1 < port.tries) (hlook : ∀ i < N, look i = some (.failed false detail))
    (hlast : look N = some (.failed true later)) :
    departTo port (List.range (N + 1)) look (.of ⟨0, 0⟩) =
      ((List.range N).map (fun place => .tried place (.failed false detail)) ++ [.tried N (.failed true later)],
        ⟨false, N, 1, none⟩) := by
  have htake : (List.range (N + 1)).take N = List.range N := by
    rw [List.take_range, Nat.min_eq_left (Nat.le_succ _)]
  have hdrop : (List.range (N + 1)).drop N = [N] := by
    rw [List.range_succ, List.drop_left' List.length_range]
  have hfinals := @departPort_finals port (N + 1) N look detail (List.range (N + 1)) (.of ⟨0, 0⟩) hover
    (by rw [List.length_range]; omega) (by simp [Progress.of]) (fun i _ hi => hlook i (by simpa [Progress.of] using hi)) rfl
  rw [departTo_of, List.length_range]
  refine hfinals.trans ?_
  rw [htake, hdrop]
  simp [departPort, Progress.of, hlast, Outcome.again, htries]

/-- What a pass that tried something and was written leaves. -/
theorem passOn_written {locations : List Nat} {look : Nat → Option Outcome} {departed : List Departed}
    {progress : Progress} (h : departTo port locations look (.of s.kept.attempts) = (departed, progress))
    (hdeparted : departed ≠ []) :
    (s.passOn port locations look false .written).recorded = s.recorded ++ triesIn departed ∧
      (progress.waiting = true → progress.sent = false →
        (s.passOn port locations look false .written).kept = ⟨progress.attempts, .waiting⟩) := by
  unfold passOn
  rw [h]
  cases hsent : progress.sent <;> cases hwaits : progress.waiting <;> simp [handOn, hdeparted, hsent, hwaits]

/-- Of one Location more than 2³² the last is not read back as it was written. -/
theorem recorded_back (N : Nat) (hN : N = UInt32.size) :
    ∃ s, Reach (step orders (N + 1)) (Whole (N + 1)) (Starts (N + 1)) s ∧ ¬ s.recorded.Pairwise (·.1 ≤ ·.1) := by
  let look : Nat → Option Outcome := fun i =>
    if i < N then some (.failed false "refused") else some (.failed true "timed out")
  have hserves : Serves (N + 1) (List.range (N + 1)) := serves_range (Nat.succ_pos N)
  have hfirst := @departTo_finals orders look "refused" "timed out" N rfl (by decide) (fun i hi => by simp [look, hi])
    (by simp [look])
  obtain ⟨hrecorded, hkept⟩ := @passOn_written orders (starting (N + 1)) _ _ _ _ hfirst (by simp)
  have hone : Reach (step orders (N + 1)) (Whole (N + 1)) (Starts (N + 1)) _ :=
    .next (a := .pass (List.range (N + 1)) look false .written)
      (.start (show Starts (N + 1) (starting (N + 1)) from rfl)) rfl (by rw [step, if_pos ⟨rfl, hserves⟩])
  have hkept := hkept rfl rfl
  generalize (starting (N + 1)).passOn orders (List.range (N + 1)) look false .written = s at hone hrecorded hkept
  have hplace : s.kept.attempts.location.toNat = N - 1 := by
    rw [hkept]
    simp [Progress.attempts, hN]
  have hsecond : departTo orders (List.range (N + 1)) (fun _ => some .sent) (.of s.kept.attempts) =
      ([.tried (N - 1) .sent], ⟨true, N - 1, 2, none⟩) := by
    have hlt : N - 1 < (List.range (N + 1)).length := by
      rw [List.length_range]
      omega
    have htries : s.kept.attempts.tries = 1 := by rw [hkept]; rfl
    rw [departTo_of, hplace, List.drop_eq_getElem_cons hlt, List.getElem_range]
    simp [departPort, Progress.of, hplace, htries]
  obtain ⟨hlast, -⟩ := passOn_written hsecond (by simp)
  refine ⟨_, .next (a := .pass (List.range (N + 1)) (fun _ => some .sent) false .written) hone rfl
    (by rw [step, if_pos ⟨by rw [hkept], hserves⟩]), ?_⟩
  rw [hlast, hrecorded]
  intro hpair
  have hmem : (N, .failed true "timed out") ∈ (starting (N + 1)).recorded ++ triesIn
      ((List.range N).map (fun place => .tried place (.failed false "refused")) ++ [.tried N (.failed true "timed out")]) := by
    simp [triesIn]
  have hle : N ≤ N - 1 := (List.pairwise_append.1 hpair).2.2 _ hmem _ (List.mem_singleton_self _)
  have hpos : 0 < N := by
    rw [hN]
    decide
  omega

/-- Of a pass whose claim was lost nothing is kept, a send included: the next tries again from where it began.  And of a Port
of more than 2³² Locations even what is written goes back. -/
theorem tried_from_before :
    (∃ s, Reach (step orders 2) (Whole 2) (Starts 2) s ∧ ¬ s.tried.Pairwise (·.1 ≤ ·.1) ∧
      ∃ log₁ p log₂, s.tried = log₁ ++ (p, .sent) :: log₂ ∧ log₂ ≠ []) ∧
    ∃ s, Reach (step orders (UInt32.size + 1)) (Whole (UInt32.size + 1)) (Starts (UInt32.size + 1)) s ∧
      ¬ s.recorded.Pairwise (·.1 ≤ ·.1) := by
  refine ⟨?_, recorded_back _ rfl⟩
  obtain ⟨s, hs, hp⟩ := Reach.exists_of_runWhere (step orders 2) (Whole 2) (show Starts 2 (starting 2) from rfl)
    [.pass [0, 1] (fun i => if i = 0 then some (.failed false "refused") else some .sent) false .refused,
      .pass [0, 1] refusing false .written]
    (fun s => s.tried = [(0, .failed false "refused"), (1, .sent), (0, .failed false "refused"),
      (1, .failed true "timed out")]) (by decide +kernel)
  have htried := of_decide_eq_true hp
  refine ⟨s, hs, by rw [htried]; decide, [(0, .failed false "refused")], 1, _, htried, by simp⟩

end Sys

end Departing
