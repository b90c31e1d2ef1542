import XmipRuntime.Departure.Passes

/-!
# Where a send stands

What the two numbers a Journey keeps of its send mean, against the tries that were made: every Location of the node before
the active one used up its tries, the active one was tried as often as the second number says, each time with a failure that
may be tried again, and those after it were not tried (`Standing`).  A pass takes that to the same again, to a send that was
sent (`Sent`) or to one given up (`GivenUp`), of its own tries after those written before (`ends_of_departPort`).
-/

namespace Departing

variable {port : Port} {on : List Nat} {log : Log} {loc p q : Nat} {o : Outcome}

/-! ### Tries at a Location -/

/-- What came of the tries at the Location `p`. -/
def triesOf (p : Nat) (log : Log) : List Outcome := log.filterMap fun e => if e.1 = p then some e.2 else none

theorem triesOf_append (p : Nat) (log log' : Log) : triesOf p (log ++ log') = triesOf p log ++ triesOf p log' :=
  List.filterMap_append

@[simp] theorem triesOf_snoc (p : Nat) (log : Log) (o : Outcome) : triesOf p (log ++ [(p, o)]) = triesOf p log ++ [o] := by
  simp [triesOf]

theorem triesOf_snoc_of_ne (h : q ≠ p) : triesOf p (log ++ [(q, o)]) = triesOf p log := by
  simp [triesOf, h]

theorem mem_triesOf : o ∈ triesOf p log ↔ (p, o) ∈ log := by
  simp only [triesOf, List.mem_filterMap, Option.ite_none_right_eq_some, Option.some.injEq]
  constructor
  · rintro ⟨e, he, rfl, rfl⟩
    exact he
  · intro h
    exact ⟨_, h, rfl, rfl⟩

theorem triesOf_eq_nil (h : ∀ e ∈ log, e.1 ≠ p) : triesOf p log = [] := by
  refine List.eq_nil_iff_forall_not_mem.2 fun o ho => ?_
  exact h _ (mem_triesOf.1 ho) rfl

/-- The Location `p` failed its tries, or failed finally: each try before the last may be tried again, and the last only
where no more are allowed. -/
def UsedUp (port : Port) (p : Nat) (log : Log) : Prop :=
  ∃ before last, triesOf p log = before ++ [last] ∧ (∀ o ∈ before, o.again = true) ∧ last ≠ .sent ∧
    before.length < port.tries.toNat ∧ (last.again = true → before.length + 1 = port.tries.toNat)

theorem UsedUp.congr {log' : Log} (h : UsedUp port p log) (he : triesOf p log' = triesOf p log) :
    UsedUp port p log' := by
  unfold UsedUp
  rw [he]
  exact h

theorem UsedUp.tries_of (h : UsedUp port p log) :
    (∀ o ∈ (triesOf p log).dropLast, o.again = true) ∧ (triesOf p log).length ≤ port.tries.toNat := by
  obtain ⟨before, last, he, hagain, -, hlt, -⟩ := h
  rw [he, List.dropLast_concat, List.length_append, List.length_singleton]
  exact ⟨hagain, hlt⟩

theorem UsedUp.not_sent (h : UsedUp port p log) : (p, .sent) ∉ log := by
  obtain ⟨before, last, he, hagain, hlast, -⟩ := h
  intro hmem
  have hsent : .sent ∈ before ++ [last] := he ▸ mem_triesOf.2 hmem
  rcases List.mem_append.1 hsent with hb | hb
  · exact absurd (hagain _ hb) (by decide)
  · exact hlast (List.mem_singleton.1 hb).symm

/-- A Location that may be tried again, with tries left, is not used up. -/
theorem not_usedUp (hagain : ∀ o ∈ triesOf p log, o.again = true) (hleft : (triesOf p log).length < port.tries.toNat) :
    ¬ UsedUp port p log := by
  rintro ⟨before, last, he, -, -, -, hlast⟩
  have h := hlast (hagain last (by simp [he]))
  rw [he, List.length_append, List.length_singleton] at hleft
  omega

/-! ### The active Location -/

/-- The Locations of a node, up to the one at `loc`, were tried one after the other, each before it used up. -/
structure Reached (port : Port) (on : List Nat) (loc : Nat) (log : Log) : Prop where
  earlier : ∀ i p, i < loc → on[i]? = some p → UsedUp port p log
  within : ∀ e ∈ log, ∃ i ≤ loc, on[i]? = some e.1
  inOrder : log.Pairwise (·.1 ≤ ·.1)
  allowed : 0 < loc → port.failover = true

/-- The send waits, to be tried again at `p`. -/
structure Standing (port : Port) (on : List Nat) (loc p : Nat) (log : Log) : Prop extends Reached port on loc log where
  here : on[loc]? = some p
  again : ∀ o ∈ triesOf p log, o.again = true
  left : (triesOf p log).length < port.tries.toNat

/-- The send was sent at `p`. -/
structure Sent (port : Port) (on : List Nat) (loc p : Nat) (log : Log) : Prop extends Reached port on loc log where
  here : on[loc]? = some p
  sent : ∃ before, triesOf p log = before ++ [.sent] ∧ (∀ o ∈ before, o.again = true) ∧ before.length < port.tries.toNat

/-- The send is given up: `p`, the last Location here the Port's policy allows, used up its tries. -/
structure GivenUp (port : Port) (on : List Nat) (loc p : Nat) (log : Log) : Prop extends Reached port on loc log where
  here : on[loc]? = some p
  usedUp : UsedUp port p log
  last : port.failover = true → on.length ≤ loc + 1

theorem lt_of_getElem? {i j : Nat} (hon : on.Pairwise (· < ·)) (hp : on[i]? = some p) (hq : on[j]? = some q)
    (hij : i < j) : p < q := by
  obtain ⟨hi, rfl⟩ := List.getElem?_eq_some_iff.1 hp
  obtain ⟨hj, rfl⟩ := List.getElem?_eq_some_iff.1 hq
  exact List.pairwise_iff_getElem.1 hon i j hi hj hij

theorem le_of_getElem? {i j : Nat} (hon : on.Pairwise (· < ·)) (hp : on[i]? = some p) (hq : on[j]? = some q)
    (hij : i ≤ j) : p ≤ q := by
  rcases Nat.lt_or_eq_of_le hij with h | rfl
  · exact Nat.le_of_lt (lt_of_getElem? hon hp hq h)
  · exact Nat.le_of_eq (Option.some.inj (hp.symm.trans hq))

namespace Reached

/-- One more try at the active Location. -/
theorem tried (h : Reached port on loc log) (hon : on.Pairwise (· < ·)) (hp : on[loc]? = some p) (o : Outcome) :
    Reached port on loc (log ++ [(p, o)]) where
  earlier := by
    intro i q hi hq
    have hne : p ≠ q := Nat.ne_of_gt (lt_of_getElem? hon hq hp hi)
    exact (h.earlier i q hi hq).congr (triesOf_snoc_of_ne hne)
  within := by
    intro e he
    rcases List.mem_append.1 he with hl | hl
    · exact h.within e hl
    · rw [List.mem_singleton.1 hl]
      exact ⟨loc, Nat.le_refl _, hp⟩
  inOrder := by
    refine List.pairwise_append.2 ⟨h.inOrder, List.pairwise_singleton .., fun e he e' he' => ?_⟩
    obtain ⟨i, hi, hei⟩ := h.within e he
    rw [List.mem_singleton.1 he']
    exact le_of_getElem? hon hei hp hi
  allowed := h.allowed

/-- The next Location is the active one, once the one before used up its tries. -/
theorem next (h : Reached port on loc log) (hp : on[loc]? = some p) (hused : UsedUp port p log)
    (hover : port.failover = true) : Reached port on (loc + 1) log where
  earlier := by
    intro i q hi hq
    rcases Nat.lt_or_eq_of_le (Nat.le_of_lt_succ hi) with hlt | rfl
    · exact h.earlier i q hlt hq
    · exact Option.some.inj (hp.symm.trans hq) ▸ hused
  within := by
    intro e he
    obtain ⟨i, hi, hei⟩ := h.within e he
    exact ⟨i, by omega, hei⟩
  inOrder := h.inOrder
  allowed := fun _ => hover

/-- What comes after the active Location was not tried. -/
theorem untried (h : Reached port on loc log) (hon : on.Pairwise (· < ·)) {j : Nat} (hj : loc < j)
    (hq : on[j]? = some q) : triesOf q log = [] := by
  refine triesOf_eq_nil fun e he heq => ?_
  obtain ⟨i, hi, hei⟩ := h.within e he
  have hlt := lt_of_getElem? hon hei hq (by omega)
  omega

end Reached

/-! ### One try -/

namespace Standing

theorem not_usedUp (h : Standing port on loc p log) : ¬ UsedUp port p log := Departing.not_usedUp h.again h.left

theorem sentThere (h : Standing port on loc p log) (hon : on.Pairwise (· < ·)) :
    Sent port on loc p (log ++ [(p, .sent)]) where
  toReached := h.toReached.tried hon h.here .sent
  here := h.here
  sent := ⟨triesOf p log, triesOf_snoc .., h.again, h.left⟩

theorem triedAgain (h : Standing port on loc p log) (hon : on.Pairwise (· < ·)) (ho : o.again = true)
    (hleft : (triesOf p log).length + 1 < port.tries.toNat) : Standing port on loc p (log ++ [(p, o)]) where
  toReached := h.toReached.tried hon h.here o
  here := h.here
  again := by
    intro o' ho'
    rw [triesOf_snoc] at ho'
    rcases List.mem_append.1 ho' with hl | hl
    · exact h.again o' hl
    · exact List.mem_singleton.1 hl ▸ ho
  left := by simpa using hleft

theorem usesUp (h : Standing port on loc p log) (ho : o ≠ .sent)
    (hlast : o.again = true → port.tries.toNat ≤ (triesOf p log).length + 1) : UsedUp port p (log ++ [(p, o)]) := by
  refine ⟨triesOf p log, o, triesOf_snoc .., h.again, ho, h.left, fun hagain => ?_⟩
  have hle := hlast hagain
  have hlt := h.left
  omega

/-- A Location that failed fails over to the next here. -/
theorem failsOver (h : Standing port on loc p log) (hon : on.Pairwise (· < ·)) (hused : UsedUp port p (log ++ [(p, o)]))
    (hover : port.failover = true) (hq : on[loc + 1]? = some q) :
    Standing port on (loc + 1) q (log ++ [(p, o)]) ∧ triesOf q (log ++ [(p, o)]) = [] := by
  have hreached := (h.toReached.tried hon h.here o).next h.here hused hover
  have hnil : triesOf q (log ++ [(p, o)]) = [] :=
    (h.toReached.tried hon h.here o).untried hon (Nat.lt_succ_self loc) hq
  have hpos : 0 < port.tries.toNat := by
    have := h.left
    omega
  exact ⟨{ toReached := hreached, here := hq, again := by simp [hnil], left := by simpa [hnil] using hpos }, hnil⟩

theorem givesUp (h : Standing port on loc p log) (hon : on.Pairwise (· < ·)) (hused : UsedUp port p (log ++ [(p, o)]))
    (hlast : port.failover = true → on.length ≤ loc + 1) : GivenUp port on loc p (log ++ [(p, o)]) where
  toReached := h.toReached.tried hon h.here o
  here := h.here
  usedUp := hused
  last := hlast

end Standing

/-! ### One pass -/

/-- A Location is tried once at least. -/
theorem Port.tries_pos (port : Port) : 0 < port.tries.toNat := by
  unfold tries
  split
  · decide
  · rename_i attempts _
    split
    · rename_i hlt
      rw [UInt32.toNat_add, UInt32.toNat_one]
      unfold UInt32.size at hlt
      omega
    · rename_i hge
      unfold UInt32.size at hge
      omega

/-- What a pass makes of a send: sent, given up, or waiting with as many tries counted as were made at the active
Location. -/
inductive Ends (port : Port) (on : List Nat) (log : Log) : Progress → Prop where
  | sent {progress : Progress} (p : Nat) : progress.sent = true → Sent port on progress.location p log →
      Ends port on log progress
  | givenUp {progress : Progress} (p : Nat) : progress.sent = false → progress.givenUp.isSome = true →
      GivenUp port on progress.location p log → Ends port on log progress
  | waiting {progress : Progress} (p : Nat) : progress.sent = false → progress.givenUp = none →
      Standing port on progress.location p log → progress.tries.toNat = (triesOf p log).length →
      Ends port on log progress

/-- The counter does not overflow while tries are left. -/
theorem toNat_tries_succ {tries : UInt32} (h : tries.toNat < port.tries.toNat) : (tries + 1).toNat = tries.toNat + 1 := by
  have hlt := port.tries.toNat_lt
  rw [UInt32.toNat_add, UInt32.toNat_one]
  omega

@[simp] theorem triesIn_tried (place : Nat) (outcome : Outcome) (departed : List Departed) :
    triesIn (.tried place outcome :: departed) = (place, outcome) :: triesIn departed := rfl

@[simp] theorem triesIn_nil : triesIn [] = [] := rfl

theorem getElem?_of_drop_cons {remaining : List Nat} (h : on.drop loc = p :: remaining) :
    on[loc]? = some p ∧ on.drop (loc + 1) = remaining := by
  constructor
  · have he := congrArg List.head? h
    rwa [List.head?_drop] at he
  · have he := congrArg List.tail h
    rwa [List.tail_drop] at he

/-- One pass from where the send stands: its tries follow those written before it. -/
theorem ends_of_departPort (hon : on.Pairwise (· < ·)) (look : Nat → Option Outcome) (remaining : List Nat)
    (standing : Progress) (log : Log) (hdrop : on.drop standing.location = remaining) (hsent : standing.sent = false)
    (hgiven : standing.givenUp = none) (h : Standing port on standing.location p log)
    (htries : standing.tries.toNat = (triesOf p log).length) :
    Ends port on (log ++ triesIn (departPort port on.length look remaining standing).1)
      (departPort port on.length look remaining standing).2 := by
  induction remaining generalizing standing log p with
  | nil =>
    have hnone : on[standing.location]? = none := List.getElem?_eq_none (List.drop_eq_nil_iff.1 hdrop)
    rw [h.here] at hnone
    cases hnone
  | cons place remaining ih =>
    obtain ⟨hplace, hdrop'⟩ := getElem?_of_drop_cons hdrop
    obtain rfl : p = place := Option.some.inj (h.here.symm.trans hplace)
    have hsucc : (standing.tries + 1).toNat = (triesOf p log).length + 1 := by
      rw [toNat_tries_succ (htries ▸ h.left), htries]
    unfold departPort
    split
    · simpa using Ends.waiting p hsent hgiven h htries
    rename_i outcome _
    dsimp only
    split
    · refine .sent p rfl ?_
      simpa using h.sentThere hon
    rename_i ho
    split
    · rename_i hagain
      have hleft : (triesOf p log).length + 1 < port.tries.toNat := hsucc ▸ UInt32.lt_iff_toNat_lt.1 hagain.2
      refine .waiting p hsent hgiven ?_ ?_
      · simpa using h.triedAgain hon hagain.1 hleft
      · simpa using hsucc
    rename_i hlast
    have hused : UsedUp port p (log ++ [(p, outcome)]) := by
      refine h.usesUp ho fun hagain => ?_
      have hle : ¬ standing.tries + 1 < port.tries := fun hlt => hlast ⟨hagain, hlt⟩
      rw [UInt32.lt_iff_toNat_lt, hsucc] at hle
      omega
    split
    · rename_i hover
      obtain ⟨hstands, hnil⟩ := h.failsOver hon hused hover.1 (List.getElem?_eq_getElem hover.2)
      have hends := ih { standing with location := standing.location + 1, tries := 0 } (log ++ [(p, outcome)]) hdrop'
        hsent hgiven hstands (by simp [hnil])
      simpa [List.append_assoc] using hends
    · rename_i hover
      refine .givenUp p hsent rfl ?_
      have hgives := h.givesUp hon hused fun hf => by
        have hge : ¬ standing.location + 1 < on.length := fun hlt => hover ⟨hf, hlt⟩
        omega
      simpa using hgives

theorem Ends.reached {progress : Progress} (h : Ends port on log progress) : Reached port on progress.location log := by
  cases h with
  | sent _ _ h => exact h.toReached
  | givenUp _ _ _ h => exact h.toReached
  | waiting _ _ _ h _ => exact h.toReached

/-- A pass leaves no Location before one it tried that is not used up. -/
theorem Ends.earlier_of_tried {progress : Progress} (h : Ends port on log progress) (hon : on.Pairwise (· < ·)) {i j : Nat}
    (hq : on[j]? = some q) (ho : (q, o) ∈ log) (hij : i < j) (hp : on[i]? = some p) : UsedUp port p log := by
  obtain ⟨k, hk, hqk⟩ := h.reached.within _ ho
  have hjk : j ≤ k := by
    by_contra hlt
    exact absurd (lt_of_getElem? hon hqk hq (by omega)) (Nat.lt_irrefl _)
  exact h.reached.earlier i p (by omega) hp

/-- Where the send is given up and fails over, every Location here is used up. -/
theorem GivenUp.usedUp_of_failover (h : GivenUp port on loc q log) (hover : port.failover = true) {i : Nat}
    (hp : on[i]? = some p) : UsedUp port p log := by
  have hi : i ≤ loc := by
    have hlt := (List.getElem?_eq_some_iff.1 hp).1
    have hle := h.last hover
    omega
  rcases Nat.lt_or_eq_of_le hi with hlt | rfl
  · exact h.earlier i p hlt hp
  · exact Option.some.inj (h.here.symm.trans hp) ▸ h.usedUp

/-- No Location is tried more often than allowed, nor after a try that may not be tried again. -/
theorem Ends.tries_of {progress : Progress} (h : Ends port on log progress) (p : Nat) :
    (∀ o ∈ (triesOf p log).dropLast, o.again = true) ∧ (triesOf p log).length ≤ port.tries.toNat := by
  have hreached : ∀ loc q, on[loc]? = some q → Reached port on loc log →
      ((∀ o ∈ (triesOf q log).dropLast, o.again = true) ∧ (triesOf q log).length ≤ port.tries.toNat) →
      (∀ o ∈ (triesOf p log).dropLast, o.again = true) ∧ (triesOf p log).length ≤ port.tries.toNat := by
    intro loc q hq hreached hactive
    by_cases hnil : triesOf p log = []
    · simp [hnil]
    obtain ⟨o, ho⟩ := List.exists_mem_of_ne_nil _ hnil
    obtain ⟨i, hi, hp⟩ := hreached.within _ (mem_triesOf.1 ho)
    rcases Nat.lt_or_eq_of_le hi with hlt | rfl
    · exact (hreached.earlier i p hlt hp).tries_of
    · obtain rfl : q = p := Option.some.inj (hq.symm.trans hp)
      exact hactive
  cases h with
  | sent q _ h =>
    obtain ⟨before, he, hagain, hlt⟩ := h.sent
    refine hreached _ q h.here h.toReached ?_
    rw [he, List.dropLast_concat, List.length_append, List.length_singleton]
    exact ⟨hagain, hlt⟩
  | givenUp q _ _ h => exact hreached _ q h.here h.toReached h.usedUp.tries_of
  | waiting q _ _ h _ =>
    exact hreached _ q h.here h.toReached
      ⟨fun o ho => h.again o (List.dropLast_subset _ ho), Nat.le_of_lt h.left⟩

/-- What used up its tries is not tried again. -/
theorem Ends.not_usedUp {progress : Progress} (h : Ends port on log progress) {log₁ log₂ : Log}
    (he : log = log₁ ++ (p, o) :: log₂) : ¬ UsedUp port p log₁ := by
  rintro ⟨before, last, hbefore, -, -, -, hlast⟩
  obtain ⟨hagain, hle⟩ := h.tries_of p
  have htries : triesOf p log = before ++ last :: o :: triesOf p log₂ := by
    rw [he, triesOf_append, hbefore]
    simp [triesOf]
  rw [htries] at hagain hle
  have hcount := hlast (hagain last (by simp [List.dropLast_append_of_ne_nil]))
  simp only [List.length_append, List.length_cons] at hle
  omega

/-- A pass tries Locations from the active one on only, and leaves none before it active. -/
theorem places_of_departPort (length : Nat) (look : Nat → Option Outcome) (remaining : List Nat) (standing : Progress) :
    (∀ e ∈ triesIn (departPort port length look remaining standing).1, e.1 ∈ remaining) ∧
      standing.location ≤ (departPort port length look remaining standing).2.location := by
  induction remaining generalizing standing with
  | nil =>
    unfold departPort
    split
    · simp
    · simp [triesIn]
  | cons place remaining ih =>
    unfold departPort
    split
    · simp
    rename_i outcome _
    dsimp only
    split
    · simp
    split
    · simp
    split
    · obtain ⟨hplaces, hle⟩ := ih { standing with location := standing.location + 1, tries := 0 }
      constructor
      · intro e he
        rcases List.mem_cons.1 he with rfl | he
        · exact List.mem_cons_self ..
        · exact List.mem_cons_of_mem _ (hplaces e he)
      · exact Nat.le_of_succ_le hle
    · simp

end Departing
