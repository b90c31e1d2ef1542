import XmipRuntime.SendStep.Admission

/-!
# Queues that wait for room

A queue the pool had no room for is marked starved, and asked for again the moment a place frees (`freed`): so wherever
a queue is marked, the pool has to be full.  The check that finds it full and the mark are two holds of the lock
(`src/send_step/scan.rs`, `src/send_step/dispatch.rs`), and a place that frees between them moves nothing.

`noRoom_of_heeded`: a marked queue means a full pool exactly as long as a queue is marked only while the pool is still
full, and no Message is entered as owned that is owned already — which uses up no place, and frees one unsaid.
-/

namespace SendStep

open Library

variable (c : Settings)

namespace Sys

/-- The pool has no room wherever a queue is marked starved. -/
def NoRoomWhereStarved (s : Sys) : Prop :=
  ∀ queue ∈ s.step.starved, max c.most 1 ≤ s.step.owned.size + s.step.admitted

/-- `departure` becomes owned under its own place: it is not owned yet, or nothing waits for the place. -/
def OwnsNew (s : Sys) (departure : Departure) : Prop :=
  s.step.starved = [] ∨ s.step.owned.get departure.id = none

/-- A queue is marked only while the pool is full; and while one is marked, nothing is entered as owned that is owned
already or that its Publication did not write. -/
def Heeds (s : Sys) : Action → Prop
  | .starve => max c.most 1 ≤ s.step.owned.size + s.step.admitted
  | .take departure | .taken _ departure => s.OwnsNew departure
  | .hand i => ∀ x ∈ pick s.pickingUp i, ∀ departure, x.1 = .moved departure true → s.OwnsNew departure
  | .routed i journeys _ =>
    s.step.starved = [] ∨ ∀ x ∈ pick s.publishing i, x.1.lined.AllNew journeys s.step.owned
  | _ => True

variable {c} {s s' : Sys}

/-! ### What one step leaves of it -/

/-- Nothing is marked after it, or the same queues are and no room was made. -/
private theorem noRoom_of_kept (h : s.NoRoomWhereStarved c)
    (hk : s'.step.starved = [] ∨ s'.step.starved = s.step.starved ∧
      s.step.owned.size + s.step.admitted ≤ s'.step.owned.size + s'.step.admitted) : s'.NoRoomWhereStarved c := by
  intro queue hq
  rcases hk with hk | ⟨hk, hload⟩
  · rw [hk] at hq
    cases hq
  · rw [hk] at hq
    exact Nat.le_trans (h queue hq) hload

private theorem withdraw_starved (s : State) (places : Nat) :
    (s.withdraw places).starved = [] ∨ (s.withdraw places).starved = s.starved ∧ places = 0 := by
  unfold State.withdraw
  split
  · rename_i h
    exact .inr ⟨rfl, h⟩
  · exact .inl rfl

private theorem untake_starved (s : State) (id : Nat) : (s.untake id).starved = [] := by
  unfold State.untake
  split <;> rfl

private theorem settle_starved (s : State) (d : Departure) (now : Nat) (ended : Ended) :
    (s.settle d now ended).starved = [] := by
  unfold State.settle
  split <;> rfl

/-- Places given back leave nothing marked, or none were. -/
private theorem withdraw_kept (s : State) (places : Nat) :
    (s.withdraw places).starved = [] ∨ (s.withdraw places).starved = s.starved ∧
      s.owned.size + s.admitted ≤ (s.withdraw places).owned.size + (s.withdraw places).admitted := by
  rcases withdraw_starved s places with h | ⟨h, hz⟩
  · exact .inl h
  · refine .inr ⟨h, ?_⟩
    rw [State.withdraw_owned, State.withdraw_admitted, hz]
    omega

/-- Owned under its own place, a Message makes no room; owned already, it makes some. -/
private theorem own_noRoom_iff {departure : Departure} {step : State} (hs : s.Within c) (hplace : 0 < s.step.admitted)
    (hlaw : s.NoRoomWhereStarved c) (hstep : step = s.step.own departure.id (.of departure)) :
    (∀ queue ∈ step.starved, max c.most 1 ≤ step.owned.size + step.admitted) ↔ s.OwnsNew departure := by
  subst hstep
  show (∀ queue ∈ s.step.starved, max c.most 1 ≤ (s.step.owned.put departure.id _).size + (s.step.admitted - 1)) ↔ _
  have hbound := hs.bounded
  constructor
  · intro h
    by_cases hnil : s.step.starved = []
    · exact .inl hnil
    · right
      obtain ⟨queue, hq⟩ := List.exists_mem_of_ne_nil _ hnil
      have hfull := h queue hq
      cases hget : s.step.owned.get departure.id with
      | none => rfl
      | some o =>
        have := Table.size_put_of_some (a := Owned.of departure) hget
        omega
  · rintro (hnil | hnone) queue hq
    · rw [hnil] at hq
      cases hq
    · have := hlaw queue hq
      have := Table.size_put_of_none (a := Owned.of departure) hnone
      omega

/-- A Publication routed owns under its own places; owned already, or not its own, what it owns makes some room. -/
private theorem handing_noRoom_iff {i now : Nat} {p : Publishing} {rest : List Publishing}
    {journeys : List (Nat × Ledger.Journey)} (hs : s.Within c) (hlaw : s.NoRoomWhereStarved c)
    (hp : pick s.publishing i = some (p, rest)) :
    ({ s with step := s.step.handing c p.lined journeys now, publishing := rest } : Sys).NoRoomWhereStarved c ↔
      s.Heeds c (.routed i journeys now) := by
  have hlined := hs.lined p (mem_of_pick hp)
  have hsum := total_of_pick (fun p : Publishing => p.lined.admitted) hp
  have hle : p.lined.admitted ≤ s.step.admitted := by
    have hplaces := hs.places
    unfold places at hplaces
    omega
  have hsize := State.handing_owned_size (c := c) (s := s.step) p.lined journeys now
  have hiff := State.handing_owned_size_iff (c := c) (s := s.step) p.lined journeys now
  have hadm := State.handing_admitted (c := c) (s := s.step) p.lined journeys now
  have hbound := hs.bounded
  simp only [NoRoomWhereStarved, State.handing_starved, Heeds, hp, Option.mem_def, Option.some.injEq, forall_eq']
  constructor
  · intro hfull
    by_cases hnil : s.step.starved = []
    · exact .inl hnil
    · obtain ⟨queue, hq⟩ := List.exists_mem_of_ne_nil _ hnil
      have := hfull queue hq
      have := hlaw queue hq
      exact .inr (hiff.1 (by omega))
  · rintro (hnil | hnew) queue hq
    · rw [hnil] at hq
      cases hq
    · have := hiff.2 hnew
      have := hlaw queue hq
      omega

/-- A step keeps the law just where it heeds what it marks and enters. -/
theorem noRoom_iff {a : Action} (hs : s.Within c) (hlaw : s.NoRoomWhereStarved c) (h : s.next c a = some s') :
    s'.NoRoomWhereStarved c ↔ s.Heeds c a := by
  have hplaces := hs.places
  unfold places at hplaces
  have hadmits : s.step.owned.size + s.step.admitted ≤ s.step.owned.size + (s.step.admitFor c 1).2.admitted := by
    show _ ≤ s.step.owned.size + (s.step.admitted + _)
    omega
  cases taken_of_next h with
  | lineUp departing mint now =>
    refine ⟨fun _ => trivial, fun _ => noRoom_of_kept hlaw (.inr ⟨rfl, ?_⟩)⟩
    show _ ≤ s.step.owned.size + (s.step.admitted + _)
    omega
  | routed journeys now hp => exact handing_noRoom_iff hs hlaw hp
  | full | placed => exact ⟨fun _ => trivial, fun _ => noRoom_of_kept hlaw (.inr ⟨rfl, hadmits⟩)⟩
  | @starve queue hd =>
    -- The mark stands by itself: whether the pool is full was asked before.
    constructor
    · exact fun hfull => hfull queue (mem_listed.2 (.inr rfl))
    · exact fun hfull _ _ => hfull
  | take hd _ =>
    rw [hd] at hplaces
    exact own_noRoom_iff hs (by simp only [Dispatching.places] at hplaces; omega) hlaw rfl
  | taken hp _ =>
    have hlen := (pick_perm hp).length_eq
    rw [List.length_cons] at hlen
    exact own_noRoom_iff hs (by omega) hlaw rfl
  | pickUp => exact ⟨fun _ => trivial, fun _ => noRoom_of_kept hlaw (.inr ⟨rfl, hadmits⟩)⟩
  | @hand i departure rest hp =>
    have hsum := total_of_pick PickingUp.places hp
    have hplace : 0 < s.step.admitted := by
      simp only [PickingUp.places, Bool.toNat_true] at hsum
      omega
    rw [show s.Heeds c (.hand i) ↔ s.OwnsNew departure by simp [Heeds, hp]]
    exact own_noRoom_iff hs hplace hlaw rfl
  | refused | published | unroutable | notMoved =>
    exact ⟨fun _ => trivial, fun _ => noRoom_of_kept hlaw (withdraw_kept ..)⟩
  | untake | untaken => exact ⟨fun _ => trivial, fun _ => noRoom_of_kept hlaw (.inl (untake_starved ..))⟩
  | settle => exact ⟨fun _ => trivial, fun _ => noRoom_of_kept hlaw (.inl (settle_starved ..))⟩
  | passed | found | noRoom | markHere | markThere | pickUpElsewhere | moved | push | ask | next | rescan =>
    exact ⟨fun _ => trivial, fun _ => hlaw⟩

/-- In every run that marks a queue only while the pool is full, and enters nothing as owned twice, a marked queue
means a full pool; and the first step that does otherwise is the one that leaves a queue waiting with room to spare. -/
theorem noRoom_of_heeded (h : Reach (Sys.next c) (Heeds c) Starts s) :
    s.NoRoomWhereStarved c ∧ ∀ a s', s.next c a = some s' → (s'.NoRoomWhereStarved c ↔ s.Heeds c a) := by
  have hlaw : s.NoRoomWhereStarved c := by
    induction h with
    | start hs =>
      obtain ⟨served, rfl⟩ := hs
      intro queue hq
      cases hq
    | next hr hh hn ih => exact (noRoom_iff (within_of_reach hr) ih hn).2 hh
  exact ⟨hlaw, fun a s' hn => noRoom_iff (within_of_reach h) hlaw hn⟩

/-! ### Runs -/

instance (s : Sys) (departure : Departure) : Decidable (s.OwnsNew departure) :=
  inferInstanceAs (Decidable (_ ∨ _))

instance (s : Sys) (a : Action) : Decidable (s.Heeds c a) :=
  match a with
  | .starve => inferInstanceAs (Decidable (max c.most 1 ≤ _))
  | .take departure | .taken _ departure => inferInstanceAs (Decidable (s.OwnsNew departure))
  | .hand i =>
    match h : pick s.pickingUp i with
    | some (.moved departure true, _) => decidable_of_iff (s.OwnsNew departure) (by simp [Heeds, h])
    | some (.moved _ false, _) | some (.moving _ _, _) | some (.owned _, _) | none => .isTrue (by simp [Heeds, h])
  | .routed i journeys _ => inferInstanceAs
      (Decidable (s.step.starved = [] ∨ ∀ x ∈ pick s.publishing i, x.1.lined.AllNew journeys s.step.owned))
  | .lineUp .. | .refused .. | .published .. | .unroutable .. | .read .. | .noRoom .. | .admitOne | .mark .. | .untake
  | .untaken .. | .pickUp .. | .notMoved .. | .moved .. | .push .. | .ask .. | .next .. | .settle .. | .rescan =>
    .isTrue trivial

/-- A node with one place in its Send pool. -/
def onePlace : Settings := { twoPlaces with most := 1 }

/-- One Message is sent while its queue is read for another: the queue is marked, and asked for once the first has
gone. -/
theorem noRoom_markedInTime :
    ∃ s, Reach (Sys.next onePlace) (Heeds onePlace) Starts s ∧ s.NoRoomWhereStarved onePlace ∧ s.step.starved = [7] := by
  obtain ⟨s, hs, hp⟩ := Reach.exists_of_runWhere (Sys.next onePlace) (Heeds onePlace) (starts_starting [7])
    [.read ⟨1, 7⟩ 0, .admitOne, .mark false, .taken 0 (departing 1 11), .read ⟨2, 7⟩ 1, .admitOne, .starve]
    (fun s => decide (s.step.starved = [7])) (by decide +kernel)
  exact ⟨s, hs, (noRoom_of_heeded hs).1, by simpa using hp⟩

/-- A wake is lost: the queue is found not to fit, the one place there is frees, and only then the queue is marked.
Nothing is under way any more, the pool is empty, and the queue stays marked. -/
theorem starved_beside_a_free_place :
    ∃ s, Reach (Sys.next onePlace) Always Starts s ∧ s.Idle ∧ s.passes = [] ∧ s.step.asked = [] ∧
      s.step.rescan = false ∧ s.step.starved = [7] ∧ s.step.owned.size + s.step.admitted = 0 ∧
      ¬ s.NoRoomWhereStarved onePlace := by
  obtain ⟨s, hs, hp⟩ := Reach.exists_of_runWhere (Sys.next onePlace) Always (starts_starting [7])
    [.read ⟨1, 7⟩ 0, .admitOne, .mark false, .taken 0 (departing 1 11), .read ⟨2, 7⟩ 1, .admitOne,
      .settle 0 5 .completed, .starve]
    (fun s => s.publishing.isEmpty && decide (s.dispatching = .idle) && s.takers.isEmpty && s.pickingUp.isEmpty &&
      s.passes.isEmpty && s.step.asked.isEmpty && !s.step.rescan && decide (s.step.starved = [7]) &&
      decide (s.step.owned.size + s.step.admitted = 0)) (by decide +kernel)
  simp only [Bool.and_eq_true, List.isEmpty_iff, decide_eq_true_eq, Bool.not_eq_true'] at hp
  obtain ⟨⟨⟨⟨⟨⟨⟨⟨hpub, hdisp⟩, htake⟩, hpick⟩, hpass⟩, hasked⟩, hrescan⟩, hstarved⟩, hload⟩ := hp
  refine ⟨s, hs, ⟨hpub, hdisp, htake, hpick⟩, hpass, hasked, hrescan, hstarved, hload, ?_⟩
  intro hlaw
  have := hlaw 7 (by rw [hstarved]; simp)
  rw [hload] at this
  cases this

end Sys

end SendStep
