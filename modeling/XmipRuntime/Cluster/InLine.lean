import XmipRuntime.Cluster.Path

/-!
# One at a time in each sequence

A Journey goes on only while every place its record names heads its queue, and a place seen at the head is remembered
and never asked for again.  Both are right only as long as the records and the queues are kept in step
(`XmipRuntime.Cluster.Ordered`).  Two steps break that: an operator's Retry of a Message whose failure let go of a place
its record still names, and a question asked for a Journey that has ended since its record was read — by a pass whose
claim lapsed, or by a settlement after it gave its claim back.  `Steady` is the condition that neither happens; in every
run whose steps meet it no two holders are let through one queue at once (`oneAtATime_of_steady`), and what the memory
answers is what the Ledger would (`remembered_heads_of_steady`).
-/

namespace Cluster

open Library Ledger

/-! ### The condition -/

/-- The question a thread is about to ask. -/
def Stage.asks : Stage → Option Place
  | .heading _ (place :: _) | .asking _ (place :: _) | .settling (place :: _) => some place
  | _ => none

/-- No place is asked for on behalf of a Journey that has ended or, failed, let the rest pass; and a Retry is only of a
Message whose places are all in their queues still. -/
def Steady (s : Sys) : Action → Prop
  | .run p (.go _) => ∀ t ∈ s.threads.get p, t.toRemember = none → t.stage.asks ≠ none →
      (s.storage.journeys.get t.journey).any keeps = true
  | .run p (.acts _ _) => ∀ t ∈ s.threads.get p, ∀ base ∈ t.retries, Whole s.storage t.journey base
  | _ => True

instance (s : Sys) (a : Action) : Decidable (Steady s a) :=
  match a with
  | .run p (.go _) => inferInstanceAs (Decidable (∀ t ∈ s.threads.get p, t.toRemember = none → t.stage.asks ≠ none →
      (s.storage.journeys.get t.journey).any keeps = true))
  | .run p (.acts _ _) =>
    inferInstanceAs (Decidable (∀ t ∈ s.threads.get p, ∀ base ∈ t.retries, Whole s.storage t.journey base))
  | .run _ (.sendHere _ _) | .run _ (.sent _ _ _) | .run _ (.turned _ _ _) | .run _ (.turnFailed _) | .run _ (.quit _)
  | .call .. | .lapse _ | .publish .. | .replay _ => .isTrue trivial

/-! ### The invariant -/

/-- What every step that meets `Steady` keeps: the records and the queues in step, and the place of every Journey let
through in its queue. -/
structure InLine (s : Sys) : Prop where
  path : InPath False s
  ordered : Ordered s.storage
  inside : ∀ x ∈ s.inside, x.1 ∈ s.headed ∧ s.storage.Holds x.1 ∧
    ∃ r, s.storage.journeys.get x.2 = some r ∧ x.1 ∈ r.places x.2

theorem inLine_of_opening {s : Sys} (h : Opening s) : InLine s := by
  have hget : ∀ id, s.storage.journeys.get id = none := fun id => by unfold Table.get; rw [h.journeys]; rfl
  refine ⟨inPath_of_opening h, ⟨?_, ?_, ?_, ?_⟩, ?_⟩
  · intro id r hr; rw [hget] at hr; cases hr
  · intro j r k r' hr; rw [hget] at hr; cases hr
  · rintro place ⟨n, hn⟩; rw [h.places] at hn; cases hn
  · intro j k r r' a b hr; rw [hget] at hr; cases hr
  · rw [h.inside]; simp

/-! ### A question -/

/-- A place asked for on behalf of a Journey that keeps its places heads its queue where the answer is yes. -/
theorem InLine.first_of_heads {s : Sys} (h : InLine s) {n : Nat} {id : Nat} {r : Journey}
    (hr : s.storage.journeys.get id = some r) (hk : keeps r = true) {place : Place} (hp : place ∈ r.places id)
    (hyes : heads s.storage (s.memory n) place = true) :
    s.storage.Holds place ∧ s.storage.first place.1 = some place.2 := by
  have hheld := h.ordered.held hr hk place hp
  exact ⟨hheld, h.path.first_of_heads hyes hheld⟩

/-! ### What the condition says of a step -/

/-- A thread that is not told to go on asks no question where it stands. -/
private theorem not_asked_of_goOn {c : Config} {s : Storage} {known : List Place} {t : Thread} {choice : Choice}
    (hc : choice.answer = none) {out : Out} (h : t.goOn c s known choice = some out) (place : Place) :
    out.effect ≠ .asked place := by
  unfold Thread.goOn at h
  split at h
  all_goals try (rw [hc] at h; cases h)
  · unfold Thread.fromTaken at h
    split at h
    · cases hc
    · cases hc
    · cases h
      unfold Thread.move
      simp only
      split <;> simp [Thread.finish]
    · cases h; simp
    · cases h
  · unfold Thread.fromAsking at h
    split at h
    · cases hc
    · cases hc
    · cases h; simp [Thread.finish]
    · cases h
  · unfold Thread.fromInside at h
    split at h
    · split at h
      · cases h; simp [Thread.finish]
      · cases h
    · split at h
      · cases h; simp [Thread.finish]
      · cases h
    · cases h; simp [Thread.finish]
    · cases h

/-- A question is asked only as a thread goes on. -/
private theorem go_of_asked {c : Config} {s : Storage} {known : List Place} {t : Thread} {choice : Choice} {out : Out}
    (h : t.next c s known choice = some out) {place : Place} (he : out.effect = .asked place) :
    ∃ answered, choice = .go answered := by
  unfold Thread.next at h
  split at h
  · cases h
    simp only at he
    split at he <;> cases he
  · exact ⟨_, rfl⟩
  · cases h
  · rename_i choice' _ _ _ _
    cases hc : choice'.answer with
    | none => exact absurd he (not_asked_of_goOn hc h place)
    | some answered =>
      cases choice' with
      | go answered => exact ⟨answered, rfl⟩
      | sendHere | sent | turned | turnFailed | acts | quit => cases hc

theorem Steady.keeps {s : Sys} {p : Nat} {choice : Choice} (h : Steady s (.run p choice)) {t : Thread}
    (hp : s.threads.get p = some t) {out : Out}
    (hout : t.next s.config s.storage (s.memory t.node) choice = some out) {place : Place}
    (he : out.effect = .asked place) (hr : t.toRemember = none) (ha : t.stage.asks ≠ none) :
    ∃ r, s.storage.journeys.get t.journey = some r ∧ keeps r = true := by
  obtain ⟨answered, rfl⟩ := go_of_asked hout he
  have := h t (by rw [hp]; rfl) hr ha
  exact (Option.any_eq_true _ _).1 this

theorem Steady.whole {s : Sys} {p : Nat} {choice : Choice} (h : Steady s (.run p choice)) {t : Thread}
    (hp : s.threads.get p = some t) {out : Out}
    (hout : t.next s.config s.storage (s.memory t.node) choice = some out) {base : Journey} {hand : HandOn}
    (he : out.effect = .handOn base hand) : ∀ r ∈ t.retries, Whole s.storage t.journey r := by
  intro r hr
  obtain ⟨entry, answered, rfl⟩ := acts_of_retries hout hr he
  exact h t (by rw [hp]; rfl) r hr

/-- Where it stands then. -/
private theorem Thread.Step.stands {c : Config} {s : Storage} {known : List Place} {t : Thread} {out : Out}
    (h : t.Step c s known out) {place : Place} (he : out.effect = .asked place) :
    t.toRemember = none ∧ t.stage.asks ≠ none := by
  cases h with
  | ends heff => rcases heff with heff | heff | ⟨heff, -⟩ <;> rw [heff] at he <;> cases he
  | remembers | moves | claims | settles | writes => cases he
  | asks hr hasks =>
    refine ⟨hr, ?_⟩
    generalize t.stage = stage at hasks
    cases hasks <;> simp [Stage.asks]

/-- The claims are nothing the queues depend on. -/
private theorem Ordered.congr {s s' : Storage} (h : Ordered s) (hj : s'.journeys = s.journeys)
    (hp : s'.places = s.places) : Ordered s' := by
  have hh : ∀ place, s'.Holds place ↔ s.Holds place := fun place => by unfold Storage.Holds; rw [hp]
  refine ⟨?_, ?_, ?_, ?_⟩
  · intro id r hr hk place hpl
    exact (hh place).2 (h.own id r (hj ▸ hr) hk place hpl)
  · intro j r k r' hr hr' place hpl hopen
    exact (hh place).2 (h.shared j r k r' (hj ▸ hr) (hj ▸ hr') place hpl hopen)
  · intro place hpl hs k r hr place' hp' hm
    exact (hh place').2 (h.whole place ((hh place).1 hpl) hs k r (hj ▸ hr) place' hp' hm)
  · intro j k r r' a b hr hr'
    exact h.streams j k r r' a b (hj ▸ hr) (hj ▸ hr')

section

variable {s : Sys} {p : Nat} {t : Thread} {out : Out}

private theorem stepped_inside {x : Place × Nat} (hx : x ∈ (s.stepped p t out).inside) :
    out.effect = .asked x.1 ∧ x.2 = t.journey ∨ x ∈ s.inside ∧ ∀ base h, out.effect = .handOn base h →
      s.storage.Claimed h.journey h.token → h.letsGo (h.journeys s.storage.journeys) x.1 = false := by
  unfold Sys.stepped Sys.effect at hx
  cases he : out.effect with
  | handOn base h =>
    rw [he] at hx
    simp only at hx
    split at hx
    · obtain ⟨hx, hg⟩ := List.mem_filter.1 hx
      refine .inr ⟨hx, ?_⟩
      rintro _ _ ⟨⟩ -
      simpa using hg
    · rename_i hc
      exact .inr ⟨hx, by rintro _ _ ⟨⟩ hc'; exact absurd hc' hc⟩
  | none | claim | release | remember => rw [he] at hx; exact .inr ⟨hx, by rintro _ _ ⟨⟩⟩
  | asked place =>
    rw [he] at hx
    rcases List.mem_cons.1 hx with rfl | hx
    · exact .inl ⟨rfl, rfl⟩
    · exact .inr ⟨hx, by rintro _ _ ⟨⟩⟩

theorem InLine.stepped (h : InLine s) (hp : s.threads.get p = some t)
    (hstep : t.Step s.config s.storage (s.memory t.node) out)
    (hkeeps : ∀ place, out.effect = .asked place → ∃ r, s.storage.journeys.get t.journey = some r ∧ keeps r = true)
    (hwhole : ∀ base hand, out.effect = .handOn base hand → ∀ r ∈ t.retries, Whole s.storage t.journey r)
    (hpath : InPath False (s.stepped p t out)) : InLine (s.stepped p t out) := by
  have ht := h.path.sound.threads p t hp
  obtain ⟨hmono, hasked, -⟩ := stepped_headed s p t out
  refine ⟨hpath, ?_, ?_⟩
  · rw [stepped_storage]
    rcases effect_cases s.storage out.effect with ⟨hj, hplaces⟩ | ⟨base, hand, he, hc, hst⟩
    · exact h.ordered.congr hj hplaces
    · have hm := hstep.makes he
      obtain ⟨newly, hch⟩ := hm.change ht (hwhole base hand he)
      rw [hm.journey, hm.token] at hc
      rw [hst]
      exact h.ordered.written hch (ht.makes hm hc)
  · intro x hx
    rw [stepped_storage]
    rcases stepped_inside hx with ⟨he, hj⟩ | ⟨hold, hgo⟩
    · -- a place just asked for is the Journey's own
      obtain ⟨r, hr, hk⟩ := hkeeps x.1 he
      obtain ⟨r', hr', hmem⟩ := (h.path.threads p t hp).1.todo x.1 (hstep.asked he).1
      rw [hr] at hr'
      cases hr'
      have hst : out.effect.storage s.storage = s.storage := by rw [he]; rfl
      rw [hst, hj]
      exact ⟨hasked _ he, h.ordered.held hr hk x.1 hmem, r, hr, hmem⟩
    · obtain ⟨hh, hheld, r, hr, hmem⟩ := h.inside x hold
      obtain ⟨r', hr', hsub⟩ := names_of_step hstep ht hr
      refine ⟨hmono _ hh, ?_, r', hr', hsub _ hmem⟩
      rcases effect_cases s.storage out.effect with ⟨-, hplaces⟩ | ⟨base, hand, he, hc, hst⟩
      · unfold Storage.Holds at *
        rw [hplaces]
        exact hheld
      · rw [hst]
        exact written_holds.2 ⟨.inl hheld, hgo base hand he hc⟩

end

/-- A step that is no thread's leaves the places of those let through. -/
private theorem InLine.of_storage {s : Sys} (h : InLine s) {storage : Storage} (hpath : InPath False { s with storage })
    (hordered : Ordered storage)
    (hjourneys : ∀ id r, s.storage.journeys.get id = some r → storage.journeys.get id = some r)
    (hkept : ∀ place, s.storage.Holds place → storage.Holds place) : InLine { s with storage } where
  path := hpath
  ordered := hordered
  inside := by
    intro x hx
    obtain ⟨hh, hheld, r, hr, hmem⟩ := h.inside x hx
    exact ⟨hh, hkept _ hheld, r, hjourneys _ r hr, hmem⟩

/-- Journeys opened with the places they take. -/
private theorem InLine.publish {s : Sys} (h : InLine s) {received : Option Received}
    {newly : List ((Nat × Journey) × List Place)} {queued : List Place} (hb : Birth s.storage received newly queued)
    (hpath : InPath False { s with storage := s.storage.publish (newly.map Prod.fst) queued }) :
    InLine { s with storage := s.storage.publish (newly.map Prod.fst) queued } := by
  refine h.of_storage hpath (h.ordered.publish hb) ?_ fun place hheld => publish_holds.2 (.inl hheld)
  intro id r hr
  refine get_publish ?_ hr
  intro x hx
  obtain ⟨y, hy, rfl⟩ := List.mem_map.1 hx
  exact (hb.newborn y hy).fresh

theorem InLine.step {s s' : Sys} {a : Action} (h : InLine s) (hok : Steady s a) (hs : s.step a = some s') : InLine s' := by
  have hpath := h.path.step (fun hf => hf.elim) hs
  cases Sys.steps_of_step hs with
  | call hp => exact ⟨hpath, h.ordered, h.inside⟩
  | run hp hf hout =>
    have hstep := Thread.step_of_next (h.path.sound.threads _ _ hp).placed hf hout
    refine h.stepped hp hstep ?_ (fun base hand he => hok.whole hp hout he) hpath
    intro place he
    obtain ⟨hr, ha⟩ := hstep.stands he
    exact hok.keeps hp hout he hr ha
  | lapse => exact h.of_storage hpath (h.ordered.congr rfl rfl) (fun _ _ hr => hr) fun _ hh => hh
  | publish hf ho =>
    rename_i received routed
    obtain ⟨heq, hst⟩ := s.publish_storage received routed
    rw [heq] at hpath ⊢
    rcases hst with hst | hst
    · rw [hst]; exact h
    · rw [hst] at hpath ⊢
      exact h.publish (birth_published hf ho) hpath
  | replay hf _ =>
    rename_i routed _
    have heq : (((opened none routed).map fun x => (x, ([] : List Place))).map Prod.fst) = opened none routed := by
      simp [Function.comp_def]
    have := h.publish (birth_replayed hf)
    rw [heq] at this
    exact this hpath

theorem inLine_of_reach {s : Sys} (h : Reach Sys.step Steady Opening s) : InLine s :=
  h.invariant (fun _ => inLine_of_opening) fun _ _ _ hi hok hs => hi.step hok hs

/-- A question a run that meets `Steady` answers with yes is one of a place at the head of its queue. -/
private theorem InLine.first_of_asks {s : Sys} (h : InLine s) {p : Nat} {answered : Bool}
    (hok : Steady s (.run p (.go answered))) {t : Thread} (hp : s.threads.get p = some t) (hr : t.toRemember = none)
    {place : Place} (ha : t.stage.asks = some place) (hyes : heads s.storage (s.memory t.node) place = true) :
    s.storage.Holds place ∧ s.storage.first place.1 = some place.2 := by
  obtain ⟨r, hget, hk⟩ := (Option.any_eq_true _ _).1 (hok t (by rw [hp]; rfl) hr (by rw [ha]; simp))
  have htodo : place ∈ t.stage.todo := by
    generalize t.stage = stage at ha
    unfold Stage.asks at ha
    split at ha
    all_goals cases ha
    all_goals exact List.mem_cons_self ..
  obtain ⟨r', hget', hmem⟩ := (h.path.threads p t hp).1.todo place htodo
  rw [hget] at hget'
  cases hget'
  exact h.first_of_heads hget hk hmem hyes

/-- In every run whose steps meet `Steady`, of all that share one queue one holder at most is let through and has not
let go of its place — one Journey, where the queue is a point's — and it is the first in its queue; and whoever a
question lets through has its place in that queue then. -/
theorem oneAtATime_of_steady {s : Sys} (h : Reach Sys.step Steady Opening s) :
    (∀ x ∈ s.inside, ∀ y ∈ s.inside, x.1.1 = y.1.1 → x.1 = y.1 ∧ ∀ key, x.1.1 = .point key → x.2 = y.2) ∧
    (∀ x ∈ s.inside, s.storage.Holds x.1 ∧ s.storage.first x.1.1 = some x.1.2) ∧
    ∀ p answered t place, Steady s (.run p (.go answered)) → s.threads.get p = some t → t.toRemember = none →
      t.stage.asks = some place → heads s.storage (s.memory t.node) place = true → s.storage.Holds place := by
  have hi := inLine_of_reach h
  have hfirst : ∀ x ∈ s.inside, s.storage.Holds x.1 ∧ s.storage.first x.1.1 = some x.1.2 := by
    intro x hx
    obtain ⟨hh, hheld, -⟩ := hi.inside x hx
    exact ⟨hheld, hi.path.lined.first x.1 hh hheld⟩
  refine ⟨?_, hfirst, fun p answered t place hok hp hr ha hyes => (hi.first_of_asks hok hp hr ha hyes).1⟩
  intro x hx y hy hq
  have hm : x.1.2 = y.1.2 := by
    have := (hfirst x hx).2
    rw [hq, (hfirst y hy).2] at this
    simpa using this.symm
  refine ⟨Prod.ext hq hm, ?_⟩
  intro key hkey
  -- a place in a point's queue is its Journey's own
  have hown : ∀ z ∈ s.inside, z.1.1 = .point key → z.1.2 = .journey z.2 := by
    intro z hz hzk
    obtain ⟨-, -, r, -, hmem⟩ := hi.inside z hz
    exact member_of_point hmem hzk
  have := hown x hx hkey
  rw [hm, hown y hy (hq ▸ hkey)] at this
  simpa using this.symm

/-- In every run whose steps meet `Steady`, what a node's memory answers is what the queue in the Ledger would: a place
asked for that it remembers is the first of its queue. -/
theorem remembered_heads_of_steady {s : Sys} (h : Reach Sys.step Steady Opening s) {p : Nat} {answered : Bool}
    (hok : Steady s (.run p (.go answered))) {t : Thread} (hp : s.threads.get p = some t) (hr : t.toRemember = none)
    {place : Place} (ha : t.stage.asks = some place) (hm : place ∈ s.memory t.node) :
    s.storage.first place.1 = some place.2 :=
  ((inLine_of_reach h).first_of_asks hok hp hr ha (by unfold heads; rw [if_pos hm])).2

/-! ### A Retry of a Message whose failure let the rest pass -/

/-- A cluster with nothing in it, every Message bound for one Send Port's sequence, which a failure does not hold up. -/
def Sys.skipping : Sys := { Sys.unsequenced with config := ⟨fun _ => [⟨7, true⟩], fun _ => 0⟩ }

private theorem opening_skipping : Opening Sys.skipping := ⟨rfl, rfl, rfl, fun _ => rfl, rfl, rfl, rfl, rfl, rfl⟩

/-- A pass of the Journey `journey` by the thread `p`, up to the question it asks. -/
def Action.passing (p journey : Nat) : List Action :=
  [.call p 0 .send journey, .run p (.go true), .run p (.go true), .run p (.go true), .run p (.go true)]

/-- Two Messages are published; the first is let through and fails, which lets go of its place; an operator retries it,
and the second is let through before the first is passed again. -/
def Sys.revived : List Action :=
  [.publish ⟨1, [], false⟩ [⟨none, [(11, some "Out")]⟩], .publish ⟨2, [], false⟩ [⟨none, [(12, some "Out")]⟩]] ++
  Action.passing 1 11 ++ [.run 1 (.go true), .run 1 (.go true), .run 1 (.go true),
    .run 1 (.sent .failed 1 ⟨1, "send", "refused"⟩)] ++
  [.call 2 0 (.act .retry) 11, .run 2 (.go true), .run 2 (.go true), .run 2 (.go true),
    .run 2 (.acts ⟨2, "retry", "retried"⟩ true)] ++
  Action.passing 3 12 ++ [.run 3 (.go true), .run 3 (.go true)] ++ Action.passing 4 11

/-- Both are let through one queue at once, and the one retried has no place in it. -/
theorem revived_beside_the_first : ∃ s, Reach Sys.step Always Opening s ∧ ∃ x ∈ s.inside, ∃ y ∈ s.inside,
    x.1.1 = y.1.1 ∧ x.2 ≠ y.2 ∧ ¬ s.storage.Holds x.1 := by
  obtain ⟨s, hs, hp⟩ := Reach.exists_of_runWhere Sys.step Always opening_skipping
    (List.flatten [Sys.revived, [.run 4 (.go true)]])
    (fun s => decide (∃ x ∈ s.inside, ∃ y ∈ s.inside, x.1.1 = y.1.1 ∧ x.2 ≠ y.2 ∧ ¬ s.storage.Holds x.1))
    (by decide +kernel)
  exact ⟨s, hs, of_decide_eq_true hp⟩

/-- The memory answers that the one retried heads its queue, where another is first in it. -/
theorem revived_remembered : ∃ s, Reach Sys.step Always Opening s ∧ ∃ t ∈ s.threads.get 4, t.toRemember = none ∧
    ∃ place ∈ t.stage.asks, place ∈ s.memory t.node ∧ s.storage.first place.1 ≠ some place.2 := by
  obtain ⟨s, hs, hp⟩ := Reach.exists_of_runWhere Sys.step Always opening_skipping Sys.revived
    (fun s => decide (∃ t ∈ s.threads.get 4, t.toRemember = none ∧ ∃ place ∈ t.stage.asks,
      place ∈ s.memory t.node ∧ s.storage.first place.1 ≠ some place.2)) (by decide +kernel)
  exact ⟨s, hs, of_decide_eq_true hp⟩

/-- Where the first is sent, the second is let through alone. -/
theorem oneAtATime_sentInTurn : ∃ s, Reach Sys.step Steady Opening s ∧ s.inside = [((.point 7, .journey 12), 12)] ∧
    s.storage.first (.point 7) = some (.journey 12) := by
  obtain ⟨s, hs, hp⟩ := Reach.exists_of_runWhere Sys.step Steady opening_skipping
    (List.flatten [
      [.publish ⟨1, [], false⟩ [⟨none, [(11, some "Out")]⟩], .publish ⟨2, [], false⟩ [⟨none, [(12, some "Out")]⟩]],
      Action.passing 1 11,
      [.run 1 (.go true), .run 1 (.go true), .run 1 (.go true), .run 1 (.sent .completed 1 ⟨1, "send", "sent"⟩)],
      Action.passing 2 12, [.run 2 (.go true)]])
    (fun s => decide (s.inside = [((.point 7, .journey 12), 12)])) (by decide +kernel)
  have hin := of_decide_eq_true hp
  exact ⟨s, hs, hin, ((oneAtATime_of_steady hs).2.1 _ (by rw [hin]; exact List.mem_cons_self ..)).2⟩

/-- One that is to be tried again is asked for from the memory, and is the first of its queue. -/
theorem remembered_triedAgain : ∃ s, Reach Sys.step Steady Opening s ∧ ∃ t place, s.threads.get 2 = some t ∧
    place ∈ s.memory t.node ∧ s.storage.first place.1 = some place.2 := by
  obtain ⟨s, hs, hp⟩ := Reach.exists_of_runWhere Sys.step Steady opening_skipping
    (List.flatten [[.publish ⟨1, [], false⟩ [⟨none, [(11, some "Out")]⟩]], Action.passing 1 11,
      [.run 1 (.go true), .run 1 (.go true), .run 1 (.go true), .run 1 (.sent .recovering 1 ⟨1, "send", "refused"⟩)],
      Action.passing 2 11])
    (fun s => decide (Steady s (.run 2 (.go true)) ∧ ∃ t ∈ s.threads.get 2, t.toRemember = none ∧
      ∃ place ∈ t.stage.asks, place ∈ s.memory t.node)) (by decide +kernel)
  obtain ⟨hok, t, ht, hr, place, ha, hm⟩ := of_decide_eq_true hp
  exact ⟨s, hs, t, place, ht, hm, remembered_heads_of_steady hs hok ht hr ha hm⟩

end Cluster
