import XmipRuntime.Cluster.Births

/-!
# What every run keeps of the places

A thread asks only for places its record names, and it takes a place of its own only once it has seen its Stream and its
delivery at the head of their queues, or, a turn's Messages, its Stream.  With that every step is a run of turns, so
every run keeps the places in line (`InPath`); in runs that meet `Aligned` also the places of those whose deliveries come
before others'.
-/

namespace Cluster

open Library Ledger

/-! ### What a thread asks for -/

/-- The places a thread still has to ask for. -/
def Stage.todo : Stage → List Place
  | .heading _ todo | .asking _ todo | .settling todo => todo
  | _ => []

/-- What a thread carries and asks is named by its Journey's record still. -/
structure Thread.Asking (s : Storage) (headed : List Place) (t : Thread) : Prop where
  remembers : ∀ place, t.toRemember = some place → place ∈ headed
  base : ∀ base, t.stage.base = some base → ∃ r, s.journeys.get t.journey = some r ∧
    ∀ place ∈ base.places t.journey, place ∈ r.places t.journey
  todo : ∀ place ∈ t.stage.todo, ∃ r, s.journeys.get t.journey = some r ∧ place ∈ r.places t.journey

private theorem mem_remember {known : List Place} {place x : Place} (h : x ∈ remember known place) :
    x ∈ known ∨ x = place := by
  unfold remember at h
  simp only at h
  split at h <;> split at h
  · cases h
  · simp only [List.mem_singleton] at h; exact .inr h
  · exact .inl h
  · rcases List.mem_cons.1 h with h | h
    · exact .inr h
    · exact .inl h

/-! ### A record only ever names more -/

/-- What a step of a thread leaves of a record: it, or one that names every place it named. -/
theorem names_of_step {c : Config} {s : Storage} {known : List Place} {t : Thread} {out : Out}
    (hstep : t.Step c s known out) (ht : t.Sound c s) {id : Nat} {r : Journey} (hr : s.journeys.get id = some r) :
    ∃ r', (out.effect.storage s).journeys.get id = some r' ∧ ∀ place ∈ r.places id, place ∈ r'.places id := by
  rcases hstep.history ht hr with hsame | ⟨rfl, hand, hm, -, hnew⟩
  · exact ⟨r, hsame, fun _ hp => hp⟩
  · refine ⟨hand.result, hnew, ?_⟩
    cases hm with
    | sent | turned | turnFailed | moved => exact fun _ hp => hp
    | acted => rename_i act _ _ _; cases act <;> exact fun _ hp => hp
    | late hs hw =>
      have hlive : r.live = true := by
        refine ht.live ?_ r (by rw [hs]; rfl)
        have hp := ht.placed
        simpa only [Thread.Placed, hs] using hp
      exact (change_of_late (s := s) hlive hw).grows

theorem Thread.Asking.mono {s s' : Storage} {headed headed' : List Place} {t : Thread} (h : t.Asking s headed)
    (hheaded : ∀ place ∈ headed, place ∈ headed')
    (hnames : ∀ r, s.journeys.get t.journey = some r → ∃ r', s'.journeys.get t.journey = some r' ∧
      ∀ place ∈ r.places t.journey, place ∈ r'.places t.journey) : t.Asking s' headed' where
  remembers := fun place hp => hheaded place (h.remembers place hp)
  base := by
    intro base hb
    obtain ⟨r, hr, hsub⟩ := h.base base hb
    obtain ⟨r', hr', hsub'⟩ := hnames r hr
    exact ⟨r', hr', fun place hp => hsub' place (hsub place hp)⟩
  todo := by
    intro place hp
    obtain ⟨r, hr, hmem⟩ := h.todo place hp
    obtain ⟨r', hr', hsub'⟩ := hnames r hr
    exact ⟨r', hr', hsub' place hmem⟩

/-! ### A step of a thread -/

section

variable {c : Config} {s : Storage} {known headed headed' : List Place} {t : Thread} {out : Out}

private theorem asking_of_moves {stage : Stage} (h : t.Moves c s t.stage stage) (ha : t.Asking s headed)
    (hr : t.toRemember = none) : { t with stage }.Asking s headed := by
  have hbase := ha.base
  generalize hst : t.stage = before at h
  -- what a stage carries on is the record it had
  have key : ∀ base todo, t.stage.base = some base → (∀ place ∈ todo, place ∈ base.places t.journey) →
      stage.base = some base → stage.todo = todo → { t with stage }.Asking s headed := by
    intro base todo hb htodo hb' htodo'
    obtain ⟨r, hr', hsub⟩ := hbase base hb
    refine ⟨by simp [hr], ?_, ?_⟩
    · intro base' hb''
      rw [hb'] at hb''
      cases hb''
      exact ⟨r, hr', hsub⟩
    · intro place hp
      rw [htodo'] at hp
      exact ⟨r, hr', hsub place (htodo place hp)⟩
  cases h with
  | saw => exact ⟨by simp [hr], by simp [Stage.base], by simp [Stage.todo]⟩
  | taken hget =>
    refine ⟨by simp [hr], ?_, by simp [Stage.todo]⟩
    intro base hb
    simp only [Stage.base, Option.some.injEq] at hb
    exact ⟨_, hget, fun place hp => hb ▸ hp⟩
  | heading =>
    refine key _ _ (by rw [hst]; rfl) ?_ rfl rfl
    intro place hp
    rcases List.mem_append.1 hp with hp | hp
    · exact mem_places.2 (.inl hp)
    · exact mem_places.2 (.inr (.inl hp))
  | straight => exact key _ [] (by rw [hst]; rfl) (by simp) rfl rfl
  | headed => exact key _ [] (by rw [hst]; rfl) (by simp) rfl rfl
  | turns =>
    refine key _ _ (by rw [hst]; rfl) ?_ rfl rfl
    intro place hp
    exact mem_places.2 (.inr (.inr (List.mem_of_mem_head? (Option.mem_toList.1 hp))))
  | asks => exact key _ _ (by rw [hst]; rfl) (fun _ hp => hp) rfl rfl
  | inside => exact key _ [] (by rw [hst]; rfl) (by simp) rfl rfl

private theorem asking_of_asks {place : Place} {stage : Stage} (h : Thread.Asks t.stage place stage)
    (ha : t.Asking s headed) :
    { t with stage, toRemember := seenAtHead s known place }.Asking s (place :: headed) := by
  have hbase := ha.base
  have htodo := ha.todo
  generalize hst : t.stage = before at h
  refine ⟨?_, ?_, ?_⟩
  · intro place' hp
    have hseen : seenAtHead s known place = some place' := hp
    unfold seenAtHead at hseen
    split at hseen
    · cases hseen
    · split at hseen
      · cases hseen; exact List.mem_cons_self ..
      · cases hseen
  · intro base hb
    refine hbase base ?_
    rw [hst]
    cases h <;> exact hb
  · intro place' hp
    refine htodo place' ?_
    rw [hst]
    cases h <;> exact List.mem_cons_of_mem _ hp

theorem Thread.Step.asking (h : t.Step c s known out) (hs : t.Sound c s) (ha : t.Asking s headed) {t' : Thread}
    (hout : out.thread = some t') (hheaded : ∀ place ∈ headed, place ∈ headed')
    (hasked : ∀ place, out.effect = .asked place → place ∈ headed') : t'.Asking (out.effect.storage s) headed' := by
  have hnames : ∀ {id r}, s.journeys.get id = some r → ∃ r', (out.effect.storage s).journeys.get id = some r' ∧
      ∀ place ∈ r.places id, place ∈ r'.places id := fun hr => names_of_step h hs hr
  have hall : ∀ place, out.effect = .asked place → ∀ x ∈ place :: headed, x ∈ headed' := by
    intro place he x hx
    rcases List.mem_cons.1 hx with rfl | hx
    · exact hasked _ he
    · exact hheaded x hx
  cases h with
  | ends => cases hout
  | remembers =>
    cases hout
    exact ⟨by simp, fun base hb => ha.base base hb, fun place hp => ha.todo place hp⟩
  | moves hr hm =>
    cases hout
    exact (asking_of_moves hm ha hr).mono hheaded fun r hr' => ⟨r, hr', fun _ hp => hp⟩
  | claims hr =>
    cases hout
    exact ⟨by simp [hr], by simp [Stage.base], by simp [Stage.todo]⟩
  | settles hr hst =>
    cases hout
    rename_i base
    obtain ⟨r, hget, hsub⟩ := ha.base base (by rcases hst with hst | ⟨todo, hst⟩ <;> rw [hst] <;> rfl)
    obtain ⟨r', hget', hsub'⟩ := hnames hget
    refine ⟨by simp [hr], by simp [Stage.base], ?_⟩
    intro place hp
    refine ⟨r', hget', hsub' place (hsub place ?_)⟩
    rcases List.mem_append.1 hp with hp | hp
    · exact mem_places.2 (.inl hp)
    · exact mem_places.2 (.inr (.inl hp))
  | asks _ hasks =>
    cases hout
    exact (asking_of_asks hasks ha).mono (hall _ rfl) fun r hr' => ⟨r, hr', fun _ hp => hp⟩
  | writes hr hm hl =>
    cases hl with
    | gone => cases hout
    | headed hst =>
      cases hout
      obtain ⟨r, hget, hsub⟩ := ha.base _ (by rw [hst]; rfl)
      obtain ⟨r', hget', hsub'⟩ := hnames hget
      refine ⟨by simp [hr], ?_, by simp [Stage.todo]⟩
      intro base hb
      simp only [Stage.base, Option.some.injEq] at hb
      subst hb
      exact ⟨r', hget', fun place hp => hsub' place (hsub place hp)⟩
    | late hst heq hc =>
      cases hout
      have hbase := hs.makes hm hc
      have hself := get_journeys_self hm.fresh (hm.journey ▸ hbase)
      rw [hm.journey] at hself
      rename_i base hand said _ _
      have hget : ((Effect.handOn base hand).storage s).journeys.get t.journey = some hand.result := by
        simpa only [Effect.storage, Storage.handOn, hm.journey, hm.token, hc, if_true, Storage.written] using hself
      refine ⟨by simp [hr], ?_, ?_⟩
      · intro base hb
        simp only [Stage.base, Option.some.injEq] at hb
        exact ⟨_, hget, fun place hp => hb ▸ hp⟩
      · intro place hp
        exact ⟨_, hget, mem_places.2 (.inr (.inl hp))⟩
    | moved hst heq hk hc =>
      cases hout
      obtain ⟨r, hget, hsub⟩ := ha.base _ (by rw [hst]; rfl)
      obtain ⟨r', hget', hsub'⟩ := hnames hget
      refine ⟨by simp [hr], ?_, by simp [Stage.todo]⟩
      intro base hb
      simp only [Stage.base, Option.some.injEq] at hb
      subst hb
      exact ⟨r', hget', fun place hp => hsub' place (hsub place hp)⟩

end

/-- A place asked for is the next its thread has to ask, and it heads its queue. -/
theorem Thread.Step.asked {c : Config} {s : Storage} {known : List Place} {t : Thread} {out : Out}
    (h : t.Step c s known out) {place : Place} (he : out.effect = .asked place) :
    place ∈ t.stage.todo ∧ heads s known place = true := by
  cases h with
  | ends heff => rcases heff with heff | heff | ⟨heff, -⟩ <;> rw [heff] at he <;> cases he
  | remembers | moves | claims | settles | writes => cases he
  | asks _ hasks hyes =>
    cases he
    refine ⟨?_, hyes⟩
    generalize t.stage = stage at hasks
    cases hasks <;> exact List.mem_cons_self ..

theorem Thread.Step.remembered {c : Config} {s : Storage} {known : List Place} {t : Thread} {out : Out}
    (h : t.Step c s known out) {place : Place} (he : out.effect = .remember place) : t.toRemember = some place := by
  cases h with
  | ends heff => rcases heff with heff | heff | ⟨heff, -⟩ <;> rw [heff] at he <;> cases he
  | moves | claims | settles | asks | writes => cases he
  | remembers hr => cases he; exact hr

/-- A step writes nothing, or is a hand-on taken. -/
theorem effect_cases (s : Storage) (e : Effect) :
    (e.storage s).journeys = s.journeys ∧ (e.storage s).places = s.places ∨
      ∃ base h, e = .handOn base h ∧ s.Claimed h.journey h.token ∧ e.storage s = s.written h := by
  cases e with
  | none | asked | remember => exact .inl ⟨rfl, rfl⟩
  | claim id token => simp only [Effect.storage, Storage.claim]; split <;> exact .inl ⟨rfl, rfl⟩
  | release id token => simp only [Effect.storage, Storage.release]; split <;> exact .inl ⟨rfl, rfl⟩
  | handOn base h =>
    by_cases hc : s.Claimed h.journey h.token
    · exact .inr ⟨base, h, rfl, hc, by simp [Effect.storage, Storage.handOn, hc]⟩
    · exact .inl (by simp [Effect.storage, Storage.handOn, hc])

section

variable {s : Sys} {p : Nat} {t : Thread} {out : Out}

/-- The places that headed their queues and the Journeys let through, after a step. -/
theorem stepped_headed (s : Sys) (p : Nat) (t : Thread) (out : Out) :
    (∀ place ∈ s.headed, place ∈ (s.stepped p t out).headed) ∧
    (∀ place, out.effect = .asked place → place ∈ (s.stepped p t out).headed) ∧
    ∀ place ∈ (s.stepped p t out).headed, place ∈ s.headed ∨ out.effect = .asked place := by
  unfold Sys.stepped Sys.effect
  cases out.effect with
  | handOn base h => simp only; split <;> simp
  | none | claim | release | remember => simp
  | asked place => exact ⟨fun _ h => List.mem_cons_of_mem _ h, by rintro _ ⟨⟩; exact List.mem_cons_self ..,
      fun x hx => (List.mem_cons.1 hx).symm.imp id fun h => by rw [h]⟩

private theorem stepped_memory {n : Nat} {place : Place} (hp : place ∈ (s.stepped p t out).memory n) :
    place ∈ s.memory n ∨ out.effect = .remember place := by
  unfold Sys.stepped Sys.effect at hp
  cases he : out.effect with
  | handOn base h =>
    rw [he] at hp
    simp only at hp
    split at hp <;> exact .inl hp
  | none | claim | release | asked => rw [he] at hp; exact .inl hp
  | remember x =>
    rw [he] at hp
    simp only [Function.update_apply] at hp
    split at hp
    · rename_i hn
      subst hn
      rcases mem_remember hp with hp | hp
      · exact .inl hp
      · exact .inr (by rw [hp])
    · exact .inl hp

end

/-! ### What a thread has seen at the head -/

/-- A thread about to take places has seen what it does not ask for any more at the head of its queue; one past that
waits for no place. -/
structure Thread.Heading (c : Config) (headed : List Place) (t : Thread) : Prop where
  heading : ∀ base todo, t.stage = .heading base todo → ∀ place ∈ base.streamPlaces ++ base.groupPlaces,
    place ∈ headed ∨ place ∈ todo
  passing : ∀ base, t.stage = .headed base → t.kind ≠ .turn
  turn : t.kind = .turn → ∀ base, t.stage = .inside base ∨ (∃ todo, t.stage = .asking base todo) →
    ∀ place ∈ base.streamPlaces, place ∈ headed
  placed : ∀ base, t.stage = .inside base ∨ (∃ todo, t.stage = .asking base todo) →
    c.waitsForPlaces t.journey base = false

section

variable {c : Config} {s : Storage} {known headed headed' : List Place} {t : Thread} {out : Out}

theorem Thread.Heading.mono (h : t.Heading c headed) (hsub : ∀ place ∈ headed, place ∈ headed') :
    t.Heading c headed' where
  heading := fun base todo hs place hp => (h.heading base todo hs place hp).imp (hsub place) fun hp => hp
  passing := h.passing
  turn := fun hk base hs place hp => hsub place (h.turn hk base hs place hp)
  placed := h.placed

private theorem heading_of_moves {stage : Stage} (h : t.Moves c s t.stage stage) (ht : t.Heading c headed) :
    { t with stage }.Heading c headed := by
  have hheading := ht.heading
  have hpassing := ht.passing
  have hturn := ht.turn
  have hplaced := ht.placed
  generalize hst : t.stage = before at h
  cases h with
  | saw | taken => exact ⟨by simp, by simp, by simp, by simp⟩
  | heading =>
    refine ⟨?_, by simp, by simp, by simp⟩
    rintro base todo ⟨⟩ place hp
    exact .inr hp
  | straight hk =>
    refine ⟨by simp, ?_, by simp, by simp⟩
    rintro base ⟨⟩
    simp [hk]
  | headed hk =>
    refine ⟨by simp, ?_, by simp, by simp⟩
    rintro base ⟨⟩
    exact hk
  | turns hk hw =>
    rename_i base
    refine ⟨by simp, by simp, ?_, ?_⟩
    · rintro - base' (hs | ⟨todo, hs⟩) place hp
      · cases hs
      · cases hs
        rcases hheading base [] hst place (List.mem_append_left _ hp) with h | h
        · exact h
        · cases h
    · rintro base' (hs | ⟨todo, hs⟩)
      · cases hs
      · cases hs; exact hw
  | asks hw =>
    refine ⟨by simp, by simp, ?_, ?_⟩
    · intro hk
      exact absurd hk (hpassing _ hst)
    · rintro base' (hs | ⟨todo, hs⟩)
      · cases hs
      · cases hs; exact hw
  | inside =>
    refine ⟨by simp, by simp, ?_, ?_⟩
    · rintro hk base' (hs | ⟨todo, hs⟩)
      · cases hs; exact hturn hk _ (.inr ⟨_, hst⟩)
      · cases hs
    · rintro base' (hs | ⟨todo, hs⟩)
      · cases hs; exact hplaced _ (.inr ⟨_, hst⟩)
      · cases hs

private theorem heading_of_asks {place : Place} {stage : Stage} (h : Thread.Asks t.stage place stage)
    (ht : t.Heading c headed) (hp : place ∈ headed') (hsub : ∀ place ∈ headed, place ∈ headed')
    (toRemember : Option Place) : { t with stage, toRemember }.Heading c headed' := by
  have hheading := ht.heading
  have hturn := ht.turn
  have hplaced := ht.placed
  generalize hst : t.stage = before at h
  cases h with
  | heading =>
    refine ⟨?_, by simp, by simp, by simp⟩
    rintro base todo ⟨⟩ place' hp'
    rcases hheading _ _ hst place' hp' with h | h
    · exact .inl (hsub place' h)
    · rcases List.mem_cons.1 h with rfl | h
      · exact .inl hp
      · exact .inr h
  | asking =>
    refine ⟨by simp, by simp, ?_, ?_⟩
    · rintro hk base' (hs | ⟨todo, hs⟩) place' hp'
      · cases hs
      · cases hs; exact hsub place' (hturn hk _ (.inr ⟨_, hst⟩) place' hp')
    · rintro base' (hs | ⟨todo, hs⟩)
      · cases hs
      · cases hs; exact hplaced _ (.inr ⟨_, hst⟩)
  | settling => exact ⟨by simp, by simp, by simp, by simp⟩

private theorem lateHandOn_received (c : Config) (t : Thread) (base : Journey) :
    (t.lateHandOn c base).result.received = base.received := by
  show (c.takenLate t.journey base).1.received = base.received
  unfold Config.takenLate
  split
  · exact (groupPlaced_spec c t.journey base).1
  · rfl

theorem Thread.Step.heading (h : t.Step c s known out) (ht : t.Heading c headed) {t' : Thread}
    (hout : out.thread = some t') (hsub : ∀ place ∈ headed, place ∈ headed')
    (hasked : ∀ place, out.effect = .asked place → place ∈ headed') : t'.Heading c headed' := by
  cases h with
  | ends => cases hout
  | remembers =>
    cases hout
    exact ⟨(ht.mono hsub).heading, ht.passing, (ht.mono hsub).turn, ht.placed⟩
  | moves _ hm =>
    cases hout
    exact (heading_of_moves hm ht).mono hsub
  | claims | settles =>
    cases hout
    exact ⟨by simp, by simp, by simp, by simp⟩
  | asks _ hasks =>
    cases hout
    exact heading_of_asks hasks ht (hasked _ rfl) hsub _
  | writes _ hm hl =>
    cases hl with
    | gone => cases hout
    | headed _ _ _ hk =>
      cases hout
      refine ⟨by simp, ?_, by simp, by simp⟩
      rintro base ⟨⟩
      exact hk
    | late hst heq _ =>
      cases hout
      subst heq
      refine ⟨?_, by simp, by simp, by simp⟩
      rintro base' todo ⟨⟩ place hp
      rcases List.mem_append.1 hp with hp | hp
      · -- a late placement leaves the Stream as it is
        refine .inl (hsub place ?_)
        rw [streamPlaces_congr (lateHandOn_received c t _)] at hp
        rcases ht.heading _ [] hst place (List.mem_append_left _ hp) with h | h
        · exact h
        · cases h
      · exact .inr hp
    | moved =>
      cases hout
      refine ⟨by simp, ?_, by simp, by simp⟩
      rintro base ⟨⟩
      simp

end

/-! ### Every write is a run of turns -/

/-- Of the Journeys of one delivery in `routed` each takes its place in one queue. -/
def KeyedAlike (c : Config) (routed : List Routed) : Prop :=
  ∀ one ∈ routed, one.group.isSome = true → ∀ id ∈ one.journeys.map Prod.fst, ∀ k ∈ one.journeys.map Prod.fst,
    c.groupQueue id = c.groupQueue k

/-- No unfinished Journey whose delivery has a place in a queue a delivery of `routed` takes its place in waits for its
places. -/
def NobodyWaits (c : Config) (s : Storage) (routed : List Routed) : Prop :=
  ∀ one ∈ routed, one.group.isSome = true → ∀ id ∈ one.journeys.map Prod.fst, ∀ x ∈ s.journeys.entries,
    unfinished x.2 = true → ∀ g ∈ x.2.group, s.Holds (.group (c.groupQueue id), .delivery g.delivery) →
      c.waitsForPlaces x.1 x.2 = false

instance (c : Config) (routed : List Routed) : Decidable (KeyedAlike c routed) :=
  inferInstanceAs (Decidable (∀ one ∈ routed, one.group.isSome = true → ∀ id ∈ one.journeys.map Prod.fst,
    ∀ k ∈ one.journeys.map Prod.fst, c.groupQueue id = c.groupQueue k))

instance (c : Config) (s : Storage) (routed : List Routed) : Decidable (NobodyWaits c s routed) :=
  inferInstanceAs (Decidable (∀ one ∈ routed, one.group.isSome = true → ∀ id ∈ one.journeys.map Prod.fst,
    ∀ x ∈ s.journeys.entries, unfinished x.2 = true → ∀ g ∈ x.2.group,
      s.Holds (.group (c.groupQueue id), .delivery g.delivery) → c.waitsForPlaces x.1 x.2 = false))

section

variable {c : Config} {s : Storage} {headed : List Place} {strict : Prop}

private theorem Clear.of_fresh {atOnce : Bool} {received : Option Received} {routed : List Routed} {v : View}
    (hf : Fresh s.journeys routed)
    (hrecords : ∀ k r, v.records k = some r → ∃ r', s.journeys.get k = some r' ∧ r'.group = r.group ∧
      (unfinished r = true → unfinished r' = true) ∧ c.waitsForPlaces k r = c.waitsForPlaces k r')
    (hplaces : ∀ place, v.Holds place → s.Holds place)
    (hstreams : atOnce = true → ∀ place ∈ (opening received none none).streamPlaces, place ∈ headed)
    (halike : strict → KeyedAlike c routed) (hwaits : strict → atOnce = true → NobodyWaits c s routed) :
    Clear c headed strict atOnce received routed v where
  nodup := hf.1
  fresh := by
    intro id hid
    cases hr : v.records id with
    | none => rfl
    | some r =>
      obtain ⟨r', hr', -⟩ := hrecords id r hr
      rw [hf.2.1 id hid] at hr'
      cases hr'
  apart := hf.2.2.1
  told := by
    intro d hd k r g hr hg heq
    obtain ⟨r', hr', hg', -⟩ := hrecords k r hr
    refine hf.2.2.2 d hd (k, r') (Table.mem_iff_get.2 hr') ?_
    rw [hg', hg]
    simpa using heq
  streams := hstreams
  alike := halike
  settled := by
    intro hst hat one hone hsome id hid k r g hr hu hg hh
    obtain ⟨r', hr', hg', hu', hw⟩ := hrecords k r hr
    rw [hw]
    exact hwaits hst hat one hone hsome id hid (k, r') (Table.mem_iff_get.2 hr') (hu' hu) g (by rw [hg', hg]; rfl)
      (hplaces _ hh)

/-- What a hand-on lets go of, no Journey under way holds. -/
private theorem turn_forget {h : HandOn} {v : View} (hv : v.records = (h.journeys s.journeys).get) :
    Turn c s.twice headed strict v (v.forget fun place => !h.letsGo (h.journeys s.journeys) place) := by
  refine .forget ?_
  intro id r hr hl place hs
  rw [hv] at hr
  simp [not_letsGo_of_open hr (hs.openFor hl)]

/-- A record said again, and what that lets go of. -/
private theorem turns_of_restate {h : HandOn} {base : Journey} (hb : s.journeys.get h.journey = some base)
    (hnext : h.next = []) (hqueued : h.queued = []) (hreceived : h.result.received = base.received)
    (hgroup : h.result.group = base.group) (hseq : h.result.sequences = base.sequences)
    (hun : unfinished h.result = true → unfinished base = true) (hlive : waitsForGroup base = true → h.result.live = true) :
    Relation.ReflTransGen (Turn c s.twice headed strict) (view s) (view (s.written h)) := by
  have heq := view_written s h [] [] (by simpa using hnext) (by simpa using hqueued)
  rw [heq]
  refine .trans (.single (.restate hb hreceived hgroup hseq hun hlive)) (.single (turn_forget ?_))
  exact (congrArg View.records heq).symm

private theorem turns_of_late {t : Thread} {base : Journey} (hl : Lined c headed strict (view s))
    (hb : s.journeys.get t.journey = some base) (hs : t.stage = .heading base []) (ht : t.Heading c headed)
    (hw : c.waitsForPlaces t.journey base = true) :
    Relation.ReflTransGen (Turn c s.twice headed strict) (view s) (view (s.written (t.lateHandOn c base))) := by
  have hheaded : ∀ place ∈ base.streamPlaces ++ base.groupPlaces, place ∈ headed := by
    intro place hp
    rcases ht.heading base [] hs place hp with h | h
    · exact h
    · cases h
  have heq := view_written s (t.lateHandOn c base) (c.takenLate t.journey base).2 [] rfl
    (by simp [Thread.lateHandOn])
  rw [heq]
  refine .trans (.single ?_) (.single (turn_forget (congrArg View.records heq).symm))
  have hstream : ∀ place ∈ base.streamPlaces, place ∈ headed := fun place hp => hheaded place (List.mem_append_left _ hp)
  show Turn c s.twice headed strict (view s)
    ((view s).put s.twice t.journey (c.takenLate t.journey base).1 (c.takenLate t.journey base).2)
  unfold Config.takenLate
  split
  · rename_i hgrp
    exact .group hb hgrp hstream
  · rename_i hgrp
    simp only [Bool.not_eq_true] at hgrp
    have hseq : base.sequences = [] := by
      simp only [Config.waitsForPlaces, hgrp, Bool.false_or, Bool.and_eq_true, List.isEmpty_iff] at hw
      exact hw.1
    refine .points hb hgrp hseq hstream ?_
    -- its delivery is at the head of its queue: nobody comes before it
    intro _ g q hg hq d r g' _ _ _ hahead
    refine absurd hahead (View.not_ahead_of_first (hl.first (.group q, .delivery g.delivery) (hheaded _ ?_) ?_))
    · refine List.mem_append_right _ ?_
      obtain ⟨delivery, queue, skips⟩ := g
      simp only at hq
      subst hq
      simp [Journey.groupPlaces, hg]
    · obtain ⟨-, -, hn, -⟩ := hahead
      exact hn

private theorem turns_of_turned {t : Thread} {base : Journey} {state : JourneyState} {published : List Routed}
    {process : String} (hl : Lined c headed strict (view s)) (hb : s.journeys.get t.journey = some base)
    (hlive : base.live = true) (hwaits : c.waitsForPlaces t.journey base = false)
    (hstream : ∀ place ∈ base.streamPlaces, place ∈ headed) (hf : Fresh s.journeys published)
    (hok : strict → KeyedAlike c published ∧ NobodyWaits c s published) :
    Relation.ReflTransGen (Turn c s.twice headed strict) (view s)
      (view (s.written (t.turnHandOn c base state published process))) := by
  have hgrp : waitsForGroup base = false := by
    simp only [Config.waitsForPlaces, Bool.or_eq_false_iff] at hwaits
    exact hwaits.1
  have heq := view_written s (t.turnHandOn c base state published process) [] (following c base.received published) rfl rfl
  rw [heq]
  have hrestate : Turn c s.twice headed strict (view s) ((view s).put s.twice t.journey
      (t.turnHandOn c base state published process).result []) := by
    refine .restate hb rfl rfl rfl (fun _ => unfinished_of_live hlive) ?_
    intro hg
    rw [hgrp] at hg
    cases hg
  -- what the Journeys it opens find is what was there before its own record was said again
  have hclear : Clear c headed strict true base.received published ((view s).put s.twice t.journey
      (t.turnHandOn c base state published process).result []) := by
    refine .of_fresh hf ?_ ?_ (fun _ => ?_) (fun hst => (hok hst).1) (fun hst _ => (hok hst).2)
    · intro k r hr
      rcases View.put_records hr with ⟨rfl, rfl⟩ | ⟨-, hr⟩
      · exact ⟨base, hb, rfl, fun _ => unfinished_of_live hlive, rfl⟩
      · exact ⟨r, hr, rfl, fun h => h, rfl⟩
    · intro place hh
      rcases View.put_holds.1 hh with hh | hq
      · exact hh
      · cases hq
    · intro place hp
      exact hstream place hp
  refine .trans (.single hrestate) (.trans (births hclear (hl.turn hrestate) s.twice) (.single (turn_forget ?_)))
  exact (congrArg View.records heq).symm

/-- Every hand-on taken is a run of turns. -/
private theorem turns_of_makes {t : Thread} {base : Journey} {h : HandOn} (hm : t.Makes c s base h) (ht : t.Sound c s)
    (hh : t.Heading c headed) (hl : Lined c headed strict (view s)) (hb : s.journeys.get t.journey = some base)
    (hturned : t.kind = .turn → t.stage = .inside base → (∃ process, h = t.turnFailed base process) ∨
      ∃ state published process, h = t.turnHandOn c base state published process ∧ Fresh s.journeys published ∧
        (strict → KeyedAlike c published ∧ NobodyWaits c s published)) :
    Relation.ReflTransGen (Turn c s.twice headed strict) (view s) (view (s.written h)) := by
  have hlive : t.isAct = false → base.live = true := fun hact => ht.live hact base hm.carried
  have hgroup : c.waitsForPlaces t.journey base = false → waitsForGroup base = false := by
    intro hw
    simp only [Config.waitsForPlaces, Bool.or_eq_false_iff] at hw
    exact hw.1
  -- a turn, done or failed
  have hturn : t.kind = .turn → t.stage = .inside base →
      Relation.ReflTransGen (Turn c s.twice headed strict) (view s) (view (s.written h)) := by
    intro hk hs
    have hact : t.isAct = false := by unfold Thread.isAct; rw [hk]
    have hplaced := hh.placed base (.inl hs)
    have hw := hgroup hplaced
    rcases hturned hk hs with ⟨process, rfl⟩ | ⟨state, published, process, rfl, hf, hok⟩
    · exact turns_of_restate hb rfl rfl rfl rfl rfl (fun _ => unfinished_of_live (hlive hact)) fun hg => by simp [hw] at hg
    · exact turns_of_turned hl hb (hlive hact) hplaced (hh.turn hk base (.inl hs)) hf hok
  cases hm with
  | sent hk hs _ =>
    have hact : t.isAct = false := by unfold Thread.isAct; rw [hk]
    have hw := hgroup (hh.placed base (hs.imp (fun h => h) fun h => h.2))
    exact turns_of_restate hb rfl rfl rfl rfl rfl (fun _ => unfinished_of_live (hlive hact)) fun hg => by simp [hw] at hg
  | turned hk hs => exact hturn hk hs
  | turnFailed hk hs => exact hturn hk hs
  | acted hk hs =>
    rename_i act entry
    have hfailed : base.state = .failed := by
      refine ht.failed (by unfold Thread.isAct; rw [hk]) base ?_
      unfold Thread.seen
      rw [hs]
    have hun : unfinished base = true := by unfold unfinished; rw [hfailed]
    -- one that waits for its delivery's place is under way
    have hw : waitsForGroup base = true → False := by
      intro hg
      obtain ⟨g, hg, hq⟩ := (Option.any_eq_true _ _).1 hg
      have := (hl.waiting t.journey base g hb hg (by simpa using hq)).1
      simp [Journey.live, hfailed] at this
    cases act with
    | retry => exact turns_of_restate hb rfl rfl rfl rfl rfl (fun _ => hun) fun hg => (hw hg).elim
    | dismiss => exact turns_of_restate hb rfl rfl rfl rfl rfl (fun _ => hun) fun hg => (hw hg).elim
  | late hs hw => exact turns_of_late hl hb hs hh hw
  | moved hk =>
    have hact : t.isAct = false := by unfold Thread.isAct; rw [hk]
    exact turns_of_restate hb rfl rfl rfl rfl rfl (fun h => h) fun _ => hlive hact

private theorem Clear.of_view {atOnce : Bool} {received : Option Received} {routed : List Routed}
    (hf : Fresh s.journeys routed)
    (hstreams : atOnce = true → ∀ place ∈ (opening received none none).streamPlaces, place ∈ headed)
    (halike : strict → KeyedAlike c routed) (hwaits : strict → atOnce = true → NobodyWaits c s routed) :
    Clear c headed strict atOnce received routed (view s) :=
  .of_fresh hf (fun _ r hr => ⟨r, hr, rfl, fun h => h, rfl⟩) (fun _ hh => hh) hstreams halike hwaits

private theorem fst_unplaced (l : List (Nat × Journey)) : (l.map fun x => (x, ([] : List Place))).map Prod.fst = l := by
  simp [Function.comp_def]

private theorem snd_unplaced (l : List (Nat × Journey)) : (l.map fun x => (x, ([] : List Place))).flatMap Prod.snd = [] := by
  induction l with
  | nil => rfl
  | cons x l ih => rw [List.map_cons, List.flatMap_cons, ih]; rfl

/-- The Journeys of a Stream that holds sequences opened, and then its places taken. -/
private theorem turns_of_streams {received : Received} {routed : List Routed} (hl : Lined c headed strict (view s))
    (hf : Fresh s.journeys routed) (ho : FreshOrigin s.journeys received.origin)
    (hne : opened (some received) routed ≠ []) (halike : strict → KeyedAlike c routed) :
    Relation.ReflTransGen (Turn c s.twice headed strict) (view s) (view (s.publish (opened (some received) routed)
      (received.sequences.map fun q => (.endToEnd q, .origin received.origin)))) := by
  have hclear : Clear c headed strict false (some received) routed (view s) := .of_view hf (by simp) halike (by simp)
  refine (births hclear hl s.twice).trans ?_
  have hborn : (opened (some received) routed).map (born c false) = (opened (some received) routed).map fun x => (x, []) := rfl
  -- no place is taken before, so the last Journey opened finds none of its Stream's
  have hholds : ∀ place, ((view s).putAll s.twice ((opened (some received) routed).map (born c false))).Holds place →
      s.Holds place := by
    intro place hh
    rcases View.putAll_holds.1 hh with hh | ⟨x, hx, hp⟩
    · exact hh
    · obtain ⟨y, -, rfl⟩ := List.mem_map.1 hx
      cases hp
  have horigin : ∀ place, (view s).Named place → place.2 ≠ .origin received.origin := by
    rintro place ⟨k, r, hr, hp⟩ hm
    rcases mem_places.1 hp with hp | hp | hp
    · obtain ⟨b, hb, hm'⟩ := mem_streamPlaces hp
      rw [hm] at hm'
      refine ho (k, r) (Table.mem_iff_get.2 hr) ?_
      simp only [hb, Option.map_some, Option.some.injEq]
      simpa using hm'.symm
    · obtain ⟨g, -, hm', -⟩ := mem_groupPlaces hp
      rw [hm] at hm'; cases hm'
    · rw [(mem_pointPlaces hp).1] at hm; cases hm
  obtain ⟨l, x, hlx⟩ : ∃ l x, opened (some received) routed = l ++ [x] := by
    rcases List.eq_nil_or_concat (opened (some received) routed) with h | ⟨l, x, h⟩
    · exact absurd h hne
    · exact ⟨l, x, by simpa using h⟩
  have hx : x.2.received = some received := by
    obtain ⟨one, -, j, -, rfl⟩ := mem_opened (show x ∈ opened (some received) routed by rw [hlx]; simp)
    rfl
  have hrecord : ((view s).putAll s.twice ((opened (some received) routed).map (born c false))).records x.1 = some x.2 := by
    rw [hlx, List.map_append, View.putAll_append]
    exact View.put_self
  have hturn : Turn c s.twice headed strict ((view s).putAll s.twice ((opened (some received) routed).map (born c false)))
      (((view s).putAll s.twice ((opened (some received) routed).map (born c false))).put s.twice x.1 x.2
        x.2.streamPlaces) := by
    refine .enters hrecord hx ?_ ?_
    · intro y hy
      exact horigin y.2 (hl.known y.2 (hholds y.2 ⟨y.1, hy⟩))
    · exact fun place hp => horigin place (hl.named place hp)
  convert Relation.ReflTransGen.single hturn using 1
  have hview := view_publish s ((opened (some received) routed).map (born c false))
  rw [hborn] at hview ⊢
  rw [fst_unplaced, snd_unplaced] at hview
  rw [hborn, ← hview] at hrecord
  rw [← hview]
  unfold view Storage.publish View.put at *
  simp only [List.foldl_nil] at hrecord ⊢
  rw [Function.update_eq_self_iff.2 hrecord.symm]
  congr 1
  unfold Journey.streamPlaces
  rw [hx]

private theorem turns_of_publish {received : Received} {routed : List Routed} (hl : Lined c headed strict (view s))
    (hf : Fresh s.journeys routed) (ho : FreshOrigin s.journeys received.origin)
    (hne : (c.published received routed).isEmpty = false)
    (hok : strict → KeyedAlike c routed ∧ (received.sequences = [] → NobodyWaits c s routed)) :
    Relation.ReflTransGen (Turn c s.twice headed strict) (view s)
      (view (s.publish ((c.published received routed).map Prod.fst)
        (received.sequences.map (fun q => (.endToEnd q, .origin received.origin)) ++
          (c.published received routed).flatMap Prod.snd))) := by
  unfold Config.published at hne ⊢
  split
  · rename_i hseq
    rw [List.isEmpty_iff] at hseq
    rw [hseq, List.map_nil, List.nil_append, view_publish]
    have hclear : Clear c headed strict true (some received) routed (view s) := by
      refine .of_view hf ?_ (fun hst => (hok hst).1) fun hst _ => (hok hst).2 hseq
      intro _ place hp
      simp [opening, Journey.streamPlaces, hseq] at hp
    exact births hclear hl s.twice
  · rename_i hseq
    have hopened : opened (some received) routed ≠ [] := by
      intro heq
      simp [hseq, heq] at hne
    rw [fst_unplaced, snd_unplaced, List.append_nil]
    exact turns_of_streams hl hf ho hopened fun hst => (hok hst).1

private theorem turns_of_replay {routed : List Routed} (hl : Lined c headed strict (view s))
    (hf : Fresh s.journeys routed) (hgroup : routed.all (fun one => one.group.isNone) = true) :
    Relation.ReflTransGen (Turn c s.twice headed strict) (view s) (view (s.publish (opened none routed) [])) := by
  have hclear : Clear c headed strict false none routed (view s) := by
    refine .of_view hf (by simp) ?_ (by simp)
    intro _ one hone hsome
    have := List.all_eq_true.1 hgroup one hone
    rw [Option.isNone_iff_eq_none] at this
    rw [this] at hsome
    cases hsome
  have hview := view_publish s ((opened none routed).map fun x => (x, []))
  rw [fst_unplaced, snd_unplaced] at hview
  rw [hview]
  exact births hclear hl s.twice

end

/-! ### Every run -/

/-- What a Publication and a turn find where they take places of deliveries: each delivery's in one queue, and nobody in
it who waits for its own. -/
def Aligned (s : Sys) : Action → Prop
  | .publish received routed => KeyedAlike s.config routed ∧ (received.sequences = [] → NobodyWaits s.config s.storage routed)
  | .run _ (.turned _ published _) => KeyedAlike s.config published ∧ NobodyWaits s.config s.storage published
  | _ => True

instance (s : Sys) (a : Action) : Decidable (Aligned s a) :=
  match a with
  | .publish received routed => inferInstanceAs (Decidable (KeyedAlike s.config routed ∧
      (received.sequences = [] → NobodyWaits s.config s.storage routed)))
  | .run _ (.turned _ published _) =>
    inferInstanceAs (Decidable (KeyedAlike s.config published ∧ NobodyWaits s.config s.storage published))
  | .run _ (.go _) | .run _ (.sendHere _ _) | .run _ (.sent _ _ _) | .run _ (.turnFailed _) | .run _ (.acts _ _)
  | .run _ (.quit _) | .call .. | .lapse _ | .replay _ => .isTrue trivial

/-- What every step keeps of the places and of what the threads and the nodes know of them. -/
structure InPath (strict : Prop) (s : Sys) : Prop where
  sound : Sound s
  lined : Lined s.config s.headed strict (view s.storage)
  memory : ∀ n, ∀ place ∈ s.memory n, place ∈ s.headed
  threads : ∀ p t, s.threads.get p = some t → t.Asking s.storage s.headed ∧ t.Heading s.config s.headed

theorem inPath_of_opening {strict : Prop} {s : Sys} (h : Opening s) : InPath strict s := by
  have hnone : ∀ p, s.threads.get p = none := fun p => by unfold Table.get; rw [h.threads]; rfl
  have hget : ∀ id, (view s.storage).records id = none := fun id => by
    show s.storage.journeys.get id = none
    unfold Table.get; rw [h.journeys]; rfl
  have hitems : (view s.storage).places.items = [] := h.places
  refine ⟨sound_of_opening h, ?_, ?_, ?_⟩
  · refine ⟨by simp [h.headed], by simp [h.headed], ?_, ?_, ?_, ?_, ?_, ?_, ?_, ?_⟩
    · rintro place ⟨n, hn⟩; rw [hitems] at hn; cases hn
    · intro id r g hr; rw [hget] at hr; cases hr
    · intro id r hr; rw [hget] at hr; cases hr
    · intro j k r r' g g' hr; rw [hget] at hr; cases hr
    · intro id r g q hr; rw [hget] at hr; cases hr
    · intro _ j k r r' g g' hr; rw [hget] at hr; cases hr
    · intro x hx; rw [hitems] at hx; cases hx
    · intro _ k r g q d r' g' hr; rw [hget] at hr; cases hr
  · intro n; rw [h.memory]; simp
  · intro p t hp; rw [hnone] at hp; cases hp

section

variable {strict : Prop} {s : Sys} {p : Nat} {t : Thread} {out : Out}

/-- A question asked and answered with yes: the place heads its queue, as long as it is there. -/
private theorem Lined.ask {c : Config} {headed : List Place} {v : View} (h : Lined c headed strict v) {place : Place}
    (hfirst : v.Holds place → v.first place.1 = some place.2) (hnamed : v.Named place) :
    Lined c (place :: headed) strict v where
  first := by
    intro x hx
    rcases List.mem_cons.1 hx with rfl | hx
    · exact hfirst
    · exact h.first x hx
  named := by
    intro x hx
    rcases List.mem_cons.1 hx with rfl | hx
    · exact hnamed
    · exact h.named x hx
  known := h.known
  waiting := h.waiting
  streams := fun id r hr hp x hx => List.mem_cons_of_mem _ (h.streams id r hr hp x hx)
  received := h.received
  queue := h.queue
  queues := h.queues
  uniform := h.uniform
  settled := h.settled

/-- What `heads` says of a place its node has not forgotten. -/
theorem InPath.first_of_heads (h : InPath strict s) {n : Nat} {place : Place}
    (hyes : heads s.storage (s.memory n) place = true) (hh : s.storage.Holds place) :
    s.storage.first place.1 = some place.2 := by
  unfold heads at hyes
  split at hyes
  · rename_i hmem
    exact h.lined.first place (h.memory n place hmem) hh
  · split at hyes
    · rename_i m hm
      rw [hm, of_decide_eq_true hyes]
    · rename_i hnone
      exact absurd hnone (first_ne_none hh)

/-- What a turn hands on is what it was told it came to. -/
theorem turned_of_next {c : Config} {s : Storage} {known : List Place} {choice : Choice} (hf : choice.Fresh s.journeys)
    (h : t.next c s known choice = some out) {base : Journey} {hand : HandOn} (he : out.effect = .handOn base hand)
    (hk : t.kind = .turn) (hs : t.stage = .inside base) : (∃ process, hand = t.turnFailed base process) ∨
      ∃ state published process, hand = t.turnHandOn c base state published process ∧ Fresh s.journeys published ∧
        choice = .turned state published process := by
  unfold Thread.next at h
  split at h
  · cases h
    simp only at he
    split at he <;> cases he
  · cases h; cases he
  · cases h
  · rename_i choice' _ _ _ _
    simp only [Thread.goOn, hs, Thread.fromInside, hk] at h
    cases choice' with
    | turned state published process =>
      simp only at h
      split at h
      · cases h
        cases he
        exact .inr ⟨state, published, process, rfl, hf, rfl⟩
      · cases h
    | turnFailed process =>
      cases h
      cases he
      exact .inl ⟨process, rfl⟩
    | go | sendHere | sent | acts | quit => cases h

private theorem InPath.stepped (h : InPath strict s) (hp : s.threads.get p = some t)
    (hstep : t.Step s.config s.storage (s.memory t.node) out)
    (hturned : ∀ base hand, out.effect = .handOn base hand → t.kind = .turn → t.stage = .inside base →
      (∃ process, hand = t.turnFailed base process) ∨
      ∃ state published process, hand = t.turnHandOn s.config base state published process ∧
        Fresh s.storage.journeys published ∧
        (strict → KeyedAlike s.config published ∧ NobodyWaits s.config s.storage published)) :
    InPath strict (s.stepped p t out) := by
  have ht := h.sound.threads p t hp
  obtain ⟨hask, hheading⟩ := h.threads p t hp
  obtain ⟨hmono, hasked, hheaded⟩ := stepped_headed s p t out
  refine ⟨h.sound.stepped hp hstep, ?_, ?_, ?_⟩
  · rw [stepped_config, stepped_storage]
    rcases effect_cases s.storage out.effect with ⟨hj, hplaces⟩ | ⟨base, hand, he, hc, hst⟩
    · have hview : view (out.effect.storage s.storage) = view s.storage := by unfold view; rw [hj, hplaces]
      rw [hview]
      by_cases hq : ∃ place, out.effect = .asked place
      · obtain ⟨place, he⟩ := hq
        have heq : (s.stepped p t out).headed = place :: s.headed := by unfold Sys.stepped Sys.effect; rw [he]
        rw [heq]
        obtain ⟨htodo, hyes⟩ := hstep.asked he
        obtain ⟨r, hr, hmem⟩ := hask.todo place htodo
        exact h.lined.ask (h.first_of_heads hyes) ⟨_, r, hr, hmem⟩
      · have heq : (s.stepped p t out).headed = s.headed := by
          unfold Sys.stepped Sys.effect
          cases he : out.effect with
          | handOn base hand => simp only; split <;> rfl
          | none | claim | release | remember => rfl
          | asked place => exact absurd ⟨place, he⟩ hq
        rw [heq]
        exact h.lined
    · have hm := hstep.makes he
      rw [hm.journey, hm.token] at hc
      have heq : (s.stepped p t out).headed = s.headed := by
        unfold Sys.stepped Sys.effect
        rw [he]
        simp only
        split <;> rfl
      rw [hst, heq]
      exact h.lined.turns (turns_of_makes hm ht hheading h.lined (ht.makes hm hc) (hturned base hand he))
  · intro n place hplace
    rcases stepped_memory hplace with hplace | he
    · exact hmono place (h.memory n place hplace)
    · exact hmono place (hask.remembers place (hstep.remembered he))
  · intro q u hq
    rw [stepped_storage, stepped_config]
    rcases stepped_threads hq with ⟨rfl, hu⟩ | ⟨-, hu⟩
    · exact ⟨hstep.asking ht hask hu hmono hasked, hstep.heading hheading hu hmono hasked⟩
    · obtain ⟨ha, hh⟩ := h.threads q u hu
      exact ⟨ha.mono hmono fun r hr => names_of_step hstep ht hr, hh.mono hmono⟩

/-- Journeys opened leave the records there were. -/
private theorem InPath.of_storage (h : InPath strict s) {storage : Storage} (hsound : Sound { s with storage })
    (hlined : Lined s.config s.headed strict (view storage))
    (hjourneys : ∀ id r, s.storage.journeys.get id = some r → storage.journeys.get id = some r) :
    InPath strict { s with storage } where
  sound := hsound
  lined := hlined
  memory := h.memory
  threads := by
    intro p t hp
    obtain ⟨ha, hh⟩ := h.threads p t hp
    exact ⟨ha.mono (fun _ hx => hx) fun r hr => ⟨r, hjourneys _ r hr, fun _ hx => hx⟩, hh⟩

theorem InPath.step {s' : Sys} {a : Action} (h : InPath strict s) (hok : strict → Aligned s a)
    (hs : s.step a = some s') : InPath strict s' := by
  have hsound := h.sound.step hs
  cases Sys.steps_of_step hs with
  | call hp =>
    refine ⟨hsound, h.lined, h.memory, ?_⟩
    intro q u hq
    rw [Table.get_put] at hq
    split at hq
    · cases hq
      exact ⟨⟨by simp, by simp [Stage.base], by simp [Stage.todo]⟩, ⟨by simp, by simp, by simp, by simp⟩⟩
    · exact h.threads q u hq
  | run hp hf hout =>
    refine h.stepped hp (Thread.step_of_next (h.sound.threads _ _ hp).placed hf hout) ?_
    intro base hand he hk hst
    rcases turned_of_next hf hout he hk hst with hfailed | ⟨state, published, process, heq, hfresh, rfl⟩
    · exact .inl hfailed
    · exact .inr ⟨state, published, process, heq, hfresh, hok⟩
  | lapse => exact h.of_storage hsound h.lined fun _ _ hr => hr
  | publish hf ho =>
    rename_i received routed
    have hget : ∀ id r, s.storage.journeys.get id = some r →
        (s.publish received routed).storage.journeys.get id = some r := fun _ _ hr => get_published hf hr
    unfold Sys.publish at hsound hget ⊢
    simp only at hsound hget ⊢
    split
    · exact h
    · rename_i hne
      rw [if_neg hne] at hsound hget
      simp only [Bool.not_eq_true] at hne
      exact h.of_storage hsound (h.lined.turns (turns_of_publish h.lined hf ho hne hok)) hget
  | replay hf hgroup =>
    exact h.of_storage hsound (h.lined.turns (turns_of_replay h.lined hf hgroup)) fun _ _ hr => get_publish hf.opened hr

end

theorem inPath_of_aligned {s : Sys} (h : Reach Sys.step Aligned Opening s) : InPath True s :=
  h.invariant (fun _ => inPath_of_opening) fun _ _ _ hi hok hs => hi.step (fun _ => hok) hs

end Cluster
