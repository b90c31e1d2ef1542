import XmipRuntime.Cluster.Runs

/-!
# No write of a Journey is lost

Every thread that writes a Journey holds a claim it took before it read the record it works from, so under its claim's
token that record is the latest one (`Thread.Sound.latest`); from this come that every write replaces the record it was
made of, that what has ended is never written again, and that of the acts on one failure one is written at most: each
act's write makes the history longer, so no later record is the one another act saw.
-/

namespace Cluster

open Library Ledger

/-! ### The Journeys after a write -/

private theorem get_foldl_put {l : List (Nat × Journey)} {t : Table Nat Journey} {id : Nat} (h : ∀ x ∈ l, x.1 ≠ id) :
    (l.foldl (fun t x => t.put x.1 x.2) t).get id = t.get id := by
  induction l generalizing t with
  | nil => rfl
  | cons x l ih =>
    rw [List.foldl_cons, ih fun y hy => h y (List.mem_cons_of_mem _ hy)]
    exact Table.get_put_of_ne _ (h x (List.mem_cons_self ..)).symm _

/-- The Journeys a hand-on opens are nobody's yet. -/
def HandOnFresh (journeys : Table Nat Journey) (h : HandOn) : Prop := ∀ x ∈ h.next, journeys.get x.1 = none

theorem get_journeys_self {journeys : Table Nat Journey} {h : HandOn} {r : Journey} (hf : HandOnFresh journeys h)
    (hr : journeys.get h.journey = some r) : (h.journeys journeys).get h.journey = some h.result := by
  unfold HandOn.journeys
  rw [get_foldl_put, Table.get_put_self]
  intro x hx heq
  have := hf x hx
  rw [heq, hr] at this
  cases this

theorem get_journeys_of_ne {journeys : Table Nat Journey} {h : HandOn} {id : Nat} {r : Journey}
    (hf : HandOnFresh journeys h) (hne : id ≠ h.journey) (hr : journeys.get id = some r) :
    (h.journeys journeys).get id = some r := by
  unfold HandOn.journeys
  rw [get_foldl_put, Table.get_put_of_ne _ hne, hr]
  intro x hx heq
  have := hf x hx
  rw [heq, hr] at this
  cases this

theorem get_publish {s : Storage} {l : List (Nat × Journey)} {queued : List Place} {id : Nat} {r : Journey}
    (hf : ∀ x ∈ l, s.journeys.get x.1 = none) (hr : s.journeys.get id = some r) :
    (s.publish l queued).journeys.get id = some r := by
  show (l.foldl (fun t x => t.put x.1 x.2) s.journeys).get id = some r
  rw [get_foldl_put, hr]
  intro x hx heq
  have := hf x hx
  rw [heq, hr] at this
  cases this

theorem mem_opened {received : Option Received} {routed : List Routed} {x : Nat × Journey}
    (h : x ∈ opened received routed) :
    ∃ one ∈ routed, ∃ j ∈ one.journeys, x = (j.1, opening received one.group j.2) := by
  unfold opened at h
  obtain ⟨one, hone, hx⟩ := List.mem_flatMap.1 h
  obtain ⟨j, hj, rfl⟩ := List.mem_map.1 hx
  exact ⟨one, hone, j, hj, rfl⟩

theorem Fresh.opened {journeys : Table Nat Journey} {routed : List Routed} (hf : Fresh journeys routed)
    {received : Option Received} : ∀ x ∈ opened received routed, journeys.get x.1 = none := by
  intro x hx
  obtain ⟨one, hone, j, hj, rfl⟩ := mem_opened hx
  exact hf.2.1 j.1 (List.mem_flatMap.2 ⟨one, hone, List.mem_map.2 ⟨j, hj, rfl⟩⟩)

theorem mem_following {c : Config} {received : Option Received} {routed : List Routed}
    {x : (Nat × Journey) × List Place} (h : x ∈ following c received routed) :
    ∃ y ∈ opened received routed, x = ((y.1, (c.places y.1 y.2).1), (c.places y.1 y.2).2) := by
  obtain ⟨y, hy, rfl⟩ := List.mem_map.1 h
  exact ⟨y, hy, rfl⟩

theorem Fresh.following {c : Config} {journeys : Table Nat Journey} {routed : List Routed} (hf : Fresh journeys routed)
    {received : Option Received} : ∀ x ∈ (following c received routed).map Prod.fst, journeys.get x.1 = none := by
  intro x hx
  obtain ⟨z, hz, rfl⟩ := List.mem_map.1 hx
  obtain ⟨y, hy, rfl⟩ := mem_following hz
  exact hf.opened y hy

/-! ### What a hand-on makes of its record -/

variable {c : Config} {s : Storage} {t : Thread}

namespace Thread.Makes

variable {base : Journey} {h : HandOn}

theorem journey (hm : Makes c s t base h) : h.journey = t.journey := by cases hm <;> rfl

theorem token (hm : Makes c s t base h) : h.token = t.token := by cases hm <;> rfl

/-- The record it is made of is the one its thread carries. -/
theorem carried (hm : Makes c s t base h) : t.stage.base = some base := by
  cases hm with
  | sent _ hs _ =>
    rcases hs with hs | ⟨-, todo, hs⟩ <;> rw [hs] <;> rfl
  | turned _ hs _ _ => rw [hs]; rfl
  | turnFailed _ hs => rw [hs]; rfl
  | acted _ hs => rw [hs]; rfl
  | late hs _ => rw [hs]; rfl
  | moved _ hs => rw [hs]; rfl

theorem fresh (hm : Makes c s t base h) : HandOnFresh s.journeys h := by
  cases hm with
  | turned _ _ _ hf => exact hf.following
  | sent | turnFailed | acted | late | moved => intro x hx; cases hx

/-- A hand-on never makes the history shorter, and an act's makes it longer. -/
theorem entries (hm : Makes c s t base h) (hp : t.Placed) :
    base.entries.length ≤ h.result.entries.length ∧
      (t.isAct = true → base.entries.length < h.result.entries.length) := by
  cases hm with
  | sent hk => simp [Thread.sendHandOn, Journey.append]
  | turned hk => simp [Thread.turnHandOn, Thread.isAct, hk]
  | turnFailed hk => simp [Thread.turnFailed, Thread.isAct, hk]
  | acted =>
    rename_i act _ _ _
    cases act <;> simp [Thread.actHandOn, Journey.append]
  | late hs hw =>
    have hact : t.isAct = false := by simpa only [Thread.Placed, hs] using hp
    simp [Thread.lateHandOn, hact]
  | moved hk => simp [Thread.moveHandOn, Thread.isAct, hk]

end Thread.Makes

/-! ### The invariant -/

/-- A thread works from the latest record under its claim: an act from one that failed, every other thread from one that
is still to be sent or taken a turn of.  A late placement whose answer was lost may leave an older one, which waits for
its places still, so its pass writes nothing. -/
structure Thread.Sound (c : Config) (s : Storage) (t : Thread) : Prop where
  placed : t.Placed
  latest : ∀ base, t.stage.base = some base → s.Claimed t.journey t.token →
    s.journeys.get t.journey = some base ∨ t.stage = .headed base ∧ c.waitsForPlaces t.journey base = true
  live : t.isAct = false → ∀ base, t.stage.base = some base → base.live = true
  failed : t.isAct = true → ∀ base, t.seen = some base → base.state = .failed

/-- A thread whose claim nobody took and whose Journey nobody wrote works from the latest record still. -/
theorem Thread.Sound.mono {s s' : Storage} (h : t.Sound c s)
    (hkeep : s'.Claimed t.journey t.token → s.Claimed t.journey t.token ∧
      ∀ r, s.journeys.get t.journey = some r → s'.journeys.get t.journey = some r) : t.Sound c s' where
  placed := h.placed
  latest := by
    intro base hb hc
    obtain ⟨hc', hr⟩ := hkeep hc
    rcases h.latest base hb hc' with hl | hl
    · exact .inl (hr _ hl)
    · exact .inr hl
  live := h.live
  failed := h.failed

/-- A hand-on under its claim replaces the record it was made of. -/
theorem Thread.Sound.makes {base : Journey} {h : HandOn} (ht : t.Sound c s) (hm : Makes c s t base h)
    (hc : s.Claimed t.journey t.token) : s.journeys.get t.journey = some base := by
  rcases ht.latest base hm.carried hc with hl | ⟨hs, hw⟩
  · exact hl
  · -- a thread about to begin its pass writes nothing
    cases hm with
    | sent _ hs' =>
      rw [hs] at hs'
      rcases hs' with hs' | ⟨-, _, hs'⟩ <;> cases hs'
    | turned _ hs' => rw [hs] at hs'; cases hs'
    | turnFailed _ hs' => rw [hs] at hs'; cases hs'
    | acted _ hs' => rw [hs] at hs'; cases hs'
    | late hs' => rw [hs] at hs'; cases hs'
    | moved _ hs' => rw [hs] at hs'; cases hs'

/-- What a write may be made of: an act's of a record that failed, every other one of one still under way. -/
def MadeOf (kind : Kind) (base : Journey) : Prop :=
  match kind with
  | .act _ => base.state = .failed
  | _ => base.live = true

theorem Thread.Sound.madeOf {base : Journey} {h : HandOn} (ht : t.Sound c s) (hm : Makes c s t base h) :
    MadeOf t.kind base := by
  unfold MadeOf
  split
  · rename_i act hk
    refine ht.failed (by unfold Thread.isAct; rw [hk]) base ?_
    have hs : t.stage = .taken base := by
      cases hm with
      | acted _ hs => exact hs
      | sent hk' => rw [hk] at hk'; cases hk'
      | turned hk' => rw [hk] at hk'; cases hk'
      | turnFailed hk' => rw [hk] at hk'; cases hk'
      | moved hk' => rw [hk] at hk'; cases hk'
      | late hs' =>
        have := ht.placed
        simp only [Thread.Placed, hs', Thread.isAct, hk] at this
        cases this
    unfold Thread.seen
    rw [hs]
  · rename_i hk
    refine ht.live ?_ base hm.carried
    unfold Thread.isAct
    split
    · rename_i act h; exact absurd h (hk act)
    · rfl

/-- What every step keeps of the writes and the acts. -/
structure Sound (s : Sys) : Prop where
  minted : ∀ p t, s.threads.get p = some t → t.token < s.minted
  apart : ∀ p q t u, s.threads.get p = some t → s.threads.get q = some u → t.token = u.token → p = q
  threads : ∀ p t, s.threads.get p = some t → t.Sound s.config s.storage
  writes : ∀ w ∈ s.writes, w.was = some w.base ∧ MadeOf w.kind w.base
  longer : ∀ e ∈ s.ends, e.wrote = true → ∃ b r, e.saw = some b ∧ s.storage.journeys.get e.journey = some r ∧
    b.entries.length < r.entries.length
  once : s.ends.Pairwise fun e f => e.journey = f.journey → e.wrote = true → f.wrote = true → e.saw ≠ f.saw
  refused : ∀ e ∈ s.ends, e.wrote = false → e.said = .refused ∨ e.said = .failed ∨
    e.said = .already ∧ e.act = .act .dismiss

theorem sound_of_opening {s : Sys} (h : Opening s) : Sound s := by
  have hnone : ∀ p, s.threads.get p = none := fun p => by unfold Table.get; rw [h.threads]; rfl
  refine ⟨?_, ?_, ?_, ?_, ?_, ?_, ?_⟩
  · intro p t hp; rw [hnone] at hp; cases hp
  · intro p q t u hp; rw [hnone] at hp; cases hp
  · intro p t hp; rw [hnone] at hp; cases hp
  · rw [h.writes]; simp
  · rw [h.ends]; simp
  · rw [h.ends]; simp
  · rw [h.ends]; simp

/-! ### A thread's step -/

section

variable {known : List Place} {out : Out}

/-- A thread keeps its Journey and its token. -/
theorem Thread.Step.same (h : Step c s known t out) {t' : Thread} (ht : out.thread = some t') :
    t'.journey = t.journey ∧ t'.token = t.token := by
  cases h with
  | ends => cases ht
  | remembers | moves | claims | settles | asks => cases ht; exact ⟨rfl, rfl⟩
  | writes _ _ hl =>
    cases hl with
    | gone => cases ht
    | headed | late | moved => cases ht; exact ⟨rfl, rfl⟩

/-- A hand-on of a step is one its thread makes. -/
theorem Thread.Step.makes (h : Step c s known t out) {base : Journey} {hand : HandOn}
    (he : out.effect = .handOn base hand) : Makes c s t base hand := by
  cases h with
  | ends heff =>
    rcases heff with heff | heff | ⟨heff, -⟩ <;> rw [heff] at he <;> cases he
  | remembers | moves | claims | settles | asks => cases he
  | writes _ hm => cases he; exact hm

/-- A record stays, or is the one its writer made of it, its history no shorter. -/
theorem Thread.Step.history (h : Step c s known t out) (ht : t.Sound c s) {id : Nat} {r : Journey}
    (hr : s.journeys.get id = some r) :
    (out.effect.storage s).journeys.get id = some r ∨ id = t.journey ∧ ∃ hand, Makes c s t r hand ∧
      s.Claimed t.journey t.token ∧ (out.effect.storage s).journeys.get id = some hand.result := by
  have hclaims : ∀ j tok, (s.claim j tok).journeys = s.journeys := fun j tok => by
    unfold Storage.claim; split <;> rfl
  have hrelease : ∀ j tok, (s.release j tok).journeys = s.journeys := fun j tok => by
    unfold Storage.release; split <;> rfl
  cases he : out.effect with
  | none | asked | remember => exact .inl hr
  | claim j tok => exact .inl (by show (s.claim j tok).journeys.get id = some r; rw [hclaims, hr])
  | release j tok => exact .inl (by show (s.release j tok).journeys.get id = some r; rw [hrelease, hr])
  | handOn base hand =>
    have hm := h.makes he
    show (s.handOn hand).journeys.get id = some r ∨ _ ∧ ∃ hand', _ ∧ _ ∧ (s.handOn hand).journeys.get id = _
    unfold Storage.handOn
    split
    · rename_i hc
      rw [hm.journey, hm.token] at hc
      have hbase := ht.makes hm hc
      by_cases hid : id = t.journey
      · subst hid
        rw [hr] at hbase
        cases hbase
        refine .inr ⟨rfl, hand, hm, hc, ?_⟩
        have hself := get_journeys_self hm.fresh (hm.journey ▸ hr)
        rwa [hm.journey] at hself
      · exact .inl (get_journeys_of_ne hm.fresh (hm.journey ▸ hid) hr)
    · exact .inl hr

/-- What a step of `t` leaves to every other thread: no claim of theirs is made, and under one nothing is written. -/
theorem Thread.Step.others (h : Step c s known t out) (ht : t.Sound c s) {u : Thread} (hu : u.token ≠ t.token)
    (hc : (out.effect.storage s).Claimed u.journey u.token) :
    s.Claimed u.journey u.token ∧
      ∀ r, s.journeys.get u.journey = some r → (out.effect.storage s).journeys.get u.journey = some r := by
  have hclaimed : s.Claimed u.journey u.token := by
    unfold Storage.Claimed at *
    cases he : out.effect with
    | none | asked | remember => rwa [he] at hc
    | claim j tok =>
      rw [he] at hc
      have htok : j = t.journey ∧ tok = t.token := by
        cases h with
        | ends heff =>
          rcases heff with heff | heff | ⟨heff, -⟩
          · rw [heff] at he; cases he
          · rw [heff] at he; cases he
          · rw [heff] at he; cases he; exact ⟨rfl, rfl⟩
        | remembers | moves | settles | asks | writes => cases he
        | claims => cases he; exact ⟨rfl, rfl⟩
      obtain ⟨rfl, rfl⟩ := htok
      simp only [Effect.storage, Storage.claim] at hc
      split at hc
      · simp only [Table.get_put] at hc
        split at hc
        · simp only [Option.some.injEq] at hc
          exact absurd hc.symm hu
        · exact hc
      · exact hc
    | release j tok =>
      rw [he] at hc
      simp only [Effect.storage, Storage.release] at hc
      split at hc
      · simp only [Table.get_drop] at hc
        split at hc
        · cases hc
        · exact hc
      · exact hc
    | handOn base hand =>
      rw [he] at hc
      simp only [Effect.storage, Storage.handOn] at hc
      split at hc
      · simp only [Storage.written] at hc
        split at hc
        · exact hc
        · rw [Table.get_drop] at hc
          split at hc
          · cases hc
          · exact hc
      · exact hc
  refine ⟨hclaimed, ?_⟩
  intro r hr
  rcases h.history ht hr with hsame | ⟨hj, -, -, htc, -⟩
  · exact hsame
  · -- its own claim would be the one of `t`
    unfold Storage.Claimed at hclaimed htc
    rw [hj, htc] at hclaimed
    simp only [Option.some.injEq] at hclaimed
    exact absurd hclaimed.symm hu

theorem Thread.sound_of_moves {stage : Stage} (h : Moves c s t t.stage stage) (ht : t.Sound c s) :
    { t with stage }.Sound c s := by
  have hp := ht.placed
  have hl := ht.latest
  have hlive := ht.live
  have hfail := ht.failed
  generalize hst : t.stage = before at h
  cases h with
  | saw hact hget hstate =>
    refine ⟨hact, by simp [Stage.base], by simp [Stage.base], ?_⟩
    intro _ base hb
    simp only [Thread.seen, Option.some.injEq] at hb
    exact hb ▸ hstate
  | taken hget hseen hr =>
    refine ⟨trivial, ?_, ?_, ?_⟩
    · intro base hb _
      simp only [Stage.base, Option.some.injEq] at hb
      exact .inl (hb ▸ hget)
    · intro hact base hb
      simp only [Stage.base, Option.some.injEq] at hb
      exact hb ▸ hr hact
    · intro hact base hb
      simp only [Thread.seen, Option.some.injEq] at hb
      refine hfail hact base ?_
      simp only [Thread.seen, hst]
      rw [hseen hact, hb]
  | heading hact | straight hact | headed hact | turns hact | asks hact | inside =>
    have hact : t.isAct = false := by
      first
        | exact hact
        | (simp only [Thread.Placed, hst] at hp; exact hp)
        | (unfold Thread.isAct; rw [hact])
    refine ⟨hact, ?_, ?_, ?_⟩
    · intro base hb hc
      simp only [Stage.base, Option.some.injEq] at hb
      subst hb
      refine .inl ?_
      rcases hl _ (by rw [hst]; rfl) hc with hl | ⟨hs, hw⟩
      · exact hl
      · rw [hst] at hs
        cases hs <;> simp_all
    · intro _ base hb
      simp only [Stage.base, Option.some.injEq] at hb
      exact hb ▸ hlive hact _ (by rw [hst]; rfl)
    · intro h
      exact absurd (hact.symm.trans h) (by simp)

/-- A thread's step keeps it working from the latest record. -/
theorem Thread.Step.sound (h : Step c s known t out) (ht : t.Sound c s) {t' : Thread} (hout : out.thread = some t') :
    t'.Sound c (out.effect.storage s) := by
  cases h with
  | ends => cases hout
  | remembers _ => cases hout; exact ⟨ht.placed, ht.latest, ht.live, ht.failed⟩
  | moves _ hm => cases hout; exact sound_of_moves hm ht
  | claims _ hfree hseen =>
    cases hout
    refine ⟨trivial, by simp [Stage.base], by simp [Stage.base], ?_⟩
    intro hact base hb
    rcases hseen with ⟨hn, -⟩ | ⟨saw, hst, rfl⟩
    · exact absurd (hn.symm.trans hact) (by simp)
    · refine ht.failed hact base ?_
      simp only [Thread.seen] at hb ⊢
      rw [hst]
      exact hb
  | settles _ hst =>
    cases hout
    have hact : t.isAct = false := by
      have hp := ht.placed
      rcases hst with hst | ⟨todo, hst⟩ <;> simpa only [Thread.Placed, hst] using hp
    exact ⟨hact, by simp [Stage.base], by simp [Stage.base], by simp [Thread.seen]⟩
  | asks _ hasks =>
    cases hout
    have hp := ht.placed
    have hl := ht.latest
    have hlive := ht.live
    generalize hst : t.stage = before at hasks
    cases hasks with
    | heading | asking =>
      simp only [Thread.Placed, hst] at hp
      refine ⟨hp, ?_, ?_, by simp [Thread.seen]⟩
      · intro base hb hc
        simp only [Stage.base, Option.some.injEq] at hb
        rcases hl base (by rw [hst, ← hb]; rfl) hc with hl | ⟨hs, -⟩
        · exact .inl hl
        · rw [hst] at hs; cases hs
      · intro hact base hb
        simp only [Stage.base, Option.some.injEq] at hb
        exact hlive hact base (by rw [hst, ← hb]; rfl)
    | settling =>
      simp only [Thread.Placed, hst] at hp
      exact ⟨hp, by simp [Stage.base], by simp [Stage.base], by simp [Thread.seen]⟩
  | writes _ hm hl =>
    have hp := ht.placed
    cases hl with
    | gone => cases hout
    | headed hs heq hw =>
      cases hout
      simp only [Thread.Placed, hs] at hp
      refine ⟨hp, ?_, ?_, by simp [Thread.seen]⟩
      · intro base hb _
        simp only [Stage.base, Option.some.injEq] at hb
        exact .inr ⟨by rw [hb], hb ▸ hw⟩
      · intro hact base hb
        simp only [Stage.base, Option.some.injEq] at hb
        exact ht.live hact base (by rw [hs, ← hb]; rfl)
    | late hs heq hc =>
      cases hout
      simp only [Thread.Placed, hs] at hp
      have hbase := ht.makes hm hc
      refine ⟨hp, ?_, ?_, by simp [Thread.seen]⟩
      · intro base hb _
        simp only [Stage.base, Option.some.injEq] at hb
        refine .inl ?_
        rw [← hb]
        have hself := get_journeys_self hm.fresh (hm.journey ▸ hbase)
        rw [hm.journey] at hself
        simpa only [Effect.storage, Storage.handOn, hm.journey, hm.token, hc, if_true, Storage.written] using hself
      · intro hact base hb
        simp only [Stage.base, Option.some.injEq] at hb
        have hlive := ht.live hact _ (by rw [hs]; rfl)
        rw [← hb, heq]
        simpa [Thread.lateHandOn, Journey.live] using hlive
    | moved hs heq hk hc =>
      cases hout
      have hbase := ht.makes hm hc
      refine ⟨rfl, ?_, ?_, by simp [Thread.isAct]⟩
      · intro base hb _
        simp only [Stage.base, Option.some.injEq] at hb
        refine .inl ?_
        have hself := get_journeys_self hm.fresh (hm.journey ▸ hbase)
        rw [hm.journey] at hself
        subst heq hb
        simp only [Effect.storage, Storage.handOn, hm.journey, hm.token, hc, if_true, Storage.written]
        exact hself
      · intro _ base hb
        simp only [Stage.base, Option.some.injEq] at hb
        refine ht.live ?_ base (by rw [hs, ← hb]; rfl)
        unfold Thread.isAct
        rw [hk]

end

/-! ### Every step -/

/-- The record an existing Journey has after a step of a thread, its history no shorter. -/
private theorem longer_of_history {s : Sys} {p : Nat} {t : Thread} {out : Out}
    (hstep : t.Step s.config s.storage (s.memory t.node) out) (ht : t.Sound s.config s.storage) {id : Nat} {r : Journey}
    (hr : s.storage.journeys.get id = some r) : ∃ r', (s.stepped p t out).storage.journeys.get id = some r' ∧
      r.entries.length ≤ r'.entries.length := by
  rw [stepped_storage]
  rcases hstep.history ht hr with hsame | ⟨-, hand, hm, -, hnew⟩
  · exact ⟨r, hsame, Nat.le_refl _⟩
  · exact ⟨hand.result, hnew, (hm.entries ht.placed).1⟩

/-- An act that wrote did so under its claim, of what it saw. -/
private theorem act_wrote {s : Sys} {p : Nat} {t : Thread} {out : Out}
    (hstep : t.Step s.config s.storage (s.memory t.node) out) (ht : t.Sound s.config s.storage) {said : Said}
    (hsaid : out.said = some said) (hw : out.effect.writes s.storage = true) :
    ∃ base hand, t.seen = some base ∧ t.isAct = true ∧ t.Makes s.config s.storage base hand ∧
      s.storage.journeys.get t.journey = some base ∧
      (s.stepped p t out).storage.journeys.get t.journey = some hand.result := by
  rw [stepped_storage]
  cases hstep with
  | ends heff =>
    rcases heff with heff | heff | ⟨heff, -⟩ <;> rw [heff] at hw <;> cases hw
  | remembers | moves | claims | settles | asks => cases hsaid
  | writes _ hm _ hs hact =>
    have hact' : t.isAct = true := hact.2 fun hn => by simp only [hn] at hsaid; cases hsaid
    simp only [Effect.writes, hm.journey, hm.token, decide_eq_true_eq] at hw
    have hbase := ht.makes hm hw
    refine ⟨_, _, ?_, hact', hm, hbase, ?_⟩
    · cases hm with
      | acted _ hs => unfold Thread.seen; rw [hs]
      | sent hk => unfold Thread.isAct at hact'; rw [hk] at hact'; cases hact'
      | turned hk => unfold Thread.isAct at hact'; rw [hk] at hact'; cases hact'
      | turnFailed hk => unfold Thread.isAct at hact'; rw [hk] at hact'; cases hact'
      | moved hk => unfold Thread.isAct at hact'; rw [hk] at hact'; cases hact'
      | late hs =>
        have hp := ht.placed
        simp only [Thread.Placed, hs, hact'] at hp
        cases hp
    · have hself := get_journeys_self hm.fresh (hm.journey ▸ hbase)
      rw [hm.journey] at hself
      simpa only [Effect.storage, Storage.handOn, hm.journey, hm.token, hw, if_true, Storage.written] using hself

/-- An act that did not write was refused, or failed, or found its Message dismissed already. -/
private theorem act_refused {s : Storage} {known : List Place} {t : Thread} {out : Out} (hstep : t.Step c s known out)
    {said : Said} (hsaid : out.said = some said) (hw : out.effect.writes s = false) :
    said = .refused ∨ said = .failed ∨ said = .already ∧ t.kind = .act .dismiss := by
  cases hstep with
  | ends _ hs =>
    simp only at hsaid
    rcases hs with hs | hs | hs | ⟨hs, hk, -⟩ <;> rw [hs] at hsaid <;> cases hsaid
    · exact .inl rfl
    · exact .inr (.inl rfl)
    · exact .inr (.inr ⟨rfl, hk⟩)
  | remembers | moves | claims | settles | asks => cases hsaid
  | writes _ hm _ hs _ =>
    simp only at hsaid
    rcases hs with hs | ⟨hs, hc⟩ | hs <;> rw [hs] at hsaid <;> cases hsaid
    · simp [Effect.writes, hm.journey, hm.token, hc] at hw
    · exact .inr (.inl rfl)

theorem Sound.stepped {s : Sys} (h : Sound s) {p : Nat} {t : Thread} (hp : s.threads.get p = some t) {out : Out}
    (hstep : t.Step s.config s.storage (s.memory t.node) out) : Sound (s.stepped p t out) := by
  have ht := h.threads p t hp
  -- how the step ended, where it is an act's
  have hends : (s.stepped p t out).ends = s.ends ∨ ∃ said, out.said = some said ∧ (s.stepped p t out).ends =
      ⟨t.journey, t.kind, t.seen, said, out.effect.writes s.storage⟩ :: s.ends := by
    unfold Sys.stepped
    cases out.said with
    | none => exact .inl rfl
    | some said => exact .inr ⟨said, rfl, rfl⟩
  refine ⟨?_, ?_, ?_, ?_, ?_, ?_, ?_⟩
  · intro q u hq
    rw [stepped_minted]
    rcases stepped_threads hq with ⟨rfl, ho⟩ | ⟨-, hq⟩
    · rw [(hstep.same ho).2]; exact h.minted _ t hp
    · exact h.minted q u hq
  · intro q q' u u' hq hq' htok
    rcases stepped_threads hq with ⟨rfl, ho⟩ | ⟨-, hold⟩ <;>
      rcases stepped_threads hq' with ⟨rfl, ho'⟩ | ⟨-, hold'⟩
    · rfl
    · rw [(hstep.same ho).2] at htok
      exact h.apart _ _ t u' hp hold' htok
    · rw [(hstep.same ho').2] at htok
      exact h.apart _ _ u t hold hp htok
    · exact h.apart _ _ u u' hold hold' htok
  · intro q u hq
    rw [stepped_config, stepped_storage]
    rcases stepped_threads hq with ⟨rfl, ho⟩ | ⟨hne, hq⟩
    · exact hstep.sound ht ho
    · refine (h.threads q u hq).mono (hstep.others ht ?_)
      exact fun htok => hne (h.apart q p u t hq hp htok)
  · intro w hw
    rcases stepped_writes s p t out with heq | ⟨base, hand, he, hc, heq⟩
    · rw [heq] at hw; exact h.writes w hw
    · rw [heq] at hw
      rcases List.mem_cons.1 hw with rfl | hw
      · have hm := hstep.makes he
        rw [hm.journey, hm.token] at hc
        refine ⟨?_, ht.madeOf hm⟩
        rw [hm.journey]
        exact ht.makes hm hc
      · exact h.writes w hw
  · intro e he hwr
    have hold : ∀ e ∈ s.ends, e.wrote = true → ∃ b r, e.saw = some b ∧
        (s.stepped p t out).storage.journeys.get e.journey = some r ∧ b.entries.length < r.entries.length := by
      intro e he hwr
      obtain ⟨b, r, hb, hr, hlt⟩ := h.longer e he hwr
      obtain ⟨r', hr', hle⟩ := longer_of_history (p := p) hstep ht hr
      exact ⟨b, r', hb, hr', by omega⟩
    rcases hends with heq | ⟨said, hsaid, heq⟩ <;> rw [heq] at he
    · exact hold e he hwr
    · rcases List.mem_cons.1 he with rfl | he
      · obtain ⟨base, hand, hseen, hact, hm, -, hnew⟩ := act_wrote (p := p) hstep ht hsaid hwr
        exact ⟨base, hand.result, hseen, hnew, (hm.entries ht.placed).2 hact⟩
      · exact hold e he hwr
  · rcases hends with heq | ⟨said, hsaid, heq⟩ <;> rw [heq]
    · exact h.once
    · refine List.pairwise_cons.2 ⟨?_, h.once⟩
      intro f hf hj hwr hwf heqs
      -- what an earlier act saw has a shorter history than what this one saw
      obtain ⟨base, hand, hseen, -, -, hbase, -⟩ := act_wrote (p := p) hstep ht hsaid hwr
      obtain ⟨b, r, hb, hr, hlt⟩ := h.longer f hf hwf
      change t.journey = f.journey at hj
      change t.seen = f.saw at heqs
      rw [hseen, hb, Option.some.injEq] at heqs
      rw [← hj, hbase, Option.some.injEq] at hr
      subst heqs hr
      omega
  · intro e he hwr
    rcases hends with heq | ⟨said, hsaid, heq⟩ <;> rw [heq] at he
    · exact h.refused e he hwr
    · rcases List.mem_cons.1 he with rfl | he
      · exact act_refused hstep hsaid hwr
      · exact h.refused e he hwr

theorem mem_published {c : Config} {received : Received} {routed : List Routed} {x : (Nat × Journey) × List Place}
    (h : x ∈ c.published received routed) : ∃ y ∈ opened (some received) routed, x.1.1 = y.1 := by
  unfold Config.published at h
  split at h
  · obtain ⟨y, hy, rfl⟩ := mem_following h
    exact ⟨y, hy, rfl⟩
  · obtain ⟨y, hy, rfl⟩ := List.mem_map.1 h
    exact ⟨y, hy, rfl⟩

/-- A step that is no thread's leaves every record and every claim a thread holds. -/
private theorem Sound.of_storage {s s' : Sys} (h : Sound s) (hconfig : s'.config = s.config)
    (hthreads : s'.threads = s.threads) (hminted : s'.minted = s.minted) (hwrites : s'.writes = s.writes)
    (hends : s'.ends = s.ends)
    (hclaims : ∀ id token, s'.storage.Claimed id token → s.storage.Claimed id token)
    (hjourneys : ∀ id r, s.storage.journeys.get id = some r → s'.storage.journeys.get id = some r) : Sound s' where
  minted := by rw [hthreads, hminted]; exact h.minted
  apart := by rw [hthreads]; exact h.apart
  threads := by
    rw [hthreads, hconfig]
    intro p t hp
    exact (h.threads p t hp).mono fun hc => ⟨hclaims _ _ hc, hjourneys _⟩
  writes := by rw [hwrites]; exact h.writes
  longer := by
    rw [hends]
    intro e he hwr
    obtain ⟨b, r, hb, hr, hlt⟩ := h.longer e he hwr
    exact ⟨b, r, hb, hjourneys _ _ hr, hlt⟩
  once := by rw [hends]; exact h.once
  refused := by rw [hends]; exact h.refused

/-- What a Publication leaves of the Journeys there are: every one as it was. -/
theorem get_published {s : Sys} {received : Received} {routed : List Routed} (hf : Fresh s.storage.journeys routed)
    {id : Nat} {r : Journey} (hr : s.storage.journeys.get id = some r) :
    (s.publish received routed).storage.journeys.get id = some r := by
  rcases (s.publish_storage received routed).2 with hst | hst
  · rw [hst]; exact hr
  · rw [hst]
    refine get_publish ?_ hr
    intro x hx
    obtain ⟨z, hz, rfl⟩ := List.mem_map.1 hx
    obtain ⟨y, hy, heq⟩ := mem_published hz
    rw [heq]
    exact hf.opened y hy

theorem Sound.step {s s' : Sys} {a : Action} (h : Sound s) (hs : s.step a = some s') : Sound s' := by
  cases Sys.steps_of_step hs with
  | call hp =>
    refine ⟨?_, ?_, ?_, h.writes, h.longer, h.once, h.refused⟩
    · intro q u hq
      rw [Table.get_put] at hq
      split at hq
      · cases hq; exact Nat.lt_succ_self _
      · exact Nat.lt_succ_of_lt (h.minted q u hq)
    · intro q q' u u' hq hq' htok
      rw [Table.get_put] at hq hq'
      split at hq <;> split at hq'
      · omega
      · cases hq
        have := h.minted q' u' hq'
        simp only at htok
        omega
      · cases hq'
        have := h.minted q u hq
        simp only at htok
        omega
      · exact h.apart q q' u u' hq hq' htok
    · intro q u hq
      rw [Table.get_put] at hq
      split at hq
      · cases hq
        exact ⟨trivial, by simp [Stage.base], by simp [Stage.base], by simp [Thread.seen]⟩
      · exact h.threads q u hq
  | run hp hf hout => exact h.stepped hp (Thread.step_of_next (h.threads _ _ hp).placed hf hout)
  | lapse =>
    refine h.of_storage rfl rfl rfl rfl rfl ?_ (fun _ _ hr => hr)
    intro id token hc
    unfold Storage.Claimed at *
    simp only [Table.get_drop] at hc
    split at hc
    · cases hc
    · exact hc
  | publish hf _ =>
    rename_i received routed _
    obtain ⟨heq, hst⟩ := s.publish_storage received routed
    rw [heq]
    refine h.of_storage rfl rfl rfl rfl rfl ?_ (fun _ _ hr => get_published hf hr)
    rcases hst with hst | hst <;> rw [hst] <;> exact fun _ _ hc => hc
  | replay hf _ => exact h.of_storage rfl rfl rfl rfl rfl (fun _ _ hc => hc) (fun _ _ hr => get_publish hf.opened hr)

/-- What a step may do to a record: leave it, or replace it by what a thread under its claim made of it. -/
theorem Sound.record {s s' : Sys} {a : Action} (h : Sound s) (hs : s.step a = some s') {id : Nat} {r : Journey}
    (hr : s.storage.journeys.get id = some r) :
    s'.storage.journeys.get id = some r ∨ ∃ p choice t hand, a = .run p choice ∧ s.threads.get p = some t ∧
      t.journey = id ∧ t.Makes s.config s.storage r hand ∧ s'.storage.journeys.get id = some hand.result := by
  cases Sys.steps_of_step hs with
  | call | lapse => exact .inl hr
  | run hp hf hout =>
    have ht := h.threads _ _ hp
    rw [stepped_storage]
    rcases (Thread.step_of_next ht.placed hf hout).history ht hr with hsame | ⟨hid, hand, hm, -, hnew⟩
    · exact .inl hsame
    · exact .inr ⟨_, _, _, hand, rfl, hp, hid.symm, hm, hnew⟩
  | publish hf _ => exact .inl (get_published hf hr)
  | replay hf _ => exact .inl (get_publish hf.opened hr)

theorem sound_of_reach {s : Sys} {ok : Sys → Action → Prop} (h : Reach Sys.step ok Opening s) : Sound s :=
  h.invariant (fun _ => sound_of_opening) fun _ _ _ hi _ hs => hi.step hs

/-- In every run each write replaces the record it was made of; what is Completed or Dismissed stays as it is, what
Failed changes only by an operator's act; and of the acts on one failure one is written at most, every other one
writing nothing and being refused or failed, or, a Dismiss, told that its Message was dismissed already. -/
theorem writes_of_latest {s : Sys} (h : Reach Sys.step Always Opening s) :
    (∀ w ∈ s.writes, w.was = some w.base) ∧
    (∀ a s', s.step a = some s' → ∀ id r, s.storage.journeys.get id = some r →
      ∃ r', s'.storage.journeys.get id = some r' ∧
        (r' = r ∨ ∃ p choice t hand, a = .run p choice ∧ s.threads.get p = some t ∧
          t.Makes s.config s.storage r hand ∧ r' = hand.result) ∧
        (r.state = .completed ∨ r.state = .dismissed → r' = r) ∧
        (r.state = .failed → r' ≠ r → ∃ p choice t act, a = .run p choice ∧ s.threads.get p = some t ∧
          t.kind = .act act)) ∧
    (s.ends.Pairwise fun e f => e.journey = f.journey → e.wrote = true → f.wrote = true → e.saw ≠ f.saw) ∧
    ∀ e ∈ s.ends, e.wrote = false →
      e.said = .refused ∨ e.said = .failed ∨ e.said = .already ∧ e.act = .act .dismiss := by
  have hsound := sound_of_reach h
  refine ⟨fun w hw => (hsound.writes w hw).1, ?_, hsound.once, hsound.refused⟩
  intro a s' hs id r hr
  rcases hsound.record hs hr with hsame | ⟨p, choice, t, hand, ha, hp, -, hm, hnew⟩
  · exact ⟨r, hsame, .inl rfl, fun _ => rfl, fun _ hne => absurd rfl hne⟩
  · refine ⟨hand.result, hnew, .inr ⟨p, choice, t, hand, ha, hp, hm, rfl⟩, ?_, ?_⟩
    · -- nothing is made of a record that has ended
      intro hended
      have hmade := (hsound.threads p t hp).madeOf hm
      unfold MadeOf at hmade
      split at hmade <;> rcases hended with hended | hended <;> simp_all [Journey.live]
    · intro hfailed _
      have hmade := (hsound.threads p t hp).madeOf hm
      unfold MadeOf at hmade
      split at hmade
      · rename_i act hk
        exact ⟨p, choice, t, act, ha, hp, hk⟩
      · simp [Journey.live, hfailed] at hmade

/-! ### Two operators dismiss one Message -/

/-- A cluster with nothing in it, no destination naming a Correlation. -/
def Sys.unsequenced : Sys where
  config := ⟨fun _ => [], fun _ => 0⟩
  storage := ⟨Table.empty, Table.empty, Numbered.empty, false⟩
  memory := fun _ => []
  threads := Table.empty
  minted := 0
  headed := []
  inside := []
  writes := []
  ends := []

private theorem opening_unsequenced : Opening Sys.unsequenced := ⟨rfl, rfl, rfl, fun _ => rfl, rfl, rfl, rfl, rfl, rfl⟩

/-- A Message is published and fails; two operators' Dismisses are called, and the second reads the Journey once the
first is written. -/
def Sys.dismissedTwice : List Action :=
  [.publish ⟨1, [], false⟩ [⟨none, [(11, some "Out")]⟩], .call 1 0 .send 11, .run 1 (.go true), .run 1 (.go true),
    .run 1 (.go true), .run 1 (.go true), .run 1 (.go true), .run 1 (.sent .failed 1 ⟨1, "send", "refused"⟩),
    .call 2 0 (.act .dismiss) 11, .call 3 1 (.act .dismiss) 11, .run 2 (.go true), .run 2 (.go true), .run 2 (.go true),
    .run 2 (.acts ⟨2, "dismiss", "dismissed"⟩ true), .run 3 (.go true)]

/-- The second Dismiss is told that the Message was dismissed already: answered, not refused. -/
theorem dismissed_already : ∃ s, Reach Sys.step Always Opening s ∧ ∃ e ∈ s.ends, ∃ f ∈ s.ends, e.journey = f.journey ∧
    f.wrote = true ∧ e.wrote = false ∧ e.said ≠ .refused ∧ e.said ≠ .failed := by
  obtain ⟨s, hs, hp⟩ := Reach.exists_of_runWhere Sys.step Always opening_unsequenced Sys.dismissedTwice
    (fun s => decide (∃ e ∈ s.ends, ∃ f ∈ s.ends, e.journey = f.journey ∧
      f.wrote = true ∧ e.wrote = false ∧ e.said ≠ .refused ∧ e.said ≠ .failed)) (by decide +kernel)
  exact ⟨s, hs, of_decide_eq_true hp⟩

/-- In that run the send's failure and the one Dismiss are written, each of the record it replaced. -/
theorem writes_dismissedTwice : ∃ s, Reach Sys.step Always Opening s ∧
    s.writes.map (fun w => w.result.state) = [.dismissed, .failed] ∧ ∀ w ∈ s.writes, w.was = some w.base := by
  obtain ⟨s, hs, hp⟩ := Reach.exists_of_runWhere Sys.step Always opening_unsequenced Sys.dismissedTwice
    (fun s => decide (s.writes.map (fun w => w.result.state) = [.dismissed, .failed])) (by decide +kernel)
  exact ⟨s, hs, of_decide_eq_true hp, (writes_of_latest hs).1⟩

end Cluster
