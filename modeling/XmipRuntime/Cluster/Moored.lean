import XmipRuntime.Cluster.Path

/-!
# What a Retry leaves of the queues

A failure lets go of the places a sequence that skips says, and a Retry takes none of them again: a Message tried again
may wait in a queue it holds no place in.  As long as such a one holds nothing anybody else waits for — none of its own
places, and none of its delivery's — it only waits itself (`Adrift`).  `Seated` is the condition that a Retry is of no
other; in every run whose steps meet it a Journey under way has every place its record names in its queue, or is adrift
(`Moored.held`).
-/

namespace Cluster

open Library Ledger

/-! ### Adrift -/

/-- No place of its own or of its delivery's is in a queue. -/
def LetGo (s : Storage) (id : Nat) (r : Journey) : Prop :=
  ∀ x ∈ s.places.items, x.2.2 ≠ .journey id ∧ ∀ g ∈ r.group, x.2.2 ≠ .delivery g.delivery

instance (s : Storage) (id : Nat) (r : Journey) : Decidable (LetGo s id r) :=
  inferInstanceAs (Decidable (∀ x ∈ s.places.items, x.2.2 ≠ .journey id ∧ ∀ g ∈ r.group, x.2.2 ≠ .delivery g.delivery))

/-- It has taken its places, and no failure left any of its own or of its delivery's. -/
def Adrift (c : Config) (s : Storage) (id : Nat) (r : Journey) : Prop := c.waitsForPlaces id r = false ∧ LetGo s id r

/-- A Retry is of a Message that has every place its record names, or none of its own and of its delivery's; and a turn
is taken of one whose Stream has its places still. -/
def Seated (s : Sys) : Action → Prop
  | .run p (.acts _ _) => ∀ t ∈ s.threads.get p, ∀ base ∈ t.retries,
      (∀ place ∈ base.places t.journey, s.storage.Holds place) ∨ LetGo s.storage t.journey base
  | .run p (.turned _ _ _) => ∀ t ∈ s.threads.get p, ∀ r ∈ s.storage.journeys.get t.journey,
      ∀ place ∈ r.streamPlaces, s.storage.Holds place
  | _ => True

instance (s : Sys) (a : Action) : Decidable (Seated s a) :=
  match a with
  | .run p (.acts _ _) => inferInstanceAs (Decidable (∀ t ∈ s.threads.get p, ∀ base ∈ t.retries,
      (∀ place ∈ base.places t.journey, s.storage.Holds place) ∨ LetGo s.storage t.journey base))
  | .run p (.turned _ _ _) => inferInstanceAs (Decidable (∀ t ∈ s.threads.get p,
      ∀ r ∈ s.storage.journeys.get t.journey, ∀ place ∈ r.streamPlaces, s.storage.Holds place))
  | .run _ (.go _) | .run _ (.sendHere _ _) | .run _ (.sent _ _ _) | .run _ (.turnFailed _) | .run _ (.quit _)
  | .call .. | .lapse _ | .publish .. | .replay _ => .isTrue trivial

section

variable {c : Config} {s : Storage} {k : Nat} {r : Journey}

theorem LetGo.not_own (h : LetGo s k r) (q : Queue) : ¬ s.Holds (q, .journey k) := by
  rintro ⟨n, hn⟩
  exact (h _ hn).1 rfl

theorem LetGo.not_delivery (h : LetGo s k r) {g : GroupDelivery} (hg : r.group = some g) (q : Queue) :
    ¬ s.Holds (q, .delivery g.delivery) := by
  rintro ⟨n, hn⟩
  exact (h _ hn).2 g hg rfl

theorem LetGo.congr {r' : Journey} (h : LetGo s k r) (hg : r'.group = r.group) : LetGo s k r' := by
  unfold LetGo at *
  rwa [hg]

/-- A place taken for neither it nor its delivery. -/
def Spares (k : Nat) (r : Journey) (place : Place) : Prop :=
  place.2 ≠ .journey k ∧ ∀ g ∈ r.group, place.2 ≠ .delivery g.delivery

private theorem LetGo.taken {queued : List Place} (h : LetGo s k r) (hq : ∀ place ∈ queued, Spares k r place) :
    ∀ x ∈ (queued.foldl (takePlace s.twice) s.places).items, Spares k r x.2 := by
  intro x hx
  rcases mem_takePlaces hx with hx | ⟨hx, -⟩
  · exact h x hx
  · exact hq x.2 hx

theorem LetGo.written {h : HandOn} (hl : LetGo s k r) (hq : ∀ place ∈ h.queued, Spares k r place) :
    LetGo (s.written h) k r := by
  intro x hx
  have hx' : x ∈ ((h.queued.foldl (takePlace s.twice) s.places).filter fun x =>
      !h.letsGo (h.journeys s.journeys) x.2).items := hx
  exact hl.taken hq x (Numbered.mem_filter.1 hx').1

theorem LetGo.publish {l : List (Nat × Journey)} {queued : List Place} (hl : LetGo s k r)
    (hq : ∀ place ∈ queued, Spares k r place) : LetGo (s.publish l queued) k r := fun x hx => hl.taken hq x hx

/-- A delivery told its place names it. -/
private theorem mem_groupPlaces_of_told {g : GroupDelivery} (hg : r.group = some g) (hw : waitsForGroup r = false) :
    ∃ q, ((.group q, .delivery g.delivery) : Place) ∈ r.places k := by
  simp only [waitsForGroup, hg, Option.any_some, Option.isNone_eq_false_iff, Option.isSome_iff_exists] at hw
  obtain ⟨q, hq⟩ := hw
  refine ⟨q, mem_places.2 (.inr (.inl ?_))⟩
  obtain ⟨delivery, queue, skips⟩ := g
  simp only at hq
  subst hq
  simp [Journey.groupPlaces, hg]

theorem waitsForGroup_of_placed (h : c.waitsForPlaces k r = false) : waitsForGroup r = false := by
  unfold Config.waitsForPlaces at h
  simp only [Bool.or_eq_false_iff] at h
  exact h.1

/-- What a Journey just opened takes is nobody else's. -/
theorem Newborn.spares {received : Option Received} {x : (Nat × Journey) × List Place} (hnew : Newborn s received x)
    (hr : s.journeys.get k = some r) {place : Place} (hp : place ∈ x.2) : Spares k r place := by
  rcases hnew.taken place hp with hm | ⟨g, hg, hm⟩
  · rw [Spares, hm]
    refine ⟨?_, by simp⟩
    intro heq
    have := hnew.fresh
    rw [show x.1.1 = k by simpa using heq, hr] at this
    cases this
  · rw [Spares, hm]
    refine ⟨by simp, ?_⟩
    intro g' hg' heq
    rw [Option.mem_def] at hg'
    refine hnew.delivery g hg k r hr ?_
    simp only [hg', Option.map_some, Option.some.injEq]
    simpa using heq.symm

end

/-! ### What a hand-on does to one adrift -/

section

variable {c : Config} {s : Storage} {headed : List Place} {strict : Prop} {t : Thread} {base : Journey} {h : HandOn}

/-- A Journey that has taken its places takes no more. -/
theorem Thread.Makes.kept (hm : t.Makes c s base h) (hw : c.waitsForPlaces t.journey base = false) :
    h.result.group = base.group ∧ h.result.sequences = base.sequences := by
  cases hm with
  | late _ hw' => rw [hw] at hw'; cases hw'
  | acted => rename_i act _ _ _; cases act <;> exact ⟨rfl, rfl⟩
  | sent | turned | turnFailed | moved => exact ⟨rfl, rfl⟩

/-- One that fails has taken its places. -/
theorem Thread.Makes.placed_of_failed (hm : t.Makes c s base h) (ht : t.Sound c s) (hh : t.Heading c headed)
    (hf : h.result.state = .failed) : c.waitsForPlaces t.journey h.result = false := by
  have hplaced : c.waitsForPlaces t.journey base = false → c.waitsForPlaces t.journey h.result = false := by
    intro hw
    obtain ⟨hgroup, hseq⟩ := hm.kept hw
    rw [waitsForPlaces_congr hgroup hseq, hw]
  have hnot : t.isAct = false → base.state ≠ .failed := by
    intro hact heq
    have hlive := ht.live hact base hm.carried
    simp [Journey.live, heq] at hlive
  cases hm with
  | sent _ hs => exact hplaced (hh.placed base (hs.imp (fun h => h) fun h => h.2))
  | turned _ hs => exact hplaced (hh.placed base (.inl hs))
  | turnFailed _ hs => exact hplaced (hh.placed base (.inl hs))
  | acted => rename_i act _ _ _; cases act <;> cases hf
  | late hs =>
    have hp := ht.placed
    simp only [Thread.Placed, hs] at hp
    have hf' : (c.takenLate t.journey base).1.state = .failed := hf
    rw [takenLate_state] at hf'
    exact absurd hf' (hnot hp)
  | moved hk => exact absurd hf (hnot (by unfold Thread.isAct; rw [hk]))

/-- What a hand-on takes is no place of one adrift. -/
theorem Thread.Makes.spares (hm : t.Makes c s base h) (hl : Lined c headed strict (view s))
    (hbase : s.journeys.get t.journey = some base) {k : Nat} {r : Journey} (hr : s.journeys.get k = some r)
    (ha : Adrift c s k r) : ∀ place ∈ h.queued, Spares k r place := by
  intro place hp
  cases hm with
  | sent | turnFailed | moved => cases hp
  | acted => cases hp
  | turned _ _ _ hf =>
    obtain ⟨x, hx, hp⟩ := List.mem_flatMap.1 hp
    exact (newborn_following hf x hx).spares hr hp
  | late _ hw =>
    have hne : t.journey ≠ k := by
      rintro rfl
      rw [hbase] at hr
      cases hr
      rw [ha.1] at hw
      cases hw
    have hp' : place ∈ (c.takenLate t.journey base).2 := hp
    unfold Config.takenLate at hp'
    split at hp'
    · -- its delivery's, which has none of its places let go of while a Journey of it waits
      rename_i hwait
      obtain ⟨g, hg, hq⟩ := (Option.any_eq_true _ _).1 hwait
      obtain ⟨g', hg', hm⟩ := (groupPlaced_spec c t.journey base).2.2.2.2.1 place hp'
      rw [hg] at hg'
      cases hg'
      rw [Spares, hm]
      refine ⟨by simp, ?_⟩
      intro g' hg' heq
      rw [Option.mem_def] at hg'
      obtain ⟨q, hnamed⟩ := mem_groupPlaces_of_told (k := k) hg' (waitsForGroup_of_placed ha.1)
      have hheld := (hl.waiting t.journey base g hbase hg (by simpa using hq)).2.2 _ ⟨k, r, hr, hnamed⟩ heq.symm
      exact ha.2.not_delivery hg' _ hheld
    · obtain ⟨sequenced, -, rfl⟩ := List.mem_map.1 hp'
      exact ⟨by simpa using hne, by simp⟩

end

/-! ### The records and the queues -/

/-- Every place a record still keeps is in its queue, or it is adrift: as in `Ordered`, with those tried again.  One that
failed has taken its places. -/
structure Moored (c : Config) (s : Storage) : Prop where
  own : ∀ id r, s.journeys.get id = some r → keeps r = true →
    Adrift c s id r ∨ ∀ place ∈ r.pointPlaces id, s.Holds place
  shared : ∀ j r k r', s.journeys.get j = some r → s.journeys.get k = some r' → ∀ place ∈ r'.places k,
    r.openFor place.2 = true → Adrift c s j r ∨ s.Holds place
  whole : ∀ place, s.Holds place → Member.shared place.2 → ∀ k r, s.journeys.get k = some r → ∀ place' ∈ r.places k,
    place'.2 = place.2 → s.Holds place'
  streams : ∀ j k r r' a b, s.journeys.get j = some r → s.journeys.get k = some r' → r.received = some a →
    r'.received = some b → a.origin = b.origin → a = b
  placed : ∀ id r, s.journeys.get id = some r → r.state = .failed → c.waitsForPlaces id r = false

section

variable {c : Config} {s : Storage} {headed : List Place} {strict : Prop}

/-- A Journey under way has every place its record names, or is adrift. -/
theorem Moored.held (hm : Moored c s) {id : Nat} {r : Journey} (hr : s.journeys.get id = some r) (hl : r.live = true) :
    Adrift c s id r ∨ ∀ place ∈ r.places id, s.Holds place := by
  by_cases ha : Adrift c s id r
  · exact .inl ha
  · refine .inr ?_
    intro place hp
    have hk := keeps_of_live hl
    rcases mem_places.1 hp with hp' | hp' | hp'
    · obtain ⟨received, -, hmem⟩ := mem_streamPlaces hp'
      exact (hm.shared id r id r hr hr place hp (openFor_of_keeps hk hp (by rw [hmem]; trivial))).resolve_left ha
    · obtain ⟨g, -, hmem, -⟩ := mem_groupPlaces hp'
      exact (hm.shared id r id r hr hr place hp (openFor_of_keeps hk hp (by rw [hmem]; trivial))).resolve_left ha
    · exact (hm.own id r hr hk).resolve_left ha place hp'

/-- Where the Stream of a Journey has its places, every Journey of that Stream names only places that are there. -/
private theorem Moored.held_of_stream (hm : Moored c s) {j : Nat} {base : Journey} (hbase : s.journeys.get j = some base)
    (hs : ∀ place ∈ base.streamPlaces, s.Holds place) {a : Received} (ha : base.received = some a) {k : Nat} {r : Journey}
    (hr : s.journeys.get k = some r) {place : Place} (hp : place ∈ r.places k) (hpm : place.2 = .origin a.origin) :
    s.Holds place := by
  rcases mem_places.1 hp with hp' | hp' | hp'
  · obtain ⟨b, hb, hpb⟩ := mem_streamPlaces hp'
    rw [hpm] at hpb
    have heq : a = b := hm.streams j k base r a b hbase hr ha hb (by simpa using hpb)
    refine hs place ?_
    rw [streamPlaces_congr (show base.received = r.received by rw [ha, hb, heq])]
    exact hp'
  · obtain ⟨g, -, hpg, -⟩ := mem_groupPlaces hp'
    rw [hpm] at hpg; cases hpg
  · rw [(mem_pointPlaces hp').1] at hpm; cases hpm

variable {t : Thread} {base : Journey} {h : HandOn} {newly : List ((Nat × Journey) × List Place)}

/-- Who is adrift is so after a hand-on of another's record, and of its own. -/
private theorem adrift_written (hmake : t.Makes c s base h) (hl : Lined c headed strict (view s))
    (hbase : s.journeys.get t.journey = some base) {k : Nat} {r : Journey} (hr : s.journeys.get k = some r)
    (ha : Adrift c s k r) :
    Adrift c (s.written h) k r ∧ (k = t.journey → Adrift c (s.written h) k h.result) := by
  have hgone := ha.2.written (hmake.spares hl hbase hr ha)
  refine ⟨⟨ha.1, hgone⟩, ?_⟩
  rintro rfl
  rw [hbase] at hr
  cases hr
  obtain ⟨hgroup, hseq⟩ := hmake.kept ha.1
  exact ⟨by rw [waitsForPlaces_congr hgroup hseq, ha.1], hgone.congr hgroup⟩

/-- A place named before a hand-on of a holder that a Journey after it is open for was held before it, unless that one is
adrift. -/
private theorem Moored.old_held (hm : Moored c s) (hmake : t.Makes c s base h) (hl : Lined c headed strict (view s))
    (hbase : s.journeys.get t.journey = some base) (hc : Change s t.journey base h newly)
    (hstream : h.next ≠ [] → ∀ place ∈ base.streamPlaces, s.Holds place) {i : Nat} {r : Journey}
    (hr : (h.journeys s.journeys).get i = some r) {place : Place} (hopen : r.openFor place.2 = true) {k : Nat}
    {r' : Journey} (hr' : s.journeys.get k = some r') (hp : place ∈ r'.places k) :
    Adrift c (s.written h) i r ∨ s.Holds place := by
  rcases hc.records hr with ⟨hold, -⟩ | ⟨rfl, rfl⟩ | ⟨x, hx, heq⟩
  · exact (hm.shared i r k r' hold hr' place hp hopen).imp_left fun ha => (adrift_written hmake hl hbase hold ha).1
  · rcases hc.opens _ hopen with hb | hw
    · exact (hm.shared _ base k r' hbase hr' place hp hb).imp_left fun ha =>
        (adrift_written hmake hl hbase hbase ha).2 rfl
    · refine .inr (held_of_whole hm.streams hm.whole hbase hw ?_ hr' hp)
      obtain ⟨skips, hs⟩ := sharedBy_iff.1 (sharedBy_of_openFor hopen)
      exact sharedBy_iff.2 ⟨skips, hc.shared ▸ hs⟩
  · obtain ⟨hnew, -, -⟩ := hc.newborn x hx
    have hx2 : x.1.2 = r := by rw [heq]
    have hnext : h.next ≠ [] := by
      rw [hc.next]
      exact List.ne_nil_of_mem (List.mem_map_of_mem hx)
    rcases sharedBy_of_openFor hopen with ⟨a, ha, hpm⟩ | ⟨g, hg, hpm⟩
    · rw [← hx2, hnew.received] at ha
      exact .inr (hm.held_of_stream hbase (hstream hnext) ha hr' hp hpm)
    · exact absurd hp (hnew.not_named (hx2 ▸ hg) hpm hr')

theorem Moored.written (hm : Moored c s) (hmake : t.Makes c s base h) (ht : t.Sound c s) (hh : t.Heading c headed)
    (hl : Lined c headed strict (view s)) (hbase : s.journeys.get t.journey = some base)
    (hc : Change s t.journey base h newly)
    (hstream : h.next ≠ [] → ∀ place ∈ base.streamPlaces, s.Holds place) : Moored c (s.written h) := by
  have hrecords : (s.written h).journeys = h.journeys s.journeys := rfl
  refine ⟨?_, ?_, ?_, ?_, ?_⟩
  · intro id r hr hk
    rw [hrecords] at hr
    rcases hc.records hr with ⟨hold, hne⟩ | ⟨rfl, rfl⟩ | ⟨x, hx, heq⟩
    · rcases hm.own id r hold hk with ha | hheld
      · exact .inl (adrift_written hmake hl hbase hold ha).1
      · exact .inr fun place hp =>
          hc.own_kept (fun hid => absurd hid hne) (mem_pointPlaces hp).1 (.inl (hheld place hp))
    · have hkept : (∀ place ∈ base.pointPlaces t.journey, s.Holds place) →
          ∀ place ∈ h.result.pointPlaces t.journey, (s.written h).Holds place := by
        intro hheld place hp
        refine hc.own_kept (fun _ => hc.leaves hk) (mem_pointPlaces hp).1 ?_
        rcases hc.named place (mem_places.2 (.inr (.inr hp))) with hp' | hp'
        · exact .inl (hheld place (own_of_places hp' (mem_pointPlaces hp).1).2)
        · exact .inr hp'
      rcases hc.held hk with hb | hw
      · rcases hm.own _ base hbase hb with ha | hheld
        · exact .inl ((adrift_written hmake hl hbase hbase ha).2 rfl)
        · exact .inr (hkept hheld)
      · exact .inr (hkept fun place hp => hw.1 place (mem_places.2 (.inr (.inr hp))))
    · refine .inr ?_
      intro place hp
      obtain ⟨hq, hne⟩ := hc.newborn_own hbase hx (by rw [heq]; exact hp)
      rw [show x.1.1 = id by rw [heq]] at hne
      exact hc.own_kept (fun hid => absurd hid hne) (mem_pointPlaces hp).1 (.inr hq)
  · intro i r k r' hr hr' place hp hopen
    rw [hrecords] at hr hr'
    have hgo : h.letsGo (h.journeys s.journeys) place = false := not_letsGo_of_open hr hopen
    rcases hc.old_named hbase hr' hp with hq | ⟨k', r'', hr'', hp''⟩
    · exact .inr (written_holds.2 ⟨.inr hq, hgo⟩)
    · exact (hm.old_held hmake hl hbase hc hstream hr hopen hr'' hp'').imp_right
        fun hheld => written_holds.2 ⟨.inl hheld, hgo⟩
  · intro place hplace hs k r hr place' hp hpm
    rw [hrecords] at hr
    obtain ⟨hheld, hgo⟩ := written_holds.1 hplace
    refine written_holds.2 ⟨?_, letsGo_congr hs hpm hgo⟩
    rcases hc.old_named hbase hr hp with hq | ⟨k', r', hr', hp'⟩
    · exact .inr hq
    · refine .inl ?_
      rcases hheld with hheld | hq
      · exact hm.whole place hheld hs k' r' hr' place' hp' hpm
      · rcases hc.queued place hq with ⟨hj, -⟩ | ⟨hlive, g, hg, hd⟩ | ⟨x, hx, hxp⟩
        · rw [hj] at hs; exact hs.elim
        · -- one whose delivery takes its place now is not adrift
          refine (hm.shared _ base k' r' hbase hr' place' hp'
            (by rw [hpm]; exact SharedBy.openFor (.inr ⟨g, hg, hd⟩) hlive)).resolve_left fun ha => ?_
          exact ((hmake.spares hl hbase hbase ha) place hq).2 g hg hd
        · obtain ⟨hnew, -⟩ := hc.newborn x hx
          rcases hnew.taken place hxp with hj | ⟨g, hg, hd⟩
          · rw [hj] at hs; exact hs.elim
          · exact absurd hp' (hnew.not_named hg (hpm.trans hd) hr')
  · intro i k r r' a b hr hr' ha hb heq
    rw [hrecords] at hr hr'
    obtain ⟨i', r₁, h₁, hr₁⟩ := hc.old_stream hbase hr
    obtain ⟨k', r₂, h₂, hr₂⟩ := hc.old_stream hbase hr'
    exact hm.streams i' k' r₁ r₂ a b h₁ h₂ (hr₁.trans ha) (hr₂.trans hb) heq
  · intro id r hr hf
    rw [hrecords] at hr
    rcases hc.records hr with ⟨hold, -⟩ | ⟨rfl, rfl⟩ | ⟨x, hx, heq⟩
    · exact hm.placed id r hold hf
    · exact hmake.placed_of_failed ht hh hf
    · have hlive := (hc.newborn x hx).1.live
      rw [heq] at hlive
      simp [Journey.live, hf] at hlive

/-- A Retry of one that let go of its places sets it adrift, the queues as they were. -/
theorem Moored.retried (hm : Moored c s) (hbase : s.journeys.get t.journey = some base) (hf : base.state = .failed)
    (hlet : LetGo s t.journey base) (entry : JourneyEntry) : Moored c (s.written (t.actHandOn base .retry entry)) := by
  have hrecords : ∀ {id r}, (s.written (t.actHandOn base .retry entry)).journeys.get id = some r →
      id ≠ t.journey ∧ s.journeys.get id = some r ∨
        id = t.journey ∧ r = { base.append entry .active with attempts := 0 } := by
    intro id r hr
    have hr' : (s.journeys.put t.journey { base.append entry .active with attempts := 0 }).get id = some r := hr
    rw [Table.get_put] at hr'
    split at hr'
    · rename_i hid
      cases hr'
      exact .inr ⟨hid, rfl⟩
    · rename_i hid
      exact .inl ⟨hid, hr'⟩
  -- its record is open for whatever it shares, so nothing is let go of
  have hholds : ∀ place, (s.written (t.actHandOn base .retry entry)).Holds place ↔ s.Holds place := by
    intro place
    rw [written_holds]
    have hqueued : (t.actHandOn base .retry entry).queued = [] := rfl
    have hgo : (t.actHandOn base .retry entry).letsGo
        ((t.actHandOn base .retry entry).journeys s.journeys) place = false := by
      by_cases hopen : (t.actHandOn base .retry entry).result.openFor place.2 = true
      · have hself : ((t.actHandOn base .retry entry).journeys s.journeys).get t.journey =
            some (t.actHandOn base .retry entry).result := Table.get_put_self ..
        exact not_letsGo_of_open hself hopen
      · have hnot : ((t.actHandOn base .retry entry).result.shared.any fun x => decide (x.1 = place.2)) = false := by
          rw [Bool.eq_false_iff]
          intro hany
          obtain ⟨x, hx, hxm⟩ := List.any_eq_true.1 hany
          refine hopen (SharedBy.openFor (sharedBy_iff.2 ⟨x.2, ?_⟩) rfl)
          rw [← of_decide_eq_true hxm]
          exact hx
        unfold HandOn.letsGo
        rw [hnot]
        simp [Thread.actHandOn]
    simp [hqueued, hgo]
  have hgone : ∀ {k r}, LetGo s k r → LetGo (s.written (t.actHandOn base .retry entry)) k r :=
    fun hl => hl.written fun place hp => by cases hp
  have hadrift : Adrift c (s.written (t.actHandOn base .retry entry)) t.journey
      { base.append entry .active with attempts := 0 } :=
    ⟨hm.placed _ base hbase hf, (hgone hlet).congr rfl⟩
  -- a record names what one before it did
  have hnamed : ∀ {id r}, (s.written (t.actHandOn base .retry entry)).journeys.get id = some r →
      ∃ r', s.journeys.get id = some r' ∧ r'.received = r.received ∧ r'.places id = r.places id := by
    intro id r hr
    rcases hrecords hr with ⟨-, hold⟩ | ⟨rfl, rfl⟩
    · exact ⟨r, hold, rfl, rfl⟩
    · exact ⟨base, hbase, rfl, rfl⟩
  refine ⟨?_, ?_, ?_, ?_, ?_⟩
  · intro id r hr hk
    rcases hrecords hr with ⟨-, hold⟩ | ⟨rfl, rfl⟩
    · exact (hm.own id r hold hk).imp (fun ha => ⟨ha.1, hgone ha.2⟩)
        fun hheld place hp => (hholds place).2 (hheld place hp)
    · exact .inl hadrift
  · intro i r k r' hr hr' place hp hopen
    obtain ⟨r'', hr'', -, hplaces⟩ := hnamed hr'
    rw [← hplaces] at hp
    rcases hrecords hr with ⟨-, hold⟩ | ⟨rfl, rfl⟩
    · exact (hm.shared i r k r'' hold hr'' place hp hopen).imp (fun ha => ⟨ha.1, hgone ha.2⟩) (hholds place).2
    · exact .inl hadrift
  · intro place hplace hs k r hr place' hp hpm
    obtain ⟨r', hr', -, hplaces⟩ := hnamed hr
    rw [← hplaces] at hp
    exact (hholds place').2 (hm.whole place ((hholds place).1 hplace) hs k r' hr' place' hp hpm)
  · intro i k r r' a b hr hr' ha hb heq
    obtain ⟨r₁, h₁, hrec, -⟩ := hnamed hr
    obtain ⟨r₂, h₂, hrec', -⟩ := hnamed hr'
    exact hm.streams i k r₁ r₂ a b h₁ h₂ (hrec.trans ha) (hrec'.trans hb) heq
  · intro id r hr hf'
    rcases hrecords hr with ⟨-, hold⟩ | ⟨rfl, rfl⟩
    · exact hm.placed id r hold hf'
    · cases hf'

/-- Journeys opened with the places they take. -/
theorem Moored.publish {received : Option Received} {queued : List Place} (hm : Moored c s)
    (hb : Birth s received newly queued) : Moored c (s.publish (newly.map Prod.fst) queued) := by
  have hspares : ∀ {k r}, s.journeys.get k = some r → ∀ place ∈ queued, Spares k r place := by
    intro k r hr place hp
    rcases hb.queued place hp with ⟨x, hx, hxp⟩ | ⟨a, -, hpm⟩
    · exact (hb.newborn x hx).spares hr hxp
    · rw [Spares, hpm]
      simp
  have hadrift : ∀ {k r}, s.journeys.get k = some r → Adrift c s k r →
      Adrift c (s.publish (newly.map Prod.fst) queued) k r := fun hr ha => ⟨ha.1, ha.2.publish (hspares hr)⟩
  refine ⟨?_, ?_, ?_, ?_, ?_⟩
  · intro id r hr hk
    rcases Birth.records hr with hold | ⟨x, hx, heq⟩
    · refine (hm.own id r hold hk).imp (hadrift hold) ?_
      exact fun hheld place hp => publish_holds.2 (.inl (hheld place hp))
    · refine .inr ?_
      intro place hp
      refine publish_holds.2 (.inr ?_)
      rcases (hb.newborn x hx).named place (by rw [heq]; exact mem_places.2 (.inr (.inr hp))) with hp' | hp'
      · exact hb.streams x hx place hp'
      · exact hb.taken x hx place hp'
  · intro i r k r' hr hr' place hp hopen
    rcases hb.old_named hr' hp with hq | hold'
    · exact .inr (publish_holds.2 (.inr hq))
    · rcases Birth.records hr with hold | ⟨x, hx, heq⟩
      · exact (hm.shared i r k r' hold hold' place hp hopen).imp (hadrift hold) fun hh => publish_holds.2 (.inl hh)
      · exact absurd hp (hb.not_shared hx (heq ▸ hopen) hold')
  · exact hb.together hm.whole
  · exact hb.one_stream hm.streams
  · intro id r hr hf
    rcases Birth.records hr with hold | ⟨x, hx, heq⟩
    · exact hm.placed id r hold hf
    · have hlive := (hb.newborn x hx).live
      rw [heq] at hlive
      simp [Journey.live, hf] at hlive

end

/-! ### Every run -/

/-- The claims are nothing the queues depend on. -/
private theorem Moored.congr {c : Config} {s s' : Storage} (h : Moored c s) (hj : s'.journeys = s.journeys)
    (hp : s'.places = s.places) : Moored c s' := by
  have hh : ∀ place, s'.Holds place ↔ s.Holds place := fun place => by unfold Storage.Holds; rw [hp]
  have ha : ∀ {id r}, Adrift c s id r → Adrift c s' id r := by
    intro id r ha
    unfold Adrift LetGo at *
    rwa [hp]
  refine ⟨?_, ?_, ?_, ?_, ?_⟩
  · intro id r hr hk
    exact (h.own id r (hj ▸ hr) hk).imp ha fun hheld place hpl => (hh place).2 (hheld place hpl)
  · intro j r k r' hr hr' place hpl hopen
    exact (h.shared j r k r' (hj ▸ hr) (hj ▸ hr') place hpl hopen).imp ha (hh place).2
  · intro place hpl hs k r hr place' hp' hm
    exact (hh place').2 (h.whole place ((hh place).1 hpl) hs k r (hj ▸ hr) place' hp' hm)
  · intro j k r r' a b hr hr'
    exact h.streams j k r r' a b (hj ▸ hr) (hj ▸ hr')
  · exact fun id r hr => h.placed id r (hj ▸ hr)

theorem moored_of_opening {s : Sys} (h : Opening s) : Moored s.config s.storage := by
  have hget : ∀ id, s.storage.journeys.get id = none := fun id => by unfold Table.get; rw [h.journeys]; rfl
  refine ⟨?_, ?_, ?_, ?_, ?_⟩
  · intro id r hr; rw [hget] at hr; cases hr
  · intro j r k r' hr; rw [hget] at hr; cases hr
  · rintro place ⟨n, hn⟩; rw [h.places] at hn; cases hn
  · intro j k r r' a b hr; rw [hget] at hr; cases hr
  · intro id r hr; rw [hget] at hr; cases hr

section

variable {strict : Prop} {s : Sys} {p : Nat} {t : Thread} {out : Out} {choice : Choice} {base : Journey} {hand : HandOn}

/-- What a turn that publishes finds of its Stream. -/
private theorem Seated.streams (h : Seated s (.run p choice)) (hp : s.threads.get p = some t)
    (hf : choice.Fresh s.storage.journeys)
    (hout : t.next s.config s.storage (s.memory t.node) choice = some out) (he : out.effect = .handOn base hand)
    (hmake : t.Makes s.config s.storage base hand) (hbase : s.storage.journeys.get t.journey = some base)
    (hnext : hand.next ≠ []) : ∀ place ∈ base.streamPlaces, s.storage.Holds place := by
  cases hmake with
  | sent | turnFailed | acted | late | moved => exact absurd rfl hnext
  | turned hk hs =>
    rcases turned_of_next hf hout he hk hs with ⟨process, heq⟩ | ⟨state, published, process, -, -, rfl⟩
    · rw [heq] at hnext
      exact absurd rfl hnext
    · exact h t (by rw [hp]; rfl) base hbase

/-- What a Retry finds of its Message: every place of it, or none of its own and of its delivery's. -/
private theorem Seated.retry (h : Seated s (.run p choice)) (hp : s.threads.get p = some t)
    (hout : t.next s.config s.storage (s.memory t.node) choice = some out) (he : out.effect = .handOn base hand) :
    ∀ r ∈ t.retries, (∀ place ∈ r.places t.journey, s.storage.Holds place) ∨ LetGo s.storage t.journey r := by
  intro r hr
  obtain ⟨entry, answered, rfl⟩ := acts_of_retries hout hr he
  exact h t (by rw [hp]; rfl) r hr

private theorem Moored.stepped (hm : Moored s.config s.storage) (hi : InPath strict s) (hok : Seated s (.run p choice))
    (hp : s.threads.get p = some t) (hf : choice.Fresh s.storage.journeys)
    (hout : t.next s.config s.storage (s.memory t.node) choice = some out) :
    Moored s.config (s.stepped p t out).storage := by
  have ht := hi.sound.threads p t hp
  have hstep := Thread.step_of_next ht.placed hf hout
  rw [stepped_storage]
  rcases effect_cases s.storage out.effect with ⟨hj, hplaces⟩ | ⟨base, hand, he, hc, hst⟩
  · exact hm.congr hj hplaces
  · have hmake := hstep.makes he
    rw [hmake.journey, hmake.token] at hc
    have hbase := ht.makes hmake hc
    rw [hst]
    -- a hand-on that sets nothing adrift
    have hchange : (∀ r ∈ t.retries, Whole s.storage t.journey r) → Moored s.config (s.storage.written hand) := by
      intro hwhole
      obtain ⟨newly, hch⟩ := hmake.change ht hwhole
      exact hm.written hmake ht (hi.threads p t hp).2 hi.lined hbase hch (hok.streams hp hf hout he hmake hbase)
    by_cases hr : t.retries = none
    · exact hchange (by simp [hr])
    · obtain ⟨r, hr⟩ := Option.ne_none_iff_exists'.1 hr
      have hkind : t.kind = .act .retry ∧ t.stage = .taken r := by
        unfold Thread.retries at hr
        split at hr
        · rename_i hk hs
          cases hr
          exact ⟨hk, hs⟩
        · cases hr
      obtain ⟨hk, hs⟩ := hkind
      have heq : r = base := by
        have := hmake.carried
        rw [hs] at this
        simpa [Stage.base] using this
      subst heq
      have hfailed : r.state = .failed := by
        refine ht.failed (by unfold Thread.isAct; rw [hk]) r ?_
        unfold Thread.seen
        rw [hs]
      rcases hok.retry hp hout he r hr with hheld | hlet
      · refine hchange ?_
        intro r' hr'
        rw [hr] at hr'
        cases hr'
        exact ⟨hheld, waitsForGroup_of_placed (hm.placed _ r hbase hfailed)⟩
      · cases hmake with
        | acted hk' =>
          rw [hk] at hk'
          cases hk'
          exact hm.retried hbase hfailed hlet _
        | sent hk' | turned hk' | turnFailed hk' | moved hk' => rw [hk] at hk'; cases hk'
        | late hs' => rw [hs] at hs'; cases hs'

theorem Moored.step {s' : Sys} {a : Action} (hm : Moored s.config s.storage) (hi : InPath strict s) (hok : Seated s a)
    (hs : s.step a = some s') : Moored s'.config s'.storage := by
  cases Sys.steps_of_step hs with
  | call hp => exact hm
  | run hp hf hout =>
    rw [stepped_config]
    exact hm.stepped hi hok hp hf hout
  | lapse => exact hm.congr rfl rfl
  | publish hf ho =>
    rename_i received routed
    obtain ⟨heq, hst⟩ := s.publish_storage received routed
    rw [heq]
    rcases hst with hst | hst
    · rw [hst]; exact hm
    · rw [hst]
      exact hm.publish (birth_published hf ho)
  | replay hf _ =>
    rename_i routed _
    have heq : (((opened none routed).map fun x => (x, ([] : List Place))).map Prod.fst) = opened none routed := by
      simp [Function.comp_def]
    have := hm.publish (birth_replayed hf)
    rw [heq] at this
    exact this

end

/-- In every run whose steps meet `Seated` a Journey under way has all its places, or is adrift. -/
theorem moored_of_seated {s : Sys} (h : Reach Sys.step Seated Opening s) : Moored s.config s.storage := by
  have hboth : InPath False s ∧ Moored s.config s.storage := by
    induction h with
    | start hs => exact ⟨inPath_of_opening hs, moored_of_opening hs⟩
    | next _ hok hs ih => exact ⟨ih.1.step (fun hf => hf.elim) hs, ih.2.step ih.1 hok hs⟩
  exact hboth.2

end Cluster
