import XmipRuntime.Cluster.Writes

/-!
# Records and queues kept in step

Every write keeps the records and the queues of the sequences in step (`Ordered`), as long as a Retry is only of a
Message whose places are all in their queues still: what a record that keeps its places names is there, a place Journeys
share stays until the last of them has ended, and its holder is let go of everywhere at once.  What a hand-on does to a
record is said once, in `Change`, and what a Publication does in `Birth`.
-/

namespace Cluster

open Library Ledger

/-! ### What a record keeps -/

/-- Whether no failure has let go of a place of it: it has not ended and, failed, no sequence of it skips a failure. -/
def keeps (r : Journey) : Bool :=
  match r.state with
  | .active | .recovering | .waiting => true
  | .completed | .dismissed => false
  | .failed => !r.sequences.any Sequenced.skips && !r.received.any Received.skips && !r.group.any GroupDelivery.skips

/-- The record a Retry is about to write. -/
def Thread.retries (t : Thread) : Option Journey :=
  match t.kind, t.stage with
  | .act .retry, .taken base => some base
  | _, _ => none

/-- Every place `r` names is in its queue, its delivery's among them. -/
def Whole (s : Storage) (id : Nat) (r : Journey) : Prop :=
  (∀ place ∈ r.places id, s.Holds place) ∧ waitsForGroup r = false

instance (s : Storage) (id : Nat) (r : Journey) : Decidable (Whole s id r) :=
  inferInstanceAs (Decidable ((∀ place ∈ r.places id, s.Holds place) ∧ waitsForGroup r = false))

/-! ### Holders -/

/-- A holder Journeys share: a Stream or a delivery. -/
def Member.shared : Member → Prop
  | .journey _ => False
  | _ => True

theorem mem_places {id : Nat} {r : Journey} {place : Place} :
    place ∈ r.places id ↔ place ∈ r.streamPlaces ∨ place ∈ r.groupPlaces ∨ place ∈ r.pointPlaces id := by
  simp [Journey.places]

theorem mem_streamPlaces {r : Journey} {place : Place} (h : place ∈ r.streamPlaces) :
    ∃ received, r.received = some received ∧ place.2 = .origin received.origin := by
  unfold Journey.streamPlaces at h
  split at h
  · cases h
  · rename_i received hr
    obtain ⟨q, -, rfl⟩ := List.mem_map.1 h
    exact ⟨received, hr, rfl⟩

theorem mem_groupPlaces {r : Journey} {place : Place} (h : place ∈ r.groupPlaces) :
    ∃ g, r.group = some g ∧ place.2 = .delivery g.delivery ∧ ∃ q, g.queue = some q ∧ place.1 = .group q := by
  unfold Journey.groupPlaces at h
  split at h
  · rename_i delivery q skips hg
    simp only [List.mem_singleton] at h
    exact ⟨_, hg, by rw [h], q, rfl, by rw [h]⟩
  · cases h

theorem mem_pointPlaces {id : Nat} {r : Journey} {place : Place} (h : place ∈ r.pointPlaces id) :
    place.2 = .journey id ∧ ∃ sequenced ∈ r.sequences, place.1 = .point sequenced.queue := by
  obtain ⟨sequenced, hs, rfl⟩ := List.mem_map.1 h
  exact ⟨rfl, sequenced, hs, rfl⟩

/-- A place named by a record is its own only by its own identifier. -/
theorem own_of_places {id j : Nat} {r : Journey} {place : Place} (h : place ∈ r.places id) (hj : place.2 = .journey j) :
    id = j ∧ place ∈ r.pointPlaces id := by
  rcases mem_places.1 h with h | h | h
  · obtain ⟨received, -, hm⟩ := mem_streamPlaces h
    rw [hj] at hm; cases hm
  · obtain ⟨g, -, hm, -⟩ := mem_groupPlaces h
    rw [hj] at hm; cases hm
  · have hm := (mem_pointPlaces h).1
    rw [hj] at hm
    cases hm
    exact ⟨rfl, h⟩

/-- A place in a point's queue is its Journey's own. -/
theorem member_of_point {id : Nat} {r : Journey} {place : Place} (h : place ∈ r.places id) {key : Nat}
    (hq : place.1 = .point key) : place.2 = .journey id := by
  rcases mem_places.1 h with h | h | h
  · unfold Journey.streamPlaces at h
    split at h
    · cases h
    · obtain ⟨q, -, rfl⟩ := List.mem_map.1 h
      cases hq
  · obtain ⟨g, -, -, q, -, hq'⟩ := mem_groupPlaces h
    rw [hq] at hq'; cases hq'
  · exact (mem_pointPlaces h).1

/-- A record that keeps its places is open for every holder it names a place of. -/
theorem openFor_of_keeps {id : Nat} {r : Journey} (hk : keeps r = true) {place : Place} (h : place ∈ r.places id)
    (hm : Member.shared place.2) : r.openFor place.2 = true := by
  unfold Journey.openFor Journey.shared
  unfold keeps at hk
  rcases mem_places.1 h with h | h | h
  · obtain ⟨received, hr, hp⟩ := mem_streamPlaces h
    rw [List.any_eq_true]
    refine ⟨(.origin received.origin, received.skips), by simp [hr], ?_⟩
    rw [hp]
    unfold Journey.isOpen
    split at hk <;> simp_all
  · obtain ⟨g, hg, hp, -⟩ := mem_groupPlaces h
    rw [List.any_eq_true]
    refine ⟨(.delivery g.delivery, g.skips), by simp [hg], ?_⟩
    rw [hp]
    unfold Journey.isOpen
    split at hk <;> simp_all
  · rw [(mem_pointPlaces h).1] at hm
    exact hm.elim

theorem keeps_of_live {r : Journey} (h : r.live = true) : keeps r = true := by
  unfold Journey.live at h
  unfold keeps
  split at h <;> simp_all

/-! ### Journeys as they are opened -/

/-- A Journey just opened, with the places it takes: its identifier and its delivery are nobody's yet, it came in as
`received`, and every place it names is its Stream's or taken now. -/
structure Newborn (s : Storage) (received : Option Received) (x : (Nat × Journey) × List Place) : Prop where
  fresh : s.journeys.get x.1.1 = none
  live : x.1.2.live = true
  received : x.1.2.received = received
  delivery : ∀ g, x.1.2.group = some g → ∀ k r, s.journeys.get k = some r →
    r.group.map GroupDelivery.delivery ≠ some g.delivery
  named : ∀ place ∈ x.1.2.places x.1.1, place ∈ x.1.2.streamPlaces ∨ place ∈ x.2
  taken : ∀ place ∈ x.2, place.2 = .journey x.1.1 ∨ ∃ g, x.1.2.group = some g ∧ place.2 = .delivery g.delivery

/-- A Journey as it is opened, before any place of it is taken. -/
private theorem newborn_opening {s : Storage} {received : Option Received} {routed : List Routed}
    (hf : Fresh s.journeys routed) {x : Nat × Journey} (hx : x ∈ opened received routed) :
    Newborn s received (x, []) := by
  have hfresh := hf.opened x hx
  obtain ⟨one, hone, j, hj, rfl⟩ := mem_opened hx
  refine ⟨hfresh, rfl, rfl, ?_, ?_, by simp⟩
  · intro g hg k r hr heq
    simp only [opening, Option.map_eq_some_iff] at hg
    obtain ⟨y, hy, rfl⟩ := hg
    refine hf.2.2.2 y.1 ?_ (k, r) (Table.mem_iff_get.2 hr) heq
    exact List.mem_filterMap.2 ⟨one, hone, by simp [hy]⟩
  · intro place hplace
    rcases mem_places.1 hplace with h | h | h
    · exact .inl h
    · obtain ⟨g, hg, -, q, hq, -⟩ := mem_groupPlaces h
      simp only [opening, Option.map_eq_some_iff] at hg
      obtain ⟨y, -, rfl⟩ := hg
      cases hq
    · simp [opening, Journey.pointPlaces] at h

theorem groupPlaced_spec (c : Config) (id : Nat) (r : Journey) :
    (c.groupPlaced id r).1.received = r.received ∧ (c.groupPlaced id r).1.sequences = r.sequences ∧
    (c.groupPlaced id r).1.shared = r.shared ∧
    (c.groupPlaced id r).1.groupPlaces = r.groupPlaces ++ (c.groupPlaced id r).2 ∧
    (∀ place ∈ (c.groupPlaced id r).2, ∃ g, r.group = some g ∧ place.2 = .delivery g.delivery) ∧
    (∀ g, (c.groupPlaced id r).1.group = some g → ∃ g', r.group = some g' ∧ g'.delivery = g.delivery) := by
  unfold Config.groupPlaced
  split
  · rename_i delivery skips hg
    refine ⟨rfl, rfl, ?_, ?_, ?_, ?_⟩
    · simp [Journey.shared, hg]
    · simp [Journey.groupPlaces, hg]
    · simp [hg]
    · rintro g hg'
      cases hg'
      exact ⟨_, hg, rfl⟩
  · exact ⟨rfl, rfl, rfl, by simp, by simp, fun g hg => ⟨g, hg, rfl⟩⟩

theorem streamPlaces_congr {r r' : Journey} (h : r.received = r'.received) : r.streamPlaces = r'.streamPlaces := by
  unfold Journey.streamPlaces; rw [h]

theorem groupPlaces_congr {r r' : Journey} (h : r.group = r'.group) : r.groupPlaces = r'.groupPlaces := by
  unfold Journey.groupPlaces; rw [h]

/-- One whose every place is taken in the write that opens it. -/
private theorem newborn_placed {s : Storage} {received : Option Received} (c : Config) {x : Nat × Journey}
    (h : Newborn s received (x, [])) :
    Newborn s received ((x.1, (c.places x.1 x.2).1), (c.places x.1 x.2).2) := by
  obtain ⟨hrec, hseq, -, hgroup, hplace, hdel⟩ := groupPlaced_spec c x.1 x.2
  have hnamed : ∀ place ∈ x.2.places x.1, place ∈ x.2.streamPlaces := by
    intro place hp
    rcases h.named place hp with hp | hp
    · exact hp
    · cases hp
  refine ⟨h.fresh, ?_, ?_, ?_, ?_, ?_⟩
  · simpa [Config.places, Config.placed, Journey.live] using h.live
  · simpa [Config.places, Config.placed] using hrec.trans h.received
  · intro g hg
    obtain ⟨g', hg', heq⟩ := hdel g hg
    rw [← heq]
    exact h.delivery g' hg'
  · intro place hp
    rcases mem_places.1 hp with hp | hp | hp
    · exact .inl hp
    · change place ∈ (c.groupPlaced x.1 x.2).1.groupPlaces at hp
      rw [hgroup] at hp
      rcases List.mem_append.1 hp with hp | hp
      · -- a delivery's place is not taken before its Journeys are
        obtain ⟨received', -, hm⟩ := mem_streamPlaces (hnamed place (mem_places.2 (.inr (.inl hp))))
        obtain ⟨g, -, hm', -⟩ := mem_groupPlaces hp
        rw [hm] at hm'; cases hm'
      · exact .inr (List.mem_append_left _ hp)
    · refine .inr (List.mem_append_right _ ?_)
      have hseq' : x.2.sequences = [] := by
        cases hq : x.2.sequences with
        | nil => rfl
        | cons q qs =>
          have hp' : ((.point q.queue, .journey x.1) : Place) ∈ x.2.pointPlaces x.1 := by
            simp [Journey.pointPlaces, hq]
          obtain ⟨received', -, hm⟩ := mem_streamPlaces (hnamed _ (mem_places.2 (.inr (.inr hp'))))
          cases hm
      simpa [Config.places, Config.placed, Journey.pointPlaces, hseq, hseq'] using hp
  · intro place hp
    rcases List.mem_append.1 hp with hp | hp
    · obtain ⟨g, hg, hm⟩ := hplace place hp
      refine .inr ?_
      unfold Config.places Config.placed Config.groupPlaced at *
      split at hp
      · rename_i delivery skips hg'
        rw [hg'] at hg
        cases hg
        exact ⟨_, rfl, hm⟩
      · cases hp
    · obtain ⟨sequenced, -, rfl⟩ := List.mem_map.1 hp
      exact .inl rfl

theorem newborn_following {s : Storage} {c : Config} {received : Option Received} {routed : List Routed}
    (hf : Fresh s.journeys routed) : ∀ x ∈ following c received routed, Newborn s received x := by
  intro x hx
  obtain ⟨y, hy, rfl⟩ := mem_following hx
  exact newborn_placed c (newborn_opening hf hy)

theorem newborn_published {s : Storage} {c : Config} {received : Received} {routed : List Routed}
    (hf : Fresh s.journeys routed) : ∀ x ∈ c.published received routed, Newborn s (some received) x := by
  intro x hx
  unfold Config.published at hx
  split at hx
  · exact newborn_following hf x hx
  · obtain ⟨y, hy, rfl⟩ := List.mem_map.1 hx
    exact newborn_opening hf hy

/-! ### What a hand-on changes of its record -/

theorem isOpen_of_live {r : Journey} (h : r.live = true) (skips : Bool) : r.isOpen skips = true := by
  unfold Journey.live at h
  unfold Journey.isOpen
  split at h <;> simp_all

/-- One under way is open for every holder it shares. -/
theorem openFor_of_live {r r' : Journey} (h : r.live = true) (hs : r'.shared = r.shared) {m : Member}
    (hm : r'.openFor m = true) : r.openFor m = true := by
  unfold Journey.openFor at *
  rw [hs, List.any_eq_true] at hm
  rw [List.any_eq_true]
  obtain ⟨x, hx, hxm⟩ := hm
  simp only [Bool.and_eq_true, decide_eq_true_eq] at hxm
  exact ⟨x, hx, by simp [hxm.1, isOpen_of_live h]⟩

/-- What the hand-on `h`, made of the record `base` of the Journey `j`, changes, with the Journeys it opens, `newly`: it
keeps every holder, it names only places it named or takes, it leaves none it still keeps; and where it is open for a
holder its record was, or every place of that record is in its queue. -/
structure Change (s : Storage) (j : Nat) (base : Journey) (h : HandOn) (newly : List ((Nat × Journey) × List Place)) :
    Prop where
  journey : h.journey = j
  received : h.result.received = base.received
  shared : h.result.shared = base.shared
  grows : ∀ place ∈ base.places j, place ∈ h.result.places j
  named : ∀ place ∈ h.result.places j, place ∈ base.places j ∨ place ∈ h.queued
  leaves : keeps h.result = true → h.leaves = []
  held : keeps h.result = true → keeps base = true ∨ Whole s j base
  opens : ∀ m, h.result.openFor m = true → base.openFor m = true ∨ Whole s j base
  next : h.next = newly.map Prod.fst
  newborn : ∀ x ∈ newly, Newborn s base.received x ∧ (∀ place ∈ x.2, place ∈ h.queued) ∧ base.live = true
  queued : ∀ place ∈ h.queued, place.2 = .journey j ∧ base.sequences = [] ∨
    (base.live = true ∧ ∃ g, base.group = some g ∧ place.2 = .delivery g.delivery) ∨ ∃ x ∈ newly, place ∈ x.2

private theorem change_of_append {s : Storage} {j : Nat} {base : Journey} {h : HandOn}
    (newly : List ((Nat × Journey) × List Place)) (hj : h.journey = j) (hlive : base.live = true)
    (hreceived : h.result.received = base.received) (hgroup : h.result.group = base.group)
    (hseq : h.result.sequences = base.sequences) (hleaves : keeps h.result = true → h.leaves = []) (hnext : h.next = newly.map Prod.fst)
    (hnewborn : ∀ x ∈ newly, Newborn s base.received x) (hqueued : h.queued = newly.flatMap Prod.snd) :
    Change s j base h newly := by
  have hshared : h.result.shared = base.shared := by unfold Journey.shared; rw [hreceived, hgroup]
  have hplaces : h.result.places j = base.places j := by
    unfold Journey.places Journey.pointPlaces
    rw [streamPlaces_congr hreceived, groupPlaces_congr hgroup, hseq]
  refine ⟨hj, hreceived, hshared, ?_, ?_, hleaves, ?_, ?_, hnext, ?_, ?_⟩
  · exact fun place hp => hplaces ▸ hp
  · exact fun place hp => .inl (hplaces ▸ hp)
  · exact fun _ => .inl (keeps_of_live hlive)
  · exact fun m hm => .inl (openFor_of_live hlive hshared hm)
  · intro x hx
    refine ⟨hnewborn x hx, ?_, hlive⟩
    intro place hp
    rw [hqueued]
    exact List.mem_flatMap.2 ⟨x, hx, hp⟩
  · intro place hp
    rw [hqueued] at hp
    exact .inr (.inr (List.mem_flatMap.1 hp))

theorem change_of_late {s : Storage} {c : Config} {t : Thread} {base : Journey} (hlive : base.live = true)
    (hw : c.waitsForPlaces t.journey base = true) : Change s t.journey base (t.lateHandOn c base) [] := by
  obtain ⟨hrec, hseq, hshared, hgroup, hplace, -⟩ := groupPlaced_spec c t.journey base
  have hlate : (t.lateHandOn c base).result.live = true := by
    simpa [Thread.lateHandOn, Journey.live] using hlive
  have hsh : (t.lateHandOn c base).result.shared = base.shared := by
    show (c.takenLate t.journey base).1.shared = base.shared
    unfold Config.takenLate
    split
    · exact hshared
    · rfl
  have hnamed : ∀ place, place ∈ (t.lateHandOn c base).result.places t.journey ↔
      place ∈ base.places t.journey ∨ place ∈ (t.lateHandOn c base).queued := by
    intro place
    rw [mem_places, mem_places]
    show place ∈ (c.takenLate t.journey base).1.streamPlaces ∨ place ∈ (c.takenLate t.journey base).1.groupPlaces ∨
      place ∈ (c.takenLate t.journey base).1.pointPlaces t.journey ↔ _ ∨ place ∈ (c.takenLate t.journey base).2
    unfold Config.takenLate
    split
    · rw [streamPlaces_congr hrec, hgroup]
      unfold Journey.pointPlaces
      rw [hseq, List.mem_append]
      tauto
    · have hs : base.streamPlaces = (c.placed t.journey base).1.streamPlaces := streamPlaces_congr rfl
      have hg : base.groupPlaces = (c.placed t.journey base).1.groupPlaces := groupPlaces_congr rfl
      rw [← hs, ← hg]
      simp only [Config.placed, Journey.pointPlaces, List.map_append, List.mem_append]
      tauto
  refine ⟨rfl, ?_, hsh, ?_, ?_, fun _ => rfl, ?_, ?_, rfl, by simp, ?_⟩
  · show (c.takenLate t.journey base).1.received = base.received
    unfold Config.takenLate
    split
    · exact hrec
    · rfl
  · exact fun place hp => (hnamed place).2 (.inl hp)
  · exact fun place hp => (hnamed place).1 hp
  · exact fun _ => .inl (keeps_of_live hlive)
  · exact fun m hm => .inl (openFor_of_live hlive hsh hm)
  · intro place hp
    have hp' : place ∈ (c.takenLate t.journey base).2 := hp
    unfold Config.takenLate at hp'
    split at hp'
    · obtain ⟨g, hg, hm⟩ := hplace place hp'
      exact .inr (.inl ⟨hlive, g, hg, hm⟩)
    · rename_i hgrp
      obtain ⟨sequenced, -, rfl⟩ := List.mem_map.1 hp'
      refine .inl ⟨rfl, ?_⟩
      simp only [Config.waitsForPlaces, hgrp, Bool.false_or, Bool.and_eq_true, List.isEmpty_iff] at hw
      exact hw.1

/-- Every hand-on a thread makes is such a change, a Retry where its places are all in their queues. -/
theorem Thread.Makes.change {s : Storage} {c : Config} {t : Thread} {base : Journey} {h : HandOn}
    (hm : t.Makes c s base h) (ht : t.Sound c s) (hwhole : ∀ r ∈ t.retries, Whole s t.journey r) :
    ∃ newly, Change s t.journey base h newly := by
  have hlive : t.isAct = false → base.live = true := fun hact => ht.live hact base hm.carried
  cases hm with
  | sent hk =>
    rename_i state attempts entry _ _
    have hact : t.isAct = false := by unfold Thread.isAct; rw [hk]
    refine ⟨[], change_of_append [] rfl (hlive hact) rfl rfl rfl ?_ rfl (by simp) rfl⟩
    intro hkeep
    cases state <;> simp_all [Thread.sendHandOn, Journey.append, keeps]
  | turned hk _ _ hf =>
    rename_i state published process _ _
    have hact : t.isAct = false := by unfold Thread.isAct; rw [hk]
    refine ⟨following c base.received published,
      change_of_append _ rfl (hlive hact) rfl rfl rfl ?_ rfl (newborn_following hf) rfl⟩
    intro hkeep
    cases state <;> simp_all [Thread.turnHandOn, keeps]
    intro a ha
    exact hkeep.1.1 a (List.mem_of_mem_head? ha)
  | turnFailed hk =>
    have hact : t.isAct = false := by unfold Thread.isAct; rw [hk]
    exact ⟨[], change_of_append [] rfl (hlive hact) rfl rfl rfl (fun _ => rfl) rfl (by simp) rfl⟩
  | acted hk hs =>
    rename_i act entry
    cases act with
    | retry =>
      have hw : Whole s t.journey base := hwhole base (by simp [Thread.retries, hk, hs])
      exact ⟨[], rfl, rfl, rfl, fun _ hp => hp, fun _ hp => .inl hp, fun _ => rfl, fun _ => .inr hw, fun _ _ => .inr hw,
        rfl, by simp, by simp [Thread.actHandOn]⟩
    | dismiss =>
      have hkeeps : keeps (t.actHandOn base .dismiss entry).result = false := rfl
      refine ⟨[], rfl, rfl, rfl, fun _ hp => hp, fun _ hp => .inl hp, ?_, ?_, ?_, rfl, by simp, by simp [Thread.actHandOn]⟩
      · intro hkeep; rw [hkeeps] at hkeep; cases hkeep
      · intro hkeep; rw [hkeeps] at hkeep; cases hkeep
      · intro m hm
        simp [Thread.actHandOn, Journey.append, Journey.openFor, Journey.isOpen] at hm
  | late hs hw =>
    refine ⟨[], change_of_late (hlive ?_) hw⟩
    have hp := ht.placed
    simpa only [Thread.Placed, hs] using hp
  | moved hk =>
    have hact : t.isAct = false := by unfold Thread.isAct; rw [hk]
    exact ⟨[], change_of_append [] rfl (hlive hact) rfl rfl rfl (fun _ => rfl) rfl (by simp) rfl⟩

/-- A Retry writes only as an act is taken. -/
theorem acts_of_retries {c : Config} {s : Storage} {known : List Place} {t : Thread} {choice : Choice} {out : Out}
    (h : t.next c s known choice = some out) {r : Journey} (hr : t.retries = some r) {base : Journey} {hand : HandOn}
    (he : out.effect = .handOn base hand) : ∃ entry answered, choice = .acts entry answered := by
  unfold Thread.retries at hr
  split at hr
  · rename_i hk hs
    unfold Thread.next at h
    split at h
    · cases h
      simp only at he
      split at he <;> cases he
    · cases h; cases he
    · cases h
    · rename_i choice' _ _ _ _
      simp only [Thread.goOn, hs, Thread.fromTaken, hk] at h
      cases choice' with
      | acts entry answered => exact ⟨entry, answered, rfl⟩
      | go | sendHere | sent | turned | turnFailed | quit => cases h
  · cases hr

/-! ### The records and the queues kept in step -/

/-- Every place a record still keeps is in its queue: its own; one it shares, as long as any Journey holds it open; and a
holder is let go of everywhere at once.  The Journeys of one Stream came in as one. -/
structure Ordered (s : Storage) : Prop where
  own : ∀ id r, s.journeys.get id = some r → keeps r = true → ∀ place ∈ r.pointPlaces id, s.Holds place
  shared : ∀ j r k r', s.journeys.get j = some r → s.journeys.get k = some r' → ∀ place ∈ r'.places k,
    r.openFor place.2 = true → s.Holds place
  whole : ∀ place, s.Holds place → Member.shared place.2 → ∀ k r, s.journeys.get k = some r → ∀ place' ∈ r.places k,
    place'.2 = place.2 → s.Holds place'
  streams : ∀ j k r r' a b, s.journeys.get j = some r → s.journeys.get k = some r' → r.received = some a →
    r'.received = some b → a.origin = b.origin → a = b

/-- `m` is a holder `r` shares: its Stream or its delivery. -/
def SharedBy (r : Journey) (m : Member) : Prop :=
  (∃ received, r.received = some received ∧ m = .origin received.origin) ∨
    ∃ g, r.group = some g ∧ m = .delivery g.delivery

theorem sharedBy_iff {r : Journey} {m : Member} : SharedBy r m ↔ ∃ skips, (m, skips) ∈ r.shared := by
  unfold SharedBy Journey.shared
  simp only [List.mem_append, List.mem_map, Option.mem_toList, Prod.mk.injEq]
  constructor
  · rintro (⟨received, hr, rfl⟩ | ⟨g, hg, rfl⟩)
    · exact ⟨received.skips, .inl ⟨received, by simpa using hr, rfl, rfl⟩⟩
    · exact ⟨g.skips, .inr ⟨g, by simpa using hg, rfl, rfl⟩⟩
  · rintro ⟨skips, ⟨received, hr, rfl, -⟩ | ⟨g, hg, rfl, -⟩⟩
    · exact .inl ⟨received, by simpa using hr, rfl⟩
    · exact .inr ⟨g, by simpa using hg, rfl⟩

theorem sharedBy_of_openFor {r : Journey} {m : Member} (h : r.openFor m = true) : SharedBy r m := by
  unfold Journey.openFor at h
  rw [List.any_eq_true] at h
  obtain ⟨x, hx, hm⟩ := h
  simp only [Bool.and_eq_true, decide_eq_true_eq] at hm
  exact sharedBy_iff.2 ⟨x.2, by rw [← hm.1]; exact hx⟩

theorem SharedBy.openFor {r : Journey} {m : Member} (h : SharedBy r m) (hl : r.live = true) : r.openFor m = true := by
  obtain ⟨skips, hs⟩ := sharedBy_iff.1 h
  unfold Journey.openFor
  rw [List.any_eq_true]
  exact ⟨_, hs, by simp [isOpen_of_live hl]⟩

theorem SharedBy.shared {r : Journey} {m : Member} (h : SharedBy r m) : Member.shared m := by
  rcases h with ⟨_, -, rfl⟩ | ⟨_, -, rfl⟩ <;> trivial

/-- Every place a record that keeps its places names is in its queue. -/
theorem Ordered.held {s : Storage} (h : Ordered s) {id : Nat} {r : Journey} (hr : s.journeys.get id = some r)
    (hk : keeps r = true) : ∀ place ∈ r.places id, s.Holds place := by
  intro place hp
  rcases mem_places.1 hp with hp' | hp' | hp'
  · obtain ⟨received, -, hm⟩ := mem_streamPlaces hp'
    exact h.shared id r id r hr hr place hp (openFor_of_keeps hk hp (by rw [hm]; trivial))
  · obtain ⟨g, -, hm, -⟩ := mem_groupPlaces hp'
    exact h.shared id r id r hr hr place hp (openFor_of_keeps hk hp (by rw [hm]; trivial))
  · exact h.own id r hr hk place hp'

theorem get_foldl_put_cases {l : List (Nat × Journey)} {t : Table Nat Journey} {id : Nat} {r : Journey}
    (h : (l.foldl (fun t x => t.put x.1 x.2) t).get id = some r) : (id, r) ∈ l ∨ t.get id = some r := by
  induction l generalizing t with
  | nil => exact .inr h
  | cons x l ih =>
    rcases ih h with h | h
    · exact .inl (List.mem_cons_of_mem _ h)
    · rw [Table.get_put] at h
      split at h
      · rename_i hid
        simp only [Option.some.injEq] at h
        rw [hid, ← h]
        exact .inl (List.mem_cons_self ..)
      · exact .inr h

/-- The records after a hand-on: those there were, the one it was made of, and those it opened. -/
theorem Change.records {s : Storage} {j : Nat} {base : Journey} {h : HandOn} {newly : List ((Nat × Journey) × List Place)}
    (hc : Change s j base h newly) {id : Nat} {r : Journey} (hr : (h.journeys s.journeys).get id = some r) :
    s.journeys.get id = some r ∧ id ≠ j ∨ id = j ∧ r = h.result ∨ ∃ x ∈ newly, x.1 = (id, r) := by
  unfold HandOn.journeys at hr
  rcases get_foldl_put_cases hr with hr | hr
  · rw [hc.next] at hr
    obtain ⟨x, hx, heq⟩ := List.mem_map.1 hr
    exact .inr (.inr ⟨x, hx, heq⟩)
  · rw [Table.get_put, hc.journey] at hr
    split at hr
    · rename_i hid
      simp only [Option.some.injEq] at hr
      exact .inr (.inl ⟨hid, hr.symm⟩)
    · rename_i hid
      exact .inl ⟨hr, hid⟩

/-- A hand-on lets go of no place a Journey after it is open for. -/
theorem not_letsGo_of_open {journeys : Table Nat Journey} {h : HandOn} {id : Nat} {r : Journey}
    (hr : journeys.get id = some r) {place : Place} (ho : r.openFor place.2 = true) :
    h.letsGo journeys place = false := by
  have hshared := (sharedBy_of_openFor ho).shared
  have hclosed : closed journeys place.2 = false := by
    unfold closed
    rw [Bool.eq_false_iff]
    intro hall
    have := List.all_eq_true.1 hall (id, r) (Table.mem_iff_get.2 hr)
    simp [ho] at this
  unfold HandOn.letsGo
  rw [hclosed]
  simp only [Bool.and_false, Bool.or_false, Bool.and_eq_false_iff, decide_eq_false_iff_not]
  refine .inl ?_
  intro hm
  rw [hm] at hshared
  exact hshared

/-- A holder Journeys share is let go of in all its queues or in none. -/
theorem letsGo_congr {journeys : Table Nat Journey} {h : HandOn} {place place' : Place} (hs : Member.shared place.2)
    (hm : place'.2 = place.2) (hg : h.letsGo journeys place = false) : h.letsGo journeys place' = false := by
  unfold HandOn.letsGo at *
  rw [hm]
  have hne : place.2 ≠ .journey h.journey := by
    intro heq
    rw [heq] at hs
    exact hs
  simpa [hne] using hg

section

variable {s : Storage} {j : Nat} {base : Journey} {h : HandOn} {newly : List ((Nat × Journey) × List Place)}

/-- What a record after a hand-on names: a place it takes, or one a record before it named. -/
theorem Change.old_named (hc : Change s j base h newly) (hbase : s.journeys.get j = some base) {k : Nat}
    {r : Journey} (hr : (h.journeys s.journeys).get k = some r) {place : Place} (hp : place ∈ r.places k) :
    place ∈ h.queued ∨ ∃ k' r', s.journeys.get k' = some r' ∧ place ∈ r'.places k' := by
  rcases hc.records hr with ⟨hold, -⟩ | ⟨rfl, rfl⟩ | ⟨x, hx, heq⟩
  · exact .inr ⟨k, r, hold, hp⟩
  · rcases hc.named place hp with hp | hp
    · exact .inr ⟨_, base, hbase, hp⟩
    · exact .inl hp
  · obtain ⟨hnew, hq, -⟩ := hc.newborn x hx
    have hp' : place ∈ x.1.2.places x.1.1 := by rw [heq]; exact hp
    rcases hnew.named place hp' with hp' | hp'
    · rw [streamPlaces_congr hnew.received] at hp'
      exact .inr ⟨j, base, hbase, mem_places.2 (.inl hp')⟩
    · exact .inl (hq place hp')

/-- Every record's Stream is one there was. -/
theorem Change.old_stream (hc : Change s j base h newly) (hbase : s.journeys.get j = some base) {i : Nat} {r : Journey}
    (hr : (h.journeys s.journeys).get i = some r) : ∃ i' r', s.journeys.get i' = some r' ∧ r'.received = r.received := by
  rcases hc.records hr with ⟨hold, -⟩ | ⟨rfl, rfl⟩ | ⟨x, hx, hxeq⟩
  · exact ⟨i, r, hold, rfl⟩
  · exact ⟨_, base, hbase, hc.received.symm⟩
  · refine ⟨j, base, hbase, ?_⟩
    rw [← (hc.newborn x hx).1.received, hxeq]

/-- A Journey's own place is let go of by no hand-on but its own. -/
theorem Change.own_kept (hc : Change s j base h newly) {id : Nat} (hleaves : id = j → h.leaves = []) {place : Place}
    (hm : place.2 = .journey id) (hheld : s.Holds place ∨ place ∈ h.queued) : (s.written h).Holds place := by
  have hshared : (h.result.shared.any fun x => decide (x.1 = place.2)) = false := by
    rw [Bool.eq_false_iff]
    intro hany
    obtain ⟨x, hx, hxm⟩ := List.any_eq_true.1 hany
    have := (sharedBy_iff.2 ⟨x.2, hx⟩).shared
    rw [of_decide_eq_true hxm, hm] at this
    exact this
  rw [written_holds, HandOn.letsGo, hshared, hc.journey, hm]
  refine ⟨hheld, ?_⟩
  by_cases hid : id = j
  · simp [hleaves hid]
  · simp [hid]

/-- One just opened takes its own places in the hand-on, and is not the Journey it is made of. -/
theorem Change.newborn_own (hc : Change s j base h newly) (hbase : s.journeys.get j = some base)
    {x : (Nat × Journey) × List Place} (hx : x ∈ newly) {place : Place} (hp : place ∈ x.1.2.pointPlaces x.1.1) :
    place ∈ h.queued ∧ x.1.1 ≠ j := by
  obtain ⟨hnew, hq, -⟩ := hc.newborn x hx
  refine ⟨hq place ?_, ?_⟩
  · rcases hnew.named place (mem_places.2 (.inr (.inr hp))) with hp' | hp'
    · obtain ⟨_, -, hm'⟩ := mem_streamPlaces hp'
      rw [(mem_pointPlaces hp).1] at hm'; cases hm'
    · exact hp'
  · rintro rfl
    have := hnew.fresh
    rw [hbase] at this
    cases this

/-- Where every place a record names is in its queue, so is every place any record names of a holder it shares. -/
theorem held_of_whole
    (hstreams : ∀ j k r r' a b, s.journeys.get j = some r → s.journeys.get k = some r' → r.received = some a →
      r'.received = some b → a.origin = b.origin → a = b)
    (htogether : ∀ place, s.Holds place → Member.shared place.2 → ∀ k r, s.journeys.get k = some r →
      ∀ place' ∈ r.places k, place'.2 = place.2 → s.Holds place')
    (hbase : s.journeys.get j = some base) (hw : Whole s j base) {place : Place} (hm : SharedBy base place.2) {k : Nat}
    {r : Journey} (hr : s.journeys.get k = some r) (hp : place ∈ r.places k) : s.Holds place := by
  rcases hm with ⟨received, hrec, hm⟩ | ⟨g, hg, hm⟩
  · rcases mem_places.1 hp with hp' | hp' | hp'
    · obtain ⟨received', hrec', hm'⟩ := mem_streamPlaces hp'
      rw [hm] at hm'
      have heq : received = received' := hstreams j k base r _ _ hbase hr hrec hrec' (by simpa using hm')
      refine hw.1 place (mem_places.2 (.inl ?_))
      rw [streamPlaces_congr (show base.received = r.received by rw [hrec, hrec', heq])]
      exact hp'
    · obtain ⟨g, -, hm', -⟩ := mem_groupPlaces hp'
      rw [hm] at hm'; cases hm'
    · rw [(mem_pointPlaces hp').1] at hm; cases hm
  · have hq := hw.2
    simp only [waitsForGroup, hg, Option.any_some, Option.isNone_eq_false_iff, Option.isSome_iff_exists] at hq
    obtain ⟨q, hq⟩ := hq
    have hmem : ((.group q, .delivery g.delivery) : Place) ∈ base.places j := by
      refine mem_places.2 (.inr (.inl ?_))
      obtain ⟨delivery, queue, skips⟩ := g
      simp only at hq
      subst hq
      simp [Journey.groupPlaces, hg]
    exact htogether _ (hw.1 _ hmem) trivial k r hr place hp hm

/-- A delivery just told its Journeys has no place in any record before it. -/
theorem Newborn.not_named {received : Option Received} {x : (Nat × Journey) × List Place}
    (hnew : Newborn s received x) {g : GroupDelivery} (hg : x.1.2.group = some g) {place : Place}
    (hm : place.2 = .delivery g.delivery) {k : Nat} {r : Journey} (hr : s.journeys.get k = some r) :
    place ∉ r.places k := by
  intro hp
  rcases mem_places.1 hp with hp' | hp' | hp'
  · obtain ⟨_, -, hm'⟩ := mem_streamPlaces hp'
    rw [hm] at hm'; cases hm'
  · obtain ⟨g', hg', hm', -⟩ := mem_groupPlaces hp'
    rw [hm] at hm'
    refine hnew.delivery g hg k r hr ?_
    simp only [hg', Option.map_some, Option.some.injEq]
    simpa using hm'.symm
  · rw [(mem_pointPlaces hp').1] at hm; cases hm

/-- Where a Journey after a hand-on is open for a holder that a record before it names a place of, that place was held
before it. -/
private theorem Change.old_held (hc : Change s j base h newly) (ho : Ordered s) (hbase : s.journeys.get j = some base)
    {i : Nat} {r : Journey} (hr : (h.journeys s.journeys).get i = some r) {place : Place}
    (hopen : r.openFor place.2 = true) {k : Nat} {r' : Journey} (hr' : s.journeys.get k = some r')
    (hp : place ∈ r'.places k) : s.Holds place := by
  rcases hc.records hr with ⟨hold, -⟩ | ⟨rfl, rfl⟩ | ⟨x, hx, heq⟩
  · exact ho.shared i r k r' hold hr' place hp hopen
  · rcases hc.opens _ hopen with hb | hw
    · exact ho.shared _ base k r' hbase hr' place hp hb
    · refine held_of_whole ho.streams ho.whole hbase hw ?_ hr' hp
      obtain ⟨skips, hs⟩ := sharedBy_iff.1 (sharedBy_of_openFor hopen)
      exact sharedBy_iff.2 ⟨skips, hc.shared ▸ hs⟩
  · obtain ⟨hnew, -, hlive⟩ := hc.newborn x hx
    have hx2 : x.1.2 = r := by rw [heq]
    rcases sharedBy_of_openFor hopen with ⟨received, hrec, hm⟩ | ⟨g, hg, hm⟩
    · rw [← hx2, hnew.received] at hrec
      exact ho.shared j base k r' hbase hr' place hp (SharedBy.openFor (.inl ⟨received, hrec, hm⟩) hlive)
    · exact absurd hp (hnew.not_named (hx2 ▸ hg) hm hr')

theorem Ordered.written (ho : Ordered s) (hc : Change s j base h newly) (hbase : s.journeys.get j = some base) :
    Ordered (s.written h) := by
  have hrecords : (s.written h).journeys = h.journeys s.journeys := rfl
  refine ⟨?_, ?_, ?_, ?_⟩
  · intro id r hr hk place hp
    rw [hrecords] at hr
    have hm := (mem_pointPlaces hp).1
    rcases hc.records hr with ⟨hold, hne⟩ | ⟨rfl, rfl⟩ | ⟨x, hx, heq⟩
    · exact hc.own_kept (fun hid => absurd hid hne) hm (.inl (ho.own id r hold hk place hp))
    · refine hc.own_kept (fun _ => hc.leaves hk) hm ?_
      rcases hc.named place (mem_places.2 (.inr (.inr hp))) with hp' | hp'
      · refine .inl ?_
        rcases hc.held hk with hb | hw
        · exact ho.held hbase hb place hp'
        · exact hw.1 place hp'
      · exact .inr hp'
    · obtain ⟨hq, hne⟩ := hc.newborn_own hbase hx (by rw [heq]; exact hp)
      rw [show x.1.1 = id by rw [heq]] at hne
      exact hc.own_kept (fun hid => absurd hid hne) hm (.inr hq)
  · intro i r k r' hr hr' place hp hopen
    rw [hrecords] at hr hr'
    refine written_holds.2 ⟨?_, not_letsGo_of_open hr hopen⟩
    rcases hc.old_named hbase hr' hp with hq | ⟨k', r'', hr'', hp''⟩
    · exact .inr hq
    · exact .inl (hc.old_held ho hbase hr hopen hr'' hp'')
  · intro place hplace hs k r hr place' hp hm
    rw [hrecords] at hr
    obtain ⟨hheld, hgo⟩ := written_holds.1 hplace
    refine written_holds.2 ⟨?_, letsGo_congr hs hm hgo⟩
    rcases hc.old_named hbase hr hp with hq | ⟨k', r', hr', hp'⟩
    · exact .inr hq
    · refine .inl ?_
      rcases hheld with hheld | hq
      · exact ho.whole place hheld hs k' r' hr' place' hp' hm
      · rcases hc.queued place hq with ⟨hj, -⟩ | ⟨hlive, g, hg, hd⟩ | ⟨x, hx, hxp⟩
        · rw [hj] at hs; exact hs.elim
        · exact ho.shared j base k' r' hbase hr' place' hp' (by rw [hm]; exact SharedBy.openFor (.inr ⟨g, hg, hd⟩) hlive)
        · obtain ⟨hnew, -⟩ := hc.newborn x hx
          rcases hnew.taken place hxp with hj | ⟨g, hg, hd⟩
          · rw [hj] at hs; exact hs.elim
          · exact absurd hp' (hnew.not_named hg (hm.trans hd) hr')
  · intro i k r r' a b hr hr' ha hb heq
    rw [hrecords] at hr hr'
    obtain ⟨i', r₁, h₁, hr₁⟩ := hc.old_stream hbase hr
    obtain ⟨k', r₂, h₂, hr₂⟩ := hc.old_stream hbase hr'
    exact ho.streams i' k' r₁ r₂ a b h₁ h₂ (hr₁.trans ha) (hr₂.trans hb) heq

end

/-! ### A Publication -/

/-- What a Publication or a Replay writes: Journeys just opened, with the places of each and those of their Stream, whose
origin is nobody's yet. -/
structure Birth (s : Storage) (received : Option Received) (newly : List ((Nat × Journey) × List Place))
    (queued : List Place) : Prop where
  newborn : ∀ x ∈ newly, Newborn s received x
  taken : ∀ x ∈ newly, ∀ place ∈ x.2, place ∈ queued
  streams : ∀ x ∈ newly, ∀ place ∈ x.1.2.streamPlaces, place ∈ queued
  queued : ∀ place ∈ queued, (∃ x ∈ newly, place ∈ x.2) ∨ ∃ a, received = some a ∧ place.2 = .origin a.origin
  origin : ∀ a, received = some a → FreshOrigin s.journeys a.origin

section

variable {s : Storage} {received : Option Received} {newly : List ((Nat × Journey) × List Place)} {queued : List Place}

theorem Birth.records {id : Nat} {r : Journey} (hr : (s.publish (newly.map Prod.fst) queued).journeys.get id = some r) :
    s.journeys.get id = some r ∨ ∃ x ∈ newly, x.1 = (id, r) := by
  rcases get_foldl_put_cases hr with hr | hr
  · exact .inr (List.mem_map.1 hr)
  · exact .inl hr

/-- No record before names a place of the Stream. -/
theorem Birth.not_origin (hb : Birth s received newly queued) {a : Received} (ha : received = some a)
    {place : Place} (hm : place.2 = .origin a.origin) {k : Nat} {r : Journey} (hr : s.journeys.get k = some r) :
    place ∉ r.places k := by
  intro hp
  rcases mem_places.1 hp with hp' | hp' | hp'
  · obtain ⟨b, hb', hm'⟩ := mem_streamPlaces hp'
    rw [hm] at hm'
    refine hb.origin a ha (k, r) (Table.mem_iff_get.2 hr) ?_
    simp only [hb', Option.map_some, Option.some.injEq]
    simpa using hm'.symm
  · obtain ⟨g, -, hm', -⟩ := mem_groupPlaces hp'
    rw [hm] at hm'; cases hm'
  · rw [(mem_pointPlaces hp').1] at hm; cases hm

/-- A place taken is one no record before names, unless it is a Journey's own. -/
theorem Birth.not_named (hb : Birth s received newly queued) {place : Place} (hq : place ∈ queued)
    (hs : Member.shared place.2) {place' : Place} (hm : place'.2 = place.2) {k : Nat} {r : Journey}
    (hr : s.journeys.get k = some r) : place' ∉ r.places k := by
  rcases hb.queued place hq with ⟨x, hx, hxp⟩ | ⟨a, ha, hd⟩
  · rcases (hb.newborn x hx).taken place hxp with hj | ⟨g, hg, hd⟩
    · rw [hj] at hs; exact hs.elim
    · exact (hb.newborn x hx).not_named hg (hm.trans hd) hr
  · exact hb.not_origin ha (hm.trans hd) hr

theorem Birth.old_named (hb : Birth s received newly queued) {k : Nat} {r : Journey}
    (hr : (s.publish (newly.map Prod.fst) queued).journeys.get k = some r) {place : Place} (hp : place ∈ r.places k) :
    place ∈ queued ∨ s.journeys.get k = some r := by
  rcases Birth.records hr with hold | ⟨x, hx, heq⟩
  · exact .inr hold
  · refine .inl ?_
    rcases (hb.newborn x hx).named place (by rw [heq]; exact hp) with hp' | hp'
    · exact hb.streams x hx place hp'
    · exact hb.taken x hx place hp'

/-- No record before names a place of what one just opened shares. -/
theorem Birth.not_shared (hb : Birth s received newly queued) {x : (Nat × Journey) × List Place} (hx : x ∈ newly)
    {place : Place} (hopen : x.1.2.openFor place.2 = true) {k : Nat} {r : Journey} (hr : s.journeys.get k = some r) :
    place ∉ r.places k := by
  have hnew := hb.newborn x hx
  rcases sharedBy_of_openFor hopen with ⟨a, ha, hm⟩ | ⟨g, hg, hm⟩
  · rw [hnew.received] at ha
    exact hb.not_origin ha hm hr
  · exact hnew.not_named hg hm hr

/-- A holder in one of its queues is in all still. -/
theorem Birth.together (hb : Birth s received newly queued)
    (htogether : ∀ place, s.Holds place → Member.shared place.2 → ∀ k r, s.journeys.get k = some r →
      ∀ place' ∈ r.places k, place'.2 = place.2 → s.Holds place') :
    ∀ place, (s.publish (newly.map Prod.fst) queued).Holds place → Member.shared place.2 → ∀ k r,
      (s.publish (newly.map Prod.fst) queued).journeys.get k = some r → ∀ place' ∈ r.places k, place'.2 = place.2 →
        (s.publish (newly.map Prod.fst) queued).Holds place' := by
  intro place hplace hs k r hr place' hp hm
  rw [publish_holds] at hplace ⊢
  rcases hb.old_named hr hp with hq | hold
  · exact .inr hq
  · refine .inl ?_
    rcases hplace with hplace | hq
    · exact htogether place hplace hs k r hold place' hp hm
    · exact absurd hp (hb.not_named hq hs hm hold)

/-- The Journeys of one Stream came in as one still. -/
theorem Birth.one_stream (hb : Birth s received newly queued)
    (hstreams : ∀ j k r r' a b, s.journeys.get j = some r → s.journeys.get k = some r' → r.received = some a →
      r'.received = some b → a.origin = b.origin → a = b) :
    ∀ j k r r' a b, (s.publish (newly.map Prod.fst) queued).journeys.get j = some r →
      (s.publish (newly.map Prod.fst) queued).journeys.get k = some r' → r.received = some a → r'.received = some b →
        a.origin = b.origin → a = b := by
  intro i k r r' a b hr hr' ha hb' heq
  have hfresh : ∀ i r c, s.journeys.get i = some r → r.received = some c → ∀ d, received = some d →
      c.origin ≠ d.origin := by
    intro i r c hr hc d hd hcd
    refine hb.origin d hd (i, r) (Table.mem_iff_get.2 hr) ?_
    simp [hc, hcd]
  rcases Birth.records hr with hold | ⟨x, hx, hxeq⟩ <;> rcases Birth.records hr' with hold' | ⟨y, hy, hyeq⟩
  · exact hstreams i k r r' a b hold hold' ha hb' heq
  · have : received = some b := by rw [← (hb.newborn y hy).received, hyeq]; exact hb'
    exact absurd heq (hfresh i r a hold ha b this)
  · have : received = some a := by rw [← (hb.newborn x hx).received, hxeq]; exact ha
    exact absurd heq.symm (hfresh k r' b hold' hb' a this)
  · have h₁ : received = some a := by rw [← (hb.newborn x hx).received, hxeq]; exact ha
    have h₂ : received = some b := by rw [← (hb.newborn y hy).received, hyeq]; exact hb'
    rw [h₁] at h₂
    simpa using h₂

theorem Ordered.publish (ho : Ordered s) (hb : Birth s received newly queued) :
    Ordered (s.publish (newly.map Prod.fst) queued) := by
  refine ⟨?_, ?_, hb.together ho.whole, hb.one_stream ho.streams⟩
  · intro id r hr hk place hp
    rw [publish_holds]
    rcases hb.old_named hr (mem_places.2 (.inr (.inr hp))) with hq | hold
    · exact .inr hq
    · exact .inl (ho.own id r hold hk place hp)
  · intro i r k r' hr hr' place hp hopen
    rw [publish_holds]
    rcases hb.old_named hr' hp with hq | hold'
    · exact .inr hq
    · refine .inl ?_
      rcases Birth.records hr with hold | ⟨x, hx, heq⟩
      · exact ho.shared i r k r' hold hold' place hp hopen
      · exact absurd hp (hb.not_shared hx (heq ▸ hopen) hold')

end

/-- What a Publication writes is such a birth. -/
theorem birth_published {s : Storage} {c : Config} {received : Received} {routed : List Routed}
    (hf : Fresh s.journeys routed) (ho : FreshOrigin s.journeys received.origin) :
    Birth s (some received) (c.published received routed)
      (received.sequences.map (fun q => (.endToEnd q, .origin received.origin)) ++
        (c.published received routed).flatMap Prod.snd) where
  newborn := newborn_published hf
  taken := fun x hx place hp => List.mem_append_right _ (List.mem_flatMap.2 ⟨x, hx, hp⟩)
  streams := by
    intro x hx place hp
    refine List.mem_append_left _ ?_
    have hr := (newborn_published hf x hx).received
    unfold Journey.streamPlaces at hp
    rw [hr] at hp
    exact hp
  queued := by
    intro place hp
    rcases List.mem_append.1 hp with hp | hp
    · obtain ⟨q, -, rfl⟩ := List.mem_map.1 hp
      exact .inr ⟨received, rfl, rfl⟩
    · exact .inl (List.mem_flatMap.1 hp)
  origin := by
    rintro a ha
    cases ha
    exact ho

/-- What a Replay writes is one too, with no place taken. -/
theorem birth_replayed {s : Storage} {routed : List Routed} (hf : Fresh s.journeys routed) :
    Birth s none ((opened none routed).map fun x => (x, [])) [] where
  newborn := by
    intro x hx
    obtain ⟨y, hy, rfl⟩ := List.mem_map.1 hx
    exact newborn_opening hf hy
  taken := by
    intro x hx
    obtain ⟨y, -, rfl⟩ := List.mem_map.1 hx
    simp
  streams := by
    intro x hx place hp
    obtain ⟨y, hy, rfl⟩ := List.mem_map.1 hx
    have hr : y.2.received = none := (newborn_opening hf hy).received
    simp [Journey.streamPlaces, hr] at hp
  queued := by simp
  origin := by simp

end Cluster
