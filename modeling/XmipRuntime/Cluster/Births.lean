import XmipRuntime.Cluster.Line

/-!
# Journeys opened in one write

A Publication, a Replay and a turn of a Work Process open their Journeys in one write, and a Publication of a Stream that
holds no sequence and every turn take all the places of each in it.  Journey by Journey such a write is a run of turns
(`births`): each is opened, its delivery takes its place and it takes its own.
-/

namespace Cluster

open Library Ledger

/-! ### Several records written -/

/-- The records of `newly` written one after the other, each with the places it takes. -/
def View.putAll (v : View) (twice : Bool) (newly : List ((Nat × Journey) × List Place)) : View :=
  newly.foldl (fun v x => v.put twice x.1.1 x.1.2 x.2) v

/-- A record written. -/
private def noted (f : Nat → Option Journey) (x : Nat × Journey) : Nat → Option Journey := Function.update f x.1 (some x.2)

namespace View

variable {v : View} {twice : Bool} {newly : List ((Nat × Journey) × List Place)}

theorem put_put {id : Nat} {r r' : Journey} {queued queued' : List Place} :
    (v.put twice id r queued).put twice id r' queued' = v.put twice id r' (queued ++ queued') := by
  unfold put
  simp only [Function.update_idem, List.foldl_append]

theorem putAll_append {newly' : List ((Nat × Journey) × List Place)} :
    v.putAll twice (newly ++ newly') = (v.putAll twice newly).putAll twice newly' := List.foldl_append ..

theorem putAll_records {k : Nat} {r : Journey} (h : (v.putAll twice newly).records k = some r) :
    (∃ x ∈ newly, x.1 = (k, r)) ∨ v.records k = some r := by
  induction newly generalizing v with
  | nil => exact .inr h
  | cons x newly ih =>
    rcases ih h with ⟨y, hy, heq⟩ | h
    · exact .inl ⟨y, List.mem_cons_of_mem _ hy, heq⟩
    · rcases put_records h with ⟨rfl, rfl⟩ | ⟨-, h⟩
      · exact .inl ⟨x, List.mem_cons_self .., rfl⟩
      · exact .inr h

theorem putAll_holds {place : Place} :
    (v.putAll twice newly).Holds place ↔ v.Holds place ∨ ∃ x ∈ newly, place ∈ x.2 := by
  induction newly generalizing v with
  | nil => simp [putAll]
  | cons x newly ih =>
    rw [show v.putAll twice (x :: newly) = (v.put twice x.1.1 x.1.2 x.2).putAll twice newly from rfl, ih, put_holds]
    simp only [List.mem_cons, exists_eq_or_imp]
    tauto

private theorem putAll_eq : v.putAll twice newly =
    ⟨(newly.map Prod.fst).foldl noted v.records, (newly.flatMap Prod.snd).foldl (takePlace twice) v.places⟩ := by
  induction newly generalizing v with
  | nil => rfl
  | cons x newly ih =>
    rw [show v.putAll twice (x :: newly) = (v.put twice x.1.1 x.1.2 x.2).putAll twice newly from rfl, ih]
    simp only [put, noted, List.map_cons, List.foldl_cons, List.flatMap_cons, List.foldl_append]

end View

private theorem get_put_eq (t : Table Nat Journey) (id : Nat) (r : Journey) : (t.put id r).get = noted t.get (id, r) := by
  funext k
  unfold noted
  rw [Table.get_put]
  by_cases hk : k = id
  · subst hk; simp
  · rw [if_neg hk, Function.update_of_ne hk]

private theorem get_foldl (l : List (Nat × Journey)) (t : Table Nat Journey) :
    (l.foldl (fun t x => t.put x.1 x.2) t).get = l.foldl noted t.get := by
  induction l generalizing t with
  | nil => rfl
  | cons x l ih => rw [List.foldl_cons, ih, List.foldl_cons, get_put_eq]

/-- A Publication's write: its records with their places. -/
theorem view_publish (s : Storage) (newly : List ((Nat × Journey) × List Place)) :
    view (s.publish (newly.map Prod.fst) (newly.flatMap Prod.snd)) = (view s).putAll s.twice newly := by
  rw [View.putAll_eq]
  unfold view Storage.publish
  simp only [get_foldl]

/-- A hand-on: its record with its own places, the records it opens with theirs, and what it lets go of. -/
theorem view_written (s : Storage) (h : HandOn) (own : List Place) (newly : List ((Nat × Journey) × List Place))
    (hnext : h.next = newly.map Prod.fst) (hqueued : h.queued = own ++ newly.flatMap Prod.snd) :
    view (s.written h) = (((view s).put s.twice h.journey h.result own).putAll s.twice newly).forget
      fun place => !h.letsGo (h.journeys s.journeys) place := by
  rw [View.putAll_eq, ← hnext]
  unfold view Storage.written View.forget View.put
  simp only [HandOn.journeys, get_foldl, hqueued, List.foldl_append, get_put_eq, noted]

/-! ### A Journey opened -/

/-- A Journey opened, every place of it taken with it where they are taken `atOnce`. -/
def born (c : Config) (atOnce : Bool) (x : Nat × Journey) : (Nat × Journey) × List Place :=
  if atOnce then ((x.1, (c.places x.1 x.2).1), (c.places x.1 x.2).2) else (x, [])

/-- What a Subscription's Journeys `ids` find as they are opened: nobody has their identifiers, their Stream heads its
sequences where they take their places at once; and of their delivery what `Joins` says.  In a `strict` run they have
one queue, and nobody else in it waits for its places. -/
structure Ready (c : Config) (headed : List Place) (strict : Prop) (atOnce : Bool) (received : Option Received)
    (group : Option (Nat × Bool)) (ids : List Nat) (v : View) : Prop where
  nodup : ids.Nodup
  fresh : ∀ id ∈ ids, v.records id = none
  streams : atOnce = true → ∀ place ∈ (opening received none none).streamPlaces, place ∈ headed
  received : ∀ x ∈ group, ∀ k r g, v.records k = some r → r.group = some g → g.delivery = x.1 → r.received = received
  held : ∀ x ∈ group, ∀ place, v.Named place → place.2 = .delivery x.1 → v.Holds place
  last : ∀ x ∈ group, ∀ y ∈ v.places.items, ∀ z ∈ v.places.items, y.2.2 = .delivery x.1 → ∀ d, z.2.2 = .delivery d →
    d ≠ x.1 → z.1 < y.1
  queue : strict → ∀ x ∈ group, ∀ id ∈ ids, ∀ k r g, v.records k = some r → r.group = some g → g.delivery = x.1 →
    c.groupQueue k = c.groupQueue id
  alike : strict → group.isSome = true → ∀ id ∈ ids, ∀ k ∈ ids, c.groupQueue id = c.groupQueue k
  settled : strict → atOnce = true → ∀ x ∈ group, ∀ id ∈ ids, ∀ k r g, v.records k = some r → unfinished r = true →
    r.group = some g → g.delivery ≠ x.1 → v.Holds (.group (c.groupQueue id), .delivery g.delivery) →
    c.waitsForPlaces k r = false

section

variable {c : Config} {twice : Bool} {headed : List Place} {strict : Prop} {atOnce : Bool} {received : Option Received}
  {group : Option (Nat × Bool)} {ids : List Nat} {v : View}

/-- A Journey opened is a few turns. -/
private theorem Ready.turns {id : Nat} (h : Ready c headed strict atOnce received group (id :: ids) v)
    (port : Option String) : Relation.ReflTransGen (Turn c twice headed strict) v
      (v.put twice id (born c atOnce (id, opening received group port)).1.2
        (born c atOnce (id, opening received group port)).2) := by
  have hmem : id ∈ id :: ids := List.mem_cons_self ..
  have hopens : Turn c twice headed strict v (v.put twice id (opening received group port) []) := by
    refine .opens (h.fresh id hmem) rfl rfl ?_
    intro g hg
    obtain ⟨x, hx, rfl⟩ := Option.map_eq_some_iff.1 (show group.map _ = some g from hg)
    exact ⟨rfl, h.received x hx, h.held x hx, fun y hy z hz hyd d hzd => h.last x hx y hy z hz hyd d hzd,
      fun hst => h.queue hst x hx id hmem⟩
  unfold born
  split
  · rename_i hat
    subst hat
    -- its delivery's place, then its own
    have hstream : ∀ place ∈ (opening received group port).streamPlaces, place ∈ headed := h.streams rfl
    have hplaces : v.put twice id (c.places id (opening received group port)).1
        (c.places id (opening received group port)).2 =
        ((v.put twice id (opening received group port) []).put twice id (c.groupPlaced id (opening received group port)).1
          (c.groupPlaced id (opening received group port)).2).put twice id
          (c.placed id (c.groupPlaced id (opening received group port)).1).1
          (c.placed id (c.groupPlaced id (opening received group port)).1).2 := by
      rw [View.put_put, View.put_put]
      rfl
    rw [hplaces]
    cases hgr : group with
    | none =>
      subst hgr
      have hgp : c.groupPlaced id (opening received none port) = (opening received none port, []) := rfl
      rw [hgp, View.put_put]
      refine .trans (.single hopens) (.single (.points View.put_self rfl rfl hstream ?_))
      intro _ g q hg
      cases hg
    | some x =>
      subst hgr
      refine .trans (.single hopens) (.trans (.single (.group View.put_self rfl hstream)) (.single ?_))
      refine .points View.put_self rfl rfl hstream ?_
      rintro hst g q ⟨⟩ hq k r g' hr hu hg' hahead
      simp only [Option.some.injEq] at hq
      subst hq
      have hne : g'.delivery ≠ x.1 := by
        intro heq
        have := hahead.ne
        rw [heq] at this
        exact this rfl
      rw [View.put_put] at hr hahead
      rcases View.put_records hr with ⟨rfl, rfl⟩ | ⟨-, hr⟩
      · have hg'' : g' = ⟨x.1, some (c.groupQueue k), x.2⟩ := by simpa [Config.groupPlaced, opening] using hg'.symm
        rw [hg''] at hne
        exact absurd rfl hne
      · refine h.settled hst rfl x rfl id hmem k r g' hr hu hg' hne ?_
        obtain ⟨n, hn, -⟩ := hahead
        rcases View.put_holds.1 ⟨n, hn⟩ with hh | hq
        · exact hh
        · simp [Config.groupPlaced, opening] at hq
          exact absurd hq hne
  · exact .single hopens

/-- What is known of a Journey just opened: how it came in, its delivery, which place of it is taken, and that one whose
places are taken at once waits for none. -/
private theorem born_spec (c : Config) (atOnce : Bool) (received : Option Received) (group : Option (Nat × Bool))
    (id : Nat) (port : Option String) :
    let x := born c atOnce (id, opening received group port)
    x.1.1 = id ∧ x.1.2.received = received ∧
    (∀ g, x.1.2.group = some g → ∃ y ∈ group, g.delivery = y.1) ∧
    (∀ place ∈ x.1.2.places id, ∀ d, place.2 = .delivery d → place ∈ x.2) ∧
    (∀ place ∈ x.2, place.2 = .journey id ∨ ∃ y ∈ group, place = (.group (c.groupQueue id), .delivery y.1)) ∧
    (atOnce = true → c.waitsForPlaces id x.1.2 = false) := by
  unfold born
  cases atOnce with
  | false =>
    refine ⟨rfl, rfl, ?_, ?_, by simp, by simp⟩
    · intro g hg
      obtain ⟨x, hx, rfl⟩ := Option.map_eq_some_iff.1 (show group.map _ = some g from hg)
      exact ⟨x, hx, rfl⟩
    · intro place hp d hd
      rcases mem_places.1 hp with hp | hp | hp
      · obtain ⟨_, -, hm⟩ := mem_streamPlaces hp
        rw [hd] at hm; cases hm
      · obtain ⟨g, hg, -, q, hq, -⟩ := mem_groupPlaces hp
        obtain ⟨x, -, rfl⟩ := Option.map_eq_some_iff.1 (show group.map _ = some g from hg)
        cases hq
      · simp [Journey.pointPlaces, opening] at hp
  | true =>
    cases group with
    | none =>
      refine ⟨rfl, rfl, ?_, ?_, ?_, ?_⟩
      · rintro g ⟨⟩
      · intro place hp d hd
        rcases mem_places.1 hp with hp | hp | hp
        · obtain ⟨_, -, hm⟩ := mem_streamPlaces hp
          rw [hd] at hm; cases hm
        · obtain ⟨g, hg, -⟩ := mem_groupPlaces hp
          cases hg
        · rw [(mem_pointPlaces hp).1] at hd; cases hd
      · intro place hp
        obtain ⟨sequenced, -, rfl⟩ := List.mem_map.1 (show place ∈ (c.points id).map _ from hp)
        exact .inl rfl
      · simp [Config.waitsForPlaces, waitsForGroup, Config.places, Config.placed, Config.groupPlaced, opening]
    | some y =>
      refine ⟨rfl, rfl, ?_, ?_, ?_, ?_⟩
      · rintro g ⟨⟩
        exact ⟨y, rfl, rfl⟩
      · intro place hp d hd
        rcases mem_places.1 hp with hp | hp | hp
        · obtain ⟨_, -, hm⟩ := mem_streamPlaces hp
          rw [hd] at hm; cases hm
        · exact List.mem_append_left _ hp
        · rw [(mem_pointPlaces hp).1] at hd; cases hd
      · intro place hp
        rcases List.mem_append.1 hp with hp | hp
        · exact .inr ⟨y, rfl, List.mem_singleton.1 hp⟩
        · obtain ⟨sequenced, -, rfl⟩ := List.mem_map.1 (show place ∈ (c.points id).map _ from hp)
          exact .inl rfl
      · simp [Config.waitsForPlaces, waitsForGroup, Config.places, Config.placed, Config.groupPlaced, opening]

/-- The next finds what the one before it found. -/
private theorem Ready.next {id : Nat} (h : Ready c headed strict atOnce received group (id :: ids) v)
    (twice : Bool) (port : Option String) : Ready c headed strict atOnce received group ids
      (v.put twice id (born c atOnce (id, opening received group port)).1.2
        (born c atOnce (id, opening received group port)).2) := by
  obtain ⟨-, hrec, hdel, hnames, htaken, -⟩ := born_spec c atOnce received group id port
  generalize born c atOnce (id, opening received group port) = x at *
  have hmem : id ∈ id :: ids := List.mem_cons_self ..
  have hnodup := List.nodup_cons.1 h.nodup
  have hone : ∀ y ∈ group, ∀ y' ∈ group, y = y' := by
    intro y hy y' hy'
    rw [Option.mem_def] at hy hy'
    rw [hy] at hy'
    simpa using hy'
  refine ⟨hnodup.2, ?_, h.streams, ?_, ?_, ?_, ?_, ?_, ?_⟩
  · intro k hk
    have hne : k ≠ id := by rintro rfl; exact hnodup.1 hk
    rw [View.put_of_ne hne]
    exact h.fresh k (List.mem_cons_of_mem _ hk)
  · intro y hy k r g hr hg hd
    rcases View.put_records hr with ⟨rfl, rfl⟩ | ⟨-, hr⟩
    · exact hrec
    · exact h.received y hy k r g hr hg hd
  · intro y hy place hn hd
    rw [View.put_holds]
    rcases View.named_of_put hn with hn | hp
    · exact .inl (h.held y hy place hn hd)
    · exact .inr (hnames place hp _ hd)
  · intro y hy a ha b hb had d hbd hne
    -- of the places just taken those of deliveries are its own delivery's
    have hold : b ∈ v.places.items := by
      rcases View.mem_put hb with hb | ⟨hb, -⟩
      · exact hb
      · rcases htaken _ hb with hj | ⟨y', hy', heq⟩
        · rw [hbd] at hj; cases hj
        · rw [heq] at hbd
          rw [hone y hy y' hy'] at hne
          exact absurd (by simpa using hbd.symm) hne
    rcases View.mem_put ha with ha | ⟨-, ha⟩
    · exact h.last y hy a ha b hold had d hbd hne
    · have := v.places.below b hold
      omega
  · intro hst y hy k hk j r g hr hg hd
    rcases View.put_records hr with ⟨rfl, rfl⟩ | ⟨-, hr⟩
    · exact h.alike hst (by rw [Option.mem_def.1 hy]; rfl) j hmem k (List.mem_cons_of_mem _ hk)
    · exact h.queue hst y hy k (List.mem_cons_of_mem _ hk) j r g hr hg hd
  · exact fun hst hsome k hk j hj => h.alike hst hsome k (List.mem_cons_of_mem _ hk) j (List.mem_cons_of_mem _ hj)
  · intro hst hat y hy k hk j r g hr hu hg hne hh
    rcases View.put_records hr with ⟨rfl, rfl⟩ | ⟨-, hr⟩
    · obtain ⟨y', hy', heq⟩ := hdel g hg
      rw [hone y hy y' hy'] at hne
      exact absurd heq hne
    · refine h.settled hst hat y hy k (List.mem_cons_of_mem _ hk) j r g hr hu hg hne ?_
      rcases View.put_holds.1 hh with hh | hq
      · exact hh
      · rcases htaken _ hq with hj | ⟨y', hy', heq⟩
        · cases hj
        · rw [hone y hy y' hy'] at hne
          exact absurd (by simpa using congrArg Prod.snd heq) hne

/-- The Journeys of one Subscription, one after the other. -/
private theorem Ready.births {journeys : List (Nat × Option String)}
    (h : Ready c headed strict atOnce received group (journeys.map Prod.fst) v) (twice : Bool) :
    Relation.ReflTransGen (Turn c twice headed strict) v
      (v.putAll twice (journeys.map fun j => born c atOnce (j.1, opening received group j.2))) := by
  induction journeys generalizing v with
  | nil => exact .refl
  | cons j journeys ih =>
    have hid := (born_spec c atOnce received group j.1 j.2).1
    refine (h.turns j.2).trans ?_
    rw [List.map_cons]
    have := ih (h.next twice j.2)
    simpa only [View.putAll, List.foldl_cons, hid] using this

end

/-! ### Everything a write opens -/

/-- What the Journeys of `routed` find as they are opened, before the first. -/
structure Clear (c : Config) (headed : List Place) (strict : Prop) (atOnce : Bool) (received : Option Received)
    (routed : List Routed) (v : View) : Prop where
  nodup : (routed.flatMap fun one => one.journeys.map Prod.fst).Nodup
  fresh : ∀ id ∈ routed.flatMap (fun one => one.journeys.map Prod.fst), v.records id = none
  apart : (routed.filterMap fun one => one.group.map Prod.fst).Nodup
  told : ∀ d ∈ routed.filterMap (fun one => one.group.map Prod.fst), ∀ k r g, v.records k = some r → r.group = some g →
    g.delivery ≠ d
  streams : atOnce = true → ∀ place ∈ (opening received none none).streamPlaces, place ∈ headed
  alike : strict → ∀ one ∈ routed, one.group.isSome = true → ∀ id ∈ one.journeys.map Prod.fst,
    ∀ k ∈ one.journeys.map Prod.fst, c.groupQueue id = c.groupQueue k
  settled : strict → atOnce = true → ∀ one ∈ routed, one.group.isSome = true → ∀ id ∈ one.journeys.map Prod.fst,
    ∀ k r g, v.records k = some r → unfinished r = true → r.group = some g →
      v.Holds (.group (c.groupQueue id), .delivery g.delivery) → c.waitsForPlaces k r = false

section

variable {c : Config} {twice : Bool} {headed : List Place} {strict : Prop} {atOnce : Bool} {received : Option Received}
  {routed : List Routed} {one : Routed} {v : View}

private theorem Clear.ready (h : Clear c headed strict atOnce received (one :: routed) v) (hl : Lined c headed strict v) :
    Ready c headed strict atOnce received one.group (one.journeys.map Prod.fst) v := by
  have hone : one ∈ one :: routed := List.mem_cons_self ..
  have hids : ∀ id ∈ one.journeys.map Prod.fst,
      id ∈ (one :: routed).flatMap fun one => one.journeys.map Prod.fst :=
    fun id hid => List.mem_flatMap.2 ⟨one, hone, hid⟩
  -- its delivery is nobody's yet
  have htold : ∀ x ∈ one.group, ∀ k r g, v.records k = some r → r.group = some g → g.delivery ≠ x.1 := by
    intro x hx
    refine h.told x.1 (List.mem_filterMap.2 ⟨one, hone, ?_⟩)
    rw [Option.mem_def.1 hx]
    rfl
  have hplace : ∀ x ∈ one.group, ∀ place, v.Named place → place.2 ≠ .delivery x.1 := by
    rintro x hx place ⟨k, r, hr, hp⟩ hd
    rcases mem_places.1 hp with hp | hp | hp
    · obtain ⟨_, -, hm⟩ := mem_streamPlaces hp
      rw [hd] at hm; cases hm
    · obtain ⟨g, hg, hm, -⟩ := mem_groupPlaces hp
      rw [hd] at hm
      exact htold x hx k r g hr hg (by simpa using hm.symm)
    · rw [(mem_pointPlaces hp).1] at hd; cases hd
  refine ⟨?_, fun id hid => h.fresh id (hids id hid), h.streams, ?_, ?_, ?_, ?_, fun hst => h.alike hst one hone, ?_⟩
  · have := h.nodup
    rw [List.flatMap_cons, List.nodup_append] at this
    exact this.1
  · exact fun x hx k r g hr hg hd => absurd hd (htold x hx k r g hr hg)
  · exact fun x hx place hn hd => absurd hd (hplace x hx place hn)
  · intro x hx y hy z _ hyd
    exact absurd hyd (hplace x hx y.2 (hl.known y.2 ⟨y.1, hy⟩))
  · exact fun _ x hx _ _ k r g hr hg hd => absurd hd (htold x hx k r g hr hg)
  · intro hst hat x hx id hid k r g hr hu hg _ hh
    exact h.settled hst hat one hone (by rw [Option.mem_def.1 hx]; rfl) id hid k r g hr hu hg hh

private theorem Clear.next (h : Clear c headed strict atOnce received (one :: routed) v) (twice : Bool) :
    Clear c headed strict atOnce received routed
      (v.putAll twice (one.journeys.map fun j => born c atOnce (j.1, opening received one.group j.2))) := by
  have hspec := fun j : Nat × Option String => born_spec c atOnce received one.group j.1 j.2
  have hnodup := h.nodup
  rw [List.flatMap_cons, List.nodup_append] at hnodup
  have hapart := h.apart
  have hsub : ∀ d ∈ routed.filterMap (fun one => one.group.map Prod.fst),
      d ∈ (one :: routed).filterMap fun one => one.group.map Prod.fst := by
    intro d hd
    obtain ⟨other, ho, hod⟩ := List.mem_filterMap.1 hd
    exact List.mem_filterMap.2 ⟨other, List.mem_cons_of_mem _ ho, hod⟩
  have hdiff : ∀ x ∈ one.group, ∀ d ∈ routed.filterMap (fun one => one.group.map Prod.fst), x.1 ≠ d := by
    intro x hx d hd heq
    rw [List.filterMap_cons, Option.mem_def.1 hx] at hapart
    simp only [Option.map_some, List.nodup_cons] at hapart
    exact hapart.1 (heq ▸ hd)
  refine ⟨hnodup.2.1, ?_, ?_, ?_, h.streams, ?_, ?_⟩
  · intro id hid
    have hold := h.fresh id (by rw [List.flatMap_cons]; exact List.mem_append_right _ hid)
    cases hr : (v.putAll twice (one.journeys.map fun j => born c atOnce (j.1, opening received one.group j.2))).records id with
    | none => rfl
    | some r =>
      rcases View.putAll_records hr with ⟨x, hx, heq⟩ | hr
      · obtain ⟨j, hj, rfl⟩ := List.mem_map.1 hx
        have : j.1 = id := by rw [← (hspec j).1, heq]
        exact absurd this (hnodup.2.2 j.1 (List.mem_map.2 ⟨j, hj, rfl⟩) id hid)
      · rw [hold] at hr
        cases hr
  · rw [List.filterMap_cons] at hapart
    split at hapart
    · exact hapart
    · exact (List.nodup_cons.1 hapart).2
  · intro d hd k r g hr hg
    rcases View.putAll_records hr with ⟨x, hx, heq⟩ | hr
    · obtain ⟨j, -, rfl⟩ := List.mem_map.1 hx
      obtain ⟨y, hy, hgd⟩ := (hspec j).2.2.1 g (by rw [heq]; exact hg)
      rw [hgd]
      exact hdiff y hy d hd
    · exact h.told d (hsub d hd) k r g hr hg
  · exact fun hst other ho => h.alike hst other (List.mem_cons_of_mem _ ho)
  · intro hst hat other ho hsome id hid k r g hr hu hg hh
    rcases View.putAll_records hr with ⟨x, hx, heq⟩ | hr
    · -- one just opened has its places
      obtain ⟨j, -, rfl⟩ := List.mem_map.1 hx
      have hk : j.1 = k := by rw [← (hspec j).1, heq]
      have hw := (hspec j).2.2.2.2.2 hat
      rw [heq] at hw
      exact hk ▸ hw
    · refine h.settled hst hat other (List.mem_cons_of_mem _ ho) hsome id hid k r g hr hu hg ?_
      rcases View.putAll_holds.1 hh with hh | ⟨x, hx, hp⟩
      · exact hh
      · obtain ⟨j, -, rfl⟩ := List.mem_map.1 hx
        rcases (hspec j).2.2.2.2.1 _ hp with hm | ⟨y, hy, heq⟩
        · cases hm
        · have hd : y.1 ∈ (one :: routed).filterMap fun one => one.group.map Prod.fst := by
            refine List.mem_filterMap.2 ⟨one, List.mem_cons_self .., ?_⟩
            rw [Option.mem_def.1 hy]
            rfl
          exact absurd (by simpa using congrArg Prod.snd heq) (h.told y.1 hd k r g hr hg)

/-- The Journeys of one write are opened in turns. -/
theorem births (h : Clear c headed strict atOnce received routed v) (hl : Lined c headed strict v) (twice : Bool) :
    Relation.ReflTransGen (Turn c twice headed strict) v
      (v.putAll twice ((opened received routed).map (born c atOnce))) := by
  induction routed generalizing v with
  | nil => exact .refl
  | cons one routed ih =>
    have hfirst := (h.ready hl).births twice
    refine hfirst.trans ?_
    have := ih (h.next twice) (hl.turns hfirst)
    rw [← View.putAll_append] at this
    simpa only [opened, List.flatMap_cons, List.map_append, List.map_map, Function.comp_def] using this

end

end Cluster
