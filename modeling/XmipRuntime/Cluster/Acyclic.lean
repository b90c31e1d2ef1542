import XmipRuntime.Cluster.Moored

/-!
# No deliveries wait for each other

A place a Journey holds is behind every place taken before it in its queue, and behind whoever holds that: a Stream's and
a delivery's are let go of with the last Journey that shares them.  Were every place taken only once the one before it on
the path heads its queue, nobody could come to wait for himself.  A turn's Messages, though, and a Publication's whose
Stream holds no sequence, take the places of their deliveries and their own in one write, behind a delivery that heads
its Group's sequence and has taken none of its own places yet: it takes them behind theirs (`lockedOut_by_a_turn`).  And a
Message whose failure let go of one of its places keeps the others: tried again, it waits behind who waits behind it
(`lockedOut_by_a_retry`).  In runs where neither happens, and the members of each delivery have one key (`Aligned` and
`Seated`), there is no cycle (`acyclic_of_aligned`).

The argument: who is adrift is waited for by nobody, but for his Stream, so a cycle is among those who hold what they wait
at.  Who waits for a Stream holds no other place, so a cycle is among Streams or past them.  Streams stand in the order
they came in.  Past them, whoever comes before another in a Group's sequence has taken his places before the other's, so
along a cycle the places where the Messages are bound only ever get smaller numbers.
-/

namespace Cluster

open Library Ledger

/-- Who the Journey `id` may hold places as: itself, its Stream and its delivery. -/
def holders (id : Nat) (r : Journey) : List Member := .journey id :: r.shared.map Prod.fst

/-- `c`, unfinished, waits at a place its record names, which does not head its queue, and `d`, unfinished, holds a place
there before it: before the place of `c` or, where a failure let go of that, wherever in the queue.  One that failed asks
for nothing until it is tried again, and waits only where it has its place. -/
def Behind (s : Storage) (c d : Nat) : Prop :=
  ∃ r ∈ s.journeys.get c, ∃ r' ∈ s.journeys.get d, unfinished r = true ∧ unfinished r' = true ∧
    ∃ place ∈ r.places c, heads s [] place = false ∧ (r.state = .failed → s.Holds place) ∧
      ∃ m ∈ holders d r', s.Holds (place.1, m) ∧ (s.Holds place → s.places.Ahead (place.1, m) place)

instance (s : Storage) (c d : Nat) : Decidable (Behind s c d) :=
  inferInstanceAs (Decidable (∃ r ∈ s.journeys.get c, ∃ r' ∈ s.journeys.get d, unfinished r = true ∧ unfinished r' = true ∧
    ∃ place ∈ r.places c, heads s [] place = false ∧ (r.state = .failed → s.Holds place) ∧
      ∃ m ∈ holders d r', s.Holds (place.1, m) ∧ (s.Holds place → s.places.Ahead (place.1, m) place)))

/-- Behind another at a place of its own in the queue. -/
private def BehindHeld (s : Storage) (c d : Nat) : Prop :=
  ∃ r ∈ s.journeys.get c, ∃ r' ∈ s.journeys.get d, unfinished r = true ∧ unfinished r' = true ∧
    ∃ place ∈ r.places c, ∃ m ∈ holders d r', s.places.Ahead (place.1, m) place

theorem mem_holders {id : Nat} {r : Journey} {m : Member} (h : m ∈ holders id r) : m = .journey id ∨ SharedBy r m := by
  rcases List.mem_cons.1 h with h | h
  · exact .inl h
  · obtain ⟨x, hx, rfl⟩ := List.mem_map.1 h
    exact .inr (sharedBy_iff.2 ⟨x.2, hx⟩)

/-! ### Who comes before whom -/

/-- Both hold places, and every place of `m'` was taken before every place of `m`. -/
def Before (places : Numbered Place) (m' m : Member) : Prop :=
  (∃ x ∈ places.items, x.2.2 = m') ∧ (∃ y ∈ places.items, y.2.2 = m) ∧
    ∀ x ∈ places.items, ∀ y ∈ places.items, x.2.2 = m' → y.2.2 = m → x.1 < y.1

section

variable {places : Numbered Place} {m m' m'' : Member}

theorem Before.trans (h : Before places m'' m') (h' : Before places m' m) : Before places m'' m := by
  obtain ⟨hx, ⟨z, hz, hzm⟩, hall⟩ := h
  obtain ⟨-, hy, hall'⟩ := h'
  refine ⟨hx, hy, ?_⟩
  intro x hx y hy hxm hym
  have h₁ := hall x hx z hz hxm hzm
  have h₂ := hall' z hz y hy hzm hym
  omega

theorem Before.irrefl : ¬ Before places m m := by
  rintro ⟨⟨x, hx, hxm⟩, -, hall⟩
  exact Nat.lt_irrefl x.1 (hall x hx x hx hxm hxm)

/-- Of two Streams, or two Messages, the one with a place before another's has all of them before it. -/
theorem before_of_ahead (hu : Uniform places.items) (hm : m' ≠ m) (ha : Alike m' m) {q q' : Queue}
    (h : places.Ahead (q', m') (q, m)) : Before places m' m := by
  obtain ⟨n, hn, ⟨k, hk⟩, hall⟩ := h
  refine ⟨⟨_, hn, rfl⟩, ⟨_, hk, rfl⟩, ?_⟩
  intro x hx y hy hxm hym
  exact hu _ hn x hx _ hk y hy hxm hym hm ha (hall k hk)

end

/-! ### The kinds of waiting -/

section

variable {c : Config} {headed : List Place} {s : Storage}

/-- Its Stream has been seen at the head of each of its queues. -/
def StreamHeaded (s : Storage) (headed : List Place) (id : Nat) : Prop :=
  ∃ r, s.journeys.get id = some r ∧ ∀ place ∈ r.streamPlaces, place ∈ headed

/-- Behind another Stream. -/
def BehindStream (s : Storage) (i j : Nat) : Prop :=
  ∃ r r' a b, s.journeys.get i = some r ∧ s.journeys.get j = some r' ∧ r.received = some a ∧ r'.received = some b ∧
    Before s.places (.origin b.origin) (.origin a.origin)

/-- Behind another delivery. -/
def BehindDelivery (s : Storage) (i j : Nat) : Prop :=
  ∃ r r' g q g', s.journeys.get i = some r ∧ unfinished r = true ∧ s.journeys.get j = some r' ∧ unfinished r' = true ∧
    r.group = some g ∧ g.queue = some q ∧ r'.group = some g' ∧
    s.places.Ahead (.group q, .delivery g'.delivery) (.group q, .delivery g.delivery)

/-- Behind another Message where both are bound. -/
def BehindMessage (s : Storage) (i j : Nat) : Prop := Before s.places (.journey j) (.journey i)

/-- Behind another past the Streams. -/
private def BehindPast (s : Storage) (i j : Nat) : Prop := BehindDelivery s i j ∨ BehindMessage s i j

/-- Its Stream seen at the head, and a place of its own or of its delivery's in a queue. -/
private def Stays (s : Storage) (headed : List Place) (id : Nat) : Prop :=
  StreamHeaded s headed id ∧ ∃ r, s.journeys.get id = some r ∧ ¬ LetGo s id r

private theorem BehindStream.trans {i j k : Nat} (h : BehindStream s i j) (h' : BehindStream s j k) :
    BehindStream s i k := by
  obtain ⟨r, r', a, b, hr, hr', ha, hb, hbef⟩ := h
  obtain ⟨r₁, r'', b₁, d, hr₁, hr'', hb₁, hd, hbef'⟩ := h'
  rw [hr'] at hr₁
  cases hr₁
  rw [hb] at hb₁
  cases hb₁
  exact ⟨r, r'', a, d, hr, hr'', ha, hd, hbef'.trans hbef⟩

private theorem BehindDelivery.trans (hl : Lined c headed True (view s)) {i j k : Nat} (h : BehindDelivery s i j)
    (h' : BehindDelivery s j k) : BehindDelivery s i k := by
  obtain ⟨r, r', g, q, g', hr, hu, hr', hu', hg, hq, hg', hahead⟩ := h
  obtain ⟨r₁, r'', g₁, q', g'', hr₁, hu₁, hr'', hu'', hg₁, hq', hg'', hahead'⟩ := h'
  rw [hr'] at hr₁
  cases hr₁
  rw [hg'] at hg₁
  cases hg₁
  -- a delivery is in one queue
  have hheld : (view s).Holds (.group q, .delivery g'.delivery) := by obtain ⟨n, hn, -⟩ := hahead; exact ⟨n, hn⟩
  obtain ⟨id, r₂, g₂, hr₂, hg₂, hd₂, -, hq₂⟩ := hl.delivered hheld rfl
  have h₁ := hl.queue j r' g' q' hr' hg' hq'
  have h₂ := hl.queues trivial j id r' r₂ g' g₂ hr' hr₂ hg' hg₂ hd₂.symm
  have heq : q' = q := by
    simp only [Queue.group.injEq] at hq₂
    rw [hq₂, h₁, h₂]
  subst heq
  exact ⟨r, r'', g, q', g'', hr, hu, hr'', hu'', hg, hq, hg'', hahead'.trans hahead⟩

/-- Who is in an end-to-end queue is a Stream, in a Group's a delivery, in any other a Message. -/
private theorem member_of_queue (hl : Lined c headed True (view s)) {place : Place} (h : s.Holds place) :
    match place.1 with
    | .endToEnd _ => ∃ o, place.2 = .origin o
    | .group _ => ∃ d, place.2 = .delivery d
    | .point _ => ∃ j, place.2 = .journey j := by
  obtain ⟨id, r, -, hp⟩ := hl.known place h
  rcases mem_places.1 hp with hp | hp | hp
  · unfold Journey.streamPlaces at hp
    split at hp
    · cases hp
    · obtain ⟨q, -, rfl⟩ := List.mem_map.1 hp
      exact ⟨_, rfl⟩
  · obtain ⟨g, -, hm, q, -, hq⟩ := mem_groupPlaces hp
    rw [hq]
    exact ⟨_, hm⟩
  · obtain ⟨hm, sequenced, -, hq⟩ := mem_pointPlaces hp
    rw [hq]
    exact ⟨_, hm⟩

/-- Who holds a place past the Streams, for itself or its delivery, has its Stream at the head. -/
private theorem headed_of_held (hl : Lined c headed True (view s)) {j : Nat} {r : Journey} (hr : s.journeys.get j = some r)
    {q : Queue} {m : Member} (hm : m ∈ holders j r) (hheld : s.Holds (q, m)) (hq : ∀ key, q ≠ .endToEnd key) :
    StreamHeaded s headed j ∧ ¬ LetGo s j r := by
  have hkind := member_of_queue hl hheld
  cases q with
  | endToEnd key => exact absurd rfl (hq key)
  | group key =>
    obtain ⟨d, rfl⟩ := hkind
    rcases mem_holders hm with hm | ⟨b, -, hm⟩ | ⟨g, hg, hm⟩
    · cases hm
    · cases hm
    · cases hm
      refine ⟨⟨r, hr, ?_⟩, fun hlet => hlet.not_delivery hg _ hheld⟩
      -- a Journey told the delivery's place has its Stream at the head, and they came in as one
      obtain ⟨id, r₂, g₂, hr₂, hg₂, hd₂, hq₂, -⟩ := hl.delivered hheld rfl
      have hrec : r.received = r₂.received := hl.received j id r r₂ g g₂ hr hr₂ hg hg₂ hd₂.symm
      intro place' hp'
      rw [streamPlaces_congr hrec] at hp'
      refine hl.streams id r₂ hr₂ (.inl ?_) place' hp'
      obtain ⟨delivery, queue, skips⟩ := g₂
      simp only at hq₂
      subst hq₂
      simp [Journey.groupPlaces, hg₂]
  | point key =>
    obtain ⟨k, rfl⟩ := hkind
    rcases mem_holders hm with hm | ⟨b, -, hm⟩ | ⟨g, -, hm⟩
    · cases hm
      refine ⟨⟨r, hr, ?_⟩, fun hlet => hlet.not_own _ hheld⟩
      obtain ⟨n, hn⟩ := hheld
      obtain ⟨r₂, hr₂, hp₂⟩ := hl.told hn rfl
      have hr₂' : s.journeys.get j = some r₂ := hr₂
      rw [hr] at hr₂'
      cases hr₂'
      obtain ⟨-, sequenced, hs, -⟩ := mem_pointPlaces hp₂
      exact hl.streams j r hr (.inr (List.ne_nil_of_mem hs))
    · cases hm
    · cases hm

/-- A place past the Streams is told only once the Stream is at the head. -/
private theorem headed_of_named (hl : Lined c headed True (view s)) {i : Nat} {r : Journey} (hr : s.journeys.get i = some r)
    {place : Place} (hp : place ∈ r.groupPlaces ∨ place ∈ r.pointPlaces i) :
    StreamHeaded s headed i ∧ ∀ key, place.1 ≠ .endToEnd key := by
  rcases hp with hp | hp
  · obtain ⟨g, -, -, q, -, hpq⟩ := mem_groupPlaces hp
    exact ⟨⟨r, hr, hl.streams i r hr (.inl (List.ne_nil_of_mem hp))⟩, by simp [hpq]⟩
  · obtain ⟨-, sequenced, hs, hpq⟩ := mem_pointPlaces hp
    exact ⟨⟨r, hr, hl.streams i r hr (.inr (List.ne_nil_of_mem hs))⟩, by simp [hpq]⟩

/-- Who waits behind a Stream holds no place past it; who waits past it has seen it at the head, and so has whom he waits
for. -/
private theorem BehindHeld.kinds (hl : Lined c headed True (view s)) {i j : Nat} (h : BehindHeld s i j) :
    BehindStream s i j ∧ ¬ StreamHeaded s headed i ∨
      (BehindDelivery s i j ∨ BehindMessage s i j) ∧ StreamHeaded s headed i ∧ Stays s headed j := by
  obtain ⟨r, hr, r', hr', hu, hu', place, hp, m, hm, hahead⟩ := h
  rw [Option.mem_def] at hr hr'
  have hheld : s.Holds (place.1, m) := by obtain ⟨n, hn, -⟩ := hahead; exact ⟨n, hn⟩
  have hkind := member_of_queue hl hheld
  have hne : m ≠ place.2 := by
    intro heq
    exact hahead.ne (Prod.ext rfl heq)
  rcases mem_places.1 hp with hp | hp | hp
  · -- a Stream's place
    refine .inl ?_
    obtain ⟨a, ha, hpa⟩ := mem_streamPlaces hp
    have hq : ∃ q, place.1 = .endToEnd q := by
      unfold Journey.streamPlaces at hp
      rw [ha] at hp
      obtain ⟨q, -, rfl⟩ := List.mem_map.1 hp
      exact ⟨q, rfl⟩
    obtain ⟨q, hq⟩ := hq
    rw [hq] at hkind
    obtain ⟨o, rfl⟩ := hkind
    rcases mem_holders hm with hm | ⟨b, hb, hm⟩ | ⟨g, -, hm⟩
    · cases hm
    · cases hm
      refine ⟨⟨r, r', a, b, hr, hr', ha, hb, ?_⟩, ?_⟩
      · have := before_of_ahead hl.uniform hne (by rw [hpa]; trivial) hahead
        rwa [hpa] at this
      · rintro ⟨r₀, hr₀, hall⟩
        rw [hr] at hr₀
        cases hr₀
        refine View.not_ahead_of_first (hl.first place (hall place hp) ?_) hahead
        obtain ⟨-, -, hk, -⟩ := hahead
        exact hk
    · cases hm
  · -- a delivery's
    refine .inr ?_
    obtain ⟨hhead, hpast⟩ := headed_of_named hl hr (.inl hp)
    obtain ⟨hhead', hnot⟩ := headed_of_held hl hr' hm hheld hpast
    obtain ⟨g, hg, hpd, q, hq, hpq⟩ := mem_groupPlaces hp
    rw [hpq] at hkind
    obtain ⟨d, rfl⟩ := hkind
    have hplace : place = (.group q, .delivery g.delivery) := Prod.ext hpq hpd
    rcases mem_holders hm with hm | ⟨b, -, hm⟩ | ⟨g', hg', hm⟩
    · cases hm
    · cases hm
    · cases hm
      refine ⟨.inl ⟨r, r', g, q, g', hr, hu, hr', hu', hg, hq, hg', ?_⟩, hhead, hhead', r', hr', hnot⟩
      rw [hplace] at hahead
      exact hahead
  · -- a Message's own
    refine .inr ?_
    obtain ⟨hhead, hpast⟩ := headed_of_named hl hr (.inr hp)
    obtain ⟨hhead', hnot⟩ := headed_of_held hl hr' hm hheld hpast
    obtain ⟨hpm, sequenced, hs, hpq⟩ := mem_pointPlaces hp
    rw [hpq] at hkind
    obtain ⟨k, rfl⟩ := hkind
    rcases mem_holders hm with hm | ⟨b, -, hm⟩ | ⟨g', -, hm⟩
    · cases hm
      refine ⟨.inr ?_, hhead, hhead', r', hr', hnot⟩
      have := before_of_ahead hl.uniform hne (by rw [hpm]; trivial) hahead
      rwa [hpm] at this
    · cases hm
    · cases hm

/-- Whom nobody waits for but behind his Stream. -/
private def Drifts (s : Storage) (i : Nat) : Prop := ∃ r, s.journeys.get i = some r ∧ LetGo s i r

/-- One that somebody waits behind waits where it has its place, or is adrift and past its Stream. -/
private theorem Behind.kinds (hl : Lined c headed True (view s)) (hm : Moored c s) {i j k : Nat} (h : Behind s i j)
    (hin : Behind s k i) : BehindStream s i j ∧ ¬ StreamHeaded s headed i ∨
      (BehindPast s i j ∨ Drifts s i) ∧ StreamHeaded s headed i ∧ Stays s headed j := by
  obtain ⟨r, hr, r', hr', hu, hu', place, hp, -, hfailed, m, hmem, hheld, hahead⟩ := h
  by_cases hplace : s.Holds place
  · exact (BehindHeld.kinds hl ⟨r, hr, r', hr', hu, hu', place, hp, m, hmem, hahead hplace⟩).imp_right
      fun ⟨hpast, hrest⟩ => ⟨.inl hpast, hrest⟩
  · refine .inr ?_
    rw [Option.mem_def] at hr hr'
    have hlive : r.live = true := by
      unfold unfinished at hu
      unfold Journey.live
      split at hu <;> simp_all
    have hlet : LetGo s i r := by
      rcases hm.held hr hlive with ha | hall
      · exact ha.2
      · exact absurd (hall place hp) hplace
    -- who waits behind it waits behind its Stream, which has its places then
    obtain ⟨-, -, r₁, hr₁, -, -, place', -, -, -, m', hmem', hheld', -⟩ := hin
    rw [Option.mem_def, hr] at hr₁
    cases hr₁
    have hpast : place ∈ r.groupPlaces ∨ place ∈ r.pointPlaces i := by
      rcases mem_places.1 hp with hp' | hp'
      · refine absurd ?_ hplace
        obtain ⟨a, ha, hpa⟩ := mem_streamPlaces hp'
        rcases mem_holders hmem' with rfl | ⟨b, hb, rfl⟩ | ⟨g, hg, rfl⟩
        · exact absurd hheld' (hlet.not_own _)
        · rw [ha] at hb
          cases hb
          exact hm.whole _ hheld' trivial i r hr place hp hpa
        · exact absurd hheld' (hlet.not_delivery hg _)
      · exact hp'
    obtain ⟨hhead, hend⟩ := headed_of_named hl hr hpast
    obtain ⟨hhead', hnot⟩ := headed_of_held hl hr' hmem hheld hend
    exact ⟨.inr ⟨r, hr, hlet⟩, hhead, hhead', r', hr', hnot⟩

/-! ### Round a cycle -/

/-- One step round a cycle: each in it waits behind the next, and somebody behind it. -/
private def Round (s : Storage) (i j : Nat) : Prop := Behind s i j ∧ ∃ k, Behind s k i

/-- On a path from one that somebody comes to, somebody comes to each. -/
private theorem entered {α : Type} {rel : α → α → Prop} {a b : α} (h : Relation.TransGen rel a b) (ha : ∃ k, rel k a) :
    Relation.TransGen (fun x y => rel x y ∧ ∃ k, rel k x) a b := by
  induction h using Relation.TransGen.head_induction_on with
  | single h => exact .single ⟨h, ha⟩
  | head h _ ih => exact .head ⟨h, ha⟩ (ih ⟨_, h⟩)

/-- Past the Streams everybody one comes to is. -/
private theorem past_of_headed (hl : Lined c headed True (view s)) (hm : Moored c s) {i j : Nat}
    (h : Relation.TransGen (Round s) i j) (hi : StreamHeaded s headed i) :
    Relation.TransGen (fun i j => (BehindPast s i j ∨ Drifts s i) ∧ Stays s headed j) i j ∧ StreamHeaded s headed j := by
  induction h with
  | single h =>
    obtain ⟨h, k, hk⟩ := h
    rcases h.kinds hl hm hk with ⟨-, hn⟩ | ⟨he, -, hj⟩
    · exact absurd hi hn
    · exact ⟨.single ⟨he, hj⟩, hj.1⟩
  | tail _ h ih =>
    obtain ⟨h, k, hk⟩ := h
    rcases h.kinds hl hm hk with ⟨-, hn⟩ | ⟨he, -, hj⟩
    · exact absurd ih.2 hn
    · exact ⟨.tail ih.1 ⟨he, hj⟩, hj.1⟩

/-- A cycle past the Streams is of those who wait where they have their places. -/
private theorem held_of_cycle {i : Nat}
    (h : Relation.TransGen (fun i j => (BehindPast s i j ∨ Drifts s i) ∧ Stays s headed j) i i) :
    Relation.TransGen (BehindPast s) i i := by
  have hin : ∃ k, (BehindPast s k i ∨ Drifts s k) ∧ Stays s headed i := by
    obtain ⟨k, -, hk⟩ := Relation.TransGen.tail'_iff.1 h
    exact ⟨k, hk⟩
  refine Relation.TransGen.mono ?_ _ _ (entered h hin)
  rintro x y ⟨⟨hpast, -⟩, k, -, -, r, hr, hnot⟩
  refine hpast.resolve_right ?_
  rintro ⟨r', hr', hlet⟩
  rw [hr] at hr'
  cases hr'
  exact hnot hlet

/-- One still behind a Stream is come to along Streams. -/
private theorem streams_of_not_headed (hl : Lined c headed True (view s)) (hm : Moored c s) {i j : Nat}
    (h : Relation.TransGen (Round s) i j) (hj : ¬ StreamHeaded s headed j) : BehindStream s i j := by
  induction h with
  | single h =>
    obtain ⟨h, k, hk⟩ := h
    rcases h.kinds hl hm hk with ⟨hs, -⟩ | ⟨-, -, hj'⟩
    · exact hs
    · exact absurd hj'.1 hj
  | tail _ h ih =>
    obtain ⟨h, k, hk⟩ := h
    rcases h.kinds hl hm hk with ⟨hs, hn⟩ | ⟨-, -, hj'⟩
    · exact (ih hn).trans hs
    · exact absurd hj'.1 hj

/-- `i` has a place where its Message is bound. -/
private def HoldsOwn (s : Storage) (i : Nat) : Prop := ∃ x ∈ s.places.items, x.2.2 = .journey i

/-- Whoever is before another's delivery has his places before the other's. -/
private theorem BehindDelivery.before (hl : Lined c headed True (view s)) {i j : Nat} (h : BehindDelivery s i j)
    (hi : HoldsOwn s i) (hj : HoldsOwn s j) : Before s.places (.journey j) (.journey i) := by
  obtain ⟨r, r', g, q, g', hr, hu, hr', hu', hg, hq, hg', hahead⟩ := h
  refine ⟨hj, hi, ?_⟩
  intro x hx y hy hxj hyi
  exact (hl.settled trivial i r g q j r' g' hr hu hg hq hr' hu' hg' hahead y hy hyi).2 x hx hxj

/-- From one that holds a place of its own one comes to those whose places are before his, or, who hold none, to those
before the delivery of such a one. -/
private theorem before_of_past (hl : Lined c headed True (view s)) {i j : Nat}
    (h : Relation.TransGen (BehindPast s) i j) (hi : HoldsOwn s i) :
    Before s.places (.journey j) (.journey i) ∨ ¬ HoldsOwn s j ∧ ∃ k, HoldsOwn s k ∧
      (k = i ∨ Before s.places (.journey k) (.journey i)) ∧ BehindDelivery s k j := by
  -- one step on from one who holds a place of his own
  have hstep : ∀ {k j}, BehindPast s k j → HoldsOwn s k → Before s.places (.journey j) (.journey k) ∨
      ¬ HoldsOwn s j ∧ BehindDelivery s k j := by
    rintro k j (hd | hb) hk
    · by_cases hj : HoldsOwn s j
      · exact .inl (hd.before hl hk hj)
      · exact .inr ⟨hj, hd⟩
    · exact .inl hb
  induction h with
  | single h =>
    rcases hstep h hi with hb | ⟨hj, hd⟩
    · exact .inl hb
    · exact .inr ⟨hj, i, hi, .inl rfl, hd⟩
  | tail _ h ih =>
    rcases ih with hb | ⟨hn, k, hk, hki, hd⟩
    · rcases hstep h hb.1 with hb' | ⟨hj, hd⟩
      · exact .inl (hb'.trans hb)
      · exact .inr ⟨hj, _, hb.1, .inr hb, hd⟩
    · rcases h with hd' | hb'
      · have hkj := hd.trans hl hd'
        rename_i l _
        by_cases hl' : HoldsOwn s l
        · refine .inl ?_
          have hb := hkj.before hl hk hl'
          rcases hki with rfl | hki
          · exact hb
          · exact hb.trans hki
        · exact .inr ⟨hl', k, hk, hki, hkj⟩
      · exact absurd hb'.2.1 hn

/-- A path past the Streams leads before a delivery, or through one who holds a place of his own. -/
private theorem delivery_or_own (hl : Lined c headed True (view s)) {i j : Nat}
    (h : Relation.TransGen (BehindPast s) i j) : BehindDelivery s i j ∨ ∃ k, HoldsOwn s k ∧
      Relation.TransGen (BehindPast s) i k ∧ Relation.ReflTransGen (BehindPast s) k j := by
  induction h with
  | single h =>
    rcases h with hd | hb
    · exact .inl hd
    · exact .inr ⟨_, hb.1, .single (.inr hb), .refl⟩
  | tail hij h ih =>
    rcases ih with hd | ⟨k, hk, hik, hkj⟩
    · rcases h with hd' | hb
      · exact .inl (hd.trans hl hd')
      · exact .inr ⟨_, hb.1, .tail hij (.inr hb), .refl⟩
    · exact .inr ⟨k, hk, hik, .tail hkj h⟩

/-- Where the places are in line and whoever is tried again has his places or is adrift, nobody waits for himself. -/
private theorem Lined.acyclic (hl : Lined c headed True (view s)) (hm : Moored c s) (i : Nat) :
    ¬ Relation.TransGen (Behind s) i i := by
  intro hcycle
  have hin : ∃ k, Behind s k i := by
    obtain ⟨k, -, hk⟩ := Relation.TransGen.tail'_iff.1 hcycle
    exact ⟨k, hk⟩
  have h : Relation.TransGen (Round s) i i := entered hcycle hin
  by_cases hi : StreamHeaded s headed i
  · have hpast := held_of_cycle (past_of_headed hl hm h hi).1
    rcases delivery_or_own hl hpast with hd | ⟨k, hk, hik, hki⟩
    · obtain ⟨r, r', g, q, g', hr, -, hr', -, hg, -, hg', hahead⟩ := hd
      rw [hr] at hr'
      cases hr'
      rw [hg] at hg'
      cases hg'
      exact hahead.ne rfl
    · rcases before_of_past hl (.trans_right hki hik) hk with hb | ⟨hn, -⟩
      · exact hb.irrefl
      · exact hn hk
  · obtain ⟨r, r', a, b, hr, hr', ha, hb, hbef⟩ := streams_of_not_headed hl hm h hi
    rw [hr] at hr'
    cases hr'
    rw [ha] at hb
    cases hb
    exact hbef.irrefl

end

/-- In every run whose steps meet `Aligned` and `Seated`, no unfinished Journeys wait in a cycle, each at a place that does
not head its queue behind one the next holds. -/
theorem acyclic_of_aligned {s : Sys} (h : Reach Sys.step (fun s a => Aligned s a ∧ Seated s a) Opening s) (i : Nat) :
    ¬ Relation.TransGen (Behind s.storage) i i := by
  have hpath := inPath_of_aligned (h.mono fun _ _ hok => hok.1)
  have hmoored := moored_of_seated (h.mono fun _ _ hok => hok.2)
  exact hpath.lined.acyclic hmoored i

/-! ### A delivery locked out by a turn's -/

/-- A cluster with nothing in it, every Message but the first's bound for one Send Port's sequence through one Send Port
Group's. -/
def Sys.grouped : Sys := { Sys.unsequenced with config := ⟨fun id => if id = 10 then [] else [⟨7, false⟩], fun _ => 9⟩ }

private theorem opening_grouped : Opening Sys.grouped := ⟨rfl, rfl, rfl, fun _ => rfl, rfl, rfl, rfl, rfl, rfl⟩

/-- A Stream is received for a Work Process, another for the Group; the second's Message takes its delivery's place and is
about to take its own as the Work Process's turn publishes for the Group too. -/
def Sys.lockedOut : List Action :=
  [.publish ⟨1, [1], false⟩ [⟨none, [(10, none)]⟩], .publish ⟨2, [2], false⟩ [⟨some (202, false), [(21, some "Out")]⟩],
    .call 1 0 .send 21] ++ List.replicate 7 (.run 1 (.go true)) ++
  [.call 2 0 .turn 10] ++ List.replicate 7 (.run 2 (.go true)) ++
  [.run 2 (.turned .completed [⟨some (101, false), [(11, some "Out")]⟩] "Orders")] ++
  List.replicate 3 (.run 1 (.go true))

/-- Each then waits for the other. -/
theorem lockedOut_by_a_turn : ∃ s, Reach Sys.step Always Opening s ∧ Relation.TransGen (Behind s.storage) 11 11 := by
  obtain ⟨s, hs, hp⟩ := Reach.exists_of_runWhere Sys.step Always opening_grouped Sys.lockedOut
    (fun s => decide (Behind s.storage 11 21 ∧ Behind s.storage 21 11)) (by decide +kernel)
  have h := of_decide_eq_true hp
  exact ⟨s, hs, .tail (.single h.1) h.2⟩

/-- A cluster with nothing in it, every Message bound for a Send Port whose sequence a failure lets pass and, there, for a
Send Location whose sequence it blocks. -/
def Sys.halfSkipping : Sys := { Sys.unsequenced with config := ⟨fun _ => [⟨7, true⟩, ⟨8, false⟩], fun _ => 9⟩ }

/-- Two Messages are published; the first fails, which lets go of its place at the Send Port and keeps the one at the Send
Location, and an operator tries it again. -/
def Sys.triedAgain : List Action :=
  [.publish ⟨1, [], false⟩ [⟨none, [(11, some "Out")]⟩], .publish ⟨2, [], false⟩ [⟨none, [(21, some "Out")]⟩],
    .call 1 0 .send 11] ++ List.replicate 9 (.run 1 (.go true)) ++ [.run 1 (.sent .failed 3 ⟨0, "send", "failed"⟩),
    .call 2 1 (.act .retry) 11] ++ List.replicate 3 (.run 2 (.go true)) ++ [.run 2 (.acts ⟨0, "retry", "retried"⟩ true)]

/-- It waits at the Send Port behind the other, and the other behind it at the Send Location. -/
theorem lockedOut_by_a_retry : ∃ s, Reach Sys.step Aligned Opening s ∧
    Relation.TransGen (Behind s.storage) 11 11 := by
  obtain ⟨s, hs, hp⟩ := Reach.exists_of_runWhere Sys.step Aligned
    (show Opening Sys.halfSkipping from ⟨rfl, rfl, rfl, fun _ => rfl, rfl, rfl, rfl, rfl, rfl⟩) Sys.triedAgain
    (fun s => decide (Behind s.storage 11 21 ∧ Behind s.storage 21 11)) (by decide +kernel)
  have h := of_decide_eq_true hp
  exact ⟨s, hs, .tail (.single h.1) h.2⟩

/-- Two Streams' Messages that take their places late wait in the order they took them. -/
theorem acyclic_takenLate : ∃ s, Reach Sys.step (fun s a => Aligned s a ∧ Seated s a) Opening s ∧
    Behind s.storage 22 21 ∧ ¬ Relation.TransGen (Behind s.storage) 22 22 := by
  obtain ⟨s, hs, hp⟩ := Reach.exists_of_runWhere Sys.step (fun s a => Aligned s a ∧ Seated s a) opening_grouped
    (List.flatten [
      [.publish ⟨1, [1], false⟩ [⟨some (201, false), [(21, some "Out")]⟩],
        .publish ⟨2, [2], false⟩ [⟨some (202, false), [(22, some "Out")]⟩], .call 1 0 .send 21],
      List.replicate 7 (.run 1 (.go true)), [.call 2 0 .send 22], List.replicate 7 (.run 2 (.go true))])
    (fun s => decide (Behind s.storage 22 21)) (by decide +kernel)
  exact ⟨s, hs, of_decide_eq_true hp, acyclic_of_aligned hs 22⟩

end Cluster
