import XmipRuntime.Cluster.Ordered
import Mathlib.Logic.Relation

/-!
# Places taken in the order of the path

Every write of Xmip Storage is a few turns of its records and its queues: a record said again, a Journey opened, its
Stream's places taken, its delivery's, its own, and places let go of (`Turn`).  A turn that takes a place behind others
does so only once what comes before it on the path is at the head of its queue or, the places of a Journey taken in one
write, without asking.  `Lined` is what every turn keeps: a place that ever headed its queue heads it as long as it is
there, a Journey with a place where it is bound has its Stream at the head, and the numbers of the places taken in one
write stand together.
-/

namespace Cluster

open Library Ledger

/-- Whether it has neither ended nor been dismissed. -/
def unfinished (r : Journey) : Bool :=
  match r.state with
  | .completed | .dismissed => false
  | .active | .recovering | .waiting | .failed => true

theorem unfinished_of_live {r : Journey} (h : r.live = true) : unfinished r = true := by
  unfold Journey.live at h
  unfold unfinished
  split at h <;> simp_all

/-! ### Records and queues -/

/-- The records and the places of Xmip Storage. -/
structure View where
  records : Nat → Option Journey
  places : Numbered Place

def view (s : Storage) : View := ⟨s.journeys.get, s.places⟩

namespace View

def Holds (v : View) (place : Place) : Prop := ∃ n, (n, place) ∈ v.places.items

def first (v : View) (q : Queue) : Option Member :=
  (v.places.firstWhere fun x => decide (x.1 = q)).map fun x => x.2.2

def Named (v : View) (place : Place) : Prop := ∃ id r, v.records id = some r ∧ place ∈ r.places id

/-- The record of `id` written, the places `queued` taken with it. -/
def put (v : View) (twice : Bool) (id : Nat) (r : Journey) (queued : List Place) : View :=
  ⟨Function.update v.records id (some r), queued.foldl (takePlace twice) v.places⟩

/-- The places `keep` does not say let go of. -/
def forget (v : View) (keep : Place → Bool) : View := ⟨v.records, v.places.filter fun x => keep x.2⟩

variable {v : View} {twice : Bool} {id : Nat} {r : Journey} {queued : List Place}

theorem put_records {k : Nat} {r' : Journey} (h : (v.put twice id r queued).records k = some r') :
    k = id ∧ r' = r ∨ k ≠ id ∧ v.records k = some r' := by
  have h' : Function.update v.records id (some r) k = some r' := h
  by_cases hk : k = id
  · subst hk
    rw [Function.update_self] at h'
    exact .inl ⟨rfl, by simpa using h'.symm⟩
  · rw [Function.update_of_ne hk] at h'
    exact .inr ⟨hk, h'⟩

theorem put_self : (v.put twice id r queued).records id = some r := Function.update_self ..

theorem put_of_ne {k : Nat} (h : k ≠ id) : (v.put twice id r queued).records k = v.records k :=
  Function.update_of_ne h _ _

theorem mem_put {x : Nat × Place} (h : x ∈ (v.put twice id r queued).places.items) :
    x ∈ v.places.items ∨ x.2 ∈ queued ∧ v.places.next ≤ x.1 := mem_takePlaces h

theorem mem_put_of_mem {x : Nat × Place} (h : x ∈ v.places.items) : x ∈ (v.put twice id r queued).places.items :=
  mem_takePlaces_of_mem h

theorem put_holds {place : Place} : (v.put twice id r queued).Holds place ↔ v.Holds place ∨ place ∈ queued :=
  holds_takePlaces twice queued v.places place

theorem put_first {q : Queue} {m : Member} (h : v.first q = some m) : (v.put twice id r queued).first q = some m := by
  unfold first at *
  obtain ⟨x, hx, rfl⟩ := Option.map_eq_some_iff.1 h
  rw [Option.map_eq_some_iff]
  exact ⟨x, firstWhere_takePlaces hx, rfl⟩

theorem put_named {place : Place} (h : v.Named place) (hgrow : ∀ base, v.records id = some base →
    ∀ place ∈ base.places id, place ∈ r.places id) : (v.put twice id r queued).Named place := by
  obtain ⟨k, r', hr', hp⟩ := h
  by_cases hk : k = id
  · subst hk
    exact ⟨k, r, put_self, hgrow r' hr' place hp⟩
  · exact ⟨k, r', by rw [put_of_ne hk]; exact hr', hp⟩

/-- What is named once a record is written: what was, or what it names. -/
theorem named_of_put {place : Place} (h : (v.put twice id r queued).Named place) :
    v.Named place ∨ place ∈ r.places id := by
  obtain ⟨k, r', hr', hp⟩ := h
  rcases put_records hr' with ⟨rfl, rfl⟩ | ⟨-, hr'⟩
  · exact .inr hp
  · exact .inl ⟨k, r', hr', hp⟩

/-- Nobody comes before a place at the head of its queue. -/
theorem not_ahead_of_first {q : Queue} {m m' : Member} (h : v.first q = some m) : ¬ v.places.Ahead (q, m') (q, m) := by
  unfold first at h
  obtain ⟨x, hx, rfl⟩ := Option.map_eq_some_iff.1 h
  have hq : x.2.1 = q := by simpa using (Numbered.mem_of_firstWhere hx).2
  have := Numbered.not_ahead_of_firstWhere hx (a := (q, m')) (by simp)
  rwa [show x.2 = (q, x.2.2) from Prod.ext hq rfl] at this

/-- Nothing put at the end comes before a place that was there. -/
theorem ahead_of_put {a b : Place} (hb : v.Holds b) (h : (v.put twice id r queued).places.Ahead a b) :
    v.places.Ahead a b :=
  h.of_grown (fun _ => mem_put_of_mem) (fun _ hx => (mem_put hx).imp (fun h => h) fun h => h.2) hb

end View

/-! ### Turns -/

/-- What a Journey `r` opened with the delivery `g` finds of the others told it: they came in as it did, every place of
the delivery is in its queue, and no other delivery's comes after one of them; in a `strict` run they also have one
queue. -/
structure Joins (c : Config) (strict : Prop) (v : View) (id : Nat) (r : Journey) (g : GroupDelivery) : Prop where
  received : ∀ k r' g', v.records k = some r' → r'.group = some g' → g'.delivery = g.delivery →
    r'.received = r.received
  held : ∀ place, v.Named place → place.2 = .delivery g.delivery → v.Holds place
  last : ∀ x ∈ v.places.items, ∀ y ∈ v.places.items, x.2.2 = .delivery g.delivery → ∀ d, y.2.2 = .delivery d →
    d ≠ g.delivery → y.1 < x.1
  queue : strict → ∀ k r' g', v.records k = some r' → r'.group = some g' → g'.delivery = g.delivery →
    c.groupQueue k = c.groupQueue id

/-- One turn of the records and the queues, `headed` being the places that ever headed theirs.  In a `strict` run nobody
whose delivery comes before a Journey's waits for its places as that one takes its own. -/
inductive Turn (c : Config) (twice : Bool) (headed : List Place) (strict : Prop) : View → View → Prop where
  | restate {v : View} {j : Nat} {base r : Journey} : v.records j = some base → r.received = base.received →
      r.group = base.group → r.sequences = base.sequences → (unfinished r = true → unfinished base = true) →
      (waitsForGroup base = true → r.live = true) → Turn c twice headed strict v (v.put twice j r [])
  | opens {v : View} {id : Nat} {r : Journey} : v.records id = none → r.live = true → r.sequences = [] →
      (∀ g, r.group = some g → g.queue = none ∧ Joins c strict v id r g) →
      Turn c twice headed strict v (v.put twice id r [])
  | enters {v : View} {id : Nat} {r : Journey} {a : Received} : v.records id = some r → r.received = some a →
      (∀ x ∈ v.places.items, x.2.2 ≠ .origin a.origin) → (∀ place ∈ headed, place.2 ≠ .origin a.origin) →
      Turn c twice headed strict v (v.put twice id r r.streamPlaces)
  | group {v : View} {k : Nat} {base : Journey} : v.records k = some base → waitsForGroup base = true →
      (∀ place ∈ base.streamPlaces, place ∈ headed) →
      Turn c twice headed strict v (v.put twice k (c.groupPlaced k base).1 (c.groupPlaced k base).2)
  | points {v : View} {k : Nat} {base : Journey} : v.records k = some base → waitsForGroup base = false →
      base.sequences = [] → (∀ place ∈ base.streamPlaces, place ∈ headed) →
      (strict → ∀ g q, base.group = some g → g.queue = some q → ∀ d r g', v.records d = some r →
        unfinished r = true → r.group = some g' →
        v.places.Ahead (.group q, .delivery g'.delivery) (.group q, .delivery g.delivery) →
        c.waitsForPlaces d r = false) →
      Turn c twice headed strict v (v.put twice k (c.placed k base).1 (c.placed k base).2)
  | forget {v : View} {keep : Place → Bool} :
      (∀ id r, v.records id = some r → r.live = true → ∀ place : Place, SharedBy r place.2 → keep place = true) →
      Turn c twice headed strict v (v.forget keep)

/-! ### What every turn keeps -/

/-- Two Streams, or two Messages. -/
def Alike : Member → Member → Prop
  | .origin _, .origin _ | .journey _, .journey _ => True
  | _, _ => False

/-- The places of one Stream stand together among the Streams', those of one Message among the Messages': one of them
before another's, all of them before all of its. -/
def Uniform (items : List (Nat × Place)) : Prop :=
  ∀ x ∈ items, ∀ x' ∈ items, ∀ y ∈ items, ∀ y' ∈ items, x'.2.2 = x.2.2 → y'.2.2 = y.2.2 → x.2.2 ≠ y.2.2 →
    Alike x.2.2 y.2.2 → x.1 < y.1 → x'.1 < y'.1

/-- Where `c` has places where it is bound, nobody whose delivery comes before its own waits for places, and theirs are
all before its. -/
def Settled (c : Config) (v : View) : Prop :=
  ∀ k r g q d r' g', v.records k = some r → unfinished r = true → r.group = some g → g.queue = some q →
    v.records d = some r' → unfinished r' = true → r'.group = some g' →
    v.places.Ahead (.group q, .delivery g'.delivery) (.group q, .delivery g.delivery) →
    ∀ y ∈ v.places.items, y.2.2 = .journey k →
      c.waitsForPlaces d r' = false ∧ ∀ x ∈ v.places.items, x.2.2 = .journey d → x.1 < y.1

structure Lined (c : Config) (headed : List Place) (strict : Prop) (v : View) : Prop where
  first : ∀ place ∈ headed, v.Holds place → v.first place.1 = some place.2
  named : ∀ place ∈ headed, v.Named place
  known : ∀ place, v.Holds place → v.Named place
  waiting : ∀ id r g, v.records id = some r → r.group = some g → g.queue = none →
    r.live = true ∧ r.sequences = [] ∧ ∀ place, v.Named place → place.2 = .delivery g.delivery → v.Holds place
  streams : ∀ id r, v.records id = some r → r.groupPlaces ≠ [] ∨ r.sequences ≠ [] →
    ∀ place ∈ r.streamPlaces, place ∈ headed
  received : ∀ j k r r' g g', v.records j = some r → v.records k = some r' → r.group = some g → r'.group = some g' →
    g.delivery = g'.delivery → r.received = r'.received
  queue : ∀ id r g q, v.records id = some r → r.group = some g → g.queue = some q → q = c.groupQueue id
  queues : strict → ∀ j k r r' g g', v.records j = some r → v.records k = some r' → r.group = some g →
    r'.group = some g' → g.delivery = g'.delivery → c.groupQueue j = c.groupQueue k
  uniform : Uniform v.places.items
  settled : strict → Settled c v

section

variable {c : Config} {twice : Bool} {headed : List Place} {strict : Prop} {v v' : View}

/-- A Journey that holds a place of its own has been told it. -/
theorem Lined.told (h : Lined c headed strict v) {x : Nat × Place} (hx : x ∈ v.places.items) {k : Nat}
    (hk : x.2.2 = .journey k) : ∃ r, v.records k = some r ∧ x.2 ∈ r.pointPlaces k := by
  obtain ⟨id, r, hr, hp⟩ := h.known x.2 ⟨x.1, hx⟩
  obtain ⟨rfl, hp'⟩ := own_of_places hp hk
  exact ⟨r, hr, hp'⟩

/-- A delivery's place is in its Group's queue, told to one of its Journeys. -/
theorem Lined.delivered (h : Lined c headed strict v) {place : Place} (hp : v.Holds place) {d : Nat}
    (hd : place.2 = .delivery d) : ∃ id r g, v.records id = some r ∧ r.group = some g ∧ g.delivery = d ∧
      g.queue = some (c.groupQueue id) ∧ place.1 = .group (c.groupQueue id) := by
  obtain ⟨id, r, hr, hp⟩ := h.known place hp
  rcases mem_places.1 hp with hp | hp | hp
  · obtain ⟨_, -, hm⟩ := mem_streamPlaces hp
    rw [hd] at hm; cases hm
  · obtain ⟨g, hg, hm, q, hq, hpq⟩ := mem_groupPlaces hp
    rw [hd] at hm
    have := h.queue id r g q hr hg hq
    subst this
    exact ⟨id, r, g, hr, hg, by simpa using hm.symm, hq, hpq⟩
  · rw [(mem_pointPlaces hp).1] at hd; cases hd

/-- Places of one holder taken at the end, where a Stream or a Message had none. -/
private theorem Uniform.put {id : Nat} {r : Journey} {queued : List Place} {m : Member} (h : Uniform v.places.items)
    (hm : ∀ place ∈ queued, place.2 = m) (hnone : (∃ d, m = .delivery d) ∨ ∀ x ∈ v.places.items, x.2.2 ≠ m) :
    Uniform (v.put twice id r queued).places.items := by
  intro x hx x' hx' y hy y' hy' hxx hyy hne halike hlt
  have halike' : Alike y.2.2 x.2.2 := by
    revert halike
    cases x.2.2 <;> cases y.2.2 <;> exact fun h => h
  -- a place of `m` among the Streams' or the Messages' is new, any other was there
  have hcases : ∀ z ∈ (v.put twice id r queued).places.items, ∀ m', Alike z.2.2 m' →
      z.2.2 = m ∧ v.places.next ≤ z.1 ∨ z.2.2 ≠ m ∧ z ∈ v.places.items := by
    intro z hz m' hz'
    rcases View.mem_put hz with hz | ⟨hq, hn⟩
    · refine .inr ⟨?_, hz⟩
      intro heq
      rcases hnone with ⟨d, rfl⟩ | hnone
      · rw [heq] at hz'; cases m' <;> exact hz'
      · exact hnone z hz heq
    · exact .inl ⟨hm _ hq, hn⟩
  have hbelow := v.places.below
  rcases hcases x hx _ halike with ⟨hxm, hxn⟩ | ⟨hxm, hxo⟩
  · rcases hcases y hy _ halike' with ⟨hym, -⟩ | ⟨-, hyo⟩
    · exact absurd (hxm.trans hym.symm) hne
    · have := hbelow y hyo; omega
  · rcases hcases x' hx' y.2.2 (hxx ▸ halike) with ⟨hxm', -⟩ | ⟨-, hxo'⟩
    · exact absurd (hxx ▸ hxm') hxm
    · rcases hcases y' hy' x.2.2 (hyy ▸ halike') with ⟨-, hyn'⟩ | ⟨hym', hyo'⟩
      · have := hbelow x' hxo'; omega
      · rcases hcases y hy _ halike' with ⟨hym, -⟩ | ⟨-, hyo⟩
        · exact absurd (hyy.trans hym) hym'
        · exact h x hxo x' hxo' y hyo y' hyo' hxx hyy hne halike hlt

/-- A record written with the places it takes: what that asks of it for the rest to stay as it is. -/
private theorem Lined.put (h : Lined c headed strict v) {id : Nat} {r : Journey} {queued : List Place} {m : Member}
    (hgrow : ∀ base, v.records id = some base → ∀ place ∈ base.places id, place ∈ r.places id)
    (htaken : ∀ place ∈ queued, place ∈ r.places id ∧ place.2 = m ∧ (place ∈ headed → v.Holds place))
    (hnone : (∃ d, m = .delivery d) ∨ ∀ x ∈ v.places.items, x.2.2 ≠ m)
    (hnames : ∀ place ∈ r.places id, ∀ d, place.2 = .delivery d → v.Named place ∨ place ∈ queued)
    (hwaiting : ∀ g, r.group = some g → g.queue = none → r.live = true ∧ r.sequences = [] ∧
      ∀ place, v.Named place → place.2 = .delivery g.delivery → v.Holds place)
    (hstreams : r.groupPlaces ≠ [] ∨ r.sequences ≠ [] → ∀ place ∈ r.streamPlaces, place ∈ headed)
    (hothers : ∀ k r' g g', k ≠ id → v.records k = some r' → r.group = some g → r'.group = some g' →
      g.delivery = g'.delivery → r.received = r'.received ∧ (strict → c.groupQueue id = c.groupQueue k))
    (hqueue : ∀ g q, r.group = some g → g.queue = some q → q = c.groupQueue id)
    (hsettled : strict → Settled c (v.put twice id r queued)) :
    Lined c headed strict (v.put twice id r queued) where
  first := by
    intro place hplace hh
    refine View.put_first (h.first place hplace ?_)
    rcases View.put_holds.1 hh with hh | hq
    · exact hh
    · exact (htaken place hq).2.2 hplace
  named := fun place hplace => View.put_named (h.named place hplace) hgrow
  known := by
    intro place hh
    rcases View.put_holds.1 hh with hh | hq
    · exact View.put_named (h.known place hh) hgrow
    · exact ⟨id, r, View.put_self, (htaken place hq).1⟩
  waiting := by
    intro k r' g hr' hg hq
    -- the places a delivery is newly named by are taken with it
    have hkeep : (∀ place, v.Named place → place.2 = .delivery g.delivery → v.Holds place) →
        ∀ place, (v.put twice id r queued).Named place → place.2 = .delivery g.delivery →
          (v.put twice id r queued).Holds place := by
      intro hold place hn hd
      rw [View.put_holds]
      rcases View.named_of_put hn with hn | hp
      · exact .inl (hold place hn hd)
      · rcases hnames place hp _ hd with hn | hq
        · exact .inl (hold place hn hd)
        · exact .inr hq
    rcases View.put_records hr' with ⟨rfl, rfl⟩ | ⟨-, hr'⟩
    · obtain ⟨hl, hs, hold⟩ := hwaiting g hg hq
      exact ⟨hl, hs, hkeep hold⟩
    · obtain ⟨hl, hs, hold⟩ := h.waiting k r' g hr' hg hq
      exact ⟨hl, hs, hkeep hold⟩
  streams := by
    intro k r' hr' hp
    rcases View.put_records hr' with ⟨rfl, rfl⟩ | ⟨-, hr'⟩
    · exact hstreams hp
    · exact h.streams k r' hr' hp
  received := by
    intro j k r₁ r₂ g g' h₁ h₂ hg hg' hd
    rcases View.put_records h₁ with ⟨rfl, rfl⟩ | ⟨hj, ho₁⟩ <;> rcases View.put_records h₂ with ⟨rfl, rfl⟩ | ⟨hk, ho₂⟩
    · rfl
    · exact (hothers k r₂ g g' hk ho₂ hg hg' hd).1
    · exact (hothers j r₁ g' g hj ho₁ hg' hg hd.symm).1.symm
    · exact h.received j k r₁ r₂ g g' ho₁ ho₂ hg hg' hd
  queue := by
    intro k r' g q hr' hg hq
    rcases View.put_records hr' with ⟨rfl, rfl⟩ | ⟨-, hr'⟩
    · exact hqueue g q hg hq
    · exact h.queue k r' g q hr' hg hq
  queues := by
    intro hst j k r₁ r₂ g g' h₁ h₂ hg hg' hd
    rcases View.put_records h₁ with ⟨rfl, rfl⟩ | ⟨hj, ho₁⟩ <;> rcases View.put_records h₂ with ⟨rfl, rfl⟩ | ⟨hk, ho₂⟩
    · rfl
    · exact (hothers k r₂ g g' hk ho₂ hg hg' hd).2 hst
    · exact ((hothers j r₁ g' g hj ho₁ hg' hg hd.symm).2 hst).symm
    · exact h.queues hst j k r₁ r₂ g g' ho₁ ho₂ hg hg' hd
  uniform := h.uniform.put (fun place hp => (htaken place hp).2.1) hnone
  settled := hsettled

/-- A Journey that has a place of its own waits for none of its delivery's. -/
private theorem Lined.not_waiting (h : Lined c headed strict v) {x : Nat × Place} (hx : x ∈ v.places.items) {k : Nat}
    (hk : x.2.2 = .journey k) {base : Journey} (hb : v.records k = some base) : base.sequences ≠ [] := by
  obtain ⟨r, hr, hp⟩ := h.told hx hk
  rw [hb] at hr
  cases hr
  intro hseq
  simp [Journey.pointPlaces, hseq] at hp

theorem waitsForPlaces_congr {id : Nat} {r base : Journey} (hgroup : r.group = base.group)
    (hseq : r.sequences = base.sequences) : c.waitsForPlaces id r = c.waitsForPlaces id base := by
  unfold Config.waitsForPlaces waitsForGroup
  rw [hgroup, hseq]

private theorem places_congr {id : Nat} {r base : Journey} (hreceived : r.received = base.received)
    (hgroup : r.group = base.group) (hseq : r.sequences = base.sequences) : r.places id = base.places id := by
  unfold Journey.places Journey.pointPlaces
  rw [streamPlaces_congr hreceived, groupPlaces_congr hgroup, hseq]

private theorem Lined.restate (h : Lined c headed strict v) {j : Nat} {base r : Journey} (hb : v.records j = some base)
    (hreceived : r.received = base.received) (hgroup : r.group = base.group) (hseq : r.sequences = base.sequences)
    (hun : unfinished r = true → unfinished base = true) (hlive : waitsForGroup base = true → r.live = true) :
    Lined c headed strict (v.put twice j r []) := by
  have hplaces : r.places j = base.places j := places_congr hreceived hgroup hseq
  refine h.put (m := .delivery 0) ?_ (by simp) (.inl ⟨0, rfl⟩) ?_ ?_ ?_ ?_ ?_ ?_
  · intro base' hb' place hp
    rw [hb] at hb'
    cases hb'
    rw [hplaces]
    exact hp
  · intro place hp _ _
    exact .inl ⟨j, base, hb, hplaces ▸ hp⟩
  · intro g hg hq
    obtain ⟨-, hs, hold⟩ := h.waiting j base g hb (hgroup ▸ hg) hq
    refine ⟨hlive ?_, hseq ▸ hs, hold⟩
    simp [waitsForGroup, ← hgroup, hg, hq]
  · intro hp place hpl
    rw [streamPlaces_congr hreceived] at hpl
    refine h.streams j base hb ?_ place hpl
    rwa [groupPlaces_congr hgroup, hseq] at hp
  · intro k r' g g' _ hr' hg hg' hd
    rw [hreceived]
    exact ⟨h.received j k base r' g g' hb hr' (hgroup ▸ hg) hg' hd,
      fun hst => h.queues hst j k base r' g g' hb hr' (hgroup ▸ hg) hg' hd⟩
  · exact fun g q hg hq => h.queue j base g q hb (hgroup ▸ hg) hq
  · intro hst k r₁ g q d r₂ g' h₁ hu₁ hg hq h₂ hu₂ hg' hahead y hy hyk
    -- every record is as good as the one before it
    have hback : ∀ k r', (v.put twice j r []).records k = some r' → unfinished r' = true → ∃ r₀, v.records k = some r₀ ∧
        unfinished r₀ = true ∧ r₀.group = r'.group ∧ c.waitsForPlaces k r₀ = c.waitsForPlaces k r' := by
      intro k r' hr' hu
      rcases View.put_records hr' with ⟨rfl, rfl⟩ | ⟨-, hr'⟩
      · exact ⟨base, hb, hun hu, hgroup.symm, (waitsForPlaces_congr hgroup hseq).symm⟩
      · exact ⟨r', hr', hu, rfl, rfl⟩
    obtain ⟨b₁, hb₁, hub₁, hgb₁, -⟩ := hback k r₁ h₁ hu₁
    obtain ⟨b₂, hb₂, hub₂, hgb₂, hwb₂⟩ := hback d r₂ h₂ hu₂
    have := h.settled hst k b₁ g q d b₂ g' hb₁ hub₁ (hgb₁.trans hg) hq hb₂ hub₂ (hgb₂.trans hg') hahead y hy hyk
    rwa [hwb₂] at this

private theorem Lined.opens (h : Lined c headed strict v) {id : Nat} {r : Journey} (hnew : v.records id = none)
    (hlive : r.live = true) (hseq : r.sequences = [])
    (hjoins : ∀ g, r.group = some g → g.queue = none ∧ Joins c strict v id r g) :
    Lined c headed strict (v.put twice id r []) := by
  have hgroup : r.groupPlaces = [] := by
    unfold Journey.groupPlaces
    split
    · rename_i hg
      have := (hjoins _ hg).1
      cases this
    · rfl
  have hplaces : ∀ place ∈ r.places id, place ∈ r.streamPlaces := by
    intro place hp
    rcases mem_places.1 hp with hp | hp | hp
    · exact hp
    · rw [hgroup] at hp; cases hp
    · simp [Journey.pointPlaces, hseq] at hp
  refine h.put (m := .delivery 0) ?_ (by simp) (.inl ⟨0, rfl⟩) ?_ ?_ ?_ ?_ ?_ ?_
  · intro base hb
    rw [hnew] at hb
    cases hb
  · intro place hp d hd
    obtain ⟨_, -, hm⟩ := mem_streamPlaces (hplaces place hp)
    rw [hd] at hm; cases hm
  · exact fun g hg _ => ⟨hlive, hseq, (hjoins g hg).2.held⟩
  · rintro (hp | hp)
    · exact absurd hgroup hp
    · exact absurd hseq hp
  · intro k r' g g' _ hr' hg hg' hd
    have hj := (hjoins g hg).2
    exact ⟨(hj.received k r' g' hr' hg' hd.symm).symm, fun hst => (hj.queue hst k r' g' hr' hg' hd.symm).symm⟩
  · intro g q hg hq
    rw [(hjoins g hg).1] at hq
    cases hq
  · intro hst k r₁ g q d r₂ g' h₁ hu₁ hg hq h₂ hu₂ hg' hahead y hy hyk
    have hy' : y ∈ v.places.items := hy
    rcases View.put_records h₁ with ⟨rfl, rfl⟩ | ⟨-, h₁⟩
    · -- one just opened has no place of its own
      obtain ⟨r₀, hr₀, -⟩ := h.told hy' hyk
      rw [hnew] at hr₀
      cases hr₀
    · rcases View.put_records h₂ with ⟨rfl, rfl⟩ | ⟨-, h₂⟩
      · -- its delivery comes before no other
        obtain ⟨n, hn, ⟨k', hk'⟩, hall⟩ := hahead
        have hne : g.delivery ≠ g'.delivery := by
          intro heq
          have := Numbered.Ahead.ne ⟨n, hn, ⟨k', hk'⟩, hall⟩
          rw [heq] at this
          exact this rfl
        have h₃ := (hjoins g' hg').2.last _ hn _ hk' rfl _ rfl hne
        have h₄ := hall k' hk'
        simp only at h₃
        omega
      · exact h.settled hst k r₁ g q d r₂ g' h₁ hu₁ hg hq h₂ hu₂ hg' hahead y hy hyk

private theorem Lined.enters (h : Lined c headed strict v) {id : Nat} {r : Journey} {a : Received}
    (hr : v.records id = some r) (ha : r.received = some a) (hnone : ∀ x ∈ v.places.items, x.2.2 ≠ .origin a.origin)
    (hheaded : ∀ place ∈ headed, place.2 ≠ .origin a.origin) :
    Lined c headed strict (v.put twice id r r.streamPlaces) := by
  have horigin : ∀ place ∈ r.streamPlaces, place.2 = .origin a.origin := by
    intro place hp
    obtain ⟨b, hb, hm⟩ := mem_streamPlaces hp
    rw [ha] at hb
    cases hb
    exact hm
  have hsame : ∀ k r', (v.put twice id r r.streamPlaces).records k = some r' → v.records k = some r' := by
    intro k r' hr'
    rcases View.put_records hr' with ⟨rfl, rfl⟩ | ⟨-, hr'⟩
    · exact hr
    · exact hr'
  refine h.put (m := .origin a.origin) ?_ ?_ (.inr hnone) ?_ ?_ ?_ ?_ ?_ ?_
  · intro base hb place hp
    rw [hr] at hb
    cases hb
    exact hp
  · intro place hp
    exact ⟨mem_places.2 (.inl hp), horigin place hp, fun hplace => absurd (horigin place hp) (hheaded place hplace)⟩
  · exact fun place hp _ _ => .inl ⟨id, r, hr, hp⟩
  · exact fun g hg hq => h.waiting id r g hr hg hq
  · exact fun hp => h.streams id r hr hp
  · intro k r' g g' _ hr' hg hg' hd
    exact ⟨h.received id k r r' g g' hr hr' hg hg' hd, fun hst => h.queues hst id k r r' g g' hr hr' hg hg' hd⟩
  · exact fun g q hg hq => h.queue id r g q hr hg hq
  · intro hst k r₁ g q d r₂ g' h₁ hu₁ hg hq h₂ hu₂ hg' hahead y hy hyk
    -- a Stream's places are no Message's and no delivery's
    have hold : ∀ z ∈ (v.put twice id r r.streamPlaces).places.items, z.2.2 ≠ .origin a.origin →
        z ∈ v.places.items := by
      intro z hz hzo
      rcases View.mem_put hz with hz | ⟨hz, -⟩
      · exact hz
      · exact absurd (horigin _ hz) hzo
    have hahead' : v.places.Ahead (.group q, .delivery g'.delivery) (.group q, .delivery g.delivery) := by
      refine View.ahead_of_put ?_ hahead
      obtain ⟨-, -, ⟨n, hn⟩, -⟩ := hahead
      exact ⟨n, hold _ hn (by simp)⟩
    obtain ⟨hw, hall⟩ := h.settled hst k r₁ g q d r₂ g' (hsame k r₁ h₁) hu₁ hg hq (hsame d r₂ h₂) hu₂ hg' hahead' y
      (hold y hy (by rw [hyk]; simp)) hyk
    exact ⟨hw, fun x hx hxd => hall x (hold x hx (by rw [hxd]; simp)) hxd⟩

private theorem Lined.group (h : Lined c headed strict v) {k : Nat} {base : Journey} (hb : v.records k = some base)
    (hwaits : waitsForGroup base = true) (hstream : ∀ place ∈ base.streamPlaces, place ∈ headed) :
    Lined c headed strict (v.put twice k (c.groupPlaced k base).1 (c.groupPlaced k base).2) := by
  -- the delivery, which has no place told to this Journey yet
  obtain ⟨delivery, skips, hg₀⟩ : ∃ delivery skips, base.group = some ⟨delivery, none, skips⟩ := by
    unfold waitsForGroup at hwaits
    obtain ⟨⟨delivery, queue, skips⟩, hg, hq⟩ := (Option.any_eq_true _ _).1 hwaits
    simp only [Option.isNone_iff_eq_none] at hq
    subst hq
    exact ⟨delivery, skips, hg⟩
  obtain ⟨hlive, hseq, hheld⟩ := h.waiting k base _ hb hg₀ rfl
  have hplaced : c.groupPlaced k base = ({ base with group := some ⟨delivery, some (c.groupQueue k), skips⟩ },
      [(.group (c.groupQueue k), .delivery delivery)]) := by
    unfold Config.groupPlaced
    rw [hg₀]
  rw [hplaced]
  have hmem : ∀ place ∈ Journey.places k { base with group := some ⟨delivery, some (c.groupQueue k), skips⟩ },
      place ∈ base.streamPlaces ∨ place = (.group (c.groupQueue k), .delivery delivery) := by
    intro place hp
    rcases mem_places.1 hp with hp | hp | hp
    · exact .inl hp
    · exact .inr (by simpa [Journey.groupPlaces] using hp)
    · simp [Journey.pointPlaces, hseq] at hp
  refine h.put (m := .delivery delivery) ?_ ?_ (.inl ⟨delivery, rfl⟩) ?_ ?_ (fun _ => hstream) ?_ ?_ ?_
  · intro base' hb' place hp
    rw [hb] at hb'
    cases hb'
    rcases mem_places.1 hp with hp | hp | hp
    · exact mem_places.2 (.inl hp)
    · simp [Journey.groupPlaces, hg₀] at hp
    · simp [Journey.pointPlaces, hseq] at hp
  · intro place hp
    simp only [List.mem_singleton] at hp
    subst hp
    refine ⟨mem_places.2 (.inr (.inl (by simp [Journey.groupPlaces]))), rfl, ?_⟩
    exact fun hplace => hheld _ (h.named _ hplace) rfl
  · intro place hp d hd
    rcases hmem place hp with hp | rfl
    · obtain ⟨_, -, hm⟩ := mem_streamPlaces hp
      rw [hd] at hm; cases hm
    · exact .inr (List.mem_singleton.2 rfl)
  · rintro g ⟨⟩ hq
    cases hq
  · rintro j r' g g' - hr' ⟨⟩ hg' hd
    exact ⟨h.received k j base r' _ g' hb hr' hg₀ hg' hd, fun hst => h.queues hst k j base r' _ g' hb hr' hg₀ hg' hd⟩
  · rintro g q ⟨⟩ hq
    simpa using hq.symm
  · intro hst k₁ r₁ g q d r₂ g' h₁ hu₁ hg hq h₂ hu₂ hg' hahead y hy hyk
    have hold : ∀ z ∈ (v.put twice k { base with group := some ⟨delivery, some (c.groupQueue k), skips⟩ }
        [(.group (c.groupQueue k), .delivery delivery)]).places.items, ∀ j, z.2.2 = .journey j → z ∈ v.places.items := by
      intro z hz j hzj
      rcases View.mem_put hz with hz | ⟨hz, -⟩
      · exact hz
      · simp only [List.mem_singleton] at hz
        rw [hz] at hzj; cases hzj
    have hy' := hold y hy k₁ hyk
    rcases View.put_records h₁ with ⟨rfl, rfl⟩ | ⟨-, ho₁⟩
    · exact absurd hseq (h.not_waiting hy' hyk hb)
    · -- a place of the delivery a record names was there before
      have hahead' : v.places.Ahead (.group q, .delivery g'.delivery) (.group q, .delivery g.delivery) := by
        refine View.ahead_of_put ?_ hahead
        obtain ⟨-, -, hn, -⟩ := hahead
        rcases View.put_holds.1 hn with hn | hn
        · exact hn
        · simp only [List.mem_singleton, Prod.mk.injEq, Member.delivery.injEq] at hn
          refine hheld _ ⟨k₁, r₁, ho₁, mem_places.2 (.inr (.inl ?_))⟩ (by rw [hn.2])
          obtain ⟨gd, gq, gs⟩ := g
          simp only at hq
          subst hq
          simp [Journey.groupPlaces, hg]
      rcases View.put_records h₂ with ⟨rfl, rfl⟩ | ⟨-, ho₂⟩
      · cases hg'
        obtain ⟨hw, -⟩ := h.settled hst k₁ r₁ g q d base _ ho₁ hu₁ hg hq hb (unfinished_of_live hlive) hg₀ hahead' y hy' hyk
        simp [Config.waitsForPlaces, hwaits] at hw
      · obtain ⟨hw, hall⟩ := h.settled hst k₁ r₁ g q d r₂ g' ho₁ hu₁ hg hq ho₂ hu₂ hg' hahead' y hy' hyk
        exact ⟨hw, fun x hx hxd => hall x (hold x hx d hxd) hxd⟩

private theorem Lined.points (h : Lined c headed strict v) {k : Nat} {base : Journey} (hb : v.records k = some base)
    (hwaits : waitsForGroup base = false) (hseq : base.sequences = [])
    (hstream : ∀ place ∈ base.streamPlaces, place ∈ headed)
    (hahead : strict → ∀ g q, base.group = some g → g.queue = some q → ∀ d r g', v.records d = some r →
      unfinished r = true → r.group = some g' →
      v.places.Ahead (.group q, .delivery g'.delivery) (.group q, .delivery g.delivery) → c.waitsForPlaces d r = false) :
    Lined c headed strict (v.put twice k (c.placed k base).1 (c.placed k base).2) := by
  have hfree : ∀ x ∈ v.places.items, x.2.2 ≠ .journey k := fun x hx hxk => h.not_waiting hx hxk hb hseq
  have hqueued : ∀ place ∈ (c.placed k base).2, place.2 = .journey k ∧ place ∈ (c.placed k base).1.pointPlaces k := by
    intro place hp
    obtain ⟨sequenced, hs, rfl⟩ := List.mem_map.1 hp
    refine ⟨rfl, ?_⟩
    simp only [Config.placed, Journey.pointPlaces, hseq, List.nil_append]
    exact List.mem_map.2 ⟨sequenced, hs, rfl⟩
  have hmem : ∀ place ∈ (c.placed k base).1.places k, place ∈ base.places k ∨ place.2 = .journey k := by
    intro place hp
    rcases mem_places.1 hp with hp | hp | hp
    · exact .inl (mem_places.2 (.inl hp))
    · exact .inl (mem_places.2 (.inr (.inl hp)))
    · exact .inr (mem_pointPlaces hp).1
  refine h.put (m := .journey k) ?_ ?_ (.inr hfree) ?_ ?_ (fun _ => hstream) ?_ ?_ ?_
  · intro base' hb' place hp
    rw [hb] at hb'
    cases hb'
    rcases mem_places.1 hp with hp | hp | hp
    · exact mem_places.2 (.inl hp)
    · exact mem_places.2 (.inr (.inl hp))
    · simp [Journey.pointPlaces, hseq] at hp
  · intro place hp
    obtain ⟨hm, hpt⟩ := hqueued place hp
    refine ⟨mem_places.2 (.inr (.inr hpt)), hm, ?_⟩
    -- a place never told is none that headed its queue
    intro hplace
    obtain ⟨id, r, hr, hp'⟩ := h.named place hplace
    obtain ⟨rfl, hp'⟩ := own_of_places hp' hm
    rw [hb] at hr
    cases hr
    simp [Journey.pointPlaces, hseq] at hp'
  · intro place hp d hd
    rcases hmem place hp with hp | hm
    · exact .inl ⟨k, base, hb, hp⟩
    · rw [hd] at hm; cases hm
  · intro g hg hq
    have hg' : base.group = some g := hg
    simp [waitsForGroup, hg', hq] at hwaits
  · rintro j r' g g' - hr' hg hg' hd
    exact ⟨h.received k j base r' g g' hb hr' hg hg' hd, fun hst => h.queues hst k j base r' g g' hb hr' hg hg' hd⟩
  · exact fun g q hg hq => h.queue k base g q hb hg hq
  · intro hst k₁ r₁ g q d r₂ g' h₁ hu₁ hg hq h₂ hu₂ hg' hahd y hy hyk
    have hold : ∀ z ∈ (v.put twice k (c.placed k base).1 (c.placed k base).2).places.items, z.2.2 ≠ .journey k →
        z ∈ v.places.items := by
      intro z hz hzk
      rcases View.mem_put hz with hz | ⟨hz, -⟩
      · exact hz
      · exact absurd (hqueued _ hz).1 hzk
    have hahd' : v.places.Ahead (.group q, .delivery g'.delivery) (.group q, .delivery g.delivery) := by
      refine View.ahead_of_put ?_ hahd
      obtain ⟨-, -, ⟨n, hn⟩, -⟩ := hahd
      exact ⟨n, hold _ hn (by simp)⟩
    rcases View.put_records h₁ with ⟨rfl, rfl⟩ | ⟨hne₁, ho₁⟩
    · -- the Journey that takes its places: whoever comes before it has taken theirs
      have hg₀ : base.group = some g := hg
      rcases View.put_records h₂ with ⟨rfl, rfl⟩ | ⟨hne₂, ho₂⟩
      · have : base.group = some g' := hg'
        rw [hg₀] at this
        cases this
        exact absurd rfl hahd'.ne
      · refine ⟨hahead hst g q hg₀ hq d r₂ g' ho₂ hu₂ hg' hahd', ?_⟩
        intro x hx hxd
        have hx' := hold x hx (by rw [hxd]; simpa using hne₂)
        have hlt := v.places.below x hx'
        rcases View.mem_put hy with hy | ⟨-, hy⟩
        · exact absurd hyk (hfree y hy)
        · omega
    · have hy' := hold y hy (by rw [hyk]; simpa using hne₁)
      rcases View.put_records h₂ with ⟨rfl, rfl⟩ | ⟨hne₂, ho₂⟩
      · have hg₀ : base.group = some g' := hg'
        have hu₀ : unfinished base = true := hu₂
        obtain ⟨hw, hall⟩ := h.settled hst k₁ r₁ g q d base g' ho₁ hu₁ hg hq hb hu₀ hg₀ hahd' y hy' hyk
        -- it did not wait for places, so it is bound for no sequence and takes none
        have hpts : c.points d = [] := by
          simpa [Config.waitsForPlaces, hwaits, hseq] using hw
        refine ⟨?_, ?_⟩
        · have hw' : waitsForGroup (c.placed d base).1 = waitsForGroup base := rfl
          simp [Config.waitsForPlaces, hw', hwaits, hpts]
        · intro x hx hxd
          rcases View.mem_put hx with hx | ⟨hx, -⟩
          · exact hall x hx hxd
          · simp [Config.placed, hpts] at hx
      · obtain ⟨hw, hall⟩ := h.settled hst k₁ r₁ g q d r₂ g' ho₁ hu₁ hg hq ho₂ hu₂ hg' hahd' y hy' hyk
        exact ⟨hw, fun x hx hxd => hall x (hold x hx (by rw [hxd]; simpa using hne₂)) hxd⟩

private theorem Lined.forget (h : Lined c headed strict v) {keep : Place → Bool}
    (hkeep : ∀ id r, v.records id = some r → r.live = true → ∀ place : Place, SharedBy r place.2 → keep place = true) :
    Lined c headed strict (v.forget keep) := by
  have hmem : ∀ x, x ∈ (v.forget keep).places.items ↔ x ∈ v.places.items ∧ keep x.2 = true :=
    fun x => Numbered.mem_filter
  have hholds : ∀ place, (v.forget keep).Holds place ↔ v.Holds place ∧ keep place = true := by
    intro place
    constructor
    · rintro ⟨n, hn⟩
      exact ⟨⟨n, ((hmem _).1 hn).1⟩, ((hmem _).1 hn).2⟩
    · rintro ⟨⟨n, hn⟩, hk⟩
      exact ⟨n, (hmem _).2 ⟨hn, hk⟩⟩
  refine ⟨?_, h.named, ?_, ?_, h.streams, h.received, h.queue, h.queues, ?_, ?_⟩
  · intro place hplace hh
    obtain ⟨hh, hk⟩ := (hholds place).1 hh
    have hf := h.first place hplace hh
    unfold View.first at *
    obtain ⟨x, hx, hm⟩ := Option.map_eq_some_iff.1 hf
    have hq : x.2.1 = place.1 := by simpa using (Numbered.mem_of_firstWhere hx).2
    rw [Option.map_eq_some_iff]
    refine ⟨x, Numbered.firstWhere_filter hx ?_, hm⟩
    rw [show x.2 = place from Prod.ext hq hm]
    exact hk
  · exact fun place hh => h.known place ((hholds place).1 hh).1
  · intro id r g hr hg hq
    obtain ⟨hl, hs, hold⟩ := h.waiting id r g hr hg hq
    refine ⟨hl, hs, ?_⟩
    intro place hn hd
    exact (hholds place).2 ⟨hold place hn hd, hkeep id r hr hl place (.inr ⟨g, hg, hd⟩)⟩
  · intro x hx x' hx' y hy y' hy'
    exact h.uniform x ((hmem x).1 hx).1 x' ((hmem x').1 hx').1 y ((hmem y).1 hy).1 y' ((hmem y').1 hy').1
  · intro hst k r₁ g q d r₂ g' h₁ hu₁ hg hq h₂ hu₂ hg' hahead y hy hyk
    obtain ⟨hw, hall⟩ := h.settled hst k r₁ g q d r₂ g' h₁ hu₁ hg hq h₂ hu₂ hg' hahead.of_filter y ((hmem y).1 hy).1 hyk
    exact ⟨hw, fun x hx hxd => hall x ((hmem x).1 hx).1 hxd⟩

theorem Lined.turn (h : Lined c headed strict v) (ht : Turn c twice headed strict v v') : Lined c headed strict v' := by
  cases ht with
  | restate hb hreceived hgroup hseq hun hlive => exact h.restate hb hreceived hgroup hseq hun hlive
  | opens hnew hlive hseq hjoins => exact h.opens hnew hlive hseq hjoins
  | enters hr ha hnone hheaded => exact h.enters hr ha hnone hheaded
  | group hb hwaits hstream => exact h.group hb hwaits hstream
  | points hb hwaits hseq hstream hahead => exact h.points hb hwaits hseq hstream hahead
  | forget hkeep => exact h.forget hkeep

theorem Lined.turns (h : Lined c headed strict v) (ht : Relation.ReflTransGen (Turn c twice headed strict) v v') :
    Lined c headed strict v' := by
  induction ht with
  | refl => exact h
  | tail _ ht ih => exact ih.turn ht

end

end Cluster
