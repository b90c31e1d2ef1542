import XmipRuntime.Pickup.Carried

/-!
# No overtaking at a Subscription, and when there is

A Message published for a Subscription before another was decided for it enters its destination's queue first, where it
was not held, or else waits before it in the Subscription's queue.  `Lined` is the pickup with what was opened, written
and entered beside it, in the order it was; `ahead` is every pair of Messages of one Subscription of which the first was
written when the second was decided.  `Behind` is the condition: a decision lets a Message go to its destination only
while its Subscription's queue is empty, and nothing is moved out of a queue past a Message passed over in it.
-/

namespace Pickup

open Library

/-- What a writer under way opened, and which of it no Subscription holds. -/
structure Publishing where
  opened : List Opened
  departing : List Opened

/-- The pickup, and the Messages of it in the order they went on. -/
structure Lined where
  sys : Sys
  deciding : Table Nat Publishing
  /-- Every Message opened. -/
  opened : List Opened
  /-- Those whose write took effect. -/
  written : List Opened
  /-- The Journeys of those that entered their destinations' queues, in the order they did. -/
  entered : List Nat
  /-- Two Messages of one Subscription, the first written when the second was decided. -/
  ahead : List (Opened × Opened)

/-- Whether `opened` are Messages a writer may open: the Journeys new and told apart, and a Replay's of the node's own
Subscriptions. -/
def Lined.opens (x : Lined) (kind : Kind) (opened : List Opened) : Bool :=
  decide (opened.map Opened.journey).Nodup &&
    opened.all (fun one => decide (one.journey ∉ x.opened.map Opened.journey)) &&
    (kind != .replay || opened.all fun one => (x.sys.state.index one.subscription).isSome)

/-- What a decision lets go to its destination: what it does not hold, and nothing of a Replay's. -/
def Sys.letsGo (s : Sys) (kind : Kind) (opened : List Opened) (body : List UInt8) : List Opened :=
  if kind = .replay then [] else (s.state.held opened body (kind = .replay)).departing opened

def Lined.step (x : Lined) (a : Action) : Option Lined :=
  (x.sys.step a).bind fun s =>
    match a with
    | .decide w kind opened body =>
      let before := (x.deciding.get w).getD ⟨[], []⟩
      if x.opens kind opened then
        some { x with
          sys := s
          deciding := x.deciding.put w
            ⟨before.opened ++ opened, before.departing ++ x.sys.letsGo kind opened body⟩
          opened := x.opened ++ opened
          ahead := x.ahead ++ opened.flatMap fun b =>
            (x.written.filter fun a => a.subscription == b.subscription).map fun a => (a, b) }
      else none
    | .write w answer =>
      let publishing := (x.deciding.get w).getD ⟨[], []⟩
      if answer = .refused then some { x with sys := s, deciding := x.deciding.drop w }
      else some { x with
        sys := s
        deciding := x.deciding.drop w
        written := x.written ++ publishing.opened
        entered := x.entered ++ publishing.departing.map Opened.journey }
    | .land _ =>
      match x.sys.loop with
      | .carrying (one :: _) _ => some { x with sys := s, entered := x.entered ++ [one.hold.journey] }
      | _ => none
    | _ => some { x with sys := s }

/-- `a` is in the queue `q`. -/
def InQueue (s : Sys) (q a : Nat) : Prop := ∃ x ∈ (s.ledger q).items, x.2.journey = a

/-- A Message written is where its Subscription's queue holds it, or has entered its destination's. -/
def Placed (x : Lined) (a : Opened) : Prop :=
  a.journey ∈ x.entered ∨ ∃ q, (a.subscription, q) ∈ shape x.sys.state ∧ InQueue x.sys q a.journey

/-- The node as it starts: what its Subscriptions held before is written, and nothing is decided. -/
structure Lined.Opening (x : Lined) : Prop where
  sys : Pickup.Opening x.sys
  deciding : x.deciding.entries = []
  distinct : (x.opened.map Opened.journey).Nodup
  written : ∀ a ∈ x.written, a ∈ x.opened ∧ Placed x a
  held : ∀ q, ∀ y ∈ (x.sys.ledger q).items, ∃ a ∈ x.written, a.journey = y.2.journey ∧
    (a.subscription, q) ∈ shape x.sys.state
  entered : ∀ j ∈ x.entered, j ∈ x.opened.map Opened.journey
  ahead : x.ahead = []

/-- `a` is in `entered` before any `b` is. -/
def EntersFirst (entered : List Nat) (a b : Nat) : Prop :=
  ∀ i < entered.length, entered[i]? = some b → a ∈ entered.take i

instance (entered : List Nat) (a b : Nat) : Decidable (EntersFirst entered a b) :=
  inferInstanceAs (Decidable (∀ i < entered.length, entered[i]? = some b → a ∈ entered.take i))

/-- No Message enters its destination's queue before one written for its Subscription when it was decided. -/
def NoOvertaking (x : Lined) : Prop := ∀ p ∈ x.ahead, EntersFirst x.entered p.1.journey p.2.journey

/-- Nothing passed over is left before `one` in its queue. -/
def NonePassed (s : Sys) (one : Released) : Prop :=
  ∀ p ∈ s.passedOver, p.1 = one.hold.queue → p.2 < one.sequence → ∀ x ∈ (s.ledger one.hold.queue).items, x.1 ≠ p.2

instance (s : Sys) (one : Released) : Decidable (NonePassed s one) :=
  inferInstanceAs (Decidable (∀ p ∈ s.passedOver, p.1 = one.hold.queue → p.2 < one.sequence →
    ∀ x ∈ (s.ledger one.hold.queue).items, x.1 ≠ p.2))

/-- What a decision lets go is of a Subscription whose queue is empty, and what is moved out of a queue leaves nothing
passed over before it. -/
def Lined.Behind (x : Lined) : Action → Prop
  | .decide _ kind opened body => ∀ one ∈ x.sys.letsGo kind opened body, ∀ e ∈ x.sys.state,
      e.name = one.subscription → (x.sys.ledger e.queue).items.length = 0
  | .land _ =>
    match x.sys.loop with
    | .carrying (one :: _) _ => NonePassed x.sys one
    | _ => True
  | _ => True

instance (x : Lined) (a : Action) : Decidable (x.Behind a) :=
  match a with
  | .decide _ kind opened body =>
    inferInstanceAs (Decidable (∀ one ∈ x.sys.letsGo kind opened body, ∀ e ∈ x.sys.state,
      e.name = one.subscription → (x.sys.ledger e.queue).items.length = 0))
  | .land _ =>
    match h : x.sys.loop with
    | .carrying (one :: _) _ => decidable_of_iff (NonePassed x.sys one) (by simp [Lined.Behind, h])
    | .carrying [] _ | .idle | .asking _ _ | .answered _ _ _ _ _ | .landed _ _ _ _ =>
      .isTrue (by simp [Lined.Behind, h])
  | .write .. | .published _ | .act .. | .ask _ | .read _ | .relock _ | .moved | .passed | .again _ => .isTrue trivial

/-! ### What each step does -/

section Cases

variable {x x' : Lined}

theorem Lined.decided_cases {w : Nat} {kind : Kind} {opened : List Opened} {body : List UInt8}
    (hs : x.step (.decide w kind opened body) = some x') :
    ∃ s, x.sys.decided w kind opened body = some s ∧ x.opens kind opened = true ∧ x' = { x with
      sys := s
      deciding := x.deciding.put w ⟨((x.deciding.get w).getD ⟨[], []⟩).opened ++ opened,
        ((x.deciding.get w).getD ⟨[], []⟩).departing ++ x.sys.letsGo kind opened body⟩
      opened := x.opened ++ opened
      ahead := x.ahead ++ opened.flatMap fun b =>
        (x.written.filter fun a => a.subscription == b.subscription).map fun a => (a, b) } := by
  obtain ⟨s, hs₁, hs₂⟩ := Option.bind_eq_some_iff.1 hs
  simp only at hs₂
  split at hs₂
  · rename_i hopens
    exact ⟨s, hs₁, hopens, (Option.some.inj hs₂).symm⟩
  · cases hs₂

theorem Lined.write_cases {w : Nat} {answer : Answer} (hs : x.step (.write w answer) = some x') :
    ∃ s, x.sys.write w answer = some s ∧
      (answer = .refused ∧ x' = { x with sys := s, deciding := x.deciding.drop w } ∨
        answer ≠ .refused ∧ x' = { x with
          sys := s
          deciding := x.deciding.drop w
          written := x.written ++ ((x.deciding.get w).getD ⟨[], []⟩).opened
          entered := x.entered ++ ((x.deciding.get w).getD ⟨[], []⟩).departing.map Opened.journey }) := by
  obtain ⟨s, hs₁, hs₂⟩ := Option.bind_eq_some_iff.1 hs
  refine ⟨s, hs₁, ?_⟩
  simp only at hs₂
  split at hs₂
  · rename_i hrefused
    exact .inl ⟨hrefused, (Option.some.inj hs₂).symm⟩
  · rename_i hrefused
    exact .inr ⟨hrefused, (Option.some.inj hs₂).symm⟩

theorem Lined.land_cases {answered : Bool} (hs : x.step (.land answered) = some x') :
    ∃ s one rest stalled, x.sys.land answered = some s ∧ x.sys.loop = .carrying (one :: rest) stalled ∧
      x' = { x with sys := s, entered := x.entered ++ [one.hold.journey] } := by
  obtain ⟨s, hs₁, hs₂⟩ := Option.bind_eq_some_iff.1 hs
  simp only at hs₂
  split at hs₂
  · rename_i one rest stalled hl
    exact ⟨s, one, rest, stalled, hs₁, hl, (Option.some.inj hs₂).symm⟩
  · cases hs₂

end Cases

/-! ### Entering in order -/

theorem EntersFirst.append {entered : List Nat} {a b : Nat} (h : EntersFirst entered a b) {more : List Nat}
    (hmore : b ∈ more → a ∈ entered) : EntersFirst (entered ++ more) a b := by
  intro i _ hi
  rw [List.getElem?_append] at hi
  split at hi
  · rename_i hlt
    rw [List.take_append_of_le_length (Nat.le_of_lt hlt)]
    exact h i hlt hi
  · rename_i hle
    rw [List.take_append, List.take_of_length_le (Nat.le_of_not_lt hle)]
    exact List.mem_append_left _ (hmore (List.mem_of_getElem? hi))

theorem entersFirst_of_not_mem {entered : List Nat} {a b : Nat} (h : b ∉ entered) : EntersFirst entered a b :=
  fun _ _ hi => absurd (List.mem_of_getElem? hi) h

/-! ### The invariant -/

/-- What a writer under way opened is what it holds and what it lets go. -/
structure Decided (s : Sys) (holding : Holding) (p : Publishing) : Prop where
  holds : ∀ k ∈ holding.holds, ∃ one ∈ p.opened, one.journey = k.journey ∧ (one.subscription, k.queue) ∈ shape s.state
  opened : ∀ one ∈ p.opened, one ∈ p.departing ∨
    ∃ k ∈ holding.holds, k.journey = one.journey ∧ (one.subscription, k.queue) ∈ shape s.state
  departing : ∀ one ∈ p.departing, one ∈ p.opened

/-- What every step that meets `Behind` keeps. -/
structure Lines (x : Lined) : Prop where
  sound : Sound x.sys
  distinct : (x.opened.map Opened.journey).Nodup
  held : ∀ q, ∀ y ∈ (x.sys.ledger q).items, ∃ a ∈ x.opened, a.journey = y.2.journey ∧
    (a.subscription, q) ∈ shape x.sys.state
  entered : ∀ j ∈ x.entered, j ∈ x.opened.map Opened.journey
  written : ∀ a ∈ x.written, a ∈ x.opened ∧ Placed x a
  deciding : ∀ w u, x.sys.writers.get w = some u → u.landed = none →
    ∃ p, x.deciding.get w = some p ∧ Decided x.sys u.holding p
  pending : ∀ w p, x.deciding.get w = some p → ∃ u, x.sys.writers.get w = some u ∧ u.landed = none
  opened : ∀ w p, x.deciding.get w = some p → ∀ one ∈ p.opened, one ∈ x.opened
  pairs : ∀ p ∈ x.ahead, p.1 ∈ x.written ∧ p.2 ∈ x.opened ∧ p.1.subscription = p.2.subscription
  departing : ∀ p ∈ x.ahead, ∀ w g, x.deciding.get w = some g → p.2 ∈ g.departing → p.1.journey ∈ x.entered
  queued : ∀ p ∈ x.ahead, ∀ q, ∀ y ∈ (x.sys.ledger q).items, y.2.journey = p.2.journey → p.1.journey ∈ x.entered ∨
    ∃ z ∈ (x.sys.ledger q).items, z.1 < y.1 ∧ z.2.journey = p.1.journey
  first : NoOvertaking x

theorem lines_of_opening {x : Lined} (h : x.Opening) : Lines x where
  sound := sound_of_opening h.sys
  distinct := h.distinct
  held := by
    intro q y hy
    obtain ⟨a, ha, hj, hq⟩ := h.held q y hy
    exact ⟨a, (h.written a ha).1, hj, hq⟩
  entered := h.entered
  written := h.written
  deciding := by
    intro w u hu
    have := Table.mem_iff_get.2 hu
    rw [h.sys.writers] at this
    cases this
  pending := by
    intro w p hp
    have := Table.mem_iff_get.2 hp
    rw [h.deciding] at this
    cases this
  opened := by
    intro w p hp
    have := Table.mem_iff_get.2 hp
    rw [h.deciding] at this
    cases this
  pairs := by simp [h.ahead]
  departing := by simp [h.ahead]
  queued := by simp [h.ahead]
  first := by simp [NoOvertaking, h.ahead]

/-- A Journey tells a Message opened apart. -/
theorem Lines.eq_of_journey {x : Lined} (h : Lines x) {a b : Opened} (ha : a ∈ x.opened) (hb : b ∈ x.opened)
    (hj : a.journey = b.journey) : a = b := List.inj_on_of_nodup_map h.distinct ha hb hj

/-- A Subscription's name tells its queue. -/
theorem Sound.queue_of_name {s : Sys} (h : Sound s) {name : String} {q q' : Nat} (hq : (name, q) ∈ shape s.state)
    (hq' : (name, q') ∈ shape s.state) : q = q' := by
  obtain ⟨i, e, hi, he, -, rfl⟩ := index_of_mem_shape h.names hq
  obtain ⟨j, d, hj, hd, -, rfl⟩ := index_of_mem_shape h.names hq'
  rw [hi] at hj
  cases hj
  rw [he] at hd
  cases hd
  rfl

theorem Decided.of_shape {s s' : Sys} {holding : Holding} {p : Publishing} (h : Decided s holding p)
    (hshape : shape s'.state = shape s.state) : Decided s' holding p := by
  obtain ⟨h₁, h₂, h₃⟩ := h
  refine ⟨?_, ?_, h₃⟩
  · rw [hshape]; exact h₁
  · rw [hshape]; exact h₂

theorem Placed.of_shape {x x' : Lined} {a : Opened} (h : Placed x a) (hshape : shape x'.sys.state = shape x.sys.state)
    (hledger : x'.sys.ledger = x.sys.ledger) (hentered : x'.entered = x.entered) : Placed x' a := by
  unfold Placed InQueue at *
  rw [hshape, hledger, hentered]
  exact h

/-- A step that opens, writes and moves nothing. -/
theorem Lines.of_same {x : Lined} (h : Lines x) {s : Sys} (hsound : Sound s)
    (hshape : shape s.state = shape x.sys.state) (hledger : s.ledger = x.sys.ledger)
    (hwriters : ∀ w u, u.landed = none → (s.writers.get w = some u ↔ x.sys.writers.get w = some u)) :
    Lines { x with sys := s } where
  sound := hsound
  distinct := h.distinct
  held := by
    show ∀ q, ∀ y ∈ (s.ledger q).items, ∃ a ∈ x.opened, a.journey = y.2.journey ∧ (a.subscription, q) ∈ shape s.state
    rw [hledger, hshape]
    exact h.held
  entered := h.entered
  written := fun a ha => ⟨(h.written a ha).1, (h.written a ha).2.of_shape hshape hledger rfl⟩
  deciding := by
    intro w u hu hnone
    obtain ⟨p, hp, hd⟩ := h.deciding w u ((hwriters w u hnone).1 hu) hnone
    exact ⟨p, hp, hd.of_shape hshape⟩
  pending := by
    intro w p hp
    obtain ⟨u, hu, hnone⟩ := h.pending w p hp
    exact ⟨u, (hwriters w u hnone).2 hu, hnone⟩
  opened := h.opened
  pairs := h.pairs
  departing := h.departing
  queued := by
    intro p hp q
    show ∀ y ∈ (s.ledger q).items, _ → _ ∨ ∃ z ∈ (s.ledger q).items, _
    rw [hledger]
    exact h.queued p hp q
  first := h.first

/-! ### A decision -/

theorem Decided.append {s : Sys} {a b : Holding} {p q : Publishing} (ha : Decided s a p) (hb : Decided s b q) :
    Decided s (a.append b) ⟨p.opened ++ q.opened, p.departing ++ q.departing⟩ := by
  refine ⟨?_, ?_, ?_⟩
  · intro k hk
    rcases List.mem_append.1 hk with hk | hk
    · obtain ⟨one, hone, h⟩ := ha.holds k hk
      exact ⟨one, List.mem_append_left _ hone, h⟩
    · obtain ⟨one, hone, h⟩ := hb.holds k hk
      exact ⟨one, List.mem_append_right _ hone, h⟩
  · intro one hone
    rcases List.mem_append.1 hone with hone | hone
    · rcases ha.opened one hone with h | ⟨k, hk, h⟩
      · exact .inl (List.mem_append_left _ h)
      · exact .inr ⟨k, List.mem_append_left _ hk, h⟩
    · rcases hb.opened one hone with h | ⟨k, hk, h⟩
      · exact .inl (List.mem_append_right _ h)
      · exact .inr ⟨k, List.mem_append_right _ hk, h⟩
  · intro one hone
    rcases List.mem_append.1 hone with hone | hone
    · exact List.mem_append_left _ (ha.departing one hone)
    · exact List.mem_append_right _ (hb.departing one hone)

/-- A decision holds what it opens or lets it go. -/
theorem decided_held {x : Lined} {kind : Kind} {opened : List Opened} (hopens : x.opens kind opened = true)
    (body : List UInt8) :
    Decided x.sys (x.sys.state.held opened body (kind = .replay)) ⟨opened, x.sys.letsGo kind opened body⟩ := by
  have hmem : ∀ {one : Opened} {i : Nat} {e : Entry},
      x.sys.state.holder (kind = .replay) one.subscription = some (i, e) →
      (one.subscription, e.queue) ∈ shape x.sys.state := by
    intro one i e hh
    obtain ⟨he, hname⟩ := holder_spec hh
    exact hname ▸ List.mem_of_getElem? (shape_get he)
  refine ⟨?_, ?_, ?_⟩
  · intro k hk
    rw [(held_eq _ _ _ _).1, List.mem_filterMap] at hk
    obtain ⟨one, hone, hk⟩ := hk
    obtain ⟨⟨i, e⟩, hh, rfl⟩ := Option.map_eq_some_iff.1 hk
    exact ⟨one, hone, rfl, hmem hh⟩
  · intro one hone
    rcases hh : x.sys.state.holder (kind = .replay) one.subscription with _ | ⟨i, e⟩
    · refine .inl ?_
      unfold Sys.letsGo
      split
      · -- a Replay's Message is of a configured Subscription, so it is held
        rename_i hkind
        simp only [Lined.opens, hkind, Bool.and_eq_true, List.all_eq_true, bne_self_eq_false, Bool.false_or] at hopens
        have := holder_isSome (hopens.2 one hone)
        simp [hkind] at hh
        simp [hh] at this
      · exact mem_departing.2 ⟨hone, hh⟩
    · refine .inr ⟨⟨e.queue, one.journey, body⟩, ?_, rfl, hmem hh⟩
      rw [(held_eq _ _ _ _).1, List.mem_filterMap]
      exact ⟨one, hone, by rw [hh]; rfl⟩
  · intro one hone
    change one ∈ x.sys.letsGo kind opened body at hone
    unfold Sys.letsGo at hone
    split at hone
    · cases hone
    · exact (mem_departing.1 hone).1

/-- What a writer under way lets go it opened. -/
theorem Lines.departing_opened {x : Lined} (h : Lines x) {w : Nat} {p : Publishing} (hp : x.deciding.get w = some p) :
    ∀ one ∈ p.departing, one ∈ x.opened := by
  intro one hone
  obtain ⟨u, hu, hnone⟩ := h.pending w p hp
  obtain ⟨p', hp', hd⟩ := h.deciding w u hu hnone
  rw [hp] at hp'
  cases hp'
  exact h.opened w p hp one (hd.departing one hone)

/-- A pair newly ahead is a Message written and one opened now, both for one Subscription. -/
theorem mem_newAhead {written opened : List Opened} {p : Opened × Opened}
    (hp : p ∈ opened.flatMap fun b => (written.filter fun a => a.subscription == b.subscription).map fun a => (a, b)) :
    p.1 ∈ written ∧ p.2 ∈ opened ∧ p.1.subscription = p.2.subscription := by
  obtain ⟨b, hb, hp⟩ := List.mem_flatMap.1 hp
  obtain ⟨a, ha, rfl⟩ := List.mem_map.1 hp
  obtain ⟨ha, hsub⟩ := List.mem_filter.1 ha
  exact ⟨ha, hb, by simpa using hsub⟩

section Decision

variable {x : Lined} {w : Nat} {kind : Kind} {opened : List Opened} {body : List UInt8}

/-- What is let go finds its Subscription's queue empty: whatever was written for it has entered. -/
theorem Lines.entered_of_letsGo (h : Lines x) (hok : x.Behind (.decide w kind opened body)) {a one : Opened}
    (ha : a ∈ x.written) (hone : one ∈ x.sys.letsGo kind opened body) (hsub : a.subscription = one.subscription) :
    a.journey ∈ x.entered := by
  rcases (h.written a ha).2 with hent | ⟨q, hq, y, hy, -⟩
  · exact hent
  · obtain ⟨e, he, heq⟩ := List.mem_map.1 hq
    obtain ⟨hen, heq⟩ := Prod.mk.inj heq
    have hempty := hok one hone e he (hen.trans hsub)
    rw [heq, List.length_eq_zero_iff] at hempty
    rw [hempty] at hy
    cases hy

/-- What the writer decided before, if it did, and what it has decided now. -/
theorem Lines.decided_before (h : Lines x) {holding : Holding} (hopens : x.opens kind opened = true)
    (hwhich : x.sys.writers.get w = none ∧ holding = x.sys.state.held opened body (kind = .replay) ∨
      ∃ before, x.sys.writers.get w = some ⟨.turn, before, none⟩ ∧ kind = .turn ∧
        holding = before.append (x.sys.state.held opened body (kind = .replay))) {before : Publishing}
    (hbefore : (x.deciding.get w).getD ⟨[], []⟩ = before) :
    Decided x.sys holding ⟨before.opened ++ opened, before.departing ++ x.sys.letsGo kind opened body⟩ ∧
      (∀ one ∈ before.opened, one ∈ x.opened) ∧
      ∀ one ∈ before.departing, one ∈ x.opened ∧ ∀ p ∈ x.ahead, p.2 = one → p.1.journey ∈ x.entered := by
  have hnew := decided_held hopens body
  rcases hwhich with ⟨hget, rfl⟩ | ⟨holding', hget, -, rfl⟩
  · have hnone : x.deciding.get w = none := by
      rcases hp : x.deciding.get w with _ | p
      · rfl
      · obtain ⟨u, hu, -⟩ := h.pending w p hp
        rw [hget] at hu
        cases hu
    rw [hnone] at hbefore
    subst hbefore
    exact ⟨by simpa using hnew, by simp, by simp⟩
  · obtain ⟨p, hp, hd⟩ := h.deciding w _ hget rfl
    rw [hp] at hbefore
    subst hbefore
    refine ⟨hd.append hnew, h.opened w p hp, ?_⟩
    intro one hone
    refine ⟨h.departing_opened hp one hone, ?_⟩
    rintro pr hpr rfl
    exact h.departing pr hpr w p hp hone

end Decision

theorem Lines.decided {x x' : Lined} (h : Lines x) {w : Nat} {kind : Kind} {opened : List Opened} {body : List UInt8}
    (hok : x.Behind (.decide w kind opened body)) (hs : x.step (.decide w kind opened body) = some x') : Lines x' := by
  obtain ⟨s, hs', hopens, rfl⟩ := Lined.decided_cases hs
  have hsound := h.sound.decided hs'
  obtain ⟨holding, rfl, hwhich⟩ := decided_cases hs'
  have hletsGo : ∀ one ∈ x.sys.letsGo kind opened body, one ∈ opened := (decided_held hopens body).departing
  have hopens' := hopens
  simp only [Lined.opens, Bool.and_eq_true, List.all_eq_true, decide_eq_true_eq] at hopens'
  obtain ⟨⟨hnodup, hfresh⟩, -⟩ := hopens'
  generalize hbefore : (x.deciding.get w).getD ⟨[], []⟩ = before
  obtain ⟨hd, hopened, hdeparting⟩ := h.decided_before hopens hwhich hbefore
  have hold : ∀ one ∈ opened, one ∉ x.opened := fun one hone hm => hfresh one hone (List.mem_map_of_mem hm)
  refine ⟨hsound, ?_, ?_, ?_, ?_, ?_, ?_, ?_, ?_, ?_, ?_, ?_⟩
  · show ((x.opened ++ opened).map Opened.journey).Nodup
    rw [List.map_append, List.nodup_append]
    refine ⟨h.distinct, hnodup, ?_⟩
    rintro j hj j' hj' rfl
    obtain ⟨one, hone, rfl⟩ := List.mem_map.1 hj'
    exact hfresh one hone hj
  · intro q y hy
    obtain ⟨a, ha, hj⟩ := h.held q y hy
    exact ⟨a, List.mem_append_left _ ha, hj⟩
  · intro j hj
    show j ∈ (x.opened ++ opened).map Opened.journey
    rw [List.map_append]
    exact List.mem_append_left _ (h.entered j hj)
  · intro a ha
    exact ⟨List.mem_append_left _ (h.written a ha).1, (h.written a ha).2.of_shape rfl rfl rfl⟩
  · intro w' u hu hnone
    change (x.sys.writers.put w ⟨kind, holding, none⟩).get w' = some u at hu
    show ∃ p, (x.deciding.put w _).get w' = some p ∧ _
    rw [Table.get_put] at hu ⊢
    split at hu
    · rename_i hw
      cases hu
      rw [if_pos hw]
      exact ⟨_, rfl, hd.of_shape rfl⟩
    · rename_i hw
      rw [if_neg hw]
      obtain ⟨p, hp, hd'⟩ := h.deciding w' u hu hnone
      exact ⟨p, hp, hd'.of_shape rfl⟩
  · intro w' p hp
    change (x.deciding.put w _).get w' = some p at hp
    show ∃ u, (x.sys.writers.put w _).get w' = some u ∧ _
    rw [Table.get_put] at hp ⊢
    split at hp
    · rename_i hw
      rw [if_pos hw]
      exact ⟨_, rfl, rfl⟩
    · rename_i hw
      rw [if_neg hw]
      exact h.pending w' p hp
  · intro w' p hp one hone
    change (x.deciding.put w _).get w' = some p at hp
    rw [Table.get_put] at hp
    split at hp
    · cases hp
      rcases List.mem_append.1 hone with hone | hone
      · exact List.mem_append_left _ (hopened one hone)
      · exact List.mem_append_right _ hone
    · exact List.mem_append_left _ (h.opened w' p hp one hone)
  · intro p hp
    rcases List.mem_append.1 hp with hp | hp
    · obtain ⟨h₁, h₂, h₃⟩ := h.pairs p hp
      exact ⟨h₁, List.mem_append_left _ h₂, h₃⟩
    · obtain ⟨h₁, h₂, h₃⟩ := mem_newAhead hp
      exact ⟨h₁, List.mem_append_right _ h₂, h₃⟩
  · intro p hp w' g hg hmem
    change (x.deciding.put w _).get w' = some g at hg
    rw [Table.get_put] at hg
    rcases List.mem_append.1 hp with hp | hp
    · have hp₂ := (h.pairs p hp).2.1
      split at hg
      · cases hg
        rcases List.mem_append.1 hmem with hmem | hmem
        · exact (hdeparting p.2 hmem).2 p hp rfl
        · exact absurd hp₂ (hold _ (hletsGo _ hmem))
      · exact h.departing p hp w' g hg hmem
    · obtain ⟨h₁, h₂, h₃⟩ := mem_newAhead hp
      split at hg
      · cases hg
        rcases List.mem_append.1 hmem with hmem | hmem
        · exact absurd (hdeparting p.2 hmem).1 (hold _ h₂)
        · exact h.entered_of_letsGo hok h₁ hmem h₃
      · exact absurd (h.departing_opened hg _ hmem) (hold _ h₂)
  · intro p hp q y hy hj
    rcases List.mem_append.1 hp with hp | hp
    · exact h.queued p hp q y hy hj
    · obtain ⟨-, h₂, -⟩ := mem_newAhead hp
      obtain ⟨a, ha, haj, -⟩ := h.held q y hy
      exact absurd (hj ▸ haj ▸ List.mem_map_of_mem ha) (hfresh p.2 h₂)
  · intro p hp
    rcases List.mem_append.1 hp with hp | hp
    · exact h.first p hp
    · obtain ⟨-, h₂, -⟩ := mem_newAhead hp
      exact entersFirst_of_not_mem fun hm => hfresh p.2 h₂ (h.entered _ hm)

/-! ### A write -/

/-- A write refused: what its writer opened is never written. -/
theorem Lines.refused {x : Lined} (h : Lines x) {w : Nat}
    (hsound : Sound { x.sys with writers := x.sys.writers.drop w }) :
    Lines { x with sys := { x.sys with writers := x.sys.writers.drop w }, deciding := x.deciding.drop w } where
  sound := hsound
  distinct := h.distinct
  held := h.held
  entered := h.entered
  written := fun a ha => ⟨(h.written a ha).1, (h.written a ha).2.of_shape rfl rfl rfl⟩
  deciding := by
    intro w' u hu hnone
    change (x.sys.writers.drop w).get w' = some u at hu
    show ∃ p, (x.deciding.drop w).get w' = some p ∧ _
    rw [Table.get_drop] at hu ⊢
    split at hu
    · cases hu
    · rename_i hw
      rw [if_neg hw]
      obtain ⟨p, hp, hd⟩ := h.deciding w' u hu hnone
      exact ⟨p, hp, hd.of_shape rfl⟩
  pending := by
    intro w' p hp
    change (x.deciding.drop w).get w' = some p at hp
    show ∃ u, (x.sys.writers.drop w).get w' = some u ∧ _
    rw [Table.get_drop] at hp ⊢
    split at hp
    · cases hp
    · rename_i hw
      rw [if_neg hw]
      exact h.pending w' p hp
  opened := by
    intro w' p hp
    change (x.deciding.drop w).get w' = some p at hp
    rw [Table.get_drop] at hp
    split at hp
    · cases hp
    · exact h.opened w' p hp
  pairs := h.pairs
  departing := by
    intro p hp w' g hg
    change (x.deciding.drop w).get w' = some g at hg
    rw [Table.get_drop] at hg
    split at hg
    · cases hg
    · exact h.departing p hp w' g hg
  queued := h.queued
  first := h.first

/-- A write that lands, whatever becomes of its writer: what is let go enters, and what is held goes to the end of its
queue. -/
theorem Lines.landed {x : Lined} (h : Lines x) {w : Nat} {p : Publishing} (hp : x.deciding.get w = some p)
    {holding : Holding} (hd : Decided x.sys holding p) {s : Sys} (hsound : Sound s) (hstate : s.state = x.sys.state)
    (hledger : s.ledger = (landAll x.sys.ledger holding.holds).1)
    (hwriters : ∀ w' u, u.landed = none → (s.writers.get w' = some u ↔ w' ≠ w ∧ x.sys.writers.get w' = some u)) :
    Lines { x with
      sys := s
      deciding := x.deciding.drop w
      written := x.written ++ p.opened
      entered := x.entered ++ p.departing.map Opened.journey } := by
  have hl := landed_landAll x.sys.ledger holding.holds
  have hshape : shape s.state = shape x.sys.state := by rw [hstate]
  have hkept : ∀ q, ∀ y ∈ (x.sys.ledger q).items, y ∈ (s.ledger q).items := by
    rw [hledger]
    exact hl.kept
  have hitems : ∀ q, ∀ y ∈ (s.ledger q).items, y ∈ (x.sys.ledger q).items ∨
      (x.sys.ledger q).next ≤ y.1 ∧ y.2 ∈ holding.holds ∧ y.2.queue = q := by
    intro q y hy
    rw [hledger] at hy
    rcases hl.items q y hy with hy | ⟨hn, -, hm, hq⟩
    · exact .inl hy
    · exact .inr ⟨hn, hm, hq⟩
  have hopened := h.opened w p hp
  have hdeparting := h.departing_opened hp
  have hdropped : ∀ w' g, (x.deciding.drop w).get w' = some g → w' ≠ w ∧ x.deciding.get w' = some g := by
    intro w' g hg
    rw [Table.get_drop] at hg
    split at hg
    · cases hg
    · rename_i hw
      exact ⟨hw, hg⟩
  refine ⟨hsound, h.distinct, ?_, ?_, ?_, ?_, ?_, ?_, ?_, ?_, ?_, ?_⟩
  · intro q y hy
    show ∃ a ∈ x.opened, a.journey = y.2.journey ∧ (a.subscription, q) ∈ shape s.state
    rw [hshape]
    rcases hitems q y hy with hy | ⟨-, hm, rfl⟩
    · exact h.held q y hy
    · obtain ⟨one, hone, hj, hq⟩ := hd.holds y.2 hm
      exact ⟨one, hopened one hone, hj, hq⟩
  · intro j hj
    rcases List.mem_append.1 hj with hj | hj
    · exact h.entered j hj
    · obtain ⟨one, hone, rfl⟩ := List.mem_map.1 hj
      exact List.mem_map_of_mem (hdeparting one hone)
  · intro a ha
    rcases List.mem_append.1 ha with ha | ha
    · refine ⟨(h.written a ha).1, ?_⟩
      rcases (h.written a ha).2 with hent | ⟨q, hq, y, hy, hj⟩
      · exact .inl (List.mem_append_left _ hent)
      · exact .inr ⟨q, hshape ▸ hq, y, hkept q y hy, hj⟩
    · refine ⟨hopened a ha, ?_⟩
      rcases hd.opened a ha with hdep | ⟨k, hk, hj, hq⟩
      · exact .inl (List.mem_append_right _ (List.mem_map_of_mem hdep))
      · obtain ⟨n, hn⟩ := mem_landAll x.sys.ledger hk
        exact .inr ⟨k.queue, hshape ▸ hq, (n, k), by rw [← hledger] at hn; exact hn, hj⟩
  · intro w' u hu hnone
    obtain ⟨hw, hu⟩ := (hwriters w' u hnone).1 hu
    obtain ⟨g, hg, hd'⟩ := h.deciding w' u hu hnone
    refine ⟨g, ?_, hd'.of_shape hshape⟩
    show (x.deciding.drop w).get w' = some g
    rw [Table.get_drop_of_ne _ hw]
    exact hg
  · intro w' g hg
    obtain ⟨hw, hg⟩ := hdropped w' g hg
    obtain ⟨u, hu, hnone⟩ := h.pending w' g hg
    exact ⟨u, (hwriters w' u hnone).2 ⟨hw, hu⟩, hnone⟩
  · intro w' g hg
    exact h.opened w' g (hdropped w' g hg).2
  · intro pr hpr
    obtain ⟨h₁, h₂⟩ := h.pairs pr hpr
    exact ⟨List.mem_append_left _ h₁, h₂⟩
  · intro pr hpr w' g hg hmem
    exact List.mem_append_left _ (h.departing pr hpr w' g (hdropped w' g hg).2 hmem)
  · intro pr hpr q y hy hj
    obtain ⟨hw₁, ho₂, hsub⟩ := h.pairs pr hpr
    rcases hitems q y hy with hy | ⟨hn, hm, rfl⟩
    · rcases h.queued pr hpr q y hy hj with hent | ⟨z, hz, hlt, hzj⟩
      · exact .inl (List.mem_append_left _ hent)
      · exact .inr ⟨z, hkept q z hz, hlt, hzj⟩
    · -- the second of the pair is new in its queue: the first, where it is there, was there before
      obtain ⟨one, hone, honej, hq⟩ := hd.holds y.2 hm
      have heq : one = pr.2 := h.eq_of_journey (hopened one hone) ho₂ (honej.trans hj)
      subst heq
      rcases (h.written pr.1 hw₁).2 with hent | ⟨q', hq', z, hz, hzj⟩
      · exact .inl (List.mem_append_left _ hent)
      · have hqq := h.sound.queue_of_name (hsub ▸ hq') hq
        subst hqq
        have := Numbered.below _ z hz
        exact .inr ⟨z, hkept _ z hz, by omega, hzj⟩
  · intro pr hpr
    refine (h.first pr hpr).append ?_
    intro hmem
    obtain ⟨one, hone, hj⟩ := List.mem_map.1 hmem
    have heq : one = pr.2 := h.eq_of_journey (hdeparting one hone) (h.pairs pr hpr).2.1 hj
    exact h.departing pr hpr w p hp (heq ▸ hone)

theorem Lines.write {x x' : Lined} (h : Lines x) {w : Nat} {answer : Answer} (hs : x.step (.write w answer) = some x') :
    Lines x' := by
  obtain ⟨s, hs', hwhich⟩ := Lined.write_cases hs
  have hsound := h.sound.write hs'
  obtain ⟨kind, holding, hget, hcases⟩ := write_cases hs'
  obtain ⟨p, hp, hd⟩ := h.deciding w _ hget rfl
  rw [hp] at hwhich
  obtain ⟨hr, rfl⟩ | ⟨hr, -, rfl⟩ | ⟨hr, -, rfl⟩ := hcases
  · obtain ⟨-, rfl⟩ | ⟨hn, -⟩ := hwhich
    · exact h.refused hsound
    · exact absurd hr hn
  · obtain ⟨he, -⟩ | ⟨-, rfl⟩ := hwhich
    · exact absurd he hr
    · refine h.landed hp hd hsound rfl rfl ?_
      intro w' u _
      show (x.sys.writers.drop w).get w' = some u ↔ _
      rw [Table.get_drop]
      by_cases hw : w' = w <;> simp [hw]
  · obtain ⟨he, -⟩ | ⟨-, rfl⟩ := hwhich
    · exact absurd he hr
    · refine h.landed hp hd hsound rfl rfl ?_
      intro w' u hnone
      show (x.sys.writers.put w _).get w' = some u ↔ _
      rw [Table.get_put]
      by_cases hw : w' = w
      · -- it has landed, and tells the pickup next
        simp only [hw, if_true, ne_eq, not_true_eq_false, false_and, iff_false]
        rintro heq
        cases heq
        cases hnone
      · simp [hw]

/-! ### A Message moved out of its queue -/

/-- Nothing stands before the first Message the loop may move, where none was passed over. -/
theorem Sound.first_of_land {s s' : Sys} (h : Sound s) {answered : Bool} (hs : s.land answered = some s')
    {one : Released} {rest : List Released} {stalled : List String} (hl : s.loop = .carrying (one :: rest) stalled)
    (hnone : NonePassed s one) : ∀ z ∈ (s.ledger one.hold.queue).items, ¬ z.1 < one.sequence := by
  intro z hz hlt
  obtain ⟨one', rest', stalled', hl', hstalled, -⟩ := land_cases hs
  rw [hl] at hl'
  cases hl'
  have hordered := h.ordered
  rw [hl] at hordered
  rcases hordered 0 one rfl z hz hlt with hm | hp | hst
  · cases hm
  · exact hnone _ hp rfl hlt z hz rfl
  · exact hstalled hst

theorem Lines.land {x x' : Lined} (h : Lines x) {answered : Bool} (hok : x.Behind (.land answered))
    (hs : x.step (.land answered) = some x') : Lines x' := by
  obtain ⟨s, one, rest, stalled, hs', hl, rfl⟩ := Lined.land_cases hs
  have hsound := h.sound.land hs'
  have hnone : NonePassed x.sys one := by simpa only [Lined.Behind, hl] using hok
  have hfirst := h.sound.first_of_land hs' hl hnone
  have hone := (h.sound.known one (by rw [hl]; exact List.mem_cons_self ..)).2
  obtain ⟨one', rest', stalled', hl', -, rfl⟩ := land_cases hs'
  rw [hl] at hl'
  cases hl'
  -- what was in a queue is there still, or it is the one that was moved
  have hitems : ∀ q, ∀ y ∈ (x.sys.ledger q).items, y.2.journey = one.hold.journey ∨
      y ∈ (Function.update x.sys.ledger one.hold.queue
        ((x.sys.ledger one.hold.queue).filter fun x => decide (x.1 ≠ one.sequence)) q).items := by
    intro q y hy
    by_cases hq : q = one.hold.queue
    · subst hq
      by_cases hn : y.1 = one.sequence
      · have := Numbered.eq_of_number hy hone hn
        exact .inl (by rw [this])
      · refine .inr ?_
        simp only [Function.update_self, Numbered.mem_filter, ne_eq, decide_eq_true_eq]
        exact ⟨hy, hn⟩
    · refine .inr ?_
      simp only [Function.update_of_ne hq]
      exact hy
  have hsub : ∀ q, ∀ y ∈ (Function.update x.sys.ledger one.hold.queue
      ((x.sys.ledger one.hold.queue).filter fun x => decide (x.1 ≠ one.sequence)) q).items,
      y ∈ (x.sys.ledger q).items := by
    intro q y hy
    by_cases hq : q = one.hold.queue
    · subst hq
      simp only [Function.update_self, Numbered.mem_filter] at hy
      exact hy.1
    · simpa only [Function.update_of_ne hq] using hy
  refine ⟨hsound, h.distinct, ?_, ?_, ?_, ?_, h.pending, h.opened, h.pairs, ?_, ?_, ?_⟩
  · exact fun q y hy => h.held q y (hsub q y hy)
  · intro j hj
    rcases List.mem_append.1 hj with hj | hj
    · exact h.entered j hj
    · simp only [List.mem_singleton] at hj
      obtain ⟨a, ha, haj, -⟩ := h.held _ _ hone
      exact List.mem_map.2 ⟨a, ha, haj.trans hj.symm⟩
  · intro a ha
    refine ⟨(h.written a ha).1, ?_⟩
    rcases (h.written a ha).2 with hent | ⟨q, hq, y, hy, hj⟩
    · exact .inl (List.mem_append_left _ hent)
    · rcases hitems q y hy with hyj | hy
      · exact .inl (List.mem_append_right _ (by rw [← hj, hyj]; exact List.mem_singleton_self _))
      · exact .inr ⟨q, hq, y, hy, hj⟩
  · intro w u hu hnone
    obtain ⟨p, hp, hd⟩ := h.deciding w u hu hnone
    exact ⟨p, hp, hd.of_shape rfl⟩
  · exact fun p hp w g hg hm => List.mem_append_left _ (h.departing p hp w g hg hm)
  · intro p hp q y hy hj
    rcases h.queued p hp q y (hsub q y hy) hj with hent | ⟨z, hz, hlt, hzj⟩
    · exact .inl (List.mem_append_left _ hent)
    · rcases hitems q z hz with hzo | hz
      · exact .inl (List.mem_append_right _ (by rw [← hzj, hzo]; exact List.mem_singleton_self _))
      · exact .inr ⟨z, hz, hlt, hzj⟩
  · intro p hp
    refine (h.first p hp).append ?_
    intro hmem
    simp only [List.mem_singleton] at hmem
    -- the Message moved is the second of the pair: the first is not before it, so it has entered
    rcases h.queued p hp _ _ hone hmem.symm with hent | ⟨z, hz, hlt, -⟩
    · exact hent
    · exact absurd hlt (hfirst z hz)

theorem Lines.step {x x' : Lined} {a : Action} (h : Lines x) (hok : x.Behind a) (hs : x.step a = some x') :
    Lines x' := by
  cases a with
  | decide w kind opened body => exact h.decided hok hs
  | write w answer => exact h.write hs
  | land answered => exact h.land hok hs
  | published w =>
    obtain ⟨s, hs', heq⟩ := Option.bind_eq_some_iff.1 hs
    cases heq
    have hsound := h.sound.published hs'
    obtain ⟨kind, holding, places, hget, rfl⟩ := published_cases hs'
    refine h.of_same hsound (shape_published ..) rfl ?_
    intro w' u hnone
    show (x.sys.writers.drop w).get w' = some u ↔ _
    rw [Table.get_drop]
    by_cases hw : w' = w
    · subst hw
      simp only [if_true, hget, Option.some.injEq]
      constructor
      · rintro heq
        cases heq
      · rintro rfl
        cases hnone
    · simp [hw]
  | act name act who now took =>
    obtain ⟨s, hs', heq⟩ := Option.bind_eq_some_iff.1 hs
    cases heq
    simp only [Sys.step, Option.some.injEq] at hs'
    subst hs'
    exact h.of_same (h.sound.act name act who now took) (shape_act ..) rfl fun _ _ _ => Iff.rfl
  | ask now =>
    obtain ⟨s, hs', heq⟩ := Option.bind_eq_some_iff.1 hs
    cases heq
    have hsound := h.sound.ask hs'
    obtain ⟨-, rfl⟩ := ask_cases hs'
    exact h.of_same hsound rfl rfl fun _ _ _ => Iff.rfl
  | read answered =>
    obtain ⟨s, hs', heq⟩ := Option.bind_eq_some_iff.1 hs
    cases heq
    have hsound := h.sound.read hs'
    obtain ⟨ask, asks, taken, -, rfl⟩ | ⟨taken, -, rfl⟩ := read_cases hs'
    · exact h.of_same hsound rfl rfl fun _ _ _ => Iff.rfl
    · exact h.of_same hsound rfl rfl fun _ _ _ => Iff.rfl
  | relock now =>
    obtain ⟨s, hs', heq⟩ := Option.bind_eq_some_iff.1 hs
    cases heq
    have hsound := h.sound.relock hs'
    obtain ⟨ask, read, upTo, asks, taken, e, hl, he, rfl⟩ := relocked_cases hs'
    obtain ⟨hn, hq, -, -⟩ := h.sound.relock_keeps hl e now
    exact h.of_same hsound (shape_set he hn hq) rfl fun _ _ _ => Iff.rfl
  | moved =>
    obtain ⟨s, hs', heq⟩ := Option.bind_eq_some_iff.1 hs
    cases heq
    have hsound := h.sound.moved hs'
    obtain ⟨one, rest, stalled, -, rfl⟩ := moved_cases hs'
    exact h.of_same hsound (shape_moved ..) rfl fun _ _ _ => Iff.rfl
  | passed =>
    obtain ⟨s, hs', heq⟩ := Option.bind_eq_some_iff.1 hs
    cases heq
    have hsound := h.sound.passed hs'
    obtain ⟨one, rest, stalled, -, -, rfl⟩ := passed_cases hs'
    exact h.of_same hsound (shape_passed ..) rfl fun _ _ _ => Iff.rfl
  | again now =>
    obtain ⟨s, hs', heq⟩ := Option.bind_eq_some_iff.1 hs
    cases heq
    have hsound := h.sound.again hs'
    obtain ⟨one, rest, stalled, -, rfl⟩ := again_cases hs'
    exact h.of_same hsound (shape_again ..) rfl fun _ _ _ => Iff.rfl

/-- In every run in which no decision lets a Message go past a queue that holds anything and none is moved past one
passed over, no Message overtakes one written for its Subscription before it was decided. -/
theorem noOvertaking_of_behind {x : Lined} (h : Reach Lined.step Lined.Behind Lined.Opening x) : NoOvertaking x := by
  suffices Lines x from this.first
  exact h.invariant (fun _ => lines_of_opening) fun _ _ _ hl hok hs => hl.step hok hs

/-! ### Held behind, and let past -/

def Lined.quiet : Lined := ⟨Sys.quiet, Table.empty, [], [], [], []⟩

private theorem opening_lined : Lined.quiet.Opening where
  sys := opening_quiet
  deciding := rfl
  distinct := List.nodup_nil
  written := by simp [Lined.quiet]
  held := by simp [Lined.quiet, Sys.quiet, Numbered.empty]
  entered := by simp [Lined.quiet]
  ahead := rfl

/-- A Message held while its Subscription is paused, which is then resumed. -/
def Lined.resumed : List Action :=
  [.act "orders" .pause "op" 1 true, .decide 1 .publication [⟨11, "orders"⟩] [], .write 1 .taken,
    .act "orders" .resume "op" 2 true]

/-- Counted before the next is decided, the next is held behind it, and they are moved on in their order. -/
theorem noOvertaking_heldBehind : ∃ x, Reach Lined.step Lined.Behind Lined.Opening x ∧ NoOvertaking x ∧
    x.entered = [11, 12] ∧ x.ahead = [(⟨11, "orders"⟩, ⟨12, "orders"⟩)] := by
  obtain ⟨x, hx, hp⟩ := Reach.exists_of_runWhere Lined.step Lined.Behind opening_lined
    (List.flatten [Lined.resumed,
      [.published 1, .decide 2 .publication [⟨12, "orders"⟩] [], .write 2 .taken, .published 2, .ask 0, .read true,
        .relock 0, .read true, .land true, .moved, .land true, .moved]])
    (fun x => decide (x.entered = [11, 12] ∧ x.ahead = [(⟨11, "orders"⟩, ⟨12, "orders"⟩)])) (by decide +kernel)
  exact ⟨x, hx, noOvertaking_of_behind hx, of_decide_eq_true hp⟩

/-- Decided before the first is counted, the next is let go past it. -/
theorem overtaken_before_counted : ∃ x, Reach Lined.step Always Lined.Opening x ∧ ¬ NoOvertaking x := by
  obtain ⟨x, hx, hp⟩ := Reach.exists_of_runWhere Lined.step Always opening_lined
    (List.flatten [Lined.resumed, [.decide 2 .publication [⟨12, "orders"⟩] [], .write 2 .taken]])
    (fun x => decide (∃ p ∈ x.ahead, ¬ EntersFirst x.entered p.1.journey p.2.journey)) (by decide +kernel)
  obtain ⟨p, hp, hnot⟩ := of_decide_eq_true hp
  exact ⟨x, hx, fun h => hnot (h p hp)⟩

end Pickup
