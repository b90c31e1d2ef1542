import XmipRuntime.Pickup.Cases

/-!
# What the pick-up loop carries

What every step of the pickup keeps, whatever the others do: the loop carries each Message it let go of once, still in
its Subscription's queue and taken there; everything below a cursor is taken or passed over; and the loop goes through
a queue in order, so that what stands before a Message it carries is carried before it, or was passed over, or stalled
its Subscription.  `Sound` is the invariant and `sound_of_reach` the run lemma.
-/

namespace Pickup

open Library

/-! ### The invariant -/

/-- The reads the loop is to make, the one it is at among them. -/
def Loop.asks : Loop → List Ask
  | .asking asks _ => asks
  | .answered ask _ _ asks _ => ask :: asks
  | .idle | .carrying _ _ | .landed _ _ _ _ => []

/-- What was let go of to the loop and it is to go through, in that order. -/
def Loop.carried : Loop → List Released
  | .idle => []
  | .asking _ taken | .answered _ _ _ _ taken => taken
  | .carrying released _ | .landed _ _ released _ => released

/-- The Subscriptions whose held Message is to be read again. -/
def Loop.stalled : Loop → List String
  | .idle | .asking _ _ | .answered _ _ _ _ _ => []
  | .carrying _ stalled | .landed _ _ _ stalled => stalled

/-- The Message moved out of its queue that the pickup has yet to be told of. -/
def Loop.inHand : Loop → Option Released
  | .landed one _ _ _ => some one
  | .idle | .asking _ _ | .answered _ _ _ _ _ | .carrying _ _ => none

/-- Where a Message let go of stands: its queue and its place there. -/
def Released.place (r : Released) : Nat × Nat := (r.hold.queue, r.sequence)

/-- What a read answered, as the queue has gone on since: it skipped nothing up to its last item, and nothing that was
there where it found the end. -/
structure Read (s : Sys) (ask : Ask) (items : List (Nat × Hold)) (upTo : Nat) : Prop where
  reached : upTo ≤ (s.ledger ask.queue).next
  below : ∀ y ∈ items, y.1 < upTo
  held : ∀ y ∈ items, y ∈ (s.ledger ask.queue).items
  increasing : items.Pairwise fun x y => x.1 < y.1
  skips : ∀ x ∈ (s.ledger ask.queue).items, ask.start ≤ x.1 → ∀ y ∈ items, x.1 ≤ y.1 → x ∈ items
  ended : items.length < s.most → ∀ x ∈ (s.ledger ask.queue).items, ask.start ≤ x.1 → x.1 < upTo → x ∈ items

/-- A Message let go of is of a configured Subscription and of its queue, and it is still there. -/
def Known (s : Sys) (r : Released) : Prop :=
  (r.subscription, r.hold.queue) ∈ shape s.state ∧ (r.sequence, r.hold) ∈ (s.ledger r.hold.queue).items

/-- One moved out of its queue, which it does not come back to. -/
def Gone (s : Sys) (r : Released) : Prop :=
  (r.subscription, r.hold.queue) ∈ shape s.state ∧ r.sequence < (s.ledger r.hold.queue).next ∧
    ∀ x ∈ (s.ledger r.hold.queue).items, x.1 ≠ r.sequence

/-- What stands in its queue before a Message `carried` is carried before it, or was passed over, or its Subscription
stalled. -/
def InOrder (s : Sys) (carried : List Released) (stalled : List String) : Prop :=
  ∀ i r, carried[i]? = some r → ∀ x ∈ (s.ledger r.hold.queue).items, x.1 < r.sequence →
    (r.hold.queue, x.1) ∈ (carried.take i).map Released.place ∨ (r.hold.queue, x.1) ∈ s.passedOver ∨
      r.subscription ∈ stalled

/-- One Subscription's entry: everything below its cursor is taken or passed over, and what it has taken is what the
loop carries. -/
structure EntrySound (s : Sys) (e : Entry) : Prop where
  cursor : e.cursor ≤ (s.ledger e.queue).next
  behind : ∀ x ∈ (s.ledger e.queue).items, x.1 < e.cursor → x.1 ∈ e.taken ∨ (e.queue, x.1) ∈ s.passedOver
  bounded : ∀ n ∈ e.taken, n < (s.ledger e.queue).next
  taken : ∀ x ∈ (s.ledger e.queue).items, x.1 ∈ e.taken ↔ (e.queue, x.1) ∈ s.loop.carried.map Released.place

/-- What every step keeps. -/
structure Sound (s : Sys) : Prop where
  names : (s.state.map Entry.name).Nodup
  queues : (s.state.map Entry.queue).Nodup
  ledger : ∀ q, ∀ x ∈ (s.ledger q).items, x.2.queue = q
  entries : ∀ e ∈ s.state, EntrySound s e
  asks : ∀ a ∈ s.loop.asks, Asked s a
  reading : ∀ ask items upTo asks taken, s.loop = .answered ask (some items) upTo asks taken → Read s ask items upTo
  known : ∀ r ∈ s.loop.carried, Known s r
  distinct : (s.loop.carried.map Released.place).Nodup
  ordered : InOrder s s.loop.carried s.loop.stalled
  inHand : ∀ one ∈ s.loop.inHand, Gone s one

theorem sound_of_opening {s : Sys} (h : Opening s) : Sound s where
  names := h.names
  queues := h.queues
  ledger := h.ledger
  entries := by
    intro e he
    obtain ⟨hc, ht, -, -⟩ := h.entry e he
    refine ⟨by omega, fun x _ hx => by omega, by simp [ht], ?_⟩
    intro x _
    simp [ht, h.loop, Loop.carried]
  asks := by simp [h.loop, Loop.asks]
  reading := by simp [h.loop]
  known := by simp [h.loop, Loop.carried]
  distinct := by simp [h.loop, Loop.carried]
  ordered := by
    intro i r hr
    simp [h.loop, Loop.carried] at hr
  inHand := by simp [h.loop, Loop.inHand]

/-! ### Steps the loop takes no part in -/

/-- The queues of `ledger` gone on to those of `ledger'`: what was there is there still, and what is new came after
it. -/
structure Grown (ledger ledger' : Nat → Numbered Hold) : Prop where
  next : ∀ q, (ledger q).next ≤ (ledger' q).next
  kept : ∀ q, ∀ x ∈ (ledger q).items, x ∈ (ledger' q).items
  items : ∀ q, ∀ x ∈ (ledger' q).items, x ∈ (ledger q).items ∨ (ledger q).next ≤ x.1 ∧ x.2.queue = q

theorem Grown.refl (ledger : Nat → Numbered Hold) : Grown ledger ledger :=
  ⟨fun _ => Nat.le_refl _, fun _ _ hx => hx, fun _ _ hx => .inl hx⟩

theorem grown_landAll (ledger : Nat → Numbered Hold) (holds : List Hold) :
    Grown ledger (landAll ledger holds).1 := by
  have h := landed_landAll ledger holds
  refine ⟨h.next, h.kept, ?_⟩
  intro q x hx
  rcases h.items q x hx with hx | ⟨hn, -, -, hq⟩
  · exact .inl hx
  · exact .inr ⟨hn, hq⟩

/-- What a step may do to an entry without the loop: move its cursor back, and whatever nothing here reads. -/
structure Behind (e e' : Entry) : Prop where
  queue : e'.queue = e.queue
  taken : e'.taken = e.taken
  cursor : e'.cursor ≤ e.cursor

theorem Known.of_grown {s s' : Sys} {r : Released} (h : Known s r) (hshape : shape s'.state = shape s.state)
    (hg : Grown s.ledger s'.ledger) : Known s' r := by
  refine ⟨?_, hg.kept _ _ h.2⟩
  rw [hshape]
  exact h.1

theorem Gone.of_grown {s s' : Sys} {r : Released} (h : Gone s r) (hshape : shape s'.state = shape s.state)
    (hg : Grown s.ledger s'.ledger) : Gone s' r := by
  obtain ⟨hr, hlt, hgone⟩ := h
  refine ⟨hshape ▸ hr, Nat.lt_of_lt_of_le hlt (hg.next _), ?_⟩
  intro x hx
  rcases hg.items _ x hx with hx | ⟨hn, -⟩
  · exact hgone x hx
  · omega

/-- A read stays what it was as the queue goes on: what landed since has larger numbers. -/
theorem Read.of_grown {s s' : Sys} {ask : Ask} {items : List (Nat × Hold)} {upTo : Nat} (h : Read s ask items upTo)
    (hmost : s'.most = s.most) (hg : Grown s.ledger s'.ledger) : Read s' ask items upTo := by
  have hreached := h.reached
  refine ⟨Nat.le_trans hreached (hg.next _), h.below, fun y hy => hg.kept _ _ (h.held y hy), h.increasing, ?_, ?_⟩
  · intro x hx hstart y hy hxy
    rcases hg.items _ x hx with hx | ⟨hn, -⟩
    · exact h.skips x hx hstart y hy hxy
    · have := h.below y hy
      omega
  · intro hlt x hx hstart hup
    rcases hg.items _ x hx with hx | ⟨hn, -⟩
    · exact h.ended (hmost ▸ hlt) x hx hstart hup
    · omega

theorem InOrder.of_grown {s s' : Sys} {carried : List Released} {stalled : List String}
    (h : InOrder s carried stalled) (hknown : ∀ r ∈ carried, Known s r) (hg : Grown s.ledger s'.ledger)
    (hpassed : s'.passedOver = s.passedOver) : InOrder s' carried stalled := by
  intro i r hi x hx hlt
  rw [hpassed]
  rcases hg.items _ x hx with hx | ⟨hn, -⟩
  · exact h i r hi x hx hlt
  · have := Numbered.below _ _ (hknown r (List.mem_of_getElem? hi)).2
    simp only at this
    omega

/-- A step the loop takes no part in: the queues go on, and no entry's cursor goes forward. -/
theorem Sound.of_grown {s s' : Sys} (h : Sound s) (hshape : shape s'.state = shape s.state)
    (hentries : ∀ e' ∈ s'.state, ∃ e ∈ s.state, Behind e e') (hg : Grown s.ledger s'.ledger)
    (hloop : s'.loop = s.loop) (hmost : s'.most = s.most) (hpassed : s'.passedOver = s.passedOver) : Sound s' where
  names := by rw [names_of_shape hshape]; exact h.names
  queues := by rw [queues_of_shape hshape]; exact h.queues
  ledger := by
    intro q x hx
    rcases hg.items q x hx with hx | ⟨-, hq⟩
    · exact h.ledger q x hx
    · exact hq
  entries := by
    intro e' he'
    obtain ⟨e, he, hq, ht, hc⟩ := hentries e' he'
    have hok := h.entries e he
    have hcursor := hok.cursor
    have hnext := hg.next e.queue
    refine ⟨by rw [hq]; omega, ?_, ?_, ?_⟩
    · intro x hx hlt
      rw [hq] at hx ⊢
      rw [ht, hpassed]
      rcases hg.items _ x hx with hx | ⟨hn, -⟩
      · exact hok.behind x hx (by omega)
      · omega
    · intro n hn
      rw [ht] at hn
      rw [hq]
      exact Nat.lt_of_lt_of_le (hok.bounded n hn) hnext
    · intro x hx
      rw [hq] at hx ⊢
      rw [ht, hloop]
      rcases hg.items _ x hx with hx | ⟨hn, -⟩
      · exact hok.taken x hx
      · -- it landed since, so nobody has it
        constructor
        · intro hm
          have := hok.bounded _ hm
          omega
        · intro hm
          obtain ⟨r, hr, hplace⟩ := List.mem_map.1 hm
          obtain ⟨hrq, hrs⟩ := Prod.mk.inj hplace
          have := Numbered.below _ _ (h.known r hr).2
          simp only [hrq, hrs] at this
          omega
  asks := by
    intro a ha
    rw [hloop] at ha
    unfold Asked
    rw [hshape]
    exact h.asks a ha
  reading := by
    intro ask items upTo asks taken hl
    exact (h.reading ask items upTo asks taken (hloop ▸ hl)).of_grown hmost hg
  known := by
    rw [hloop]
    exact fun r hr => (h.known r hr).of_grown hshape hg
  distinct := by rw [hloop]; exact h.distinct
  ordered := by
    rw [hloop]
    exact h.ordered.of_grown h.known hg hpassed
  inHand := by
    rw [hloop]
    exact fun one hone => (h.inHand one hone).of_grown hshape hg

private theorem behind_of_mem {s : Sys} : ∀ e ∈ s.state, ∃ d ∈ s.state, Behind d e :=
  fun e he => ⟨e, he, rfl, rfl, Nat.le_refl _⟩

theorem Sound.decided {s s' : Sys} (h : Sound s) {w : Nat} {kind : Kind} {opened : List Opened} {body : List UInt8}
    (hs : s.decided w kind opened body = some s') : Sound s' := by
  obtain ⟨holding, rfl, -⟩ := decided_cases hs
  exact h.of_grown rfl behind_of_mem (.refl _) rfl rfl rfl

theorem Sound.write {s s' : Sys} (h : Sound s) {w : Nat} {answer : Answer} (hs : s.write w answer = some s') :
    Sound s' := by
  obtain ⟨kind, holding, -, ⟨-, rfl⟩ | ⟨-, -, rfl⟩ | ⟨-, -, rfl⟩⟩ := write_cases hs
  · exact h.of_grown rfl behind_of_mem (.refl _) rfl rfl rfl
  · exact h.of_grown rfl behind_of_mem (grown_landAll _ _) rfl rfl rfl
  · exact h.of_grown rfl behind_of_mem (grown_landAll _ _) rfl rfl rfl

theorem Sound.published {s s' : Sys} (h : Sound s) {w : Nat} (hs : s.published w = some s') : Sound s' := by
  obtain ⟨kind, holding, places, -, rfl⟩ := published_cases hs
  refine h.of_grown (shape_published _ _) ?_ (.refl _) rfl rfl rfl
  intro e' he'
  obtain ⟨j, hj⟩ := List.getElem?_of_mem he'
  obtain ⟨⟨e, he, hc⟩, -⟩ := published_get hj
  exact ⟨e, List.mem_of_getElem? he, hc.queue, hc.taken, Nat.le_of_eq hc.cursor⟩

theorem Sound.act {s : Sys} (h : Sound s) (name : String) (act : Act) (who : String) (now : Int) (took : Bool) :
    Sound { s with state := (s.state.act s.node name act who now took).1 } := by
  refine h.of_grown (shape_act ..) ?_ (.refl _) rfl rfl rfl
  intro e' he'
  obtain hsame | ⟨i, hpause | hresume⟩ := act_cases s.state s.node name act who now took
  · exact behind_of_mem e' (hsame ▸ he')
  · obtain ⟨j, e, he, ⟨-, rfl⟩ | ⟨-, rfl⟩⟩ := mem_modify (hpause ▸ he')
    · exact ⟨e, List.mem_of_getElem? he, rfl, rfl, Nat.le_refl _⟩
    · exact behind_of_mem e' (List.mem_of_getElem? he)
  · obtain ⟨j, e, he, ⟨-, rfl⟩ | ⟨-, rfl⟩⟩ := mem_modify (hresume ▸ he')
    · exact ⟨e, List.mem_of_getElem? he, rfl, rfl, Nat.zero_le _⟩
    · exact behind_of_mem e' (List.mem_of_getElem? he)

/-! ### The loop's own steps -/

theorem InOrder.of_none {s : Sys} {carried : List Released} {stalled : List String} (h : InOrder s carried [])
    : InOrder s carried stalled := by
  intro i r hi x hx hlt
  rcases h i r hi x hx hlt with hp | hp | hp
  · exact .inl hp
  · exact .inr (.inl hp)
  · cases hp

/-- A step of the loop that changes neither what it carries nor anything beside it. -/
theorem Sound.loops {s : Sys} (h : Sound s) {loop : Loop} (hcarried : loop.carried = s.loop.carried)
    (hstalled : s.loop.stalled = [] ∨ s.loop.carried = []) (hasks : ∀ a ∈ loop.asks, Asked s a)
    (hread : ∀ ask items upTo asks taken, loop = .answered ask (some items) upTo asks taken → Read s ask items upTo)
    (hinHand : loop.inHand = none) : Sound { s with loop := loop } where
  names := h.names
  queues := h.queues
  ledger := h.ledger
  entries := by
    intro e he
    obtain ⟨hc, hb, hbound, ht⟩ := h.entries e he
    exact ⟨hc, hb, hbound, fun x hx => by rw [ht x hx, hcarried]⟩
  asks := hasks
  reading := fun ask items upTo asks taken hl => by
    obtain ⟨h₁, h₂, h₃, h₄, h₅, h₆⟩ := hread ask items upTo asks taken hl
    exact ⟨h₁, h₂, h₃, h₄, h₅, h₆⟩
  known := by
    show ∀ r ∈ loop.carried, _
    rw [hcarried]
    exact h.known
  distinct := by
    show (loop.carried.map Released.place).Nodup
    rw [hcarried]
    exact h.distinct
  ordered := by
    show InOrder s loop.carried loop.stalled
    have hordered := h.ordered
    rw [hcarried]
    rcases hstalled with hs | hs
    · rw [hs] at hordered
      exact hordered.of_none
    · rw [hs]
      intro i r hi
      simp at hi
  inHand := by
    show ∀ one ∈ loop.inHand, _
    simp [hinHand]

theorem Sound.ask {s s' : Sys} (h : Sound s) {now : Nat} (hs : s.step (.ask now) = some s') : Sound s' := by
  obtain ⟨hl, rfl⟩ := ask_cases hs
  have hnone : s.loop.carried = [] := by
    rcases hl with hl | ⟨stalled, hl⟩ <;> simp [hl, Loop.carried]
  refine h.loops ?_ (.inr hnone) (fun a ha => asked_of_asks ha) (by simp) rfl
  rw [hnone]
  rfl

theorem Sound.read {s s' : Sys} (h : Sound s) {answered : Bool} (hs : s.read answered = some s') : Sound s' := by
  obtain ⟨ask, asks, taken, hl, rfl⟩ | ⟨taken, hl, rfl⟩ := read_cases hs
  · have hasks := h.asks
    simp only [hl, Loop.asks] at hasks
    refine h.loops (by simp [hl, Loop.carried]) (.inl (by simp [hl, Loop.stalled])) hasks ?_ rfl
    intro ask' items upTo asks' taken' heq
    simp only [Loop.answered.injEq] at heq
    obtain ⟨rfl, hitems, rfl, -, -⟩ := heq
    cases answered with
    | false => cases hitems
    | true =>
      simp only [if_true, Option.some.injEq] at hitems
      subst hitems
      refine ⟨Nat.le_refl _, ?_, ?_, ?_, ?_, ?_⟩
      · exact fun y hy => Numbered.below _ y (Numbered.mem_readFrom hy).1
      · exact fun y hy => (Numbered.mem_readFrom hy).1
      · exact Numbered.increasing_readFrom ..
      · exact fun x hx hstart y hy hxy => Numbered.mem_readFrom_of_le hy hx hstart hxy
      · exact fun hlt x hx hstart _ => Numbered.mem_readFrom_of_lt hlt hx hstart
  · exact h.loops (by simp [hl, Loop.carried]) (.inl (by simp [hl, Loop.stalled])) (by simp [Loop.asks]) (by simp) rfl

private theorem mem_set {s : State} {i : Nat} {e' d : Entry} (h : d ∈ s.set i e') :
    d = e' ∨ ∃ j, j ≠ i ∧ s[j]? = some d := by
  obtain ⟨j, hj⟩ := List.getElem?_of_mem h
  rw [List.getElem?_set] at hj
  split at hj
  · split at hj
    · exact .inl (Option.some.inj hj).symm
    · cases hj
  · rename_i hij
    exact .inr ⟨j, fun hji => hij hji.symm, hj⟩

/-- In a list in increasing order what is smaller than an element comes before it. -/
private theorem mem_take_of_lt {α : Type} {f : α → Nat} {l : List α} (hinc : l.Pairwise fun x y => f x < f y) {k : Nat}
    {r r' : α} (hk : l[k]? = some r) (hr' : r' ∈ l) (hlt : f r' < f r) : r' ∈ l.take k := by
  obtain ⟨hkl, hget⟩ := List.getElem?_eq_some_iff.1 hk
  rw [← List.take_append_drop k l] at hr' hinc
  rcases List.mem_append.1 hr' with h | h
  · exact h
  · rw [List.drop_eq_getElem_cons hkl, hget] at h hinc
    rcases List.mem_cons.1 h with rfl | h
    · omega
    · have := (List.pairwise_cons.1 (List.pairwise_append.1 hinc).2.1).1 r' h
      omega

section Takes

variable {s : Sys} {ask : Ask} {items : List (Nat × Hold)} {upTo : Nat} {e e' : Entry} {more taken : List Released}

theorem Takes.mem_released (ht : Takes items e e' more) {r : Released} :
    r ∈ more ↔ ∃ y ∈ items, y.1 ∉ e.taken ∧ e.lets y = r := by
  rw [ht.released]
  simp [and_assoc]

theorem Takes.sorted (ht : Takes items e e' more) (hread : Read s ask items upTo) :
    more.Pairwise fun x y => x.sequence < y.sequence := by
  rw [ht.released, List.pairwise_map]
  exact hread.increasing.filter _

theorem Takes.distinct (ht : Takes items e e' more) (hread : Read s ask items upTo) :
    (more.map Released.place).Nodup := by
  rw [List.nodup_iff_pairwise_ne, List.pairwise_map]
  refine (ht.sorted hread).imp ?_
  intro a b hlt heq
  have := (Prod.mk.inj heq).2
  omega

theorem Read.held_of_queue (hread : Read s ask items upTo) (hq : e.queue = ask.queue) :
    ∀ y ∈ items, y ∈ (s.ledger e.queue).items := by
  rw [hq]
  exact hread.held

theorem Takes.cursor_le (ht : Takes items e e' more) (hread : Read s ask items upTo) (hq : e.queue = ask.queue)
    (hok : EntrySound s e) : e'.cursor ≤ (s.ledger e.queue).next := by
  rcases ht.cursor with hc | ⟨y, hy, hc⟩
  · rw [hc]
    exact hok.cursor
  · have := Numbered.below _ y (hread.held_of_queue hq y hy)
    omega

theorem Takes.bounded (ht : Takes items e e' more) (hread : Read s ask items upTo) (hq : e.queue = ask.queue)
    (hok : EntrySound s e) : ∀ n ∈ e'.taken, n < (s.ledger e.queue).next := by
  intro n hn
  rcases (ht.taken n).1 hn with hn | ⟨y, hy, rfl⟩
  · exact hok.bounded n hn
  · exact Numbered.below _ y (hread.held_of_queue hq y hy)

/-- What is below the new cursor was below the old one, or is of the read. -/
theorem Takes.behind (ht : Takes items e e' more) (hread : Read s ask items upTo) (hq : e.queue = ask.queue)
    (hok : EntrySound s e) (hcur : e.cursor = ask.start) : ∀ x ∈ (s.ledger e.queue).items, x.1 < e'.cursor →
      x.1 ∈ e'.taken ∨ (e.queue, x.1) ∈ s.passedOver := by
  intro x hx hlt
  rw [ht.taken]
  by_cases hstart : x.1 < ask.start
  · rcases hok.behind x hx (hcur ▸ hstart) with ht | hp
    · exact .inl (.inl ht)
    · exact .inr hp
  · rcases ht.cursor with hc | ⟨y, hy, hc⟩
    · omega
    · exact .inl (.inr ⟨x, hread.skips x (hq ▸ hx) (by omega) y hy (by omega), rfl⟩)

/-- What it has taken is what it had, and what it lets go of. -/
theorem Takes.taken_iff (ht : Takes items e e' more) (hqueue : ∀ y ∈ items, y.2.queue = e.queue) (n : Nat) :
    n ∈ e'.taken ↔ n ∈ e.taken ∨ (e.queue, n) ∈ more.map Released.place := by
  rw [ht.taken]
  constructor
  · rintro (hn | ⟨y, hy, rfl⟩)
    · exact .inl hn
    · by_cases hn : y.1 ∈ e.taken
      · exact .inl hn
      · refine .inr (List.mem_map.2 ⟨e.lets y, ht.mem_released.2 ⟨y, hy, hn, rfl⟩, ?_⟩)
        simp [Released.place, Entry.lets, hqueue y hy]
  · rintro (hn | hm)
    · exact .inl hn
    · obtain ⟨r, hr, hplace⟩ := List.mem_map.1 hm
      obtain ⟨y, hy, -, rfl⟩ := ht.mem_released.1 hr
      exact .inr ⟨y, hy, (Prod.mk.inj hplace).2⟩

theorem Takes.known (ht : Takes items e e' more) (hread : Read s ask items upTo) (hq : e.queue = ask.queue)
    (hqueue : ∀ y ∈ items, y.2.queue = e.queue) (he : (e.name, e.queue) ∈ shape s.state) :
    ∀ r ∈ more, Known s r ∧ r.hold.queue = e.queue := by
  intro r hr
  obtain ⟨y, hy, -, rfl⟩ := ht.mem_released.1 hr
  refine ⟨⟨?_, ?_⟩, hqueue y hy⟩
  · show (e.name, y.2.queue) ∈ _
    rw [hqueue y hy]
    exact he
  · show (y.1, y.2) ∈ (s.ledger y.2.queue).items
    rw [hqueue y hy]
    exact hread.held_of_queue hq y hy

/-- What stands before a Message let go of was taken or passed over before, or is of the same read and let go of before. -/
theorem Takes.ordered (ht : Takes items e e' more) (hread : Read s ask items upTo) (hq : e.queue = ask.queue)
    (hqueue : ∀ y ∈ items, y.2.queue = e.queue) (hok : EntrySound s e) (hcur : e.cursor = ask.start)
    (hcarried : s.loop.carried = taken) (hordered : InOrder s taken []) : InOrder s (taken ++ more) [] := by
  intro i r hi x hx hlt
  rw [List.getElem?_append] at hi
  split at hi
  · rename_i hil
    rw [List.take_append_of_le_length (Nat.le_of_lt hil)]
    exact hordered i r hi x hx hlt
  · rename_i hil
    obtain ⟨y, hy, -, rfl⟩ := ht.mem_released.1 (List.mem_of_getElem? hi)
    change x ∈ (s.ledger y.2.queue).items at hx
    show (y.2.queue, x.1) ∈ _ ∨ (y.2.queue, x.1) ∈ _ ∨ _
    rw [hqueue y hy] at hx ⊢
    rw [List.take_append, List.take_of_length_le (by omega), List.map_append, List.mem_append]
    by_cases hxt : x.1 ∈ e.taken
    · have hm := (hok.taken x hx).1 hxt
      rw [hcarried] at hm
      exact .inl (.inl hm)
    · by_cases hstart : x.1 < ask.start
      · rcases hok.behind x hx (hcur ▸ hstart) with hno | hp
        · exact absurd hno hxt
        · exact .inr (.inl hp)
      · -- it is of the same read, so it was let go of before
        have hx' : x ∈ items := hread.skips x (hq ▸ hx) (by omega) y hy (Nat.le_of_lt hlt)
        have hm := mem_take_of_lt (ht.sorted hread) hi (ht.mem_released.2 ⟨x, hx', hxt, rfl⟩) hlt
        refine .inl (.inr (List.mem_map.2 ⟨_, hm, ?_⟩))
        simp [Released.place, Entry.lets, hqueue x hx']

end Takes

/-- A re-lock keeps its entry's name, queue, standing and count. -/
theorem Sound.relock_keeps {s : Sys} (h : Sound s) {ask : Ask} {read : Option (List (Nat × Hold))} {upTo : Nat}
    {asks : List Ask} {taken : List Released} (hl : s.loop = .answered ask read upTo asks taken) (e : Entry)
    (now : Nat) :
    (e.relock ask.start s.most now read).1.name = e.name ∧ (e.relock ask.start s.most now read).1.queue = e.queue ∧
      (e.relock ask.start s.most now read).1.standing = e.standing ∧
      (e.relock ask.start s.most now read).1.held = e.held := by
  have hinc : ∀ items, read = some items → items.Pairwise fun x y => x.1 < y.1 := by
    rintro items rfl
    exact (h.reading ask items upTo asks taken hl).increasing
  obtain heq | heq | ⟨items, e', more, rfl, -, -, ht, ⟨-, heq⟩ | heq⟩ := relock_cases e ask.start s.most now hinc
  · rw [heq]; exact ⟨rfl, rfl, rfl, rfl⟩
  · rw [heq]; exact ⟨rfl, rfl, rfl, rfl⟩
  · rw [heq]; exact ⟨ht.name, ht.queue, ht.standing, ht.held⟩
  · rw [heq]; exact ⟨ht.name, ht.queue, ht.standing, ht.held⟩

/-- A re-lock: one entry gone forward, what it lets go of `more`, which the loop carries after the rest. -/
private theorem Sound.lets {s : Sys} (h : Sound s) {ask : Ask} {read : Option (List (Nat × Hold))} {upTo : Nat}
    {asks : List Ask} {taken : List Released} (hl : s.loop = .answered ask read upTo asks taken) {e : Entry}
    (he : s.state[ask.index]? = some e) (e' : Entry) (more : List Released) (hn : e'.name = e.name) (hq : e'.queue = e.queue)
    (hcursor : e'.cursor ≤ (s.ledger e.queue).next)
    (hbehind : ∀ x ∈ (s.ledger e.queue).items, x.1 < e'.cursor → x.1 ∈ e'.taken ∨ (e.queue, x.1) ∈ s.passedOver)
    (hbounded : ∀ n ∈ e'.taken, n < (s.ledger e.queue).next)
    (htaken : ∀ x ∈ (s.ledger e.queue).items, x.1 ∈ e'.taken ↔
      x.1 ∈ e.taken ∨ (e.queue, x.1) ∈ more.map Released.place)
    (hknown : ∀ r ∈ more, Known s r ∧ r.hold.queue = e.queue) (hdistinct : (more.map Released.place).Nodup)
    (hnew : ∀ r ∈ more, r.sequence ∉ e.taken) (hordered : InOrder s (taken ++ more) []) :
    Sound { s with state := s.state.set ask.index e', loop := .asking asks (taken ++ more) } := by
  have hshape := shape_set he hn hq
  have hcarried : s.loop.carried = taken := by rw [hl]; rfl
  have hemem := List.mem_of_getElem? he
  -- the other entries have other queues, of which nothing is let go of
  have hother : ∀ d ∈ s.state.set ask.index e', d = e' ∨ d ∈ s.state ∧ d.queue ≠ e.queue := by
    intro d hd
    rcases mem_set hd with rfl | ⟨j, hj, hd⟩
    · exact .inl rfl
    · exact .inr ⟨List.mem_of_getElem? hd, fun hdq => hj (eq_of_queue h.queues hd he hdq)⟩
  refine ⟨?_, ?_, h.ledger, ?_, ?_, by simp, ?_, ?_, hordered, by simp [Loop.inHand]⟩
  · show ((s.state.set ask.index e').map Entry.name).Nodup
    rw [names_of_shape hshape]
    exact h.names
  · show ((s.state.set ask.index e').map Entry.queue).Nodup
    rw [queues_of_shape hshape]
    exact h.queues
  · intro d hd
    rcases hother d hd with rfl | ⟨hd, hdq⟩
    · refine ⟨?_, ?_, ?_, ?_⟩
      · rw [hq]; exact hcursor
      · rw [hq]; exact hbehind
      · rw [hq]; exact hbounded
      · intro x hx
        rw [hq] at hx ⊢
        show x.1 ∈ d.taken ↔ (e.queue, x.1) ∈ (taken ++ more).map Released.place
        rw [htaken x hx, (h.entries e hemem).taken x hx, hcarried, List.map_append, List.mem_append]
    · obtain ⟨hc, hb, hbound, ht⟩ := h.entries d hd
      refine ⟨hc, hb, hbound, ?_⟩
      intro x hx
      show x.1 ∈ d.taken ↔ (d.queue, x.1) ∈ (taken ++ more).map Released.place
      rw [ht x hx, hcarried, List.map_append, List.mem_append]
      constructor
      · exact .inl
      · rintro (hm | hm)
        · exact hm
        · obtain ⟨r, hr, hplace⟩ := List.mem_map.1 hm
          exact absurd ((Prod.mk.inj hplace).1.symm.trans (hknown r hr).2) hdq
  · intro a ha
    have hasks := h.asks a (by rw [hl]; exact List.mem_cons_of_mem _ ha)
    unfold Asked at hasks ⊢
    rw [hshape]
    exact hasks
  · intro r hr
    have hr' : Known s r := by
      rcases List.mem_append.1 hr with hr | hr
      · exact h.known r (hcarried ▸ hr)
      · exact (hknown r hr).1
    exact hr'.of_grown hshape (.refl _)
  · show ((taken ++ more).map Released.place).Nodup
    rw [List.map_append, List.nodup_append]
    have hdist := h.distinct
    rw [hcarried] at hdist
    refine ⟨hdist, hdistinct, ?_⟩
    rintro a ha b hb rfl
    obtain ⟨r, hr, rfl⟩ := List.mem_map.1 hb
    obtain ⟨⟨-, hm⟩, hrq⟩ := hknown r hr
    rw [hrq] at hm
    refine hnew r hr (((h.entries e hemem).taken _ hm).2 ?_)
    rw [hcarried]
    simpa only [Released.place, hrq] using ha

theorem Sound.relock {s s' : Sys} (h : Sound s) {now : Nat} (hs : s.relock now = some s') : Sound s' := by
  obtain ⟨ask, read, upTo, asks, taken, e, hl, he, rfl⟩ := relocked_cases hs
  have hok := h.entries e (List.mem_of_getElem? he)
  have hordered : InOrder s taken [] := by
    have := h.ordered
    rwa [hl] at this
  have hcarried : s.loop.carried = taken := by rw [hl]; rfl
  have hq : e.queue = ask.queue := by
    obtain ⟨name, hasked⟩ := h.asks ask (by rw [hl]; exact List.mem_cons_self ..)
    rw [shape_get he] at hasked
    simpa using congrArg (fun x => x.map Prod.snd) hasked
  have hinc : ∀ items, read = some items → items.Pairwise fun x y => x.1 < y.1 := by
    rintro items rfl
    exact (h.reading ask items upTo asks taken hl).increasing
  obtain heq | heq | ⟨items, e', more, rfl, -, hcur, htakes, hend⟩ := relock_cases e ask.start s.most now hinc
  · rw [heq]
    exact h.lets hl he _ [] rfl rfl hok.cursor hok.behind hok.bounded (by simp) (by simp) (by simp) (by simp)
      (by simpa using hordered)
  · rw [heq]
    exact h.lets hl he _ [] rfl rfl hok.cursor hok.behind hok.bounded (by simp) (by simp) (by simp) (by simp)
      (by simpa using hordered)
  · have hread := h.reading ask items upTo asks taken hl
    have hqueue : ∀ y ∈ items, y.2.queue = e.queue := by
      intro y hy
      rw [hq]
      exact h.ledger _ y (hread.held y hy)
    have hnew : ∀ r ∈ more, r.sequence ∉ e.taken := by
      intro r hr
      obtain ⟨y, -, hy, rfl⟩ := htakes.mem_released.1 hr
      exact hy
    -- the entry once the read is taken, pending or not
    have key : ∀ pending, Sound { s with
        state := s.state.set ask.index { e' with pending := pending }
        loop := .asking asks (taken ++ more) } := fun pending =>
      h.lets hl he { e' with pending := pending } more htakes.name htakes.queue (htakes.cursor_le hread hq hok)
        (htakes.behind hread hq hok hcur) (htakes.bounded hread hq hok) (fun x _ => htakes.taken_iff hqueue x.1)
        (htakes.known hread hq hqueue (List.mem_of_getElem? (shape_get he))) (htakes.distinct hread) hnew
        (htakes.ordered hread hq hqueue hok hcur hcarried hordered)
    rcases hend with ⟨-, heq⟩ | heq
    · rw [heq]
      exact key false
    · rw [heq]
      exact key e'.pending

/-- The first carried done with: the rest is in order still, where it is out of its queue, passed over or stalled. -/
theorem InOrder.tail {s s' : Sys} {one : Released} {rest : List Released} {stalled stalled' : List String}
    (h : InOrder s (one :: rest) stalled) (hitems : ∀ q, ∀ x ∈ (s'.ledger q).items, x ∈ (s.ledger q).items)
    (hpassed : ∀ p ∈ s.passedOver, p ∈ s'.passedOver) (hstalled : ∀ n ∈ stalled, n ∈ stalled')
    (hdone : ∀ r ∈ rest, r.hold.queue = one.hold.queue → ∀ x ∈ (s'.ledger one.hold.queue).items,
      x.1 = one.sequence → one.place ∈ s'.passedOver ∨ r.subscription ∈ stalled') : InOrder s' rest stalled' := by
  intro i r hi x hx hlt
  have hi' : (one :: rest)[i + 1]? = some r := by simpa using hi
  rcases h (i + 1) r hi' x (hitems _ x hx) hlt with hm | hp | hs
  · rw [List.take_succ_cons, List.map_cons, List.mem_cons] at hm
    rcases hm with heq | hm
    · obtain ⟨hq, hn⟩ := Prod.mk.inj heq
      rw [hq] at hx
      rcases hdone r (List.mem_of_getElem? hi) hq x hx hn with hp | hs
      · exact .inr (.inl (heq ▸ hp))
      · exact .inr (.inr hs)
    · exact .inl hm
  · exact .inr (.inl (hpassed _ hp))
  · exact .inr (.inr (hstalled _ hs))

theorem Sound.land {s s' : Sys} (h : Sound s) {answered : Bool} (hs : s.land answered = some s') : Sound s' := by
  obtain ⟨one, rest, stalled, hl, -, hs'⟩ := land_cases hs
  have hcarried : s.loop.carried = one :: rest := by rw [hl]; rfl
  have hnext : ∀ q, (s'.ledger q).next = (s.ledger q).next := by
    intro q
    rw [hs']
    by_cases hq : q = one.hold.queue
    · subst hq; simp
    · simp [hq]
  have hmem : ∀ q, ∀ x, x ∈ (s'.ledger q).items ↔ x ∈ (s.ledger q).items ∧ (q, x.1) ≠ one.place := by
    intro q x
    rw [hs']
    by_cases hq : q = one.hold.queue
    · subst hq
      simp [Released.place]
    · simp [Released.place, hq]
  have hstate : s'.state = s.state := by rw [hs']
  have hloop : s'.loop = .landed one answered rest stalled := by rw [hs']
  have hpassed : s'.passedOver = s.passedOver := by rw [hs']
  have hdistinct := h.distinct
  rw [hcarried, List.map_cons, List.nodup_cons] at hdistinct
  have hknown : ∀ r ∈ one :: rest, Known s r := fun r hr => h.known r (hcarried ▸ hr)
  refine ⟨hstate ▸ h.names, hstate ▸ h.queues, fun q x hx => h.ledger q x ((hmem q x).1 hx).1, ?_, ?_, ?_, ?_, ?_, ?_, ?_⟩
  · intro e he
    obtain ⟨hc, hb, hbound, ht⟩ := h.entries e (hstate ▸ he)
    refine ⟨by rw [hnext]; exact hc, ?_, by rw [hnext]; exact hbound, ?_⟩
    · intro x hx hlt
      rw [hpassed]
      exact hb x ((hmem _ x).1 hx).1 hlt
    · intro x hx
      obtain ⟨hx, hne⟩ := (hmem _ x).1 hx
      rw [ht x hx, hcarried, hloop, List.map_cons, List.mem_cons]
      constructor
      · rintro (heq | hm)
        · exact absurd heq hne
        · exact hm
      · exact .inr
  · simp [hloop, Loop.asks]
  · simp [hloop]
  · rw [hloop]
    intro r hr
    obtain ⟨hr₁, hr₂⟩ := hknown r (List.mem_cons_of_mem _ hr)
    refine ⟨hstate ▸ hr₁, (hmem _ _).2 ⟨hr₂, ?_⟩⟩
    intro heq
    exact hdistinct.1 (heq ▸ List.mem_map_of_mem hr)
  · rw [hloop]
    exact hdistinct.2
  · have hordered := h.ordered
    rw [hcarried, hl] at hordered
    rw [hloop]
    refine hordered.tail (fun q x hx => ((hmem q x).1 hx).1) (by rw [hpassed]; exact fun _ hp => hp) (fun _ hn => hn) ?_
    intro r _ _ x hx hxn
    exact absurd (congrArg _ hxn) ((hmem _ x).1 hx).2
  · rw [hloop]
    intro r hr
    cases hr
    obtain ⟨hone, hheld⟩ := hknown one (List.mem_cons_self ..)
    refine ⟨hstate ▸ hone, ?_, ?_⟩
    · rw [hnext]
      exact Numbered.below _ _ hheld
    · intro x hx hxn
      exact ((hmem _ x).1 hx).2 (congrArg _ hxn)

section Settled

variable {s s' : Sys} {one : Released} {rest : List Released} {stalled : List String}

/-- Of what a queue holds the loop carries still what it carried, without the one done with. -/
theorem Sound.mem_rest (h : Sound s) (hone : s.loop.carried = one :: rest ∨ s.loop.carried = rest ∧ Gone s one) :
    ∀ q, ∀ x ∈ (s.ledger q).items, (q, x.1) ∈ rest.map Released.place ↔
      (q, x.1) ∈ s.loop.carried.map Released.place ∧ (q, x.1) ≠ one.place := by
  intro q x hx
  rcases hone with hc | ⟨hc, hg⟩
  · have hdistinct := h.distinct
    rw [hc, List.map_cons, List.nodup_cons] at hdistinct
    rw [hc, List.map_cons, List.mem_cons]
    constructor
    · exact fun hm => ⟨.inr hm, fun heq => hdistinct.1 (heq ▸ hm)⟩
    · rintro ⟨heq | hm, hne⟩
      · exact absurd heq hne
      · exact hm
  · rw [hc]
    constructor
    · intro hm
      refine ⟨hm, fun heq => ?_⟩
      obtain ⟨rfl, hn⟩ := Prod.mk.inj heq
      exact hg.2.2 x hx hn
    · exact fun hm => hm.1

/-- The entry of the one done with. -/
theorem EntrySound.settled {e e' : Entry} (hok : EntrySound s e) (hq : e.queue = one.hold.queue)
    (hqueue : e'.queue = e.queue) (htaken : e'.taken = e.taken.erase one.sequence) (hcursor : e'.cursor ≤ e.cursor)
    (hledger : s'.ledger = s.ledger) (hpassed : ∀ p ∈ s.passedOver, p ∈ s'.passedOver) (hcarried : s'.loop.carried = rest)
    (hrest : ∀ q, ∀ x ∈ (s.ledger q).items, (q, x.1) ∈ rest.map Released.place ↔
      (q, x.1) ∈ s.loop.carried.map Released.place ∧ (q, x.1) ≠ one.place)
    (hdone : (∀ x ∈ (s.ledger one.hold.queue).items, x.1 ≠ one.sequence) ∨ one.place ∈ s'.passedOver ∨
      e'.cursor ≤ one.sequence) : EntrySound s' e' where
  cursor := by
    rw [hledger, hqueue]
    exact Nat.le_trans hcursor hok.cursor
  behind := by
    intro x hx hlt
    rw [hledger, hqueue] at hx
    rw [hqueue, htaken, Finset.mem_erase]
    rcases hok.behind x hx (by omega) with ht | hp
    · by_cases hxn : x.1 = one.sequence
      · rw [hq] at hx ⊢
        rcases hdone with hd | hd | hd
        · exact absurd hxn (hd x hx)
        · exact .inr (hxn ▸ hd)
        · omega
      · exact .inl ⟨hxn, ht⟩
    · exact .inr (hpassed _ hp)
  bounded := by
    intro n hn
    rw [htaken, Finset.mem_erase] at hn
    rw [hledger, hqueue]
    exact hok.bounded n hn.2
  taken := by
    intro x hx
    rw [hledger, hqueue] at hx
    rw [hqueue, htaken, Finset.mem_erase, hok.taken x hx, hcarried, hrest _ x hx, and_comm]
    simp [Released.place, hq]

/-- Another entry. -/
theorem EntrySound.beside {e : Entry} (hok : EntrySound s e) (hne : e.queue ≠ one.hold.queue)
    (hledger : s'.ledger = s.ledger) (hpassed : ∀ p ∈ s.passedOver, p ∈ s'.passedOver) (hcarried : s'.loop.carried = rest)
    (hrest : ∀ q, ∀ x ∈ (s.ledger q).items, (q, x.1) ∈ rest.map Released.place ↔
      (q, x.1) ∈ s.loop.carried.map Released.place ∧ (q, x.1) ≠ one.place) : EntrySound s' e where
  cursor := by
    rw [hledger]
    exact hok.cursor
  behind := by
    intro x hx hlt
    rw [hledger] at hx
    rcases hok.behind x hx hlt with ht | hp
    · exact .inl ht
    · exact .inr (hpassed _ hp)
  bounded := by
    rw [hledger]
    exact hok.bounded
  taken := by
    intro x hx
    rw [hledger] at hx
    rw [hok.taken x hx, hcarried, hrest _ x hx]
    simp [Released.place, hne]

/-- What the loop carries without the one done with is in order still. -/
theorem Sound.ordered_settled (h : Sound s) (hone : s.loop.carried = one :: rest ∨ s.loop.carried = rest ∧ Gone s one)
    (hmem : (one.subscription, one.hold.queue) ∈ shape s.state) (hledger : s'.ledger = s.ledger)
    (hpassed : ∀ p ∈ s.passedOver, p ∈ s'.passedOver) (hstalled : ∀ n ∈ s.loop.stalled, n ∈ stalled)
    (hdone : (∀ x ∈ (s.ledger one.hold.queue).items, x.1 ≠ one.sequence) ∨ one.place ∈ s'.passedOver ∨
      one.subscription ∈ stalled) : InOrder s' rest stalled := by
  have hordered := h.ordered
  rcases hone with hc | ⟨hc, -⟩
  · rw [hc] at hordered
    refine hordered.tail (by rw [hledger]; exact fun _ _ hx => hx) hpassed hstalled ?_
    intro r hr hrq x hx hxn
    rw [hledger] at hx
    rcases hdone with hd | hd | hd
    · exact absurd hxn (hd x hx)
    · exact .inl hd
    · -- a Message of the same queue is of the same Subscription
      obtain ⟨i, d, -, hi, hdn, hdq⟩ := index_of_mem_shape h.names hmem
      obtain ⟨j, d', -, hj, hdn', hdq'⟩ :=
        index_of_mem_shape h.names (h.known r (hc ▸ List.mem_cons_of_mem _ hr)).1
      have hij : i = j := eq_of_queue h.queues hi hj (by rw [hdq, hdq', hrq])
      subst hij
      rw [hi] at hj
      cases hj
      exact .inr (hdn'.symm.trans hdn ▸ hd)
  · rw [hc] at hordered
    intro i r hi x hx hlt
    rw [hledger] at hx
    rcases hordered i r hi x hx hlt with hm | hp | hst
    · exact .inl hm
    · exact .inr (.inl (hpassed _ hp))
    · exact .inr (.inr (hstalled _ hst))

/-- The loop is done with a Message, the first it carries or the one in hand: it is not taken any more, and below the
cursor only where it was passed over. -/
theorem Sound.settled (h : Sound s) (hone : s.loop.carried = one :: rest ∨ s.loop.carried = rest ∧ Gone s one)
    {f : Entry → Entry} (hstate : s'.state = s.state.atReleased one f) (hf : Same f)
    (htaken : ∀ e, (f e).taken = e.taken.erase one.sequence) (hcursor : ∀ e, (f e).cursor ≤ e.cursor)
    (hledger : s'.ledger = s.ledger) (hpassed : ∀ p ∈ s.passedOver, p ∈ s'.passedOver)
    (hloop : s'.loop = .carrying rest stalled) (hstalled : ∀ n ∈ s.loop.stalled, n ∈ stalled)
    (hdone : (∀ x ∈ (s.ledger one.hold.queue).items, x.1 ≠ one.sequence) ∨ one.place ∈ s'.passedOver ∨
      one.subscription ∈ stalled ∧ ∀ e, (f e).cursor ≤ one.sequence) : Sound s' := by
  have hshape : shape s'.state = shape s.state := by rw [hstate, shape_atReleased hf]
  have hcarried : s'.loop.carried = rest := by rw [hloop]; rfl
  have hmem : (one.subscription, one.hold.queue) ∈ shape s.state := by
    rcases hone with hc | ⟨-, hg⟩
    · exact (h.known one (hc ▸ List.mem_cons_self ..)).1
    · exact hg.1
  have hsuffix : rest <:+ s.loop.carried := by
    rcases hone with hc | ⟨hc, -⟩
    · exact hc ▸ List.suffix_cons ..
    · exact hc ▸ List.suffix_refl _
  have hrest := h.mem_rest hone
  refine ⟨?_, ?_, by rw [hledger]; exact h.ledger, ?_, by simp [hloop, Loop.asks], by simp [hloop], ?_, ?_, ?_,
    by simp [hloop, Loop.inHand]⟩
  · rw [names_of_shape hshape]
    exact h.names
  · rw [queues_of_shape hshape]
    exact h.queues
  · intro e' he'
    rw [hstate] at he'
    rcases mem_atReleased h.names h.queues hmem he' with ⟨e, he, hq, rfl⟩ | ⟨he, hne⟩
    · exact (h.entries e he).settled hq (hf e).2 (htaken e) (hcursor e) hledger hpassed hcarried hrest
        (hdone.imp_right (.imp_right fun hd => hd.2 e))
    · exact (h.entries e' he).beside hne hledger hpassed hcarried hrest
  · rw [hcarried]
    exact fun r hr => (h.known r (hsuffix.subset hr)).of_grown hshape (hledger ▸ .refl _)
  · rw [hcarried]
    exact h.distinct.sublist (hsuffix.sublist.map _)
  · rw [hloop]
    exact h.ordered_settled hone hmem hledger hpassed hstalled (hdone.imp_right (.imp_right And.left))

end Settled

theorem Sound.moved {s s' : Sys} (h : Sound s) (hs : s.moved = some s') : Sound s' := by
  obtain ⟨one, rest, stalled, hl, rfl⟩ := moved_cases hs
  have hgone : Gone s one := h.inHand one (by rw [hl]; rfl)
  refine h.settled (.inr ⟨by rw [hl]; rfl, hgone⟩) rfl (fun _ => ⟨rfl, rfl⟩) (fun _ => rfl) (fun _ => Nat.le_refl _) rfl
    (fun _ hp => hp) rfl ?_ (.inl hgone.2.2)
  rw [hl]
  exact fun _ hn => hn

theorem Sound.passed {s s' : Sys} (h : Sound s) (hs : s.passed = some s') : Sound s' := by
  obtain ⟨one, rest, stalled, hl, -, rfl⟩ := passed_cases hs
  refine h.settled (.inl (by rw [hl]; rfl)) rfl (fun _ => ⟨rfl, rfl⟩) (fun _ => rfl) (fun _ => Nat.le_refl _) rfl
    (fun _ hp => List.mem_cons_of_mem _ hp) rfl ?_ (.inr (.inl (List.mem_cons_self ..)))
  rw [hl]
  exact fun _ hn => hn

theorem Sound.again {s s' : Sys} (h : Sound s) {now : Nat} (hs : s.again now = some s') : Sound s' := by
  obtain ⟨one, rest, stalled, hl, rfl⟩ := again_cases hs
  have hone : s.loop.carried = one :: rest ∨ s.loop.carried = rest ∧ Gone s one := by
    rcases hl with hl | hl
    · exact .inl (by rw [hl]; rfl)
    · exact .inr ⟨by rw [hl]; rfl, h.inHand one (by rw [hl]; rfl)⟩
  have hstalled : s.loop.stalled = stalled := by rcases hl with hl | hl <;> rw [hl] <;> rfl
  refine h.settled hone rfl (fun _ => ⟨rfl, rfl⟩) (fun _ => rfl) ?_ rfl (fun _ hp => hp) rfl ?_ (.inr (.inr ⟨by simp, ?_⟩))
  · intro e
    show (if one.sequence < e.cursor then one.sequence else e.cursor) ≤ e.cursor
    split <;> omega
  · rw [hstalled]
    exact fun _ hn => List.mem_append_left _ hn
  · intro e
    show (if one.sequence < e.cursor then one.sequence else e.cursor) ≤ one.sequence
    split <;> omega

theorem Sound.step {s s' : Sys} {a : Action} (h : Sound s) (hs : s.step a = some s') : Sound s' := by
  cases a with
  | decide w kind opened body => exact h.decided hs
  | write w answer => exact h.write hs
  | published w => exact h.published hs
  | act name act who now took =>
    simp only [Sys.step, Option.some.injEq] at hs
    exact hs ▸ h.act name act who now took
  | ask now => exact h.ask hs
  | read answered => exact h.read hs
  | relock now => exact h.relock hs
  | land answered => exact h.land hs
  | moved => exact h.moved hs
  | passed => exact h.passed hs
  | again now => exact h.again hs

theorem sound_of_reach {ok : Sys → Action → Prop} {s : Sys} (h : Reach Sys.step ok Opening s) : Sound s :=
  h.invariant (fun _ => sound_of_opening) fun _ _ _ hk _ hs => hk.step hs

end Pickup
