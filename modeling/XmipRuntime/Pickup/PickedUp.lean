import XmipRuntime.Pickup.Carried

/-!
# The order held Messages are picked up in

The pick-up loop goes through a queue from its cursor on, a batch at a time, and moves each Message out of it, passes it
over, or reads it again from its place with the rest of its Subscription's batch behind it.  Between two resumes what it
moves of one queue goes up.  A resume sets the cursor back to the start: one that takes effect while the loop is in the
middle of a batch has the rest of the batch moved after it, and then what was passed over before them.  `Picking` is the
pickup with what was moved beside it, `Picking.Ahead` the condition that a Message is moved only while nothing before it in
its queue is to be read again.
-/

namespace Pickup

open Library

/-! ### What was moved -/

/-- The pickup, and what it moved. -/
structure Picking where
  sys : Sys
  /-- By queue, the places moved since its Subscription was last resumed. -/
  since : Nat → List Nat
  /-- Every place moved, with its queue. -/
  moved : List (Nat × Nat)
  /-- The places left behind by a Message moved from after them, that were not passed over. -/
  skipped : List (Nat × Nat)

/-- The queue of the Subscription a step resumes. -/
def Sys.resumes (s : Sys) : Action → Option Nat
  | .act name .resume _ _ took =>
    (s.state.index name).bind fun i => s.state[i]?.bind fun e =>
      if e.standing.paused && took then some e.queue else none
  | _ => none

/-- The Message a step moves out of its queue. -/
def Sys.moves (s : Sys) : Action → Option Released
  | .land _ => s.loop.carried.head?
  | _ => none

/-- What moving `one` leaves behind that was not passed over. -/
def Sys.leaves (s : Sys) (one : Released) : List (Nat × Nat) :=
  ((s.ledger one.hold.queue).items.map fun y => (one.hold.queue, y.1)).filter fun place =>
    decide (place.2 < one.sequence) && !s.passedOver.contains place

/-- What a read answered is not before the place it was asked from. -/
def Loop.ReadsOn : Loop → Prop
  | .answered ask (some items) _ _ _ => ∀ y ∈ items, ask.start ≤ y.1
  | .idle | .asking _ _ | .answered _ none _ _ _ | .carrying _ _ | .landed _ _ _ _ => True

namespace Picking

/-- The places moved since the last resume, once a step resumed `queue`. -/
def resumed (x : Picking) : Option Nat → Nat → List Nat
  | some queue => Function.update x.since queue []
  | none => x.since

def step (x : Picking) (a : Action) : Option Picking :=
  (x.sys.step a).map fun sys =>
    match x.sys.moves a with
    | some one =>
      { sys
        since := Function.update x.since one.hold.queue (x.since one.hold.queue ++ [one.sequence])
        moved := x.moved ++ [one.place]
        skipped := x.skipped ++ x.sys.leaves one }
    | none => { x with sys, since := x.resumed (x.sys.resumes a) }

def Opening (x : Picking) : Prop := Pickup.Opening x.sys ∧ (∀ q, x.since q = []) ∧ x.moved = [] ∧ x.skipped = []

/-- Between two resumes the places moved of a queue go up, none is moved twice, and none is left behind that was not passed
over. -/
structure OldestFirst (x : Picking) : Prop where
  increasing : ∀ q, (x.since q).Pairwise (· < ·)
  once : x.moved.Nodup
  skipsNone : x.skipped = []

/-- A Message is moved only while nothing before it in its queue is to be read again. -/
def Ahead (x : Picking) : Action → Prop
  | .land _ => (x.sys.loop.carried.head?.all fun one => x.sys.state.all fun e =>
      decide (e.queue = one.hold.queue → ∀ y ∈ (x.sys.ledger e.queue).items, y.1 < one.sequence → y.1 < e.cursor)) = true
  | _ => True

instance (x : Picking) : (a : Action) → Decidable (x.Ahead a)
  | .land _ => inferInstanceAs (Decidable (x.sys.loop.carried.head?.all _ = true))
  | .decide .. | .write .. | .published _ | .act .. | .ask _ | .read _ | .relock _ | .moved | .passed | .again _ =>
    inferInstanceAs (Decidable True)

/-! ### The invariant -/

/-- Of one queue, what comes first in the batch has the smaller place. -/
def Rising (carried : List Released) : Prop :=
  carried.Pairwise fun r r' => r.hold.queue = r'.hold.queue → r.sequence < r'.sequence

/-- What is moved of a queue comes before all that the loop carries of it and all it is yet to read. -/
structure Picks (x : Picking) : Prop extends OldestFirst x where
  sound : Sound x.sys
  rising : Rising x.sys.loop.carried
  asks : (x.sys.loop.asks.map Ask.queue).Nodup
  apart : ∀ a ∈ x.sys.loop.asks, ∀ r ∈ x.sys.loop.carried, r.hold.queue ≠ a.queue
  onward : x.sys.loop.ReadsOn
  below : ∀ q, ∀ m ∈ x.since q, m < (x.sys.ledger q).next
  carried : ∀ r ∈ x.sys.loop.carried, ∀ m ∈ x.since r.hold.queue, m < r.sequence
  unread : ∀ e ∈ x.sys.state, ∀ m ∈ x.since e.queue, ∀ y ∈ (x.sys.ledger e.queue).items, e.cursor ≤ y.1 →
    y.1 ∉ e.taken → m < y.1
  inHand : ∀ one ∈ x.sys.loop.inHand, ∀ m ∈ x.since one.hold.queue, m ≤ one.sequence
  gone : ∀ place ∈ x.moved, place.2 < (x.sys.ledger place.1).next ∧ ∀ y ∈ (x.sys.ledger place.1).items, y.1 ≠ place.2

theorem picks_of_opening {x : Picking} (h : x.Opening) : x.Picks := by
  obtain ⟨hopening, hsince, hmoved, hskipped⟩ := h
  have hloop := hopening.loop
  refine ⟨⟨by simp [hsince], by simp [hmoved], hskipped⟩, sound_of_opening hopening, ?_, ?_, ?_, ?_,
    by simp [hsince], by simp [hsince], by simp [hsince], by simp [hsince], by simp [hmoved]⟩
  · simp [hloop, Loop.carried, Rising]
  · simp [hloop, Loop.asks]
  · simp [hloop, Loop.asks]
  · simp [hloop, Loop.ReadsOn]

variable {x : Picking} {s : Sys}

/-- A step the loop takes no part in: the queues grow, and an entry keeps its place, unless it is resumed. -/
theorem Picks.grown (h : x.Picks) {since : Nat → List Nat} (hsound : Sound s) (hloop : s.loop = x.sys.loop)
    (hgrown : Grown x.sys.ledger s.ledger) (hsince : ∀ q, since q = x.since q ∨ since q = [])
    (hentries : ∀ e' ∈ s.state, ∃ e ∈ x.sys.state, e'.queue = e.queue ∧ e'.taken = e.taken ∧
      (e'.cursor = e.cursor ∨ since e.queue = [])) : Picks { x with sys := s, since } := by
  have hmem : ∀ q, ∀ m ∈ since q, m ∈ x.since q := by
    intro q m hm
    rcases hsince q with he | he
    · exact he ▸ hm
    · rw [he] at hm
      cases hm
  refine ⟨⟨?_, h.once, h.skipsNone⟩, hsound, by rw [hloop]; exact h.rising, by rw [hloop]; exact h.asks,
    by rw [hloop]; exact h.apart, by rw [hloop]; exact h.onward, ?_, ?_, ?_, ?_, ?_⟩
  · intro q
    show (since q).Pairwise _
    rcases hsince q with he | he
    · rw [he]
      exact h.increasing q
    · rw [he]
      exact List.Pairwise.nil
  · intro q m hm
    exact Nat.lt_of_lt_of_le (h.below q m (hmem q m hm)) (hgrown.next q)
  · intro r hr m hm
    rw [hloop] at hr
    exact h.carried r hr m (hmem _ m hm)
  · intro e' he' m hm y hy hcursor htaken
    obtain ⟨e, he, hq, ht, hc⟩ := hentries e' he'
    rw [hq] at hm hy
    rcases hc with hc | hc
    · rcases hgrown.items e.queue y hy with hy | ⟨hy, -⟩
      · exact h.unread e he m (hmem _ m hm) y hy (hc ▸ hcursor) (ht ▸ htaken)
      · exact Nat.lt_of_lt_of_le (h.below _ m (hmem _ m hm)) hy
    · change m ∈ since e.queue at hm
      rw [hc] at hm
      cases hm
  · intro one hone m hm
    rw [hloop] at hone
    exact h.inHand one hone m (hmem _ m hm)
  · intro place hplace
    obtain ⟨hlt, hne⟩ := h.gone place hplace
    refine ⟨Nat.lt_of_lt_of_le hlt (hgrown.next _), fun y hy heq => ?_⟩
    rcases hgrown.items place.1 y hy with hy | ⟨hy, -⟩
    · exact hne y hy heq
    · omega

theorem resumed_eq (x : Picking) (o : Option Nat) (q : Nat) : x.resumed o q = x.since q ∨ x.resumed o q = [] := by
  cases o with
  | none => exact .inl rfl
  | some queue =>
    by_cases hq : q = queue
    · exact .inr (by simp [resumed, hq])
    · exact .inl (by simp [resumed, hq])

/-- An act leaves an entry its queue and what is taken, and its cursor, unless it resumes it. -/
theorem cursor_of_act (s : Sys) (name : String) (act : Act) (who : String) (now : Int) (took : Bool) :
    ∀ e' ∈ (s.state.act s.node name act who now took).1, ∃ e ∈ s.state, e'.queue = e.queue ∧ e'.taken = e.taken ∧
      (e'.cursor = e.cursor ∨ s.resumes (.act name act who now took) = some e.queue) := by
  intro e' he'
  have hsame : ∀ d ∈ s.state, ∃ e ∈ s.state, d.queue = e.queue ∧ d.taken = e.taken ∧
      (d.cursor = e.cursor ∨ s.resumes (.act name act who now took) = some e.queue) :=
    fun d hd => ⟨d, hd, rfl, rfl, .inl rfl⟩
  unfold State.act at he'
  rcases hi : s.state.index name with _ | i
  · rw [hi] at he'
    exact hsame e' he'
  · rcases hget : s.state[i]? with _ | d
    · simp only [hi, hget] at he'
      exact hsame e' he'
    · simp only [hi, hget] at he'
      repeat' split at he'
      all_goals try exact hsame e' he'
      · obtain ⟨j, e, he, ⟨-, rfl⟩ | ⟨-, rfl⟩⟩ := mem_modify he'
        · exact ⟨e, List.mem_of_getElem? he, rfl, rfl, .inl rfl⟩
        · exact hsame e' (List.mem_of_getElem? he)
      · rename_i hpause hresume htook hact
        obtain ⟨j, e, he, ⟨rfl, rfl⟩ | ⟨-, rfl⟩⟩ := mem_modify he'
        · rw [hget] at he
          cases he
          refine ⟨d, List.mem_of_getElem? hget, rfl, rfl, .inr ?_⟩
          cases act with
          | pause => exact absurd rfl hact
          | resume => simp_all [Sys.resumes]
        · exact hsame e' (List.mem_of_getElem? he)

theorem Picks.decided (h : x.Picks) {w : Nat} {kind : Kind} {opened : List Opened} {body : List UInt8}
    (hs : x.sys.decided w kind opened body = some s) : Picks { x with sys := s } := by
  have hsound := h.sound.decided hs
  obtain ⟨holding, rfl, -⟩ := decided_cases hs
  exact h.grown hsound rfl (.refl _) (fun q => .inl rfl) fun e he => ⟨e, he, rfl, rfl, .inl rfl⟩

theorem Picks.write (h : x.Picks) {w : Nat} {answer : Answer} (hs : x.sys.write w answer = some s) :
    Picks { x with sys := s } := by
  have hsound := h.sound.write hs
  obtain ⟨kind, holding, -, hcases⟩ := write_cases hs
  have hgrown : Grown x.sys.ledger s.ledger := by
    obtain ⟨-, rfl⟩ | ⟨-, -, rfl⟩ | ⟨-, -, rfl⟩ := hcases
    · exact .refl _
    · exact grown_landAll _ _
    · exact grown_landAll _ _
  have hsame : s.state = x.sys.state ∧ s.loop = x.sys.loop := by
    obtain ⟨-, rfl⟩ | ⟨-, -, rfl⟩ | ⟨-, -, rfl⟩ := hcases <;> exact ⟨rfl, rfl⟩
  refine h.grown hsound hsame.2 hgrown (fun q => .inl rfl) fun e he => ⟨e, ?_, rfl, rfl, .inl rfl⟩
  rw [← hsame.1]
  exact he

theorem Picks.published (h : x.Picks) {w : Nat} (hs : x.sys.published w = some s) : Picks { x with sys := s } := by
  have hsound := h.sound.published hs
  obtain ⟨kind, holding, places, -, rfl⟩ := published_cases hs
  refine h.grown hsound rfl (.refl _) (fun q => .inl rfl) ?_
  intro e' he'
  obtain ⟨j, hj⟩ := List.getElem?_of_mem he'
  obtain ⟨⟨e, he, hc⟩, -⟩ := published_get hj
  exact ⟨e, List.mem_of_getElem? he, hc.queue, hc.taken, .inl hc.cursor⟩

theorem Picks.act (h : x.Picks) (name : String) (act : Act) (who : String) (now : Int) (took : Bool) :
    Picks { x with
      sys := { x.sys with state := (x.sys.state.act x.sys.node name act who now took).1 }
      since := x.resumed (x.sys.resumes (.act name act who now took)) } := by
  refine h.grown (h.sound.act name act who now took) rfl (.refl _) (x.resumed_eq _) ?_
  intro e' he'
  obtain ⟨e, he, hq, ht, hc⟩ := cursor_of_act x.sys name act who now took e' he'
  refine ⟨e, he, hq, ht, hc.imp id fun hresumed => ?_⟩
  simp [hresumed, resumed]

/-! ### The loop's own steps -/

/-- A step of the loop that moves nothing: the queues stay, and it carries and has yet to read nothing that comes before
what was moved. -/
theorem Picks.looped (h : x.Picks) (hsound : Sound s) (hledger : s.ledger = x.sys.ledger) (hrising : Rising s.loop.carried)
    (hasks : (s.loop.asks.map Ask.queue).Nodup) (hapart : ∀ a ∈ s.loop.asks, ∀ r ∈ s.loop.carried, r.hold.queue ≠ a.queue)
    (honward : s.loop.ReadsOn) (hcarried : ∀ r ∈ s.loop.carried, ∀ m ∈ x.since r.hold.queue, m < r.sequence)
    (hunread : ∀ e ∈ s.state, ∀ m ∈ x.since e.queue, ∀ y ∈ (x.sys.ledger e.queue).items, e.cursor ≤ y.1 → y.1 ∉ e.taken →
      m < y.1) (hinHand : s.loop.inHand = none) : Picks { x with sys := s } := by
  refine ⟨⟨h.increasing, h.once, h.skipsNone⟩, hsound, hrising, hasks, hapart, honward, ?_, hcarried, ?_, by simp [hinHand], ?_⟩
  · rw [hledger]
    exact h.below
  · rw [hledger]
    exact hunread
  · rw [hledger]
    exact h.gone

/-- The queues the loop is to read are told apart, as the Subscriptions' are. -/
theorem nodup_asks {s : State} (h : (s.map Entry.queue).Nodup) (now : Nat) : ((s.asks now).map Ask.queue).Nodup := by
  have hsub : ((s.asks now).map Ask.queue).Sublist (s.zipIdx.map fun x => x.1.queue) := by
    unfold State.asks
    generalize s.zipIdx = l
    induction l with
    | nil => exact List.Sublist.refl _
    | cons x l ih =>
      by_cases hready : x.1.ready now = true
      · simpa [hready] using ih
      · simpa [hready] using ih.cons x.1.queue
  have hqueues : (s.zipIdx.map fun x => x.1.queue) = s.map Entry.queue := by
    have := congrArg (List.map Entry.queue) (List.zipIdx_map_fst 0 s)
    rwa [List.map_map] at this
  rw [← hqueues] at h
  exact h.sublist hsub

theorem Picks.ask (h : x.Picks) {now : Nat} (hs : x.sys.step (.ask now) = some s) : Picks { x with sys := s } := by
  have hsound := h.sound.ask hs
  obtain ⟨-, rfl⟩ := ask_cases hs
  exact h.looped hsound rfl List.Pairwise.nil (nodup_asks h.sound.queues now) (by simp [Loop.carried])
    trivial (by simp [Loop.carried]) h.unread rfl

theorem Picks.read (h : x.Picks) {answered : Bool} (hs : x.sys.read answered = some s) : Picks { x with sys := s } := by
  have hsound := h.sound.read hs
  have hrising := h.rising
  have hasks := h.asks
  have hapart := h.apart
  have hcarried := h.carried
  obtain ⟨ask, asks, taken, hl, rfl⟩ | ⟨taken, hl, rfl⟩ := read_cases hs
  · rw [hl] at hrising hasks hapart hcarried
    refine h.looped hsound rfl hrising hasks hapart ?_ hcarried h.unread rfl
    cases answered with
    | false => exact trivial
    | true => exact fun y hy => (Numbered.mem_readFrom hy).2
  · rw [hl] at hrising hcarried
    exact h.looped hsound rfl hrising List.nodup_nil (by simp [Loop.asks]) trivial hcarried h.unread rfl

/-- What a re-lock does to an entry: it goes on, and what it lets go of is of its queue, in order, and was at or after its
cursor and not taken. -/
structure Onward (s : Sys) (e e' : Entry) (more : List Released) : Prop where
  queue : e'.queue = e.queue
  cursor : e.cursor ≤ e'.cursor
  taken : e.taken ⊆ e'.taken
  sorted : more.Pairwise fun r r' => r.sequence < r'.sequence
  lets : ∀ r ∈ more, r.hold.queue = e.queue ∧ (r.sequence, r.hold) ∈ (s.ledger e.queue).items ∧ e.cursor ≤ r.sequence ∧
    r.sequence ∉ e.taken

theorem onward_of_relock (h : Sound s) (honward : s.loop.ReadsOn) {ask : Ask} {read : Option (List (Nat × Hold))}
    {upTo : Nat} {asks : List Ask} {taken : List Released} (hl : s.loop = .answered ask read upTo asks taken) {e : Entry}
    (hq : e.queue = ask.queue) (now : Nat) :
    Onward s e (e.relock ask.start s.most now read).1 (e.relock ask.start s.most now read).2 := by
  have hinc : ∀ items, read = some items → items.Pairwise fun x y => x.1 < y.1 := by
    rintro items rfl
    exact (h.reading ask items upTo asks taken hl).increasing
  have hstays : Onward s e e [] := ⟨rfl, Nat.le_refl _, Finset.Subset.refl _, List.Pairwise.nil, by simp⟩
  obtain heq | heq | ⟨items, e', more, rfl, -, hcur, ht, hend⟩ := relock_cases e ask.start s.most now hinc
  · rw [heq]
    exact hstays
  · rw [heq]
    exact ⟨rfl, Nat.le_refl _, Finset.Subset.refl _, List.Pairwise.nil, by simp⟩
  · have hread := h.reading ask items upTo asks taken hl
    rw [hl] at honward
    have hgoes : Onward s e e' more := by
      refine ⟨ht.queue, ?_, fun n hn => (ht.taken n).2 (.inl hn), ?_, ?_⟩
      · rcases ht.cursor with hc | ⟨y, hy, hc⟩
        · exact Nat.le_of_eq hc.symm
        · have := honward y hy
          omega
      · rw [ht.released, List.pairwise_map]
        exact hread.increasing.filter _
      · intro r hr
        rw [ht.released] at hr
        obtain ⟨y, hy, rfl⟩ := List.mem_map.1 hr
        obtain ⟨hy, htaken⟩ := List.mem_filter.1 hy
        have hheld := hread.held y hy
        rw [← hq] at hheld
        exact ⟨h.ledger _ y hheld, hheld, hcur ▸ honward y hy, by simpa [Entry.lets] using htaken⟩
    rcases hend with ⟨-, heq⟩ | heq
    · rw [heq]
      exact ⟨hgoes.queue, hgoes.cursor, hgoes.taken, hgoes.sorted, hgoes.lets⟩
    · rw [heq]
      exact hgoes

theorem Picks.relock (h : x.Picks) {now : Nat} (hs : x.sys.relock now = some s) : Picks { x with sys := s } := by
  have hsound := h.sound.relock hs
  have hrising := h.rising
  have hasks := h.asks
  have hapart := h.apart
  have hcarried := h.carried
  obtain ⟨ask, read, upTo, asks, taken, e, hl, he, rfl⟩ := relocked_cases hs
  have hemem := List.mem_of_getElem? he
  have hq : e.queue = ask.queue := by
    obtain ⟨name, hasked⟩ := h.sound.asks ask (by rw [hl]; exact List.mem_cons_self ..)
    rw [shape_get he] at hasked
    simpa using congrArg (fun x => x.map Prod.snd) hasked
  have hon := onward_of_relock h.sound h.onward hl hq now
  rw [hl] at hrising hasks hapart hcarried
  obtain ⟨hask, hasks⟩ := List.nodup_cons.1 hasks
  refine h.looped hsound rfl ?_ hasks ?_ trivial ?_ ?_ rfl
  · -- nothing was carried of the queue that was read
    refine List.pairwise_append.2 ⟨hrising, hon.sorted.imp ?_, ?_⟩
    · intro r r' hlt _
      exact hlt
    · intro r hr r' hr' hrr
      exact absurd ((hrr.trans (hon.lets r' hr').1).trans hq) (hapart ask (List.mem_cons_self ..) r hr)
  · intro a ha r hr
    rcases List.mem_append.1 hr with hr | hr
    · exact hapart a (List.mem_cons_of_mem _ ha) r hr
    · intro heq
      exact hask (List.mem_map.2 ⟨a, ha, (heq.symm.trans (hon.lets r hr).1).trans hq⟩)
  · intro r hr m hm
    rcases List.mem_append.1 hr with hr | hr
    · exact hcarried r hr m hm
    · obtain ⟨hrq, hheld, hcursor, htaken⟩ := hon.lets r hr
      rw [hrq] at hm
      exact h.unread e hemem m hm _ hheld hcursor htaken
  · intro d hd m hm y hy hc ht
    rcases List.mem_or_eq_of_mem_set hd with hd | rfl
    · exact h.unread d hd m hm y hy hc ht
    · rw [hon.queue] at hm hy
      exact h.unread e hemem m hm y hy (Nat.le_trans hon.cursor hc) fun hm => ht (hon.taken hm)

/-- The loop done with `one`, whose place goes out of the taken of its entry: what is to be read there once more comes
after what was moved. -/
theorem Picks.settled (h : x.Picks) (hsound : Sound s) (hledger : s.ledger = x.sys.ledger) {one : Released}
    (hone : (one.subscription, one.hold.queue) ∈ shape x.sys.state) {rest : List Released} {stalled : List String}
    (hl : s.loop = .carrying rest stalled) (hrest : rest.Sublist x.sys.loop.carried) {f : Entry → Entry}
    (hstate : s.state = x.sys.state.atReleased one f)
    (hf : ∀ e, (f e).queue = e.queue ∧ (f e).taken = e.taken.erase one.sequence ∧
      (e.cursor ≤ (f e).cursor ∨ one.sequence ≤ (f e).cursor))
    (hm : ∀ m ∈ x.since one.hold.queue, ∀ y ∈ (x.sys.ledger one.hold.queue).items, one.sequence ≤ y.1 → m < y.1) :
    Picks { x with sys := s } := by
  refine h.looped hsound hledger ?_ ?_ ?_ ?_ ?_ ?_ ?_
  · rw [hl]
    exact h.rising.sublist hrest
  · simp [hl, Loop.asks]
  · simp [hl, Loop.asks]
  · simp [hl, Loop.ReadsOn]
  · rw [hl]
    exact fun r hr => h.carried r (hrest.subset hr)
  · intro e' he' m hme y hy hc ht
    rw [hstate] at he'
    rcases mem_atReleased h.sound.names h.sound.queues hone he' with ⟨e, he, hq, rfl⟩ | ⟨he, -⟩
    · obtain ⟨hfq, hft, hfc⟩ := hf e
      rw [hfq] at hme hy
      -- a place read once more is the one put back or comes after it
      by_cases hle : one.sequence ≤ y.1
      · rw [hq] at hme hy
        exact hm m hme y hy hle
      · refine h.unread e he m hme y hy ?_ fun hy => ht ?_
        · rcases hfc with hfc | hfc
          · exact Nat.le_trans hfc hc
          · omega
        · rw [hft]
          exact Finset.mem_erase.2 ⟨by omega, hy⟩
    · exact h.unread e' he m hme y hy hc ht
  · rw [hl]
    rfl

/-- What was moved comes before what stands after the Message in hand. -/
theorem Picks.past_inHand (h : x.Picks) {one : Released} (hone : one ∈ x.sys.loop.inHand) :
    ∀ m ∈ x.since one.hold.queue, ∀ y ∈ (x.sys.ledger one.hold.queue).items, one.sequence ≤ y.1 → m < y.1 := by
  intro m hm y hy hle
  have := h.inHand one hone m hm
  have := (h.sound.inHand one hone).2.2 y hy
  omega

theorem Picks.moves (h : x.Picks) (hs : x.sys.moved = some s) : Picks { x with sys := s } := by
  have hsound := h.sound.moved hs
  obtain ⟨one, rest, stalled, hl, rfl⟩ := moved_cases hs
  have hinHand : one ∈ x.sys.loop.inHand := by rw [hl]; rfl
  exact h.settled hsound rfl (h.sound.inHand one hinHand).1 rfl (by rw [hl]; exact List.Sublist.refl _) rfl
    (fun e => ⟨rfl, rfl, .inl (Nat.le_refl _)⟩) (h.past_inHand hinHand)

theorem Picks.passes (h : x.Picks) (hs : x.sys.passed = some s) : Picks { x with sys := s } := by
  have hsound := h.sound.passed hs
  obtain ⟨one, rest, stalled, hl, -, rfl⟩ := passed_cases hs
  have hone : one ∈ x.sys.loop.carried := by rw [hl]; exact List.mem_cons_self ..
  refine h.settled hsound rfl (h.sound.known one hone).1 rfl (by rw [hl]; exact List.sublist_cons_self ..) rfl
    (fun e => ⟨rfl, rfl, .inl (Nat.le_refl _)⟩) ?_
  intro m hm y hy hle
  exact Nat.lt_of_lt_of_le (h.carried one hone m hm) hle

theorem Picks.again (h : x.Picks) {now : Nat} (hs : x.sys.again now = some s) : Picks { x with sys := s } := by
  have hsound := h.sound.again hs
  have hback : ∀ one : Released, ∀ e : Entry, e.cursor ≤ (if one.sequence < e.cursor then one.sequence else e.cursor) ∨
      one.sequence ≤ if one.sequence < e.cursor then one.sequence else e.cursor := by
    intro one e
    split
    · exact .inr (Nat.le_refl _)
    · exact .inl (Nat.le_refl _)
  obtain ⟨one, rest, stalled, hl | hl, rfl⟩ := again_cases hs
  · have hone : one ∈ x.sys.loop.carried := by rw [hl]; exact List.mem_cons_self ..
    refine h.settled hsound rfl (h.sound.known one hone).1 rfl (by rw [hl]; exact List.sublist_cons_self ..) rfl
      (fun e => ⟨rfl, rfl, hback one e⟩) ?_
    intro m hm y hy hle
    exact Nat.lt_of_lt_of_le (h.carried one hone m hm) hle
  · have hinHand : one ∈ x.sys.loop.inHand := by rw [hl]; rfl
    exact h.settled hsound rfl (h.sound.inHand one hinHand).1 rfl (by rw [hl]; exact List.Sublist.refl _) rfl
      (fun e => ⟨rfl, rfl, hback one e⟩) (h.past_inHand hinHand)

/-- What moving the first of the batch leaves behind was passed over. -/
theorem leaves_eq_nil (h : Sound s) {one : Released} {rest : List Released} {stalled : List String}
    (hl : s.loop = .carrying (one :: rest) stalled) (hstalled : one.subscription ∉ stalled) : s.leaves one = [] := by
  unfold Sys.leaves
  rw [List.filter_eq_nil_iff]
  intro place hplace
  obtain ⟨y, hy, rfl⟩ := List.mem_map.1 hplace
  simp only [Bool.and_eq_true, decide_eq_true_eq, Bool.not_eq_true', not_and, Bool.not_eq_false, List.contains_iff_mem]
  intro hlt
  have hordered := h.ordered
  rw [hl] at hordered
  rcases hordered 0 one rfl y hy hlt with hm | hp | hst
  · cases hm
  · exact hp
  · exact absurd hst hstalled

theorem Picks.land (h : x.Picks) {answered : Bool} {one : Released} {rest : List Released} {stalled : List String}
    (hl : x.sys.loop = .carrying (one :: rest) stalled) (hok : x.Ahead (.land answered))
    (hs : x.sys.land answered = some s) : Picks {
      sys := s
      since := Function.update x.since one.hold.queue (x.since one.hold.queue ++ [one.sequence])
      moved := x.moved ++ [one.place]
      skipped := x.skipped ++ x.sys.leaves one } := by
  have hsound := h.sound.land hs
  have hone : one ∈ x.sys.loop.carried := by rw [hl]; exact List.mem_cons_self ..
  have hheld := (h.sound.known one hone).2
  have hahead : ∀ e ∈ x.sys.state, e.queue = one.hold.queue → ∀ y ∈ (x.sys.ledger e.queue).items, y.1 < one.sequence →
      y.1 < e.cursor := by
    simpa only [Ahead, hl, Loop.carried, List.head?_cons, Option.all_some, List.all_eq_true, decide_eq_true_eq] using hok
  have hrising := h.rising
  rw [hl] at hrising
  obtain ⟨hbefore, hrising⟩ := List.pairwise_cons.1 hrising
  obtain ⟨one', rest', stalled', hl', hstalled, hs'⟩ := land_cases hs
  rw [hl] at hl'
  cases hl'
  have hnext : ∀ q, (s.ledger q).next = (x.sys.ledger q).next := by
    intro q
    rw [hs']
    by_cases hq : q = one.hold.queue
    · subst hq; simp
    · simp [hq]
  have hitems : ∀ q, ∀ y ∈ (s.ledger q).items, y ∈ (x.sys.ledger q).items ∧ (q, y.1) ≠ one.place := by
    intro q y hy
    rw [hs'] at hy
    by_cases hq : q = one.hold.queue
    · subst hq
      simpa [Released.place] using hy
    · exact ⟨by simpa [hq] using hy, by simp [Released.place, hq]⟩
  -- what was moved of a queue is what was before, and the one moved now
  have hsince : ∀ q, ∀ m ∈ Function.update x.since one.hold.queue (x.since one.hold.queue ++ [one.sequence]) q,
      m ∈ x.since q ∨ q = one.hold.queue ∧ m = one.sequence := by
    intro q m hm
    by_cases hq : q = one.hold.queue
    · subst hq
      simpa using hm
    · exact .inl (by simpa [hq] using hm)
  refine ⟨⟨?_, ?_, ?_⟩, hsound, ?_, ?_, ?_, ?_, ?_, ?_, ?_, ?_, ?_⟩
  · intro q
    by_cases hq : q = one.hold.queue
    · subst hq
      simp only [Function.update_self]
      refine List.pairwise_append.2 ⟨h.increasing _, List.pairwise_singleton _ _, ?_⟩
      intro m hm n hn
      rw [List.mem_singleton.1 hn]
      exact h.carried one hone m hm
    · simpa [hq] using h.increasing q
  · refine List.nodup_append.2 ⟨h.once, List.nodup_singleton _, ?_⟩
    rintro a ha b hb rfl
    rw [List.mem_singleton.1 hb] at ha
    exact (h.gone _ ha).2 _ hheld rfl
  · rw [h.skipsNone, leaves_eq_nil h.sound hl hstalled]
    rfl
  · rw [hs']
    exact hrising
  · simp [hs', Loop.asks]
  · simp [hs', Loop.asks]
  · simp [hs', Loop.ReadsOn]
  · intro q m hm
    rw [hnext]
    rcases hsince q m hm with hm | ⟨rfl, rfl⟩
    · exact h.below q m hm
    · exact Numbered.below _ _ hheld
  · intro r hr m hm
    rw [hs'] at hr
    rcases hsince _ m hm with hm | ⟨hq, rfl⟩
    · exact h.carried r (by rw [hl]; exact List.mem_cons_of_mem _ hr) m hm
    · exact hbefore r hr hq.symm
  · intro e he m hm y hy hc ht
    rw [hs'] at he
    obtain ⟨hy, hne⟩ := hitems _ y hy
    rcases hsince _ m hm with hm | ⟨hq, rfl⟩
    · exact h.unread e he m hm y hy hc ht
    · have hlt := hahead e he hq y hy
      have : y.1 ≠ one.sequence := fun heq => hne (by simp [Released.place, hq, heq])
      omega
  · intro r hr m hm
    rw [hs'] at hr
    cases hr
    rcases hsince _ m hm with hm | ⟨-, rfl⟩
    · exact Nat.le_of_lt (h.carried one hone m hm)
    · exact Nat.le_refl _
  · intro place hplace
    rw [hnext]
    rcases List.mem_append.1 hplace with hplace | hplace
    · exact ⟨(h.gone place hplace).1, fun y hy => (h.gone place hplace).2 y (hitems _ y hy).1⟩
    · rw [List.mem_singleton.1 hplace]
      exact ⟨Numbered.below _ _ hheld, fun y hy heq => (hitems _ y hy).2 (by simp [Released.place, heq])⟩

theorem Picks.step {x' : Picking} {a : Action} (h : x.Picks) (hok : x.Ahead a) (hs : x.step a = some x') : x'.Picks := by
  obtain ⟨sys, hsys, rfl⟩ := Option.map_eq_some_iff.1 hs
  cases a with
  | decide w kind opened body => exact h.decided hsys
  | write w answer => exact h.write hsys
  | published w => exact h.published hsys
  | act name act who now took =>
    simp only [Sys.step, Option.some.injEq] at hsys
    subst hsys
    exact h.act name act who now took
  | ask now => exact h.ask hsys
  | read answered => exact h.read hsys
  | relock now => exact h.relock hsys
  | land answered =>
    obtain ⟨one, rest, stalled, hl, -, -⟩ := land_cases hsys
    have hmoves : x.sys.moves (.land answered) = some one := by simp [Sys.moves, hl, Loop.carried]
    rw [hmoves]
    exact h.land hl hok hsys
  | moved => exact h.moves hsys
  | passed => exact h.passes hsys
  | again now => exact h.again hsys

/-- **Held Messages are picked up oldest first.**  Where a Message is moved only while nothing before it in its queue is to
be read again, the places moved of a queue between two resumes go up, none is moved twice, and none is left behind that was
not passed over. -/
theorem oldestFirst_of_reach (h : Reach Picking.step Picking.Ahead Picking.Opening x) : x.OldestFirst := by
  suffices Picks x from this.toOldestFirst
  exact h.invariant (fun _ => picks_of_opening) fun _ _ _ hp hok hs => hp.step hok hs

/-! ### A passed-over Message, and a resume in the middle of the batch after it -/

/-- Three Messages held and let go of to the loop, two in a batch, the first of them passed over. -/
def batch : List Action :=
  [.act "orders" .pause "op" 1 true, .decide 1 .publication [⟨11, "orders"⟩] [], .write 1 .taken, .published 1,
    .decide 2 .publication [⟨12, "orders"⟩] [], .write 2 .taken, .published 2,
    .decide 3 .publication [⟨13, "orders"⟩] [], .write 3 .taken, .published 3, .act "orders" .resume "op" 2 true,
    .ask 0, .read true, .relock 0, .read true, .passed]

private theorem opening_picking : Opening ⟨Sys.quiet, fun _ => [], [], []⟩ := ⟨opening_quiet, fun _ => rfl, rfl, rfl⟩

/-- The Messages after the one passed over are moved in their order, the last of them read again after a fault that
passed. -/
theorem oldestFirst_acrossBatches : ∃ x, Reach Picking.step Picking.Ahead Picking.Opening x ∧ x.OldestFirst ∧
    x.since 7 = [1, 2] ∧ x.sys.passedOver = [(7, 0)] := by
  obtain ⟨x, hx, hp⟩ := Reach.exists_of_runWhere Picking.step Picking.Ahead opening_picking
    (List.flatten [batch,
      [.land true, .moved, .ask 0, .read true, .relock 0, .read true, .again 5, .ask 60000000, .read true,
        .relock 60000000, .read true, .land true, .moved]])
    (fun x => decide (x.since 7 = [1, 2] ∧ x.sys.passedOver = [(7, 0)])) (by decide +kernel)
  exact ⟨x, hx, oldestFirst_of_reach hx, of_decide_eq_true hp⟩

/-- Paused and resumed while the second of the batch is in the loop's hands: it is moved, and then the first, which comes
before it and can be read by now. -/
theorem newest_first_after_resume : ∃ x, Reach Picking.step Always Picking.Opening x ∧ ¬ x.OldestFirst := by
  obtain ⟨x, hx, hp⟩ := Reach.exists_of_runWhere Picking.step Always opening_picking
    (List.flatten [batch,
      [.act "orders" .pause "op" 3 true, .act "orders" .resume "op" 4 true, .land true, .moved, .ask 0, .read true,
        .relock 0, .read true, .land true, .moved]])
    (fun x => decide (x.since 7 = [1, 0])) (by decide +kernel)
  refine ⟨x, hx, fun h => ?_⟩
  have := h.increasing 7
  rw [of_decide_eq_true hp] at this
  simp at this

end Picking

end Pickup
