import XmipRuntime.Library.Pick
import XmipRuntime.Pickup.Carried

/-!
# A Subscription's held count

`held` is kept beside a Subscription's queue: a writer that holds raises it once its write is answered, the pick-up
lowers it once its hand-on is.  `Told` is the condition under which it is the number of Messages in the queue whenever
nothing is under way, and is never lowered below zero: no write holds that the pickup is not told of, no hand-on's
answer is lost, and the pick-up does not count a queue's Message out while all that is left of it is yet to be counted.
In between the two differ by what is under way (`Balanced`): the holds landed and not yet told, and the Message in the
loop's hand.
-/

namespace Pickup

open Library

/-- How many of `places` are of the queue `q`. -/
def placesOf (q : Nat) (places : List (Nat × Nat)) : Nat := places.countP fun p => decide (p.1 = q)

/-- How many holds of the queue `q` have landed whose writers have yet to tell the pickup. -/
def untold (writers : Table Nat Writer) (q : Nat) : Nat :=
  total (fun x => placesOf q (x.2.landed.getD [])) writers.entries

/-- Whether the Message in the loop's hand is of the queue `q`. -/
def Loop.inHandOf (loop : Loop) (q : Nat) : Nat := if loop.inHand.any (fun one => one.hold.queue == q) then 1 else 0

/-- Nothing is under way: no writer has decided and not concluded, and no Message is out of its queue and not told
of. -/
def Settled (s : Sys) : Prop := s.writers.entries = [] ∧ s.loop.inHand = none

/-- Where nothing is under way every Subscription's count is how many its queue holds. -/
def HeldExact (s : Sys) : Prop := Settled s → ∀ e ∈ s.state, e.held = (s.ledger e.queue).items.length

/-- Whether the step lowers a count that is zero. -/
def Sys.clamps (s : Sys) : Action → Bool
  | .moved =>
    match s.loop with
    | .landed one true _ _ => ((s.state.index one.subscription).bind (s.state[·]?)).any fun e => e.held == 0
    | _ => false
  | _ => false

/-- The pickup watched: whether a count was ever lowered that was zero. -/
structure Watched where
  sys : Sys
  clamped : Bool

def Watched.step (x : Watched) (a : Action) : Option Watched :=
  (x.sys.step a).map fun s => ⟨s, x.clamped || x.sys.clamps a⟩

def Watched.Opening (x : Watched) : Prop := Pickup.Opening x.sys ∧ x.clamped = false

/-- Every hold is told of and counted before it is counted out. -/
def Told (s : Sys) : Action → Prop
  | .write w answer =>
    match s.writers.get w with
    | some ⟨kind, holding, none⟩ => answer ≠ .refused → kind = .turn ∨ answer = .lost → holding.holds = []
    | _ => True
  | .land answered => answered = true
  | .moved =>
    match s.loop with
    | .landed one true _ _ => untold s.writers one.hold.queue ≤ (s.ledger one.hold.queue).items.length
    | _ => True
  | _ => True

instance (s : Sys) (a : Action) : Decidable (Told s a) :=
  match a with
  | .write w answer =>
    match h : s.writers.get w with
    | some ⟨kind, holding, none⟩ =>
      decidable_of_iff (answer ≠ .refused → kind = .turn ∨ answer = .lost → holding.holds = []) (by simp [Told, h])
    | some ⟨_, _, some _⟩ | none => .isTrue (by simp [Told, h])
  | .land answered => inferInstanceAs (Decidable (answered = true))
  | .moved =>
    match h : s.loop with
    | .landed one true _ _ =>
      decidable_of_iff (untold s.writers one.hold.queue ≤ (s.ledger one.hold.queue).items.length) (by simp [Told, h])
    | .landed _ false _ _ | .answered _ _ _ _ _ | .idle | .asking _ _ | .carrying _ _ => .isTrue (by simp [Told, h])
  | .decide .. | .published _ | .act .. | .ask _ | .read _ | .relock _ | .passed | .again _ => .isTrue trivial

/-! ### Counting what landed -/

theorem untold_drop {writers : Table Nat Writer} {w : Nat} {u : Writer} (h : writers.get w = some u) (q : Nat) :
    untold writers q = placesOf q (u.landed.getD []) + untold (writers.drop w) q :=
  (total_perm (Table.cons_drop_perm h)).symm

theorem untold_drop_none {writers : Table Nat Writer} {w : Nat} (h : ∀ u, writers.get w = some u → u.landed = none)
    (q : Nat) : untold (writers.drop w) q = untold writers q := by
  rcases hw : writers.get w with _ | u
  · unfold untold
    rw [Table.drop_eq_self hw]
  · rw [untold_drop hw, h u hw]
    simp [placesOf]

theorem untold_put {writers : Table Nat Writer} {w : Nat} (h : ∀ u, writers.get w = some u → u.landed = none)
    (v : Writer) (q : Nat) : untold (writers.put w v) q = placesOf q (v.landed.getD []) + untold writers q := by
  rw [← untold_drop_none h]
  rfl

/-- What landed, queue by queue. -/
private theorem landAll_foldl (holds : List Hold) (x : (Nat → Numbered Hold) × List (Nat × Nat)) :
    (holds.foldl landOne x).2.map Prod.fst = x.2.map Prod.fst ++ holds.map Hold.queue ∧
      ∀ q, ((holds.foldl landOne x).1 q).items.length + placesOf q x.2 =
        (x.1 q).items.length + placesOf q (holds.foldl landOne x).2 := by
  induction holds generalizing x with
  | nil => simp
  | cons hold holds ih =>
    obtain ⟨hplaces, hcount⟩ := ih (landOne x hold)
    refine ⟨?_, ?_⟩
    · rw [List.foldl_cons, hplaces]
      simp [landOne]
    · intro q
      have h := hcount q
      rw [List.foldl_cons]
      by_cases hq : q = hold.queue
      · subst hq
        simp only [landOne, Function.update_self, Numbered.push, List.length_append, List.length_singleton, placesOf,
          List.countP_append, List.countP_singleton, decide_true, if_true] at h ⊢
        omega
      · have hq' : ¬ hold.queue = q := fun h => hq h.symm
        simp only [landOne, Function.update_of_ne hq, placesOf, List.countP_append, List.countP_singleton,
          decide_eq_false hq', Bool.false_eq_true, if_false, Nat.add_zero] at h ⊢
        exact h

theorem landAll_places (ledger : Nat → Numbered Hold) (holds : List Hold) :
    (landAll ledger holds).2.map Prod.fst = holds.map Hold.queue := by
  simpa [landAll] using (landAll_foldl holds (ledger, [])).1

theorem landAll_length (ledger : Nat → Numbered Hold) (holds : List Hold) (q : Nat) :
    ((landAll ledger holds).1 q).items.length = (ledger q).items.length + placesOf q (landAll ledger holds).2 := by
  simpa [landAll, placesOf] using (landAll_foldl holds (ledger, [])).2 q

/-! ### What a writer counts -/

/-- What `holding` counts, index by index, is what it holds, queue by queue. -/
def Aligned (s : State) (holding : Holding) : Prop :=
  holding.held.map (fun x => ((shape s)[x.1]?).map Prod.snd) = holding.holds.map fun h => some h.queue

theorem Aligned.append {s : State} {a b : Holding} (ha : Aligned s a) (hb : Aligned s b) : Aligned s (a.append b) := by
  unfold Aligned Holding.append at *
  rw [List.map_append, List.map_append, ha, hb]

private theorem aligned_heldOne {s : State} {body : List UInt8} {every : Bool} {holding : Holding} (one : Opened)
    (h : Aligned s holding) : Aligned s (s.heldOne body every holding one) := by
  unfold State.heldOne
  split
  · exact h
  · rename_i i _
    split
    · exact h
    · rename_i e hget
      split
      · exact h
      · unfold Aligned at *
        simp only [List.map_append, List.map_cons, List.map_nil, h, shape_get hget, Option.map_some]

theorem aligned_held (s : State) (opened : List Opened) (body : List UInt8) (every : Bool) :
    Aligned s (s.held opened body every) := by
  unfold State.held
  have h : Aligned s Holding.none := rfl
  generalize Holding.none = holding at h ⊢
  induction opened generalizing holding with
  | nil => exact h
  | cons one opened ih => exact ih _ (aligned_heldOne one h)

/-- What is counted at the entry of a queue is how many of the holds are of that queue. -/
theorem Aligned.count {s : State} (hq : (s.map Entry.queue).Nodup) {holding : Holding} (h : Aligned s holding) {j : Nat}
    {e : Entry} (he : s[j]? = some e) {places : List (Nat × Nat)}
    (hplaces : places.map Prod.fst = holding.holds.map Hold.queue) :
    holding.held.countP (fun x => decide (x.1 = j)) = placesOf e.queue places := by
  have hcount := congrArg (List.countP fun o => decide (o = some e.queue)) h
  rw [List.countP_map, List.countP_map] at hcount
  have hright : placesOf e.queue places = holding.holds.countP fun h => decide (h.queue = e.queue) := by
    have := congrArg (List.countP fun q => decide (q = e.queue)) hplaces
    rwa [List.countP_map, List.countP_map] at this
  rw [hright]
  simp only [Function.comp_def, Option.some.injEq] at hcount
  rw [← hcount]
  refine List.countP_congr fun x _ => ?_
  simp only [decide_eq_true_eq, Option.map_eq_some_iff]
  constructor
  · rintro rfl
    exact ⟨_, shape_get he, rfl⟩
  · rintro ⟨y, hy, hyq⟩
    simp only [shape, List.getElem?_map, Option.map_eq_some_iff] at hy
    obtain ⟨d, hd, rfl⟩ := hy
    exact eq_of_queue hq hd he hyq

private theorem foldl_modify_get {β : Type} (ix : β → Nat) (f : Entry → Entry) (l : List β) (s : State) (j : Nat) :
    (l.foldl (fun s b => s.modify (ix b) f) s)[j]? = s[j]?.map (f^[l.countP fun b => decide (ix b = j)]) := by
  induction l generalizing s with
  | nil => simp
  | cons b l ih =>
    rw [List.foldl_cons, ih, List.getElem?_modify]
    by_cases hb : ix b = j
    · cases s[j]? <;> simp [hb]
    · simp [hb]

private theorem held_iterate {f : Entry → Entry} {k : Nat} (hf : ∀ e, (f e).held = e.held + k) (n : Nat) (e : Entry) :
    (f^[n] e).held = e.held + n * k := by
  induction n generalizing e with
  | zero => simp
  | succ n ih => rw [Function.iterate_succ_apply, ih, hf, Nat.succ_mul]; omega

theorem published_held {s : State} {holding : Holding} {j : Nat} {e e' : Entry} (he : s[j]? = some e)
    (h : (s.published holding)[j]? = some e') :
    e'.held = e.held + holding.held.countP fun x => decide (x.1 = j) := by
  unfold State.published at h
  rw [foldl_modify_get Prod.fst, foldl_modify_get fun i => i, he] at h
  simp only [Option.map_some, Option.some.injEq] at h
  have hone : ∀ e : Entry, e.holdsOne.held = e.held + 1 := fun _ => rfl
  rw [← h, held_iterate hone, Nat.mul_one]
  have hpicked : ∀ e : Entry, ({ e with pickedUp := e.pickedUp + 1 } : Entry).held = e.held + 0 := fun _ => rfl
  rw [held_iterate hpicked, Nat.mul_zero, Nat.add_zero]

/-! ### The invariant -/

/-- A writer counts what it holds, and what it landed is that. -/
structure Counting (s : Sys) (w : Writer) : Prop where
  aligned : Aligned s.state w.holding
  landed : ∀ places, w.landed = some places → places.map Prod.fst = w.holding.holds.map Hold.queue

/-- Every count and what is yet to be counted come to what the queue holds and what is in the loop's hand. -/
def Balanced (s : Sys) : Prop :=
  ∀ e ∈ s.state, e.held + untold s.writers e.queue = (s.ledger e.queue).items.length + s.loop.inHandOf e.queue

/-- What every step that meets `Told` keeps. -/
structure Tallied (s : Sys) : Prop where
  sound : Sound s
  balanced : Balanced s
  writers : ∀ x ∈ s.writers.entries, Counting s x.2
  answered : ∀ one answered rest stalled, s.loop = .landed one answered rest stalled → answered = true

theorem Tallied.heldExact {s : Sys} (h : Tallied s) : HeldExact s := by
  rintro ⟨hwriters, hloop⟩ e he
  have := h.balanced e he
  simpa [untold, hwriters, Loop.inHandOf, hloop] using this

theorem tallied_of_opening {s : Sys} (h : Opening s) : Tallied s where
  sound := sound_of_opening h
  balanced := by
    intro e he
    simp [untold, h.writers, Loop.inHandOf, h.loop, Loop.inHand, (h.entry e he).2.2.2]
  writers := by rw [h.writers]; simp
  answered := by simp [h.loop]

theorem Counting.of_shape {s s' : Sys} {w : Writer} (h : Counting s w) (hshape : shape s'.state = shape s.state) :
    Counting s' w := by
  refine ⟨?_, h.landed⟩
  unfold Aligned
  rw [hshape]
  exact h.aligned

private theorem counting_put {s s' : Sys} (h : Tallied s) {w : Nat} {v : Writer}
    (hput : s'.writers = s.writers.put w v) (hstate : s'.state = s.state) (hv : Counting s v) :
    ∀ x ∈ s'.writers.entries, Counting s' x.2 := by
  intro x hx
  rw [hput, Table.mem_iff_get, Table.get_put] at hx
  have hshape : shape s'.state = shape s.state := by rw [hstate]
  split at hx
  · exact Option.some.inj hx ▸ hv.of_shape hshape
  · exact (h.writers _ (Table.mem_iff_get.2 hx)).of_shape hshape

private theorem counting_drop {s s' : Sys} (h : Tallied s) {w : Nat} (hdrop : s'.writers = s.writers.drop w)
    (hshape : shape s'.state = shape s.state) : ∀ x ∈ s'.writers.entries, Counting s' x.2 := by
  intro x hx
  rw [hdrop, Table.mem_iff_get, Table.get_drop] at hx
  split at hx
  · cases hx
  · exact (h.writers _ (Table.mem_iff_get.2 hx)).of_shape hshape

/-! ### Each step -/

theorem Tallied.decided {s s' : Sys} (h : Tallied s) {w : Nat} {kind : Kind} {opened : List Opened} {body : List UInt8}
    (hs : s.decided w kind opened body = some s') : Tallied s' := by
  have hsound := h.sound.decided hs
  obtain ⟨holding, rfl, hwhich⟩ := decided_cases hs
  have hnone : ∀ u, s.writers.get w = some u → u.landed = none := by
    rcases hwhich with ⟨hget, -⟩ | ⟨before, hget, -⟩ <;> simp [hget]
  have haligned : Aligned s.state holding := by
    rcases hwhich with ⟨-, rfl⟩ | ⟨before, hget, -, rfl⟩
    · exact aligned_held _ _ _ _
    · exact (h.writers _ (Table.mem_iff_get.2 hget)).aligned.append (aligned_held _ _ _ _)
  refine ⟨hsound, ?_, counting_put h rfl rfl ⟨haligned, by simp⟩, h.answered⟩
  intro e he
  show e.held + untold (s.writers.put w _) e.queue = _
  rw [untold_put hnone]
  simpa [placesOf] using h.balanced e he

theorem Tallied.write {s s' : Sys} (h : Tallied s) {w : Nat} {answer : Answer} (hok : Told s (.write w answer))
    (hs : s.write w answer = some s') : Tallied s' := by
  have hsound := h.sound.write hs
  obtain ⟨kind, holding, hget, hcases⟩ := write_cases hs
  have hnone : ∀ u, s.writers.get w = some u → u.landed = none := by simp [hget]
  simp only [Told, hget] at hok
  obtain ⟨-, rfl⟩ | ⟨hrefused, hsilent, rfl⟩ | ⟨-, -, rfl⟩ := hcases
  · refine ⟨hsound, ?_, counting_drop h rfl rfl, h.answered⟩
    intro e he
    show e.held + untold (s.writers.drop w) e.queue = _
    rw [untold_drop_none hnone]
    exact h.balanced e he
  · -- nobody tells the pickup, and there is nothing to tell
    refine ⟨hsound, ?_, counting_drop h rfl rfl, h.answered⟩
    intro e he
    show e.held + untold (s.writers.drop w) e.queue = ((landAll s.ledger holding.holds).1 e.queue).items.length + _
    rw [untold_drop_none hnone, hok hrefused hsilent]
    exact h.balanced e he
  · have haligned := (h.writers _ (Table.mem_iff_get.2 hget)).aligned
    refine ⟨hsound, ?_, counting_put h rfl rfl ⟨haligned, ?_⟩, h.answered⟩
    · intro e he
      show e.held + untold (s.writers.put w _) e.queue =
        ((landAll s.ledger holding.holds).1 e.queue).items.length + s.loop.inHandOf e.queue
      rw [untold_put hnone, landAll_length]
      have := h.balanced e he
      simp only [Option.getD_some]
      omega
    · intro places hplaces
      exact Option.some.inj hplaces ▸ landAll_places s.ledger holding.holds

theorem Tallied.published {s s' : Sys} (h : Tallied s) {w : Nat} (hs : s.published w = some s') : Tallied s' := by
  have hsound := h.sound.published hs
  obtain ⟨kind, holding, places, hget, rfl⟩ := published_cases hs
  obtain ⟨haligned, hplaces⟩ := h.writers _ (Table.mem_iff_get.2 hget)
  refine ⟨hsound, ?_, counting_drop h rfl (shape_published ..), h.answered⟩
  intro e' he'
  obtain ⟨j, hj⟩ := List.getElem?_of_mem he'
  obtain ⟨⟨e, he, hc⟩, -⟩ := published_get hj
  have hbal := h.balanced e (List.mem_of_getElem? he)
  show e'.held + untold (s.writers.drop w) e'.queue = (s.ledger e'.queue).items.length + s.loop.inHandOf e'.queue
  rw [hc.queue, published_held he hj, haligned.count h.sound.queues he (hplaces places rfl)]
  rw [untold_drop hget] at hbal
  simp only [Option.getD_some] at hbal
  omega

/-- A step that changes no writer and no queue, and no entry's count, and takes no Message in hand or out of it. -/
theorem Tallied.of_same {s s' : Sys} (h : Tallied s) (hsound : Sound s') (hshape : shape s'.state = shape s.state)
    (hheld : ∀ e' ∈ s'.state, ∃ e ∈ s.state, e'.queue = e.queue ∧ e'.held = e.held)
    (hwriters : s'.writers = s.writers) (hledger : s'.ledger = s.ledger) (hloop : s'.loop.inHand = s.loop.inHand)
    (hanswered : ∀ one answered rest stalled, s'.loop = .landed one answered rest stalled → answered = true) :
    Tallied s' := by
  refine ⟨hsound, ?_, ?_, hanswered⟩
  · intro e' he'
    obtain ⟨e, he, hq, hn⟩ := hheld e' he'
    have := h.balanced e he
    unfold Loop.inHandOf at this ⊢
    rw [hq, hn, hwriters, hledger, hloop]
    exact this
  · intro x hx
    rw [hwriters] at hx
    exact (h.writers x hx).of_shape hshape

private theorem held_of_mem {s : Sys} : ∀ e ∈ s.state, ∃ d ∈ s.state, e.queue = d.queue ∧ e.held = d.held :=
  fun e he => ⟨e, he, rfl, rfl⟩

theorem Tallied.act {s : Sys} (h : Tallied s) (name : String) (act : Act) (who : String) (now : Int) (took : Bool) :
    Tallied { s with state := (s.state.act s.node name act who now took).1 } := by
  refine h.of_same (h.sound.act name act who now took) (shape_act ..) ?_ rfl rfl rfl h.answered
  intro e' he'
  obtain hsame | ⟨i, hpause | hresume⟩ := act_cases s.state s.node name act who now took
  · exact held_of_mem e' (hsame ▸ he')
  · obtain ⟨j, e, he, ⟨-, rfl⟩ | ⟨-, rfl⟩⟩ := mem_modify (hpause ▸ he')
    · exact ⟨e, List.mem_of_getElem? he, rfl, rfl⟩
    · exact held_of_mem e' (List.mem_of_getElem? he)
  · obtain ⟨j, e, he, ⟨-, rfl⟩ | ⟨-, rfl⟩⟩ := mem_modify (hresume ▸ he')
    · exact ⟨e, List.mem_of_getElem? he, rfl, rfl⟩
    · exact held_of_mem e' (List.mem_of_getElem? he)

theorem Tallied.relock {s s' : Sys} (h : Tallied s) {now : Nat} (hs : s.relock now = some s') : Tallied s' := by
  have hsound := h.sound.relock hs
  obtain ⟨ask, read, upTo, asks, taken, e, hl, he, rfl⟩ := relocked_cases hs
  obtain ⟨hn, hq, -, hheld⟩ := h.sound.relock_keeps hl e now
  refine h.of_same hsound (shape_set he hn hq) ?_ rfl rfl (by rw [hl]; rfl) (by simp)
  intro d hd
  rcases List.mem_or_eq_of_mem_set hd with hd | rfl
  · exact held_of_mem d hd
  · exact ⟨e, List.mem_of_getElem? he, hq, hheld⟩

theorem Tallied.land {s s' : Sys} (h : Tallied s) {answered : Bool} (hok : Told s (.land answered))
    (hs : s.land answered = some s') : Tallied s' := by
  have hsound := h.sound.land hs
  obtain ⟨one, rest, stalled, hl, -, rfl⟩ := land_cases hs
  have hone := (h.sound.known one (by rw [hl]; exact List.mem_cons_self ..)).2
  refine ⟨hsound, ?_, fun x hx => (h.writers x hx).of_shape rfl, ?_⟩
  · intro e he
    have hbal := h.balanced e he
    simp only [hl, Loop.inHandOf, Loop.inHand, Option.any_none, Bool.false_eq_true, if_false] at hbal
    show e.held + untold s.writers e.queue = _
    by_cases hq : e.queue = one.hold.queue
    · rw [hq] at hbal ⊢
      have hlength := Numbered.length_filter_ne hone
      simp only at hlength
      simp only [Function.update_self, Loop.inHandOf, Loop.inHand, Option.any_some, beq_self_eq_true, if_true]
      omega
    · have hq' : (one.hold.queue == e.queue) = false := by simpa using fun h => hq h.symm
      simp only [Function.update_of_ne hq, Loop.inHandOf, Loop.inHand, Option.any_some, hq', Bool.false_eq_true,
        if_false]
      exact hbal
  · intro _ _ _ _ heq
    simp only [Loop.landed.injEq] at heq
    exact heq.2.1 ▸ hok

/-- The Message in hand is counted where its Subscription's entry counts it, whose count is not zero. -/
private theorem Tallied.counted {s : Sys} (h : Tallied s) (hok : Told s .moved) {one : Released} {rest : List Released}
    {stalled : List String} (hl : s.loop = .landed one true rest stalled) :
    ∀ e ∈ s.state, e.queue = one.hold.queue → e.held ≠ 0 := by
  intro e he hq hzero
  have hbal := h.balanced e he
  simp only [Told, hl] at hok
  simp only [hl, hq, hzero, Loop.inHandOf, Loop.inHand, Option.any_some, beq_self_eq_true, if_true] at hbal
  omega

theorem Tallied.moved {s s' : Sys} (h : Tallied s) (hok : Told s .moved) (hs : s.moved = some s') : Tallied s' := by
  have hsound := h.sound.moved hs
  obtain ⟨one, rest, stalled, hl, rfl⟩ := moved_cases hs
  have hcounted := h.counted hok hl
  obtain ⟨hone, -, -⟩ := h.sound.inHand one (by rw [hl]; rfl)
  refine ⟨hsound, ?_, fun x hx => (h.writers x hx).of_shape (shape_moved ..), by simp⟩
  intro e' he'
  rcases mem_atReleased h.sound.names h.sound.queues hone he' with ⟨e, he, hq, rfl⟩ | ⟨he, hne⟩
  · have hbal := h.balanced e he
    have hpos := hcounted e he hq
    simp only [hl, hq, Loop.inHandOf, Loop.inHand, Option.any_some, beq_self_eq_true, if_true] at hbal
    show e.held - 1 + untold s.writers e.queue = (s.ledger e.queue).items.length + 0
    rw [hq]
    omega
  · have hbal := h.balanced e' he
    have hne' : (one.hold.queue == e'.queue) = false := by simpa using fun h => hne h.symm
    simp only [hl, Loop.inHandOf, Loop.inHand, Option.any_some, hne', Bool.false_eq_true, if_false] at hbal
    exact hbal

theorem Tallied.passed {s s' : Sys} (h : Tallied s) (hs : s.passed = some s') : Tallied s' := by
  have hsound := h.sound.passed hs
  obtain ⟨one, rest, stalled, hl, -, rfl⟩ := passed_cases hs
  have hone := (h.sound.known one (by rw [hl]; exact List.mem_cons_self ..)).1
  refine h.of_same hsound (shape_passed ..) ?_ rfl rfl (by rw [hl]; rfl) (by simp)
  intro e' he'
  rcases mem_atReleased h.sound.names h.sound.queues hone he' with ⟨e, he, -, rfl⟩ | ⟨he, -⟩
  · exact ⟨e, he, rfl, rfl⟩
  · exact held_of_mem e' he

theorem Tallied.again {s s' : Sys} (h : Tallied s) {now : Nat} (hs : s.again now = some s') : Tallied s' := by
  have hsound := h.sound.again hs
  obtain ⟨one, rest, stalled, hl | hl, rfl⟩ := again_cases hs
  · have hone := (h.sound.known one (by rw [hl]; exact List.mem_cons_self ..)).1
    refine h.of_same hsound (shape_again ..) ?_ rfl rfl (by rw [hl]; rfl) (by simp)
    intro e' he'
    rcases mem_atReleased h.sound.names h.sound.queues hone he' with ⟨e, he, -, rfl⟩ | ⟨he, -⟩
    · exact ⟨e, he, rfl, rfl⟩
    · exact held_of_mem e' he
  · cases h.answered _ _ _ _ hl

theorem Tallied.step {s s' : Sys} {a : Action} (h : Tallied s) (hok : Told s a) (hs : s.step a = some s') :
    Tallied s' := by
  cases a with
  | decide w kind opened body => exact h.decided hs
  | write w answer => exact h.write hok hs
  | published w => exact h.published hs
  | act name act who now took =>
    simp only [Sys.step, Option.some.injEq] at hs
    exact hs ▸ h.act name act who now took
  | ask now =>
    have hsound := h.sound.ask hs
    obtain ⟨hl, rfl⟩ := ask_cases hs
    refine h.of_same hsound rfl held_of_mem rfl rfl ?_ (by simp)
    rcases hl with hl | ⟨stalled, hl⟩ <;> rw [hl] <;> rfl
  | read answered =>
    have hsound := h.sound.read hs
    obtain ⟨ask, asks, taken, hl, rfl⟩ | ⟨taken, hl, rfl⟩ := read_cases hs
    · exact h.of_same hsound rfl held_of_mem rfl rfl (by rw [hl]; rfl) (by simp)
    · exact h.of_same hsound rfl held_of_mem rfl rfl (by rw [hl]; rfl) (by simp)
  | relock now => exact h.relock hs
  | land answered => exact h.land hok hs
  | moved => exact h.moved hok hs
  | passed => exact h.passed hs
  | again now => exact h.again hs

/-- No step that meets `Told` lowers a count that is zero. -/
theorem Tallied.clamps {s : Sys} {a : Action} (h : Tallied s) (hok : Told s a) : s.clamps a = false := by
  unfold Sys.clamps
  split
  · split
    · rename_i one rest stalled hl
      obtain ⟨hone, -, -⟩ := h.sound.inHand one (by rw [hl]; rfl)
      obtain ⟨i, e, hi, he, -, hq⟩ := index_of_mem_shape h.sound.names hone
      have := h.counted hok hl e (List.mem_of_getElem? he) hq
      simpa [hi, he] using this
    · rfl
  · rfl

/-- In every run in which every hold is told of before it is counted out, every Subscription's count is how many its
queue holds wherever nothing is under way, and none was ever lowered below zero. -/
theorem heldExact_of_told {x : Watched} (h : Reach Watched.step (fun x => Told x.sys) Watched.Opening x) :
    HeldExact x.sys ∧ x.clamped = false := by
  suffices Tallied x.sys ∧ x.clamped = false from ⟨this.1.heldExact, this.2⟩
  induction h with
  | start hs => exact ⟨tallied_of_opening hs.1, hs.2⟩
  | next _ hok hs ih =>
    obtain ⟨s', hs', rfl⟩ := Option.map_eq_some_iff.1 hs
    refine ⟨ih.1.step hok hs', ?_⟩
    show (_ || _) = false
    rw [ih.2, ih.1.clamps hok]
    rfl

/-! ### One Subscription, counted and not -/

/-- A hold lands while the Subscription is paused; it is resumed, and its queue is read. -/
def Sys.readBack : List Action :=
  [.act "orders" .pause "op" 1 true, .decide 1 .publication [⟨11, "orders"⟩] [], .write 1 .taken,
    .act "orders" .resume "op" 2 true, .ask 0, .read true, .relock 0, .read true]

instance (s : Sys) : Decidable (Settled s) :=
  match h : s.loop.inHand with
  | none => decidable_of_iff (s.writers.entries.isEmpty = true) (by simp [Settled, h])
  | some _ => .isFalse (by simp [Settled, h])

instance (s : Sys) : Decidable (HeldExact s) :=
  inferInstanceAs (Decidable (Settled s → ∀ e ∈ s.state, e.held = (s.ledger e.queue).items.length))

/-- Told of before it is moved on, it is counted and counted out. -/
theorem heldExact_toldInTime : ∃ x, Reach Watched.step (fun x => Told x.sys) Watched.Opening x ∧
    (HeldExact x.sys ∧ x.clamped = false) ∧ Settled x.sys ∧ x.sys.state.map Entry.pickedUp = [1] := by
  obtain ⟨x, hx, hp⟩ := Reach.exists_of_runWhere Watched.step (fun x => Told x.sys)
    (show Watched.Opening ⟨Sys.quiet, false⟩ from ⟨opening_quiet, rfl⟩)
    (List.flatten [Sys.readBack, [.published 1, .land true, .moved]])
    (fun x => decide (Settled x.sys ∧ x.sys.state.map Entry.pickedUp = [1])) (by decide +kernel)
  exact ⟨x, hx, heldExact_of_told hx, of_decide_eq_true hp⟩

/-- Moved on before its Publication counts it, it is counted out of nothing, and then counted though it is gone. -/
theorem clamped_by_an_overtaking : ∃ x, Reach Watched.step Always Watched.Opening x ∧
    ¬ HeldExact x.sys ∧ x.clamped = true := by
  obtain ⟨x, hx, hp⟩ := Reach.exists_of_runWhere Watched.step Always
    (show Watched.Opening ⟨Sys.quiet, false⟩ from ⟨opening_quiet, rfl⟩)
    (List.flatten [Sys.readBack, [.land true, .moved, .published 1]])
    (fun x => decide (¬ HeldExact x.sys ∧ x.clamped = true)) (by decide +kernel)
  exact ⟨x, hx, of_decide_eq_true hp⟩

-- a turn's hold is never counted, and neither is a hand-on whose answer is lost counted out
example : (runWhere Sys.step Always Sys.quiet [.act "orders" .pause "op" 1 true,
    .decide 1 .turn [⟨11, "orders"⟩] [], .write 1 .taken]).any (fun s => !decide (HeldExact s)) = true := by
  decide +kernel

example : (runWhere Sys.step Always Sys.quiet (Sys.readBack ++ [.published 1, .land false, .again 0])).any
    (fun s => !decide (HeldExact s)) = true := by
  decide +kernel

end Pickup
