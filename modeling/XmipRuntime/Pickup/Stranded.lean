import XmipRuntime.Pickup.Carried

/-!
# No held Message is stranded, and when one is

`Heard` is the condition a step has to meet: a read that found the end of a queue is not followed by a hold of a
finished writer landed since, and a write nobody tells the pickup of — a turn's, or one whose answer was lost —
holds nothing for an active Subscription that is not pending.  In every run whose steps meet it no held Message is
stranded (`notStranded_of_heard`).  The invariant is `Kept`: beside what every step keeps, an active Subscription
with something to read that is neither taken nor passed over is pending.
-/

namespace Pickup

open Library

/-! ### The condition -/

/-- A read of `ask`'s queue answered with `items`, the queue then gone to `upTo`: where it is taken as the end of the
queue, no hold landed since has a writer that has finished. -/
def Current (s : Sys) (ask : Ask) (items : List (Nat × Hold)) (upTo : Nat) : Prop :=
  ∀ e ∈ s.state[ask.index]?, e.standing.paused = false → e.cursor = ask.start → items.length < s.most →
    ∀ x ∈ (s.ledger ask.queue).items, upTo ≤ x.1 → ¬ Finished s (ask.queue, x.1)

/-- What `holding` holds for an active Subscription is held by one that is pending. -/
def Pending (s : Sys) (holding : Holding) : Prop :=
  ∀ h ∈ holding.holds, ∀ e ∈ s.state, e.queue = h.queue → e.standing.paused = false → e.pending = true

instance (s : Sys) (ask : Ask) (items : List (Nat × Hold)) (upTo : Nat) : Decidable (Current s ask items upTo) :=
  inferInstanceAs (Decidable (∀ e ∈ s.state[ask.index]?, e.standing.paused = false → e.cursor = ask.start →
    items.length < s.most → ∀ x ∈ (s.ledger ask.queue).items, upTo ≤ x.1 → ¬ Finished s (ask.queue, x.1)))

instance (s : Sys) (holding : Holding) : Decidable (Pending s holding) :=
  inferInstanceAs (Decidable (∀ h ∈ holding.holds, ∀ e ∈ s.state, e.queue = h.queue →
    e.standing.paused = false → e.pending = true))

/-- The pickup hears of every hold in time. -/
def Heard (s : Sys) : Action → Prop
  | .relock _ =>
    match s.loop with
    | .answered ask (some items) upTo _ _ => Current s ask items upTo
    | _ => True
  | .write w answer =>
    match s.writers.get w with
    | some ⟨kind, holding, none⟩ =>
      answer ≠ .refused → kind = .turn ∨ answer = .lost → Pending s holding
    | _ => True
  | _ => True

instance (s : Sys) (a : Action) : Decidable (Heard s a) :=
  match a with
  | .relock _ =>
    match h : s.loop with
    | .answered ask (some items) upTo _ _ => decidable_of_iff (Current s ask items upTo) (by simp [Heard, h])
    | .answered _ none _ _ _ | .idle | .asking _ _ | .carrying _ _ | .landed _ _ _ _ => .isTrue (by simp [Heard, h])
  | .write w answer =>
    match h : s.writers.get w with
    | some ⟨kind, holding, none⟩ =>
      decidable_of_iff (answer ≠ .refused → kind = .turn ∨ answer = .lost → Pending s holding) (by simp [Heard, h])
    | some ⟨_, _, some _⟩ | none => .isTrue (by simp [Heard, h])
  | .decide .. | .published _ | .act .. | .ask _ | .read _ | .land _ | .moved | .passed | .again _ => .isTrue trivial

/-! ### The invariant -/

/-- Each Message `holding` holds is counted at the entry of its queue. -/
def Counted (s : State) (holding : Holding) : Prop :=
  ∀ h ∈ holding.holds, ∃ x ∈ holding.held, ∃ name, (shape s)[x.1]? = some (name, h.queue)

/-- A writer tells the pickup of every queue it holds in. -/
def WriterOk (s : Sys) (w : Writer) : Prop :=
  Counted s.state w.holding ∧ ∀ p ∈ w.landed.getD [], ∃ h ∈ w.holding.holds, h.queue = p.1

/-- A Message of a finished writer that nobody has and that was not passed over. -/
def Waits (s : Sys) (e : Entry) (x : Nat × Hold) : Prop :=
  x ∈ (s.ledger e.queue).items ∧ Finished s (e.queue, x.1) ∧ x.1 ∉ e.taken ∧ (e.queue, x.1) ∉ s.passedOver

/-- An active Subscription with a Message that waits is pending. -/
def Wakes (s : Sys) (e : Entry) : Prop := e.standing.paused = false → ∀ x, Waits s e x → e.pending = true

/-- What every step that meets `Heard` keeps. -/
structure Kept (s : Sys) : Prop where
  sound : Sound s
  wakes : ∀ e ∈ s.state, Wakes s e
  writers : ∀ x ∈ s.writers.entries, WriterOk s x.2

theorem Kept.notStranded {s : Sys} (h : Kept s) : NotStranded s := by
  intro e he hactive x hx hfin htaken hpassed
  refine ⟨?_, h.wakes e he hactive x ⟨hx, hfin, htaken, hpassed⟩⟩
  by_contra hlt
  rcases (h.sound.entries e he).behind x hx (by omega) with h | h
  · exact htaken h
  · exact hpassed h

theorem kept_of_opening {s : Sys} (h : Opening s) : Kept s where
  sound := sound_of_opening h
  wakes := by
    intro e he _ x hx
    rw [(h.entry e he).2.2.1, decide_eq_true_eq]
    exact List.length_pos_of_mem hx.1
  writers := by rw [h.writers]; simp

/-! ### Writers -/

theorem WriterOk.of_shape {s s' : Sys} {w : Writer} (h : WriterOk s w) (hshape : shape s'.state = shape s.state) :
    WriterOk s' w := by
  unfold WriterOk Counted at *
  rw [hshape]
  exact h

private theorem finished_put {s s' : Sys} {w : Nat} {v : Writer} (hput : s'.writers = s.writers.put w v)
    (hw : ∀ u, s.writers.get w = some u → u.landed = none) {p : Nat × Nat} (h : Finished s' p) : Finished s p := by
  intro x hx
  have hget := Table.mem_iff_get.1 hx
  by_cases hxw : x.1 = w
  · rw [hxw] at hget
    simp [hw _ hget]
  · refine h x ?_
    rw [hput, Table.mem_iff_get, Table.get_put_of_ne _ hxw]
    exact hget

private theorem finished_drop {s s' : Sys} {w : Nat} (hdrop : s'.writers = s.writers.drop w) {p : Nat × Nat}
    (hw : ∀ u, s.writers.get w = some u → p ∉ u.landed.getD []) (h : Finished s' p) : Finished s p := by
  intro x hx
  have hget := Table.mem_iff_get.1 hx
  by_cases hxw : x.1 = w
  · rw [hxw] at hget
    exact hw _ hget
  · refine h x ?_
    rw [hdrop, Table.mem_iff_get, Table.get_drop_of_ne _ hxw]
    exact hget

private theorem writers_put {s s' : Sys} (h : Kept s) {w : Nat} {v : Writer} (hput : s'.writers = s.writers.put w v)
    (hshape : shape s'.state = shape s.state) (hv : WriterOk s v) : ∀ x ∈ s'.writers.entries, WriterOk s' x.2 := by
  intro x hx
  rw [hput, Table.mem_iff_get, Table.get_put] at hx
  refine WriterOk.of_shape ?_ hshape
  split at hx
  · simp only [Option.some.injEq] at hx
    exact hx ▸ hv
  · exact h.writers _ (Table.mem_iff_get.2 hx)

private theorem writers_drop {s s' : Sys} (h : Kept s) {w : Nat} (hdrop : s'.writers = s.writers.drop w)
    (hshape : shape s'.state = shape s.state) : ∀ x ∈ s'.writers.entries, WriterOk s' x.2 := by
  intro x hx
  rw [hdrop, Table.mem_iff_get, Table.get_drop] at hx
  refine WriterOk.of_shape ?_ hshape
  split at hx
  · cases hx
  · exact h.writers _ (Table.mem_iff_get.2 hx)

theorem Counted.append {s : State} {a b : Holding} (ha : Counted s a) (hb : Counted s b) : Counted s (a.append b) := by
  intro h hh
  rcases List.mem_append.1 hh with hh | hh
  · obtain ⟨x, hx, hn⟩ := ha h hh
    exact ⟨x, List.mem_append_left _ hx, hn⟩
  · obtain ⟨x, hx, hn⟩ := hb h hh
    exact ⟨x, List.mem_append_right _ hx, hn⟩

private theorem counted_heldOne {s : State} {body : List UInt8} {every : Bool} {holding : Holding} (one : Opened)
    (h : Counted s holding) : Counted s (s.heldOne body every holding one) := by
  unfold State.heldOne
  split
  · exact h
  · rename_i i _
    split
    · exact h
    · rename_i e hget
      split
      · exact h
      · intro k hk
        rcases List.mem_append.1 hk with hk | hk
        · obtain ⟨x, hx, hn⟩ := h k hk
          exact ⟨x, List.mem_append_left _ hx, hn⟩
        · simp only [List.mem_singleton] at hk
          subst hk
          exact ⟨(i, one.subscription), by simp, e.name, shape_get hget⟩

theorem counted_held (s : State) (opened : List Opened) (body : List UInt8) (every : Bool) :
    Counted s (s.held opened body every) := by
  unfold State.held
  have h : Counted s Holding.none := by intro k hk; cases hk
  generalize Holding.none = holding at h ⊢
  induction opened generalizing holding with
  | nil => exact h
  | cons one opened ih => exact ih _ (counted_heldOne one h)

theorem Kept.decided {s s' : Sys} (h : Kept s) {w : Nat} {kind : Kind} {opened : List Opened} {body : List UInt8}
    (hs : s.decided w kind opened body = some s') : Kept s' := by
  have hsound := h.sound.decided hs
  obtain ⟨holding, rfl, hwhich⟩ := decided_cases hs
  -- only the writer changes, and it has landed nothing before or after
  have hnone : ∀ u, s.writers.get w = some u → u.landed = none := by
    rcases hwhich with ⟨hget, -⟩ | ⟨before, hget, -⟩ <;> simp [hget]
  have hcounted : Counted s.state holding := by
    rcases hwhich with ⟨-, rfl⟩ | ⟨before, hget, -, rfl⟩
    · exact counted_held _ _ _ _
    · exact (h.writers _ (Table.mem_iff_get.2 hget)).1.append (counted_held _ _ _ _)
  refine ⟨hsound, ?_, writers_put h rfl rfl ⟨hcounted, by simp⟩⟩
  intro e he hactive x hx
  exact h.wakes e he hactive x ⟨hx.1, finished_put rfl hnone hx.2.1, hx.2.2⟩

/-! ### A write that lands -/

/-- A write that lands: what waits in a queue waited before, or is new there and of a writer that has finished. -/
private theorem waits_landed {s s' : Sys} {e : Entry} {x : Nat × Hold} (hx : Waits s' e x) {holds : List Hold}
    (hland : s'.ledger = (landAll s.ledger holds).1) (hpassed : s'.passedOver = s.passedOver)
    (hfin : ∀ p, Finished s' p → Finished s p) :
    Waits s e x ∨ (e.queue, x.1) ∈ (landAll s.ledger holds).2 ∧ x.2 ∈ holds ∧ x.2.queue = e.queue := by
  obtain ⟨hmem, hf, ht, hp⟩ := hx
  rw [hland] at hmem
  rw [hpassed] at hp
  rcases (landed_landAll s.ledger holds).items _ x hmem with hmem | ⟨-, hnew⟩
  · exact .inl ⟨hmem, hfin _ hf, ht, hp⟩
  · exact .inr hnew

theorem Kept.write {s s' : Sys} (h : Kept s) {w : Nat} {answer : Answer} (hok : Heard s (.write w answer))
    (hs : s.write w answer = some s') : Kept s' := by
  have hsound := h.sound.write hs
  obtain ⟨kind, holding, hget, hcases⟩ := write_cases hs
  have hnone : ∀ u, s.writers.get w = some u → u.landed = none := by simp [hget]
  have hdropped : ∀ p, ∀ u, s.writers.get w = some u → p ∉ u.landed.getD [] := by
    intro p u hu
    simp [hnone u hu]
  simp only [Heard, hget] at hok
  obtain ⟨-, rfl⟩ | ⟨hrefused, hsilent, rfl⟩ | ⟨-, -, rfl⟩ := hcases
  · refine ⟨hsound, ?_, writers_drop h rfl rfl⟩
    intro e he hactive x hx
    exact h.wakes e he hactive x ⟨hx.1, finished_drop rfl (hdropped _) hx.2.1, hx.2.2⟩
  · -- nobody tells the pickup: its Subscriptions are pending as it is
    refine ⟨hsound, ?_, writers_drop h rfl rfl⟩
    intro e he hactive x hx
    rcases waits_landed hx rfl rfl (fun p => finished_drop rfl (hdropped p)) with hx | ⟨-, hm, hq⟩
    · exact h.wakes e he hactive x hx
    · exact hok hrefused hsilent _ hm e he hq.symm hactive
  · -- the writer still has to tell it
    have hcounted : Counted s.state holding := (h.writers _ (Table.mem_iff_get.2 hget)).1
    refine ⟨hsound, ?_, writers_put h rfl rfl ⟨hcounted, (landed_landAll s.ledger holding.holds).places⟩⟩
    intro e he hactive x hx
    rcases waits_landed hx rfl rfl (fun p => finished_put rfl hnone) with hw | ⟨hp, -⟩
    · exact h.wakes e he hactive x hw
    · exact absurd hp (hx.2.1 (w, ⟨kind, holding, some (landAll s.ledger holding.holds).2⟩) (List.mem_cons_self ..))

/-! ### Telling the pickup -/

theorem Kept.published {s s' : Sys} (h : Kept s) {w : Nat} (hs : s.published w = some s') : Kept s' := by
  have hsound := h.sound.published hs
  obtain ⟨kind, holding, places, hget, rfl⟩ := published_cases hs
  obtain ⟨hcounted, hplaces⟩ := h.writers _ (Table.mem_iff_get.2 hget)
  refine ⟨hsound, ?_, writers_drop h rfl (shape_published s.state holding)⟩
  intro e' he' hactive' x hx
  obtain ⟨j, hj⟩ := List.getElem?_of_mem he'
  obtain ⟨⟨e, he, hc⟩, htold⟩ := published_get hj
  obtain ⟨hmem, hf, ht, hp⟩ := hx
  rw [hc.queue] at hmem hf hp
  rw [hc.taken] at ht
  by_cases hmine : (e.queue, x.1) ∈ places
  · -- the writer held it: the entry of its queue was told
    obtain ⟨k, hk, hkq⟩ := hplaces _ hmine
    obtain ⟨y, hy, name, hshapey⟩ := hcounted k hk
    simp only [shape, List.getElem?_map, Option.map_eq_some_iff, Prod.mk.injEq] at hshapey
    obtain ⟨d, hd, -, hdq⟩ := hshapey
    have : y.1 = j := eq_of_queue h.sound.queues hd he (hdq.trans hkq)
    exact htold ⟨y, hy, this⟩ hactive'
  · apply hc.pending
    refine h.wakes e (List.mem_of_getElem? he) (hc.standing ▸ hactive') x ⟨hmem, finished_drop rfl ?_ hf, ht, hp⟩
    intro u hu
    rw [hget] at hu
    cases hu
    exact hmine

/-! ### An operator's act -/

theorem Kept.act {s : Sys} (h : Kept s) (name : String) (act : Act) (who : String) (now : Int) (took : Bool) :
    Kept { s with state := (s.state.act s.node name act who now took).1 } := by
  refine ⟨h.sound.act name act who now took, ?_, fun x hx => (h.writers x hx).of_shape (shape_act ..)⟩
  intro e' he'
  obtain hsame | ⟨i, hpause | hresume⟩ := act_cases s.state s.node name act who now took
  · exact h.wakes e' (hsame ▸ he')
  · obtain ⟨j, e, he, ⟨-, rfl⟩ | ⟨-, rfl⟩⟩ := mem_modify (hpause ▸ he')
    · exact fun hactive => by cases hactive
    · exact h.wakes e' (List.mem_of_getElem? he)
  · obtain ⟨j, e, he, ⟨-, rfl⟩ | ⟨-, rfl⟩⟩ := mem_modify (hresume ▸ he')
    · exact fun _ _ _ => rfl
    · exact h.wakes e' (List.mem_of_getElem? he)

/-! ### The pick-up loop -/

/-- A step of the loop that changes no entry, no writer and puts nothing into a queue. -/
theorem Kept.loops {s s' : Sys} (h : Kept s) (hsound : Sound s') (hstate : s'.state = s.state)
    (hwriters : s'.writers = s.writers) (hledger : ∀ q, ∀ x ∈ (s'.ledger q).items, x ∈ (s.ledger q).items)
    (hpassed : s'.passedOver = s.passedOver) : Kept s' := by
  refine ⟨hsound, ?_, ?_⟩
  · intro e he hactive x hx
    rw [hstate] at he
    obtain ⟨hmem, hf, ht, hp⟩ := hx
    rw [hpassed] at hp
    refine h.wakes e he hactive x ⟨hledger _ x hmem, ?_, ht, hp⟩
    unfold Finished at hf ⊢
    rwa [hwriters] at hf
  · intro x hx
    rw [hwriters] at hx
    exact (h.writers x hx).of_shape (by rw [hstate])

theorem Kept.relock {s s' : Sys} (h : Kept s) {now : Nat} (hok : Heard s (.relock now))
    (hs : s.relock now = some s') : Kept s' := by
  have hsound := h.sound.relock hs
  obtain ⟨ask, read, upTo, asks, taken, e, hl, he, rfl⟩ := relocked_cases hs
  have hq : e.queue = ask.queue := by
    obtain ⟨name, hasked⟩ := h.sound.asks ask (by rw [hl]; exact List.mem_cons_self ..)
    rw [shape_get he] at hasked
    simpa using congrArg (fun x => x.map Prod.snd) hasked
  have hinc : ∀ items, read = some items → items.Pairwise fun x y => x.1 < y.1 := by
    rintro items rfl
    exact (h.sound.reading ask items upTo asks taken hl).increasing
  -- what is left to say of each case: that its entry wakes
  have key : ∀ e' more, Sound { s with state := s.state.set ask.index e', loop := .asking asks (taken ++ more) } →
      e'.name = e.name → e'.queue = e.queue → Wakes s e' →
      Kept { s with state := s.state.set ask.index e', loop := .asking asks (taken ++ more) } := by
    intro e' more hsound hn hq' hwakes
    refine ⟨hsound, ?_, fun x hx => (h.writers x hx).of_shape (shape_set he hn hq')⟩
    intro d hd
    rcases List.mem_or_eq_of_mem_set hd with hd | rfl
    · exact h.wakes d hd
    · exact hwakes
  have hwakes := h.wakes e (List.mem_of_getElem? he)
  obtain heq | heq | ⟨items, e', more, rfl, hactive, hcur, htakes, hend⟩ := relock_cases e ask.start s.most now hinc
  · rw [heq] at hsound ⊢
    exact key e [] hsound rfl rfl hwakes
  · rw [heq] at hsound ⊢
    exact key _ [] hsound rfl rfl hwakes
  · have hwaits : ∀ x, Waits s e' x → Waits s e x ∧ ∀ y ∈ items, y.1 ≠ x.1 := by
      intro x hx
      obtain ⟨hmem, hf, ht, hp⟩ := hx
      rw [htakes.queue] at hmem hf hp
      rw [htakes.taken] at ht
      exact ⟨⟨hmem, hf, fun h => ht (.inl h), hp⟩, fun y hy hyx => ht (.inr ⟨y, hy, hyx⟩)⟩
    rcases hend with ⟨hlt, heq⟩ | heq
    · rw [heq] at hsound ⊢
      refine key _ more hsound htakes.name htakes.queue ?_
      -- the end of the queue: whatever is left has a writer under way
      intro _ x hx
      exfalso
      obtain ⟨⟨hmem, hf, ht, hp⟩, hitems⟩ := hwaits x hx
      have hread := h.sound.reading ask items upTo asks taken hl
      have hcurrent : Current s ask items upTo := by simpa only [Heard, hl] using hok
      have hmem' := hmem
      rw [hq] at hmem'
      by_cases hup : x.1 < upTo
      · by_cases hstart : ask.start ≤ x.1
        · exact hitems x (hread.ended hlt x hmem' hstart hup) rfl
        · rcases (h.sound.entries e (List.mem_of_getElem? he)).behind x hmem (by omega) with h₁ | h₁
          · exact ht h₁
          · exact hp h₁
      · exact hcurrent e (by simp [he]) hactive hcur hlt x hmem' (by omega) (hq ▸ hf)
    · rw [heq] at hsound ⊢
      refine key _ more hsound htakes.name htakes.queue ?_
      intro hact x hx
      rw [htakes.standing] at hact
      rw [htakes.pending]
      exact hwakes hact x (hwaits x hx).1

theorem Kept.land {s s' : Sys} (h : Kept s) {answered : Bool} (hs : s.land answered = some s') : Kept s' := by
  have hsound := h.sound.land hs
  obtain ⟨one, rest, stalled, -, -, rfl⟩ := land_cases hs
  refine h.loops hsound rfl rfl ?_ rfl
  intro q x hx
  by_cases hq : q = one.hold.queue
  · subst hq
    simp only [Function.update_self, Numbered.mem_filter] at hx
    exact hx.1
  · simpa only [Function.update_of_ne hq] using hx

/-- The loop done with a Message of its Subscription: the entry of its queue wakes as `hentry` says, and no other one
changes. -/
theorem Kept.settled {s s' : Sys} (h : Kept s) (hsound : Sound s') {one : Released}
    (hone : (one.subscription, one.hold.queue) ∈ shape s.state) {f : Entry → Entry}
    (hstate : s'.state = s.state.atReleased one f) (hf : Same f) (hledger : s'.ledger = s.ledger)
    (hwriters : s'.writers = s.writers) (hpassed : ∀ p ∈ s.passedOver, p ∈ s'.passedOver)
    (hentry : ∀ e ∈ s.state, e.queue = one.hold.queue → Wakes s' (f e)) : Kept s' := by
  refine ⟨hsound, ?_, ?_⟩
  · intro e' he'
    rw [hstate] at he'
    rcases mem_atReleased h.sound.names h.sound.queues hone he' with ⟨e, he, hq, rfl⟩ | ⟨he, -⟩
    · exact hentry e he hq
    · intro hactive x hx
      obtain ⟨hmem, hfin, ht, hp⟩ := hx
      rw [hledger] at hmem
      refine h.wakes e' he hactive x ⟨hmem, ?_, ht, fun h' => hp (hpassed _ h')⟩
      unfold Finished at hfin ⊢
      rwa [hwriters] at hfin
  · intro x hx
    rw [hwriters] at hx
    exact (h.writers x hx).of_shape (by rw [hstate, shape_atReleased hf])

theorem Kept.moved {s s' : Sys} (h : Kept s) (hs : s.moved = some s') : Kept s' := by
  have hsound := h.sound.moved hs
  obtain ⟨one, rest, stalled, hl, rfl⟩ := moved_cases hs
  obtain ⟨hone, -, hgone⟩ := h.sound.inHand one (by rw [hl]; rfl)
  refine h.settled hsound hone rfl (fun _ => ⟨rfl, rfl⟩) rfl rfl (fun _ hp => hp) ?_
  intro e he hq hactive x hx
  obtain ⟨hmem, hfin, ht, hp⟩ := hx
  -- the Message is out of the queue, so its place is nobody's any more
  refine h.wakes e he hactive x ⟨hmem, hfin, ?_, hp⟩
  intro ht'
  change x ∈ (s.ledger e.queue).items at hmem
  rw [hq] at hmem
  exact ht (Finset.mem_erase.2 ⟨hgone x hmem, ht'⟩)

theorem Kept.passed {s s' : Sys} (h : Kept s) (hs : s.passed = some s') : Kept s' := by
  have hsound := h.sound.passed hs
  obtain ⟨one, rest, stalled, hl, -, rfl⟩ := passed_cases hs
  have hone := h.sound.known one (by rw [hl]; exact List.mem_cons_self ..)
  refine h.settled hsound hone.1 rfl (fun _ => ⟨rfl, rfl⟩) rfl rfl (fun _ hp => List.mem_cons_of_mem _ hp) ?_
  intro e he hq hactive x hx
  obtain ⟨hmem, hfin, ht, hp⟩ := hx
  refine h.wakes e he hactive x ⟨hmem, hfin, ?_, fun h' => hp (List.mem_cons_of_mem _ h')⟩
  intro ht'
  by_cases hxn : x.1 = one.sequence
  · refine hp ?_
    show (e.queue, x.1) ∈ (one.hold.queue, one.sequence) :: s.passedOver
    rw [hxn, hq]
    exact List.mem_cons_self ..
  · exact ht (Finset.mem_erase.2 ⟨hxn, ht'⟩)

theorem Kept.again {s s' : Sys} (h : Kept s) {now : Nat} (hs : s.again now = some s') : Kept s' := by
  have hsound := h.sound.again hs
  obtain ⟨one, rest, stalled, hl, rfl⟩ := again_cases hs
  have hone : (one.subscription, one.hold.queue) ∈ shape s.state := by
    rcases hl with hl | hl
    · exact (h.sound.known one (by rw [hl]; exact List.mem_cons_self ..)).1
    · exact (h.sound.inHand one (by rw [hl]; rfl)).1
  exact h.settled hsound hone rfl (fun _ => ⟨rfl, rfl⟩) rfl rfl (fun _ hp => hp) fun _ _ _ _ _ _ => rfl

theorem Kept.step {s s' : Sys} {a : Action} (h : Kept s) (hok : Heard s a) (hs : s.step a = some s') : Kept s' := by
  cases a with
  | decide w kind opened body => exact h.decided hs
  | write w answer => exact h.write hok hs
  | published w => exact h.published hs
  | act name act who now took =>
    simp only [Sys.step, Option.some.injEq] at hs
    exact hs ▸ h.act name act who now took
  | ask now =>
    have hsound := h.sound.ask hs
    obtain ⟨-, rfl⟩ := ask_cases hs
    exact h.loops hsound rfl rfl (fun _ _ hx => hx) rfl
  | read answered =>
    have hsound := h.sound.read hs
    obtain ⟨ask, asks, taken, -, rfl⟩ | ⟨taken, -, rfl⟩ := read_cases hs
    · exact h.loops hsound rfl rfl (fun _ _ hx => hx) rfl
    · exact h.loops hsound rfl rfl (fun _ _ hx => hx) rfl
  | relock now => exact h.relock hok hs
  | land answered => exact h.land hs
  | moved => exact h.moved hs
  | passed => exact h.passed hs
  | again now => exact h.again hs

/-- In every run in which the pickup hears of every hold in time, no held Message is ever stranded. -/
theorem notStranded_of_heard {s : Sys} (h : Reach Sys.step Heard Opening s) : NotStranded s :=
  Kept.notStranded (h.invariant (fun _ => kept_of_opening) fun _ _ _ hk hok hs => hk.step hok hs)

/-! ### One Subscription, told in time and too late -/

/-- A Message held while the Subscription is paused, which is then resumed. -/
def Sys.heldOnce : List Action :=
  [.act "orders" .pause "op" 1 true, .decide 1 .publication [⟨11, "orders"⟩] [], .write 1 .taken, .published 1,
    .act "orders" .resume "op" 2 true, .ask 0, .read true]

instance (s : Sys) : Decidable (NotStranded s) :=
  inferInstanceAs (Decidable (∀ e ∈ s.state, e.standing.paused = false → ∀ x ∈ (s.ledger e.queue).items,
    Finished s (e.queue, x.1) → x.1 ∉ e.taken → (e.queue, x.1) ∉ s.passedOver → e.cursor ≤ x.1 ∧ e.pending = true))

/-- A second one, held behind the first and heard of before the queue is read again, is read. -/
theorem notStranded_heldOnce : ∃ s, Reach Sys.step Heard Opening s ∧ NotStranded s ∧
    s.state.map (fun e => (e.held, e.cursor, e.pending)) = [(2, 1, true)] := by
  obtain ⟨s, hs, hp⟩ := Reach.exists_of_runWhere Sys.step Heard opening_quiet
    (List.flatten [Sys.heldOnce, [.relock 0, .decide 2 .publication [⟨12, "orders"⟩] [], .write 2 .taken, .published 2]])
    (fun s => decide (s.state.map (fun e => (e.held, e.cursor, e.pending)) = [(2, 1, true)])) (by decide +kernel)
  exact ⟨s, hs, notStranded_of_heard hs, of_decide_eq_true hp⟩

/-- Landed and heard of between the read and the re-lock, it is stranded: the re-lock takes the read as the end of the
queue. -/
theorem stranded_between_read_and_relock : ∃ s, Reach Sys.step Always Opening s ∧ ¬ NotStranded s := by
  obtain ⟨s, hs, hp⟩ := Reach.exists_of_runWhere Sys.step Always opening_quiet
    (List.flatten [Sys.heldOnce, [.decide 2 .publication [⟨12, "orders"⟩] [], .write 2 .taken, .published 2, .relock 0]])
    (fun s => !decide (NotStranded s)) (by decide +kernel)
  exact ⟨s, hs, by simpa using hp⟩

end Pickup
