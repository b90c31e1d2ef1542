import XmipRuntime.Pickup.Runs

/-!
# What each step of the pickup does

What each critical section does to an entry, and what each step does to the whole, said once: which entry it changes and
what of it, what it writes and where the loop goes.  The Subscriptions' names and queues never change (`shape`), so an
entry is found again by its queue.
-/

namespace Pickup

open Library

/-! ### What never changes: the Subscriptions' names and queues -/

/-- The Subscriptions' names and queues. -/
def shape (s : State) : List (String × Nat) := s.map fun e => (e.name, e.queue)

/-- `f` changes neither the name nor the queue of an entry. -/
def Same (f : Entry → Entry) : Prop := ∀ e, (f e).name = e.name ∧ (f e).queue = e.queue

theorem shape_modify {f : Entry → Entry} (hf : Same f) (s : State) (i : Nat) :
    shape (s.modify i f) = shape s := by
  apply List.ext_getElem?
  intro j
  unfold shape
  rw [List.getElem?_map, List.getElem?_map, List.getElem?_modify]
  rcases h : s[j]? with _ | e
  · rfl
  · by_cases hij : i = j
    · simp [hij, hf e]
    · simp [hij]

theorem shape_atReleased {f : Entry → Entry} (hf : Same f) (s : State) (r : Released) :
    shape (s.atReleased r f) = shape s := by
  unfold State.atReleased
  split
  · rfl
  · exact shape_modify hf s _

theorem shape_moved (s : State) (r : Released) : shape (s.moved r) = shape s := by
  unfold State.moved
  exact shape_atReleased (fun e => by exact ⟨rfl, rfl⟩) s r

theorem shape_passed (s : State) (r : Released) : shape (s.passed r) = shape s := by
  unfold State.passed
  exact shape_atReleased (fun e => by exact ⟨rfl, rfl⟩) s r

theorem shape_again (s : State) (r : Released) (now : Nat) : shape (s.again r now) = shape s := by
  unfold State.again
  exact shape_atReleased (fun e => by exact ⟨rfl, rfl⟩) s r

private theorem foldl_shape {β : Type} (l : List β) (g : State → β → State) (hg : ∀ s b, shape (g s b) = shape s)
    (s : State) : shape (l.foldl g s) = shape s := by
  induction l generalizing s with
  | nil => rfl
  | cons b l ih => rw [List.foldl_cons, ih, hg]

theorem shape_published (s : State) (holding : Holding) : shape (s.published holding) = shape s := by
  unfold State.published
  rw [foldl_shape, foldl_shape]
  · intro s i
    refine shape_modify ?_ s i
    exact fun _ => ⟨rfl, rfl⟩
  · intro s x
    refine shape_modify ?_ s x.1
    exact fun _ => ⟨rfl, rfl⟩

theorem shape_act (s : State) (node name : String) (act : Act) (who : String) (now : Int) (took : Bool) :
    shape (s.act node name act who now took).1 = shape s := by
  unfold State.act
  repeat' split
  all_goals first | rfl | (refine shape_modify ?_ s _; exact fun _ => ⟨rfl, rfl⟩)

theorem shape_set {s : State} {i : Nat} {e e' : Entry} (hi : s[i]? = some e) (hn : e'.name = e.name)
    (hq : e'.queue = e.queue) : shape (s.set i e') = shape s := by
  apply List.ext_getElem?
  intro j
  unfold shape
  rw [List.getElem?_map, List.getElem?_map, List.getElem?_set]
  by_cases hij : i = j
  · subst hij
    obtain ⟨hlt, hget⟩ := List.getElem?_eq_some_iff.1 hi
    simp [hlt, hget, hn, hq]
  · simp [hij]

/-- The entry of a Subscription found by its name is the one of its queue. -/
theorem index_of_mem_shape {s : State} (hnd : (s.map Entry.name).Nodup) {name : String} {q : Nat}
    (h : (name, q) ∈ shape s) :
    ∃ i e, s.index name = some i ∧ s[i]? = some e ∧ e.name = name ∧ e.queue = q := by
  obtain ⟨e, he, heq⟩ := List.mem_map.1 h
  simp only [Prod.mk.injEq] at heq
  obtain ⟨i, hi⟩ := List.getElem?_of_mem he
  refine ⟨i, e, ?_, hi, heq.1, heq.2⟩
  unfold State.index
  obtain ⟨hlt, hget⟩ := List.getElem?_eq_some_iff.1 hi
  rw [List.findIdx?_eq_some_iff_getElem]
  refine ⟨hlt, by simp [hget, heq.1], ?_⟩
  intro j hj
  simp only [decide_eq_true_eq]
  intro hname
  have hjl : j < (s.map Entry.name).length := by simp; omega
  have hil : i < (s.map Entry.name).length := by simpa using hlt
  have : (s.map Entry.name)[j] = (s.map Entry.name)[i] := by simp [hname, hget, heq.1]
  have := (List.Nodup.getElem_inj_iff hnd).1 this
  omega

/-! ### Finding an entry again -/

theorem name_of_index {s : State} {name : String} {i : Nat} {e : Entry} (hi : s.index name = some i)
    (he : s[i]? = some e) : e.name = name := by
  obtain ⟨hlt, hname, -⟩ := List.findIdx?_eq_some_iff_getElem.1 hi
  obtain ⟨hlt', hget⟩ := List.getElem?_eq_some_iff.1 he
  simp only [decide_eq_true_eq] at hname
  rw [← hget]
  exact hname

theorem names_of_shape {s s' : State} (h : shape s' = shape s) : s'.map Entry.name = s.map Entry.name := by
  simpa [shape, Function.comp_def] using congrArg (List.map Prod.fst) h

theorem queues_of_shape {s s' : State} (h : shape s' = shape s) : s'.map Entry.queue = s.map Entry.queue := by
  simpa [shape, Function.comp_def] using congrArg (List.map Prod.snd) h

theorem shape_get {s : State} {i : Nat} {e : Entry} (h : s[i]? = some e) : (shape s)[i]? = some (e.name, e.queue) := by
  simp [shape, h]

theorem eq_of_queue {s : State} (hnd : (s.map Entry.queue).Nodup) {i j : Nat} {e e' : Entry} (hi : s[i]? = some e)
    (hj : s[j]? = some e') (hq : e.queue = e'.queue) : i = j := by
  obtain ⟨hil, hie⟩ := List.getElem?_eq_some_iff.1 hi
  obtain ⟨hjl, hje⟩ := List.getElem?_eq_some_iff.1 hj
  have hil' : i < (s.map Entry.queue).length := by simpa using hil
  have hjl' : j < (s.map Entry.queue).length := by simpa using hjl
  have : (s.map Entry.queue)[i] = (s.map Entry.queue)[j] := by simp [hie, hje, hq]
  exact (List.Nodup.getElem_inj_iff hnd).1 this

theorem mem_modify {s : State} {i : Nat} {f : Entry → Entry} {e' : Entry} (h : e' ∈ s.modify i f) :
    ∃ j e, s[j]? = some e ∧ (j = i ∧ e' = f e ∨ j ≠ i ∧ e' = e) := by
  obtain ⟨j, hj⟩ := List.getElem?_of_mem h
  rw [List.getElem?_modify] at hj
  obtain ⟨e, he, heq⟩ := Option.map_eq_some_iff.1 hj
  refine ⟨j, e, he, ?_⟩
  by_cases hij : i = j
  · exact .inl ⟨hij.symm, by simpa [hij] using heq.symm⟩
  · exact .inr ⟨fun h => hij h.symm, by simpa [hij] using heq.symm⟩

/-- What `atReleased` does: the entry of the Message's queue is changed, and no other one. -/
theorem mem_atReleased {s : State} (hn : (s.map Entry.name).Nodup) (hq : (s.map Entry.queue).Nodup) {r : Released}
    (hr : (r.subscription, r.hold.queue) ∈ shape s) {f : Entry → Entry} {e' : Entry} (h : e' ∈ s.atReleased r f) :
    (∃ e ∈ s, e.queue = r.hold.queue ∧ e' = f e) ∨ e' ∈ s ∧ e'.queue ≠ r.hold.queue := by
  obtain ⟨i, e, hi, hget, -, hqueue⟩ := index_of_mem_shape hn hr
  unfold State.atReleased at h
  rw [hi] at h
  obtain ⟨j, d, hj, ⟨rfl, rfl⟩ | ⟨hne, rfl⟩⟩ := mem_modify h
  · rw [hget] at hj
    cases hj
    exact .inl ⟨e, List.mem_of_getElem? hget, hqueue, rfl⟩
  · refine .inr ⟨List.mem_of_getElem? hj, ?_⟩
    intro heq
    exact hne (eq_of_queue hq hj hget (heq.trans hqueue.symm))

/-! ### A write that lands -/

/-- What the Ledger holds once `holds` landed: what it held, and each new one at a place of its own further on. -/
structure Landed (ledger : Nat → Numbered Hold) (holds : List Hold) (x : (Nat → Numbered Hold) × List (Nat × Nat)) :
    Prop where
  next : ∀ q, (ledger q).next ≤ (x.1 q).next
  kept : ∀ q, ∀ y ∈ (ledger q).items, y ∈ (x.1 q).items
  items : ∀ q, ∀ y ∈ (x.1 q).items, y ∈ (ledger q).items ∨
    (ledger q).next ≤ y.1 ∧ (q, y.1) ∈ x.2 ∧ y.2 ∈ holds ∧ y.2.queue = q
  places : ∀ p ∈ x.2, ∃ h ∈ holds, h.queue = p.1

private theorem landed_landOne {ledger : Nat → Numbered Hold} {holds : List Hold}
    {x : (Nat → Numbered Hold) × List (Nat × Nat)} (h : Landed ledger holds x) {hold : Hold} (hm : hold ∈ holds) :
    Landed ledger holds (landOne x hold) := by
  refine ⟨?_, ?_, ?_, ?_⟩
  · intro q
    have := h.next q
    by_cases hq : q = hold.queue
    · subst hq
      simp only [landOne, Function.update_self, Numbered.next_push]
      omega
    · simpa [landOne, hq] using this
  · intro q y hy
    have := h.kept q y hy
    by_cases hq : q = hold.queue
    · subst hq
      simp only [landOne, Function.update_self, Numbered.mem_push]
      exact .inl this
    · simpa only [landOne, Function.update_of_ne hq] using this
  · intro q y hy
    by_cases hq : q = hold.queue
    · subst hq
      simp only [landOne, Function.update_self, Numbered.mem_push] at hy
      rcases hy with hy | rfl
      · rcases h.items _ y hy with hy | ⟨hn, hp, hrest⟩
        · exact .inl hy
        · exact .inr ⟨hn, List.mem_append_left _ hp, hrest⟩
      · exact .inr ⟨h.next _, by simp [landOne], hm, rfl⟩
    · simp only [landOne, Function.update_of_ne hq] at hy
      rcases h.items _ y hy with hy | ⟨hn, hp, hrest⟩
      · exact .inl hy
      · exact .inr ⟨hn, List.mem_append_left _ hp, hrest⟩
  · intro p hp
    rcases List.mem_append.1 hp with hp | hp
    · exact h.places p hp
    · simp only [List.mem_singleton] at hp
      exact ⟨hold, hm, by rw [hp]⟩

theorem landed_landAll (ledger : Nat → Numbered Hold) (holds : List Hold) :
    Landed ledger holds (landAll ledger holds) := by
  unfold landAll
  have h : Landed ledger holds (ledger, []) :=
    ⟨fun q => Nat.le_refl _, fun q y hy => hy, fun q y hy => .inl hy, by simp⟩
  have hsub : ∀ k ∈ holds, k ∈ holds := fun _ hk => hk
  generalize hx : (ledger, ([] : List (Nat × Nat))) = x at h ⊢
  clear hx
  -- the induction is on what is still to land, all of it among `holds`
  suffices ∀ l : List Hold, (∀ k ∈ l, k ∈ holds) → ∀ x, Landed ledger holds x → Landed ledger holds (l.foldl landOne x) from
    this holds hsub x h
  intro l
  induction l with
  | nil => exact fun _ x hx => hx
  | cons hold l ih =>
    intro hl x hx
    exact ih (fun k hk => hl k (List.mem_cons_of_mem _ hk)) _ (landed_landOne hx (hl hold (List.mem_cons_self ..)))

private theorem mem_foldl_landOne (holds : List Hold) (x : (Nat → Numbered Hold) × List (Nat × Nat)) :
    (∀ q, ∀ y ∈ (x.1 q).items, y ∈ ((holds.foldl landOne x).1 q).items) ∧
      ∀ hold ∈ holds, ∃ n, (n, hold) ∈ ((holds.foldl landOne x).1 hold.queue).items := by
  induction holds generalizing x with
  | nil => exact ⟨fun q y hy => hy, by simp⟩
  | cons k holds ih =>
    obtain ⟨hkept, hlanded⟩ := ih (landOne x k)
    have hgrown : ∀ q, ∀ y ∈ (x.1 q).items, y ∈ ((landOne x k).1 q).items := by
      intro q y hy
      by_cases hq : q = k.queue
      · subst hq
        simp only [landOne, Function.update_self, Numbered.mem_push]
        exact .inl hy
      · simpa only [landOne, Function.update_of_ne hq] using hy
    refine ⟨fun q y hy => hkept q y (hgrown q y hy), ?_⟩
    intro hold hm
    rcases List.mem_cons.1 hm with rfl | hm
    · refine ⟨(x.1 hold.queue).next, hkept _ _ ?_⟩
      simp [landOne]
    · exact hlanded hold hm

/-- Each hold that landed is in its queue. -/
theorem mem_landAll (ledger : Nat → Numbered Hold) {holds : List Hold} {hold : Hold} (h : hold ∈ holds) :
    ∃ n, (n, hold) ∈ ((landAll ledger holds).1 hold.queue).items :=
  (mem_foldl_landOne holds (ledger, [])).2 hold h

/-! ### What each critical section does to an entry -/

/-- The entry that holds what the Subscription `name` matches, and where it is: one that is paused or holds anything
still, or any where every one holds. -/
def State.holder (s : State) (every : Bool) (name : String) : Option (Nat × Entry) :=
  (s.index name).bind fun i => s[i]?.bind fun e =>
    if !every && !e.standing.paused && e.held == 0 then none else some (i, e)

private theorem heldOne_eq (s : State) (body : List UInt8) (every : Bool) (holding : Holding) (one : Opened) :
    (s.heldOne body every holding one).holds = holding.holds ++
        ((s.holder every one.subscription).map fun x => (⟨x.2.queue, one.journey, body⟩ : Hold)).toList ∧
      (s.heldOne body every holding one).held = holding.held ++
        ((s.holder every one.subscription).map fun x => (x.1, one.subscription)).toList := by
  unfold State.heldOne State.holder
  rcases hi : s.index one.subscription with _ | i
  · simp
  · rcases he : s[i]? with _ | e
    · simp [he]
    · by_cases hpick : (!every && !e.standing.paused && e.held == 0) = true
      · simp only [he, hpick, if_true, Option.bind_some]
        simp
      · simp only [he, hpick, Bool.false_eq_true, if_false, Option.bind_some]
        simp

/-- What a decision holds and where it counts it, one for each Journey whose Subscription holds it. -/
theorem held_eq (s : State) (opened : List Opened) (body : List UInt8) (every : Bool) :
    (s.held opened body every).holds = opened.filterMap (fun one =>
        (s.holder every one.subscription).map fun x => ⟨x.2.queue, one.journey, body⟩) ∧
      (s.held opened body every).held = opened.filterMap fun one =>
        (s.holder every one.subscription).map fun x => (x.1, one.subscription) := by
  -- the induction is on what is still to be decided, after whatever was
  have key : ∀ holding : Holding, (opened.foldl (s.heldOne body every) holding).holds = holding.holds ++
      opened.filterMap (fun one => (s.holder every one.subscription).map fun x => ⟨x.2.queue, one.journey, body⟩) ∧
      (opened.foldl (s.heldOne body every) holding).held = holding.held ++
        opened.filterMap fun one => (s.holder every one.subscription).map fun x => (x.1, one.subscription) := by
    induction opened with
    | nil => simp
    | cons one opened ih =>
      intro holding
      obtain ⟨hholds, hheld⟩ := heldOne_eq s body every holding one
      obtain ⟨ih₁, ih₂⟩ := ih (s.heldOne body every holding one)
      rw [List.foldl_cons, ih₁, ih₂, hholds, hheld]
      rcases hh : s.holder every one.subscription with _ | x <;> simp [hh]
  simpa [State.held, Holding.none] using key Holding.none

/-- What holds is an entry of the Subscription's name. -/
theorem holder_spec {s : State} {every : Bool} {name : String} {i : Nat} {e : Entry}
    (h : s.holder every name = some (i, e)) : s[i]? = some e ∧ e.name = name := by
  unfold State.holder at h
  obtain ⟨j, hj, h⟩ := Option.bind_eq_some_iff.1 h
  obtain ⟨d, hd, h⟩ := Option.bind_eq_some_iff.1 h
  split at h
  · cases h
  · cases h
    exact ⟨hd, name_of_index hj hd⟩

/-- Where every one holds, an entry holds what a configured Subscription matches. -/
theorem holder_isSome {s : State} {name : String} (h : (s.index name).isSome) : (s.holder true name).isSome := by
  obtain ⟨i, hi⟩ := Option.isSome_iff_exists.1 h
  obtain ⟨hlt, -, -⟩ := List.findIdx?_eq_some_iff_getElem.1 hi
  simp [State.holder, hi, List.getElem?_eq_getElem hlt]

/-- What departs is what no entry holds. -/
theorem mem_departing {s : State} {opened : List Opened} {body : List UInt8} {every : Bool} {one : Opened} :
    one ∈ (s.held opened body every).departing opened ↔ one ∈ opened ∧ s.holder every one.subscription = none := by
  unfold Holding.departing
  rw [List.mem_filter]
  refine and_congr_right fun hone => ?_
  simp only [Bool.not_eq_true', List.any_eq_false, (held_eq s opened body every).2, List.mem_filterMap,
    Option.map_eq_some_iff, beq_iff_eq]
  constructor
  · intro h
    rcases hh : s.holder every one.subscription with _ | x
    · rfl
    · exact absurd rfl (h (x.1, one.subscription) ⟨one, hone, x, hh, rfl⟩)
  · rintro h _ ⟨other, -, x, hx, rfl⟩ heq
    simp only at heq
    rw [heq, h] at hx
    cases hx

/-- What `published` may change of an entry: its counts, and that it is pending. -/
structure Counts (e e' : Entry) : Prop where
  name : e'.name = e.name
  queue : e'.queue = e.queue
  standing : e'.standing = e.standing
  cursor : e'.cursor = e.cursor
  taken : e'.taken = e.taken
  pending : e.pending = true → e'.pending = true

private theorem Counts.refl (e : Entry) : Counts e e := ⟨rfl, rfl, rfl, rfl, rfl, id⟩

private theorem Counts.trans {a b c : Entry} (h : Counts a b) (k : Counts b c) : Counts a c where
  name := k.name.trans h.name
  queue := k.queue.trans h.queue
  standing := k.standing.trans h.standing
  cursor := k.cursor.trans h.cursor
  taken := k.taken.trans h.taken
  pending := fun hp => k.pending (h.pending hp)

private theorem counts_holdsOne (e : Entry) : Counts e e.holdsOne :=
  ⟨rfl, rfl, rfl, rfl, rfl, fun hp => by simp [Entry.holdsOne, hp]⟩

private theorem counts_modify {f : Entry → Entry} (hf : ∀ e, Counts e (f e)) {s : State} {i j : Nat} {e' : Entry}
    (h : (s.modify i f)[j]? = some e') : ∃ e, s[j]? = some e ∧ Counts e e' ∧ (i = j → e' = f e) := by
  rw [List.getElem?_modify] at h
  obtain ⟨e, he, heq⟩ := Option.map_eq_some_iff.1 h
  refine ⟨e, he, ?_⟩
  by_cases hij : i = j
  · simp only [hij, if_true] at heq
    exact ⟨heq ▸ hf e, fun _ => heq.symm⟩
  · simp only [hij, if_false] at heq
    exact ⟨heq ▸ Counts.refl e, fun h => absurd h hij⟩

private theorem counts_foldl {β : Type} (ix : β → Nat) {f : Entry → Entry} (hf : ∀ e, Counts e (f e)) (l : List β)
    {s : State} {j : Nat} {e' : Entry} (h : (l.foldl (fun s b => s.modify (ix b) f) s)[j]? = some e') :
    ∃ e, s[j]? = some e ∧ Counts e e' := by
  induction l generalizing s with
  | nil => exact ⟨e', h, Counts.refl e'⟩
  | cons b l ih =>
    obtain ⟨d, hd, hc⟩ := ih h
    obtain ⟨e, he, hc', -⟩ := counts_modify hf hd
    exact ⟨e, he, hc'.trans hc⟩

private theorem pending_foldl (l : List (Nat × String)) {s : State} {j : Nat} {e' : Entry}
    (h : (l.foldl (fun s x => s.modify x.1 Entry.holdsOne) s)[j]? = some e') (hj : ∃ x ∈ l, x.1 = j)
    (hactive : e'.standing.paused = false) : e'.pending = true := by
  induction l generalizing s with
  | nil => obtain ⟨x, hx, -⟩ := hj; cases hx
  | cons y l ih =>
    by_cases hl : ∃ x ∈ l, x.1 = j
    · exact ih h hl
    · have hy : y.1 = j := by
        obtain ⟨x, hx, hxj⟩ := hj
        rcases List.mem_cons.1 hx with rfl | hx
        · exact hxj
        · exact absurd ⟨x, hx, hxj⟩ hl
      obtain ⟨d, hd, hc⟩ := counts_foldl Prod.fst counts_holdsOne l h
      obtain ⟨e, -, -, hone⟩ := counts_modify counts_holdsOne hd
      apply hc.pending
      have hd' : d.standing.paused = false := by rw [← hc.standing]; exact hactive
      rw [hone hy] at hd' ⊢
      simp only [Entry.holdsOne] at hd' ⊢
      simp [hd']

/-- What `published` says: every entry it counts at is pending where it is active. -/
theorem published_get {s : State} {holding : Holding} {j : Nat} {e' : Entry}
    (h : (s.published holding)[j]? = some e') :
    (∃ e, s[j]? = some e ∧ Counts e e') ∧
      ((∃ x ∈ holding.held, x.1 = j) → e'.standing.paused = false → e'.pending = true) := by
  refine ⟨?_, fun hj hactive => pending_foldl _ h hj hactive⟩
  obtain ⟨d, hd, hc⟩ := counts_foldl Prod.fst counts_holdsOne _ h
  have hpicked : ∀ e : Entry, Counts e { e with pickedUp := e.pickedUp + 1 } := fun e => ⟨rfl, rfl, rfl, rfl, rfl, id⟩
  obtain ⟨e, he, hc'⟩ := counts_foldl id hpicked _ hd
  exact ⟨e, he, hc'.trans hc⟩

/-- What an act changes: nothing, or one entry's standing, a resumed one to be read from its start. -/
theorem act_cases (s : State) (node name : String) (act : Act) (who : String) (now : Int) (took : Bool) :
    (s.act node name act who now took).1 = s ∨ ∃ i,
      (s.act node name act who now took).1 = s.modify i (fun e => { e with standing := ⟨true, who, now⟩ }) ∨
      (s.act node name act who now took).1 =
        s.modify i (fun e => { e with standing := ⟨false, "", now⟩, cursor := 0, pending := true }) := by
  unfold State.act
  split
  · exact .inl rfl
  · rename_i i _
    repeat' split
    all_goals first
      | exact .inl rfl
      | exact .inr ⟨i, .inl rfl⟩
      | exact .inr ⟨i, .inr rfl⟩

/-- A read the loop is to make is of a configured Subscription's queue. -/
def Asked (s : Sys) (ask : Ask) : Prop := ∃ name, (shape s.state)[ask.index]? = some (name, ask.queue)

theorem asked_of_asks {s : Sys} {now : Nat} {a : Ask} (h : a ∈ s.state.asks now) : Asked s a := by
  unfold State.asks at h
  obtain ⟨⟨e, i⟩, hx, heq⟩ := List.mem_filterMap.1 h
  simp only at heq
  split at heq
  · cases heq
    exact ⟨e.name, shape_get (List.mem_zipIdx_iff_getElem?.1 hx)⟩
  · cases heq

/-- A Message of its queue, let go of by an entry. -/
def Entry.lets (e : Entry) (item : Nat × Hold) : Released := ⟨e.name, item.1, item.2⟩

/-- What taking the items of a read does to an entry: all of them taken, the cursor past one of them or where it was,
and those that were not taken before let go of, in their order. -/
structure Takes (items : List (Nat × Hold)) (e e' : Entry) (released : List Released) : Prop where
  name : e'.name = e.name
  queue : e'.queue = e.queue
  standing : e'.standing = e.standing
  held : e'.held = e.held
  pending : e'.pending = e.pending
  taken : ∀ n, n ∈ e'.taken ↔ n ∈ e.taken ∨ ∃ y ∈ items, y.1 = n
  cursor : e'.cursor = e.cursor ∨ ∃ y ∈ items, e'.cursor = y.1 + 1
  released : released = (items.filter fun y => decide (y.1 ∉ e.taken)).map e.lets

private theorem takes_foldl {items : List (Nat × Hold)} (hinc : items.Pairwise fun x y => x.1 < y.1) (e : Entry)
    (released : List Released) :
    ∃ more, (items.foldl Entry.take (e, released)).2 = released ++ more ∧
      Takes items e (items.foldl Entry.take (e, released)).1 more := by
  induction items generalizing e released with
  | nil => exact ⟨[], by simp, rfl, rfl, rfl, rfl, rfl, by simp, .inl rfl, rfl⟩
  | cons y items ih =>
    rw [List.pairwise_cons] at hinc
    rw [List.foldl_cons]
    -- one item: its place taken, and itself let go of where it was not
    have htake : Entry.take (e, released) y = ({ e with cursor := y.1 + 1, taken := insert y.1 e.taken },
        released ++ if y.1 ∈ e.taken then [] else [e.lets y]) := by
      unfold Entry.take Entry.lets
      split <;> simp
    rw [htake]
    obtain ⟨more, hmore, htakes⟩ := ih hinc.2 { e with cursor := y.1 + 1, taken := insert y.1 e.taken }
      (released ++ if y.1 ∈ e.taken then [] else [e.lets y])
    refine ⟨(if y.1 ∈ e.taken then [] else [e.lets y]) ++ more, by rw [hmore, List.append_assoc], htakes.name,
      htakes.queue, htakes.standing, htakes.held, htakes.pending, ?_, ?_, ?_⟩
    · intro n
      rw [htakes.taken, Finset.mem_insert]
      simp only [List.mem_cons, exists_eq_or_imp]
      constructor
      · rintro ((rfl | h) | h)
        · exact .inr (.inl rfl)
        · exact .inl h
        · exact .inr (.inr h)
      · rintro (h | rfl | h)
        · exact .inl (.inr h)
        · exact .inl (.inl rfl)
        · exact .inr h
    · rcases htakes.cursor with hc | ⟨z, hz, hc⟩
      · exact .inr ⟨y, List.mem_cons_self .., hc⟩
      · exact .inr ⟨z, List.mem_cons_of_mem _ hz, hc⟩
    · -- the others have larger numbers, so taking this one takes none of them
      have hothers : items.filter (fun z => decide (z.1 ∉ insert y.1 e.taken)) =
          items.filter fun z => decide (z.1 ∉ e.taken) := by
        refine List.filter_congr fun z hz => ?_
        have hne : z.1 ≠ y.1 := by
          have := hinc.1 z hz
          omega
        simp [Finset.mem_insert, hne]
      rw [htakes.released, hothers]
      by_cases hy : y.1 ∈ e.taken <;> simp [hy, Entry.lets]

/-- What a re-lock does: nothing, or a wait, or the read taken and, at its end, the Subscription no longer pending. -/
theorem relock_cases (e : Entry) (start most now : Nat) {read : Option (List (Nat × Hold))}
    (hinc : ∀ items, read = some items → items.Pairwise fun x y => x.1 < y.1) :
    (e.relock start most now read = (e, [])) ∨
    (e.relock start most now read = ({ e with notBefore := some (now + again) }, [])) ∨
    ∃ items e' more, read = some items ∧ e.standing.paused = false ∧ e.cursor = start ∧ Takes items e e' more ∧
      (items.length < most ∧ e.relock start most now read = ({ e' with pending := false }, more) ∨
        e.relock start most now read = (e', more)) := by
  unfold Entry.relock
  split
  · exact .inl rfl
  · rename_i hgo
    simp only [Bool.or_eq_true, bne_iff_ne, ne_eq, not_or, Bool.not_eq_true, not_not] at hgo
    cases read with
    | none => exact .inr (.inl rfl)
    | some items =>
      obtain ⟨more, hmore, htakes⟩ := takes_foldl (hinc items rfl) { e with notBefore := none } []
      rw [List.nil_append] at hmore
      refine .inr (.inr ⟨items, (items.foldl Entry.take ({ e with notBefore := none }, [])).1, more, rfl, hgo.1, hgo.2,
        ?_, ?_⟩)
      · exact ⟨htakes.name, htakes.queue, htakes.standing, htakes.held, htakes.pending, htakes.taken, htakes.cursor,
          htakes.released⟩
      · simp only
        split
        · rename_i hlt
          exact .inl ⟨hlt, by rw [hmore]⟩
        · exact .inr (Prod.ext rfl hmore)

/-! ### What each step does -/

section Cases

variable {s s' : Sys}

theorem decided_cases {w : Nat} {kind : Kind} {opened : List Opened} {body : List UInt8}
    (hs : s.decided w kind opened body = some s') :
    ∃ holding, s' = { s with writers := s.writers.put w ⟨kind, holding, none⟩ } ∧
      (s.writers.get w = none ∧ holding = s.state.held opened body (kind = .replay) ∨
        ∃ before, s.writers.get w = some ⟨.turn, before, none⟩ ∧ kind = .turn ∧
          holding = before.append (s.state.held opened body (kind = .replay))) := by
  unfold Sys.decided at hs
  simp only at hs
  split at hs
  · rename_i hnone
    cases hs
    exact ⟨_, rfl, .inl ⟨hnone, rfl⟩⟩
  · rename_i before hturn
    split at hs
    · rename_i hk
      cases hs
      subst hk
      exact ⟨_, rfl, .inr ⟨before, hturn, rfl, rfl⟩⟩
    · cases hs
  · cases hs

theorem write_cases {w : Nat} {answer : Answer} (hs : s.write w answer = some s') :
    ∃ kind holding, s.writers.get w = some ⟨kind, holding, none⟩ ∧
      (answer = .refused ∧ s' = { s with writers := s.writers.drop w } ∨
        answer ≠ .refused ∧ (kind = .turn ∨ answer = .lost) ∧
          s' = { s with ledger := (landAll s.ledger holding.holds).1, writers := s.writers.drop w } ∨
        answer ≠ .refused ∧ ¬ (kind = .turn ∨ answer = .lost) ∧ s' = { s with
          ledger := (landAll s.ledger holding.holds).1
          writers := s.writers.put w ⟨kind, holding, some (landAll s.ledger holding.holds).2⟩ }) := by
  unfold Sys.write at hs
  split at hs
  · rename_i kind holding hget
    refine ⟨kind, holding, hget, ?_⟩
    split at hs
    · rename_i hrefused
      cases hs
      exact .inl ⟨hrefused, rfl⟩
    · rename_i hrefused
      simp only at hs
      split at hs
      · rename_i hsilent
        cases hs
        exact .inr (.inl ⟨hrefused, hsilent, rfl⟩)
      · rename_i htold
        cases hs
        exact .inr (.inr ⟨hrefused, htold, rfl⟩)
  · cases hs

theorem published_cases {w : Nat} (hs : s.published w = some s') :
    ∃ kind holding places, s.writers.get w = some ⟨kind, holding, some places⟩ ∧
      s' = { s with state := s.state.published holding, writers := s.writers.drop w } := by
  unfold Sys.published at hs
  split at hs
  · rename_i kind holding places hget
    cases hs
    exact ⟨kind, holding, places, hget, rfl⟩
  · cases hs

theorem ask_cases {now : Nat} (hs : s.step (.ask now) = some s') :
    (s.loop = .idle ∨ ∃ stalled, s.loop = .carrying [] stalled) ∧
      s' = { s with loop := .asking (s.state.asks now) [] } := by
  simp only [Sys.step] at hs
  split at hs
  · rename_i hl
    cases hs
    exact ⟨.inl hl, rfl⟩
  · rename_i stalled hl
    cases hs
    exact ⟨.inr ⟨stalled, hl⟩, rfl⟩
  · cases hs

theorem read_cases {answered : Bool} (hs : s.read answered = some s') :
    (∃ ask asks taken, s.loop = .asking (ask :: asks) taken ∧ s' = { s with
      loop := .answered ask (if answered then some ((s.ledger ask.queue).readFrom ask.start s.most) else none)
        (s.ledger ask.queue).next asks taken }) ∨
    ∃ taken, s.loop = .asking [] taken ∧ s' = { s with loop := .carrying taken [] } := by
  unfold Sys.read at hs
  split at hs
  · rename_i ask asks taken hl
    cases hs
    exact .inl ⟨ask, asks, taken, hl, rfl⟩
  · rename_i taken hl
    cases hs
    exact .inr ⟨taken, hl, rfl⟩
  · cases hs

theorem relocked_cases {now : Nat} (hs : s.relock now = some s') :
    ∃ ask read upTo asks taken e, s.loop = .answered ask read upTo asks taken ∧ s.state[ask.index]? = some e ∧
      s' = { s with
        state := s.state.set ask.index (e.relock ask.start s.most now read).1
        loop := .asking asks (taken ++ (e.relock ask.start s.most now read).2) } := by
  unfold Sys.relock at hs
  split at hs
  · rename_i ask read upTo asks taken hl
    split at hs
    · cases hs
    · rename_i e he
      cases hs
      exact ⟨ask, read, upTo, asks, taken, e, hl, he, rfl⟩
  · cases hs

theorem land_cases {answered : Bool} (hs : s.land answered = some s') :
    ∃ one rest stalled, s.loop = .carrying (one :: rest) stalled ∧ one.subscription ∉ stalled ∧ s' = { s with
      ledger := Function.update s.ledger one.hold.queue
        ((s.ledger one.hold.queue).filter fun x => decide (x.1 ≠ one.sequence))
      loop := .landed one answered rest stalled } := by
  unfold Sys.land at hs
  split at hs
  · rename_i one rest stalled hl
    split at hs
    · cases hs
    · rename_i hstalled
      cases hs
      exact ⟨one, rest, stalled, hl, hstalled, rfl⟩
  · cases hs

theorem moved_cases (hs : s.moved = some s') :
    ∃ one rest stalled, s.loop = .landed one true rest stalled ∧
      s' = { s with state := s.state.moved one, loop := .carrying rest stalled } := by
  unfold Sys.moved at hs
  split at hs
  · rename_i one rest stalled hl
    cases hs
    exact ⟨one, rest, stalled, hl, rfl⟩
  · cases hs

theorem passed_cases (hs : s.passed = some s') :
    ∃ one rest stalled, s.loop = .carrying (one :: rest) stalled ∧ one.subscription ∉ stalled ∧ s' = { s with
      state := s.state.passed one
      passedOver := (one.hold.queue, one.sequence) :: s.passedOver
      loop := .carrying rest stalled } := by
  unfold Sys.passed at hs
  split at hs
  · rename_i one rest stalled hl
    split at hs
    · cases hs
    · rename_i hstalled
      cases hs
      exact ⟨one, rest, stalled, hl, hstalled, rfl⟩
  · cases hs

theorem again_cases {now : Nat} (hs : s.again now = some s') :
    ∃ one rest stalled, (s.loop = .carrying (one :: rest) stalled ∨ s.loop = .landed one false rest stalled) ∧
      s' = { s with state := s.state.again one now, loop := .carrying rest (stalled ++ [one.subscription]) } := by
  unfold Sys.again at hs
  split at hs
  · rename_i one rest stalled hl
    cases hs
    exact ⟨one, rest, stalled, .inl hl, rfl⟩
  · rename_i one rest stalled hl
    cases hs
    exact ⟨one, rest, stalled, .inr hl, rfl⟩
  · cases hs

end Cases

end Pickup
