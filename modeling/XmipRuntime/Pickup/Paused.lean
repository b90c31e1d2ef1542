import XmipRuntime.Pickup.Carried

/-!
# When a pause takes effect

What a Subscription matches after its pause is answered is held, and none of it is picked up before a resume is
answered, unless the pick-up loop had let go of it before: the loop takes up to `most` Messages under the lock and goes
through them without it.  `Followed` is the pickup with what was answered to the operator and the pick-up under way
beside it, `Clear` the condition that a pause is answered only while the loop has let go of nothing of its Subscription
that it has not begun to pick up.
-/

namespace Pickup

open Library

/-- The pickup, and what was answered of it. -/
structure Followed where
  sys : Sys
  /-- The Subscriptions answered to be paused, and not answered to be resumed since. -/
  paused : List String
  /-- The pick-up begun and not concluded: whether its Subscription's pause was answered before it began, and no resume
  of it since. -/
  begun : Option Bool
  /-- Whether such a pick-up ever moved a Message out of its queue. -/
  late : Bool

/-- The pick-up of the first Message the loop carries begins, or one step of the pickup. -/
inductive Move where
  | begins
  | step (a : Action)

/-- Whether the step ends a pick-up that was begun, as far as its Subscription's queue goes: it was moved out of it,
passed over or is to be read again.  One whose Subscription stalled is put back without a pick-up. -/
def Sys.concludes (s : Sys) : Action → Bool
  | .land _ | .passed => true
  | .again _ =>
    match s.loop with
    | .carrying (one :: _) stalled => decide (one.subscription ∉ stalled)
    | _ => false
  | _ => false

/-- What an operator's act was answered, where the step is one. -/
def Sys.answers (s : Sys) : Action → Option (String × Act)
  | .act name act who now took =>
    match (s.state.act s.node name act who now took).2 with
    | .ok _ => some (name, act)
    | .error _ => none
  | _ => none

/-- The Subscriptions answered to be paused once `said` is. -/
def Followed.told (x : Followed) : Option (String × Act) → List String
  | some (name, .pause) => name :: x.paused
  | some (name, .resume) => x.paused.filter fun n => decide (n ≠ name)
  | none => x.paused

/-- The pick-up under way once `said` is answered: a resume of its Subscription lets it go on. -/
def Followed.goesOn (x : Followed) : Option (String × Act) → Option Bool
  | some (name, .resume) =>
    if x.sys.loop.carried.head?.any fun one => one.subscription == name then x.begun.map fun _ => false else x.begun
  | some (_, .pause) | none => x.begun

/-- Whether the step moves a Message out of its queue by a pick-up begun after its Subscription's pause was answered. -/
def Followed.movesLate (x : Followed) : Action → Bool
  | .land _ => x.begun == some true
  | _ => false

def Followed.step (x : Followed) : Move → Option Followed
  | .begins =>
    match x.begun, x.sys.loop with
    | none, .carrying (one :: _) stalled =>
      if one.subscription ∈ stalled then none
      else some { x with begun := some (decide (one.subscription ∈ x.paused)) }
    | _, _ => none
  | .step a =>
    if x.sys.concludes a && x.begun.isNone then none
    else (x.sys.step a).map fun s =>
      { sys := s
        paused := x.told (x.sys.answers a)
        begun := if x.sys.concludes a then none else x.goesOn (x.sys.answers a)
        late := x.late || x.movesLate a }

def Followed.Opening (x : Followed) : Prop :=
  Pickup.Opening x.sys ∧ x.paused = [] ∧ x.begun = none ∧ x.late = false

/-- What was let go of to the loop and it has not begun to pick up. -/
def Followed.waiting (x : Followed) : List Released :=
  if x.begun.isSome then x.sys.loop.carried.tail else x.sys.loop.carried

/-- A decision made now holds every Message of the Subscription `name`, and none of them departs. -/
def Holds (s : State) (name : String) : Prop :=
  ∀ opened body every, ∀ one ∈ opened, one.subscription = name →
    (∃ e ∈ s, e.name = name ∧ ⟨e.queue, one.journey, body⟩ ∈ (s.held opened body every).holds) ∧
      one ∉ (s.held opened body every).departing opened

/-- A pause takes effect: no pick-up begun after it moved a Message, and every decision made after it holds. -/
def TakesEffect (x : Followed) : Prop := x.late = false ∧ ∀ name ∈ x.paused, Holds x.sys.state name

/-- A pause is answered only while the loop has let go of nothing of its Subscription it has not begun to pick up. -/
def Clear (x : Followed) : Move → Prop
  | .begins => True
  | .step a =>
    match x.sys.answers a with
    | some (name, .pause) => ∀ r ∈ x.waiting, r.subscription ≠ name
    | _ => True

instance (x : Followed) (m : Move) : Decidable (Clear x m) :=
  match m with
  | .begins => .isTrue trivial
  | .step a =>
    match h : x.sys.answers a with
    | some (name, .pause) => decidable_of_iff (∀ r ∈ x.waiting, r.subscription ≠ name) (by simp [Clear, h])
    | some (_, .resume) | none => .isTrue (by simp [Clear, h])

/-! ### A Subscription's standing -/

/-- The Subscription `name` is configured and paused. -/
def Stands (s : State) (name : String) : Prop :=
  (∃ e ∈ s, e.name = name) ∧ ∀ e ∈ s, e.name = name → e.standing.paused = true

theorem Stands.holds {s : State} (hn : (s.map Entry.name).Nodup) {name : String} (h : Stands s name) : Holds s name := by
  rintro opened body every one hone rfl
  obtain ⟨⟨e, he, hname⟩, hpaused⟩ := h
  obtain ⟨i, d, hi, hd, hdn, -⟩ := index_of_mem_shape hn (List.mem_map.2 ⟨e, he, rfl⟩)
  rw [hname] at hi hdn
  have hdp := hpaused d (List.mem_of_getElem? hd) hdn
  have hholder : s.holder every one.subscription = some (i, d) := by simp [State.holder, hi, hd, hdp]
  constructor
  · refine ⟨d, List.mem_of_getElem? hd, hdn, ?_⟩
    rw [(held_eq s opened body every).1, List.mem_filterMap]
    exact ⟨one, hone, by simp [hholder]⟩
  · rw [mem_departing, hholder]
    simp

theorem Stands.of_entries {s s' : State} {name : String} (h : Stands s name) (hshape : shape s' = shape s)
    (hentries : ∀ e' ∈ s', ∃ e ∈ s, e'.name = e.name ∧ e'.standing = e.standing) : Stands s' name := by
  obtain ⟨⟨e, he, hname⟩, hpaused⟩ := h
  constructor
  · have : name ∈ s'.map Entry.name := by
      rw [names_of_shape hshape]
      exact List.mem_map.2 ⟨e, he, hname⟩
    exact List.mem_map.1 this
  · intro e' he' hname'
    obtain ⟨d, hd, hdn, hds⟩ := hentries e' he'
    rw [hds]
    exact hpaused d hd (hdn.symm.trans hname')

/-- No step but an operator's act changes a Subscription's standing. -/
theorem standing_of_step {s s' : Sys} (h : Sound s) {a : Action} (hs : s.step a = some s')
    (hact : ∀ name act who now took, a ≠ .act name act who now took) :
    shape s'.state = shape s.state ∧ ∀ e' ∈ s'.state, ∃ e ∈ s.state, e'.name = e.name ∧ e'.standing = e.standing := by
  have hsame : ∀ e ∈ s.state, ∃ d ∈ s.state, e.name = d.name ∧ e.standing = d.standing := fun e he => ⟨e, he, rfl, rfl⟩
  cases a with
  | decide w kind opened body =>
    obtain ⟨holding, rfl, -⟩ := decided_cases hs
    exact ⟨rfl, hsame⟩
  | write w answer =>
    obtain ⟨kind, holding, -, ⟨-, rfl⟩ | ⟨-, -, rfl⟩ | ⟨-, -, rfl⟩⟩ := write_cases hs
    · exact ⟨rfl, hsame⟩
    · exact ⟨rfl, hsame⟩
    · exact ⟨rfl, hsame⟩
  | published w =>
    obtain ⟨kind, holding, places, -, rfl⟩ := published_cases hs
    refine ⟨shape_published .., ?_⟩
    intro e' he'
    obtain ⟨j, hj⟩ := List.getElem?_of_mem he'
    obtain ⟨⟨e, he, hc⟩, -⟩ := published_get hj
    exact ⟨e, List.mem_of_getElem? he, hc.name, hc.standing⟩
  | act name act who now took => exact absurd rfl (hact name act who now took)
  | ask now =>
    obtain ⟨-, rfl⟩ := ask_cases hs
    exact ⟨rfl, hsame⟩
  | read answered =>
    obtain ⟨ask, asks, taken, -, rfl⟩ | ⟨taken, -, rfl⟩ := read_cases hs
    · exact ⟨rfl, hsame⟩
    · exact ⟨rfl, hsame⟩
  | relock now =>
    obtain ⟨ask, read, upTo, asks, taken, e, hl, he, rfl⟩ := relocked_cases hs
    obtain ⟨hn, hq, hst, -⟩ := h.relock_keeps hl e now
    refine ⟨shape_set he hn hq, ?_⟩
    intro d hd
    rcases List.mem_or_eq_of_mem_set hd with hd | rfl
    · exact hsame d hd
    · exact ⟨e, List.mem_of_getElem? he, hn, hst⟩
  | land answered =>
    obtain ⟨one, rest, stalled, -, -, rfl⟩ := land_cases hs
    exact ⟨rfl, hsame⟩
  | moved =>
    obtain ⟨one, rest, stalled, hl, rfl⟩ := moved_cases hs
    refine ⟨shape_moved .., ?_⟩
    intro e' he'
    rcases mem_atReleased h.names h.queues (h.inHand one (by rw [hl]; rfl)).1 he' with ⟨e, he, -, rfl⟩ | ⟨he, -⟩
    · exact ⟨e, he, rfl, rfl⟩
    · exact hsame e' he
  | passed =>
    obtain ⟨one, rest, stalled, hl, -, rfl⟩ := passed_cases hs
    refine ⟨shape_passed .., ?_⟩
    intro e' he'
    have hone := (h.known one (by rw [hl]; exact List.mem_cons_self ..)).1
    rcases mem_atReleased h.names h.queues hone he' with ⟨e, he, -, rfl⟩ | ⟨he, -⟩
    · exact ⟨e, he, rfl, rfl⟩
    · exact hsame e' he
  | again now =>
    obtain ⟨one, rest, stalled, hl, rfl⟩ := again_cases hs
    refine ⟨shape_again .., ?_⟩
    intro e' he'
    have hone : (one.subscription, one.hold.queue) ∈ shape s.state := by
      rcases hl with hl | hl
      · exact (h.known one (by rw [hl]; exact List.mem_cons_self ..)).1
      · exact (h.inHand one (by rw [hl]; rfl)).1
    rcases mem_atReleased h.names h.queues hone he' with ⟨e, he, -, rfl⟩ | ⟨he, -⟩
    · exact ⟨e, he, rfl, rfl⟩
    · exact hsame e' he

/-- What a step lets go of to the loop is of a Subscription that is not paused. -/
theorem carried_of_step {s s' : Sys} (h : Sound s) {a : Action} (hs : s.step a = some s') :
    ∀ r ∈ s'.loop.carried, r ∈ s.loop.carried ∨ ∃ e ∈ s.state, e.name = r.subscription ∧ e.standing.paused = false := by
  cases a with
  | decide w kind opened body =>
    obtain ⟨holding, rfl, -⟩ := decided_cases hs
    exact fun r hr => .inl hr
  | write w answer =>
    obtain ⟨kind, holding, -, ⟨-, rfl⟩ | ⟨-, -, rfl⟩ | ⟨-, -, rfl⟩⟩ := write_cases hs
    · exact fun r hr => .inl hr
    · exact fun r hr => .inl hr
    · exact fun r hr => .inl hr
  | published w =>
    obtain ⟨kind, holding, places, -, rfl⟩ := published_cases hs
    exact fun r hr => .inl hr
  | act name act who now took =>
    simp only [Sys.step, Option.some.injEq] at hs
    subst hs
    exact fun r hr => .inl hr
  | ask now =>
    obtain ⟨-, rfl⟩ := ask_cases hs
    exact fun r hr => by cases hr
  | read answered =>
    obtain ⟨ask, asks, taken, hl, rfl⟩ | ⟨taken, hl, rfl⟩ := read_cases hs
    · rw [hl]
      exact fun r hr => .inl hr
    · rw [hl]
      exact fun r hr => .inl hr
  | relock now =>
    obtain ⟨ask, read, upTo, asks, taken, e, hl, he, rfl⟩ := relocked_cases hs
    rw [hl]
    intro r hr
    rcases List.mem_append.1 hr with hr | hr
    · exact .inl hr
    · have hinc : ∀ items, read = some items → items.Pairwise fun x y => x.1 < y.1 := by
        rintro items rfl
        exact (h.reading ask items upTo asks taken hl).increasing
      obtain heq | heq | ⟨items, e', more, rfl, hactive, -, ht, ⟨-, heq⟩ | heq⟩ :=
        relock_cases e ask.start s.most now hinc
      · rw [heq] at hr; cases hr
      · rw [heq] at hr; cases hr
      all_goals
        rw [heq] at hr
        change r ∈ more at hr
        rw [ht.released] at hr
        obtain ⟨y, -, rfl⟩ := List.mem_map.1 hr
        exact .inr ⟨e, List.mem_of_getElem? he, rfl, hactive⟩
  | land answered =>
    obtain ⟨one, rest, stalled, hl, -, rfl⟩ := land_cases hs
    rw [hl]
    exact fun r hr => .inl (List.mem_cons_of_mem _ hr)
  | moved =>
    obtain ⟨one, rest, stalled, hl, rfl⟩ := moved_cases hs
    rw [hl]
    exact fun r hr => .inl hr
  | passed =>
    obtain ⟨one, rest, stalled, hl, -, rfl⟩ := passed_cases hs
    rw [hl]
    exact fun r hr => .inl (List.mem_cons_of_mem _ hr)
  | again now =>
    obtain ⟨one, rest, stalled, hl | hl, rfl⟩ := again_cases hs
    · rw [hl]
      exact fun r hr => .inl (List.mem_cons_of_mem _ hr)
    · rw [hl]
      exact fun r hr => .inl hr

/-- What an act that is answered finds and leaves: the entry of its Subscription, as it stood already or as the act
puts it; one that is refused or fails leaves everything as it was. -/
theorem act_answers (s : State) (node name : String) (act : Act) (who : String) (now : Int) (took : Bool) :
    (∃ why, (s.act node name act who now took).2 = .error why) ∧ (s.act node name act who now took).1 = s ∨
    ∃ i e said, s.index name = some i ∧ s[i]? = some e ∧ (s.act node name act who now took).2 = .ok said ∧
      ((act = .pause ∧ e.standing.paused = true ∨ act = .resume) ∧ (s.act node name act who now took).1 = s ∨
        act = .pause ∧ (s.act node name act who now took).1 =
          s.modify i (fun e => { e with standing := ⟨true, who, now⟩ }) ∨
        act = .resume ∧ (s.act node name act who now took).1 =
          s.modify i (fun e => { e with standing := ⟨false, "", now⟩, cursor := 0, pending := true })) := by
  unfold State.act
  rcases hi : s.index name with _ | i
  · exact .inl ⟨⟨_, rfl⟩, rfl⟩
  · rcases he : s[i]? with _ | e
    · simp only [he]
      exact .inl ⟨⟨_, rfl⟩, trivial⟩
    · simp only [he]
      by_cases h₁ : act = .pause ∧ e.standing.paused = true
      · simp only [if_pos h₁]
        exact .inr ⟨i, e, _, rfl, he, rfl, .inl ⟨.inl h₁, trivial⟩⟩
      · simp only [if_neg h₁]
        by_cases h₂ : act = .resume ∧ e.standing.paused = false
        · simp only [if_pos h₂]
          exact .inr ⟨i, e, _, rfl, he, rfl, .inl ⟨.inr h₂.1, trivial⟩⟩
        · simp only [if_neg h₂]
          by_cases h₃ : took = false
          · simp only [if_pos h₃]
            exact .inl ⟨⟨_, rfl⟩, trivial⟩
          · simp only [if_neg h₃]
            by_cases h₄ : act = .pause
            · simp only [if_pos h₄]
              exact .inr ⟨i, e, _, rfl, he, rfl, .inr (.inl ⟨h₄, rfl⟩)⟩
            · simp only [if_neg h₄]
              have hr : act = .resume := by cases act <;> simp_all
              exact .inr ⟨i, e, _, rfl, he, rfl, .inr (.inr ⟨hr, rfl⟩)⟩

private theorem index_eq_of_name {s : State} (hnd : (s.map Entry.name).Nodup) {i j : Nat} {e d : Entry}
    (hi : s[i]? = some e) (hj : s[j]? = some d) (hn : e.name = d.name) : i = j := by
  obtain ⟨hil, hie⟩ := List.getElem?_eq_some_iff.1 hi
  obtain ⟨hjl, hjd⟩ := List.getElem?_eq_some_iff.1 hj
  have hil' : i < (s.map Entry.name).length := by simpa using hil
  have hjl' : j < (s.map Entry.name).length := by simpa using hjl
  have : (s.map Entry.name)[i] = (s.map Entry.name)[j] := by simp [hie, hjd, hn]
  exact (List.Nodup.getElem_inj_iff hnd).1 this

/-- Changing one entry changes the standing of no Subscription of another name. -/
private theorem Stands.modify {s : State} {n name : String} (h : Stands s n) (hne : n ≠ name) {i : Nat} {e : Entry}
    (he : s[i]? = some e) (hename : e.name = name) {f : Entry → Entry} (hf : Same f) : Stands (s.modify i f) n := by
  constructor
  · have : n ∈ (s.modify i f).map Entry.name := by
      rw [names_of_shape (shape_modify hf s i)]
      exact List.mem_map.2 h.1
    exact List.mem_map.1 this
  · intro d hd hdn
    obtain ⟨j, c, hc, ⟨rfl, rfl⟩ | ⟨-, rfl⟩⟩ := mem_modify hd
    · rw [he] at hc
      cases hc
      exact absurd (hdn.symm.trans ((hf e).1.trans hename)) hne
    · exact h.2 d (List.mem_of_getElem? hc) hdn

/-- A Subscription whose entry is paused stands paused, whatever it was. -/
private theorem stands_modify {s : State} (hnd : (s.map Entry.name).Nodup) {name : String} {i : Nat} {e : Entry}
    (he : s[i]? = some e) (hename : e.name = name) {f : Entry → Entry} (hf : Same f)
    (hpaused : (f e).standing.paused = true) : Stands (s.modify i f) name := by
  constructor
  · have : name ∈ (s.modify i f).map Entry.name := by
      rw [names_of_shape (shape_modify hf s i)]
      exact List.mem_map.2 ⟨e, List.mem_of_getElem? he, hename⟩
    exact List.mem_map.1 this
  · intro d hd hdn
    obtain ⟨j, c, hc, ⟨rfl, rfl⟩ | ⟨hne, rfl⟩⟩ := mem_modify hd
    · rw [he] at hc
      cases hc
      exact hpaused
    · exact absurd (index_eq_of_name hnd hc he (hdn.trans hename.symm)) hne

/-- What was answered stands: a Subscription answered to be paused is, and so is every other that was and was not
answered to be resumed. -/
theorem stands_of_act {s : Sys} (h : Sound s) (name : String) (act : Act) (who : String) (now : Int) (took : Bool) :
    (s.answers (.act name act who now took) = some (name, .pause) →
        Stands (s.state.act s.node name act who now took).1 name) ∧
      ∀ n, Stands s.state n → s.answers (.act name act who now took) ≠ some (n, .resume) →
        Stands (s.state.act s.node name act who now took).1 n := by
  obtain ⟨⟨why, herr⟩, hstate⟩ | ⟨i, e, said, hi, he, hok, hcases⟩ :=
    act_answers s.state s.node name act who now took
  · rw [hstate]
    refine ⟨?_, fun n hn _ => hn⟩
    simp [Sys.answers, herr]
  · have hanswers : s.answers (.act name act who now took) = some (name, act) := by simp [Sys.answers, hok]
    have hename := name_of_index hi he
    rw [hanswers]
    obtain ⟨hwhich, hstate⟩ | ⟨rfl, hstate⟩ | ⟨rfl, hstate⟩ := hcases
    · rw [hstate]
      refine ⟨?_, fun n hn _ => hn⟩
      intro hpause
      rcases hwhich with ⟨-, hp⟩ | hr
      · refine ⟨⟨e, List.mem_of_getElem? he, hename⟩, ?_⟩
        intro d hd hdn
        obtain ⟨j, hj⟩ := List.getElem?_of_mem hd
        have hji := index_eq_of_name h.names hj he (hdn.trans hename.symm)
        subst hji
        rw [he] at hj
        cases hj
        exact hp
      · rw [hr] at hpause
        cases hpause
    · rw [hstate]
      have hf : Same fun e => { e with standing := ⟨true, who, now⟩ } := fun _ => ⟨rfl, rfl⟩
      have hname := stands_modify h.names he hename hf rfl
      refine ⟨fun _ => hname, ?_⟩
      intro n hn _
      by_cases hne : n = name
      · exact hne ▸ hname
      · exact hn.modify hne he hename hf
    · rw [hstate]
      refine ⟨?_, ?_⟩
      · intro hsay
        cases hsay
      · intro n hn hsay
        refine hn.modify ?_ he hename fun _ => by exact ⟨rfl, rfl⟩
        rintro rfl
        exact hsay rfl

/-! ### The invariant -/

/-- The loop is at a Message it may pick up. -/
def AtOne (s : Sys) : Prop := ∃ one rest stalled, s.loop = .carrying (one :: rest) stalled ∧ one.subscription ∉ stalled

/-- What every step that meets `Clear` keeps: nothing waits in the loop of a Subscription answered to be paused. -/
structure Paces (x : Followed) : Prop where
  sound : Sound x.sys
  stands : ∀ name ∈ x.paused, Stands x.sys.state name
  waiting : ∀ r ∈ x.waiting, r.subscription ∉ x.paused
  begun : ∀ b, x.begun = some b → b = false ∧ AtOne x.sys
  late : x.late = false

theorem Paces.takesEffect {x : Followed} (h : Paces x) : TakesEffect x :=
  ⟨h.late, fun name hname => (h.stands name hname).holds h.sound.names⟩

theorem paces_of_opening {x : Followed} (h : x.Opening) : Paces x := by
  obtain ⟨hs, hp, hb, hl⟩ := h
  refine ⟨sound_of_opening hs, by simp [hp], ?_, by simp [hb], hl⟩
  simp [Followed.waiting, hb, hs.loop, Loop.carried]

/-- The pick-up that begins is of a Message that waited, so of a Subscription not answered to be paused. -/
theorem Paces.begins {x x' : Followed} (h : Paces x) (hs : x.step .begins = some x') : Paces x' := by
  simp only [Followed.step] at hs
  split at hs
  · rename_i one rest stalled hb hl
    split at hs
    · cases hs
    · rename_i hstalled
      cases hs
      have hwaiting := h.waiting
      simp only [Followed.waiting, hb, Option.isSome_none, Bool.false_eq_true, if_false, hl, Loop.carried] at hwaiting
      refine ⟨h.sound, h.stands, ?_, ?_, h.late⟩
      · simp only [Followed.waiting, Option.isSome_some, if_true, hl, Loop.carried, List.tail_cons]
        exact fun r hr => hwaiting r (List.mem_cons_of_mem _ hr)
      · intro b hbegun
        refine ⟨?_, one, rest, stalled, hl, hstalled⟩
        have := hwaiting one (List.mem_cons_self ..)
        simpa [this] using hbegun.symm
  · cases hs

/-- An operator's act leaves the loop where it is. -/
theorem Paces.acts {x : Followed} (h : Paces x) (name : String) (act : Act) (who : String) (now : Int) (took : Bool)
    (hok : Clear x (.step (.act name act who now took))) :
    Paces { sys := { x.sys with state := (x.sys.state.act x.sys.node name act who now took).1 }
            paused := x.told (x.sys.answers (.act name act who now took))
            begun := x.goesOn (x.sys.answers (.act name act who now took))
            late := x.late } := by
  obtain ⟨hnew, hold⟩ := stands_of_act h.sound name act who now took
  have hsound := h.sound.act name act who now took
  simp only [Clear] at hok
  have hanswers : x.sys.answers (.act name act who now took) = none ∨
      x.sys.answers (.act name act who now took) = some (name, act) := by
    simp only [Sys.answers]
    split <;> simp
  rcases hanswers with hanswers | hanswers
  · rw [hanswers] at hold ⊢
    refine ⟨hsound, fun n hn => hold n (h.stands n hn) (by simp), h.waiting, h.begun, h.late⟩
  · rw [hanswers] at hnew hold hok ⊢
    cases act with
    | pause =>
      refine ⟨hsound, ?_, ?_, h.begun, h.late⟩
      · intro n hn
        rcases List.mem_cons.1 hn with rfl | hn
        · exact hnew rfl
        · exact hold n (h.stands n hn) (by simp)
      · intro r hr hmem
        rcases List.mem_cons.1 hmem with heq | hmem
        · exact hok r hr heq
        · exact h.waiting r hr hmem
    | resume =>
      -- the pick-up under way is the same one, and no other waits
      have hsome : (x.goesOn (some (name, .resume))).isSome = x.begun.isSome := by
        unfold Followed.goesOn
        simp only
        split <;> simp
      refine ⟨hsound, ?_, ?_, ?_, h.late⟩
      · intro n hn
        obtain ⟨hn, hne⟩ := List.mem_filter.1 hn
        refine hold n (h.stands n hn) ?_
        simpa using fun heq : name = n => (of_decide_eq_true hne) heq.symm
      · intro r hr hmem
        simp only [Followed.waiting, hsome] at hr
        exact h.waiting r hr (List.mem_filter.1 hmem).1
      · intro b hb
        unfold Followed.goesOn at hb
        simp only at hb
        split at hb
        · obtain ⟨b', hb', rfl⟩ := Option.map_eq_some_iff.1 hb
          exact ⟨rfl, (h.begun b' hb').2⟩
        · exact h.begun b hb

/-- A step that concludes a pick-up takes its Message, the first the loop carries, off what it carries. -/
private theorem carried_of_concludes {s s' : Sys} {a : Action} (hc : s.concludes a = true) (hs : s.step a = some s') :
    s'.loop.carried = s.loop.carried.tail := by
  cases a with
  | land answered =>
    obtain ⟨one, rest, stalled, hl, -, rfl⟩ := land_cases hs
    rw [hl]
    rfl
  | passed =>
    obtain ⟨one, rest, stalled, hl, -, rfl⟩ := passed_cases hs
    rw [hl]
    rfl
  | again now =>
    obtain ⟨one, rest, stalled, hl | hl, rfl⟩ := again_cases hs
    · rw [hl]
      rfl
    · simp [Sys.concludes, hl] at hc
  | _ => simp [Sys.concludes] at hc

/-- While a pick-up is under way nothing but its conclusion moves the loop. -/
private theorem loop_of_atOne {s s' : Sys} {a : Action} (h : AtOne s) (hc : s.concludes a = false)
    (hs : s.step a = some s') : s'.loop = s.loop := by
  obtain ⟨one, rest, stalled, hl, hstalled⟩ := h
  cases a with
  | decide w kind opened body =>
    obtain ⟨holding, rfl, -⟩ := decided_cases hs
    rfl
  | write w answer =>
    obtain ⟨kind, holding, -, ⟨-, rfl⟩ | ⟨-, -, rfl⟩ | ⟨-, -, rfl⟩⟩ := write_cases hs <;> rfl
  | published w =>
    obtain ⟨kind, holding, places, -, rfl⟩ := published_cases hs
    rfl
  | act name act who now took =>
    simp only [Sys.step, Option.some.injEq] at hs
    subst hs
    rfl
  | ask now => simp [Sys.step, hl] at hs
  | read answered => simp [Sys.step, Sys.read, hl] at hs
  | relock now => simp [Sys.step, Sys.relock, hl] at hs
  | land answered => cases hc
  | moved => simp [Sys.step, Sys.moved, hl] at hs
  | passed => cases hc
  | again now => simp [Sys.concludes, hl, hstalled] at hc

theorem Paces.steps {x x' : Followed} (h : Paces x) {a : Action} (hok : Clear x (.step a))
    (hs : x.step (.step a) = some x') : Paces x' := by
  simp only [Followed.step] at hs
  split at hs
  · cases hs
  · rename_i hbegun
    obtain ⟨s', hs', rfl⟩ := Option.map_eq_some_iff.1 hs
    by_cases hact : ∃ name act who now took, a = .act name act who now took
    · obtain ⟨name, act, who, now, took, rfl⟩ := hact
      simp only [Sys.step, Option.some.injEq] at hs'
      subst hs'
      simpa only [Sys.concludes, Followed.movesLate, Bool.false_eq_true, if_false, Bool.or_false] using
        h.acts name act who now took hok
    · have hact' : ∀ name act who now took, a ≠ .act name act who now took :=
        fun name act who now took heq => hact ⟨name, act, who, now, took, heq⟩
      have hanswers : x.sys.answers a = none := by
        cases a <;> first | rfl | exact absurd rfl (hact' _ _ _ _ _)
      obtain ⟨hshape, hentries⟩ := standing_of_step h.sound hs' hact'
      have hstands : ∀ name ∈ x.paused, Stands s'.state name :=
        fun name hname => (h.stands name hname).of_entries hshape hentries
      have hsound : Sound s' := h.sound.step hs'
      have hlate : (x.late || x.movesLate a) = false := by
        rw [h.late, Bool.false_or]
        unfold Followed.movesLate
        split
        · rcases hb : x.begun with _ | b
          · rfl
          · rw [(h.begun b hb).1]
            rfl
        · rfl
      simp only [hanswers, Followed.told, Followed.goesOn]
      by_cases hc : x.sys.concludes a = true
      · -- the pick-up was under way, and began while its Subscription was not answered to be paused
        obtain ⟨b, hb⟩ : ∃ b, x.begun = some b := by
          rw [← Option.ne_none_iff_exists']
          simpa [hc] using hbegun
        obtain ⟨rfl, -⟩ := h.begun b hb
        simp only [hc, if_true]
        refine ⟨hsound, hstands, ?_, by simp, hlate⟩
        have hwaiting := h.waiting
        simp only [Followed.waiting, hb, Option.isSome_some, if_true] at hwaiting
        simpa only [Followed.waiting, Option.isSome_none, Bool.false_eq_true, if_false,
          carried_of_concludes hc hs'] using hwaiting
      · simp only [hc, Bool.false_eq_true, if_false]
        have hc' : x.sys.concludes a = false := by simpa using hc
        refine ⟨hsound, hstands, ?_, ?_, hlate⟩
        · rcases hb : x.begun with _ | b
          · -- what the step let go of is of a Subscription that is not paused
            have hwaiting := h.waiting
            simp only [Followed.waiting, hb, Option.isSome_none, Bool.false_eq_true, if_false] at hwaiting ⊢
            intro r hr hmem
            rcases carried_of_step h.sound hs' r hr with hr | ⟨e, he, hen, hactive⟩
            · exact hwaiting r hr hmem
            · have := (h.stands _ hmem).2 e he hen
              rw [hactive] at this
              cases this
          · have hloop := loop_of_atOne (h.begun b hb).2 hc' hs'
            have hwaiting := h.waiting
            simp only [Followed.waiting, hb, hloop] at hwaiting ⊢
            exact hwaiting
        · intro b hb
          obtain ⟨hfalse, one, rest, stalled, hl, hstalled⟩ := h.begun b hb
          refine ⟨hfalse, one, rest, stalled, ?_, hstalled⟩
          rw [loop_of_atOne (h.begun b hb).2 hc' hs']
          exact hl

/-- In every run in which a pause is answered only while the loop has let go of nothing of its Subscription that it has
not begun to pick up, every pause takes effect. -/
theorem takesEffect_of_clear {x : Followed} (h : Reach Followed.step Clear Followed.Opening x) : TakesEffect x := by
  suffices Paces x from this.takesEffect
  refine h.invariant (fun _ => paces_of_opening) ?_
  intro x m x' hp hok hs
  cases m with
  | begins => exact hp.begins hs
  | step a => exact hp.steps hok hs

/-! ### A batch of two, paused between batches and inside one -/

/-- Two Messages held and let go of to the loop in one batch, the first of them moved out of its queue. -/
def Followed.batch : List Move :=
  [.step (.act "orders" .pause "op" 1 true), .step (.decide 1 .publication [⟨11, "orders"⟩] []), .step (.write 1 .taken),
    .step (.published 1), .step (.decide 2 .publication [⟨12, "orders"⟩] []), .step (.write 2 .taken),
    .step (.published 2), .step (.act "orders" .resume "op" 2 true), .step (.ask 0), .step (.read true),
    .step (.relock 0), .step (.read true), .begins, .step (.land true)]

private theorem opening_followed : Followed.Opening ⟨Sys.quiet, [], none, false⟩ := ⟨opening_quiet, rfl, rfl, rfl⟩

/-- Paused once the batch is done with, the Subscription holds what comes and the loop reads none of it. -/
theorem takesEffect_betweenBatches : ∃ x, Reach Followed.step Clear Followed.Opening x ∧ TakesEffect x ∧
    x.paused = ["orders"] ∧ x.sys.state.map (fun e => (e.held, e.pickedUp)) = [(1, 2)] := by
  obtain ⟨x, hx, hp⟩ := Reach.exists_of_runWhere Followed.step Clear opening_followed
    (List.flatten [Followed.batch,
      [.step .moved, .begins, .step (.land true), .step .moved, .step (.act "orders" .pause "op" 3 true),
        .step (.decide 3 .publication [⟨13, "orders"⟩] []), .step (.write 3 .taken), .step (.published 3),
        .step (.ask 0)]])
    (fun x => decide (x.paused = ["orders"] ∧ x.sys.state.map (fun e => (e.held, e.pickedUp)) = [(1, 2)]))
    (by decide +kernel)
  exact ⟨x, hx, takesEffect_of_clear hx, of_decide_eq_true hp⟩

/-- Paused between the first Message's hand-on and what the pickup is told of it, the second is picked up all the
same. -/
theorem late_after_a_pause : ∃ x, Reach Followed.step Always Followed.Opening x ∧ ¬ TakesEffect x := by
  obtain ⟨x, hx, hp⟩ := Reach.exists_of_runWhere Followed.step Always opening_followed
    (List.flatten [Followed.batch, [.step (.act "orders" .pause "op" 3 true), .step .moved, .begins, .step (.land true)]])
    (fun x => x.late) (by decide +kernel)
  refine ⟨x, hx, fun h => ?_⟩
  rw [h.1] at hp
  cases hp

end Pickup
