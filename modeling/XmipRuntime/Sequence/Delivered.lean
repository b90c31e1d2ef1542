import XmipRuntime.Library.Framed
import XmipRuntime.Library.Grouped
import XmipRuntime.Sequence.Points

/-!
# A Send Port Group's deliveries

What a Publication opens (`src/ledger/publication.rs`, `opened`), and how the members of each delivery by a Send Port
Group naming a Correlation are told of it (`src/sequence/group.rs`, `delivered`): the Journeys opened one after the other
by one Subscription through one Group are one delivery.  Each of them works out the delivery's place for itself, of its
own Journey, in the Publication's write or once its Stream heads.

How routing evaluates a Message, the Send Ports a Subscription reaches and the identifiers minted are other parts' work.
-/

namespace Sequence

open Library
open WorkStep (KeyWord ResolvedSet textOf)

/-! ### What is opened -/

/-- What routing made of one Subscription. -/
structure Evaluation where
  subscription : String
  destination : Subscriber
  matched : Bool

/-- A Journey opened, by which Subscription, where it leads, and the Send Port Group it was opened through. -/
structure Opened where
  journey : Journey
  subscription : String
  dest : Subscriber
  group : Option String

/-- The Send Port Group a Journey of a Message routed to `destination` is opened through, where it is one. -/
def through : Subscriber → Option String
  | .sendGroup group => some group
  | .sendPort _ | .workProcess _ => none

/-- A Journey of `make`'s for every Subscription matched and every Send Port it reaches, in the order they were asked,
each led to its Port, the identifiers minted one after the other. -/
def openedBy (make : Nat → String → Journey) (reaches : String → Subscriber → List Subscriber) (ids : Nat → Nat)
    (evaluations : List Evaluation) : List Opened :=
  let reached := (evaluations.filter Evaluation.matched).flatMap fun e =>
    (reaches e.subscription e.destination).map fun dest => (e, dest)
  reached.zipIdx.map fun x =>
    let journey := make (ids x.2) x.1.1.subscription
    { journey := match x.1.2 with
        | .sendPort port => { journey with sendPort := some port }
        | .sendGroup _ | .workProcess _ => journey
      subscription := x.1.1.subscription
      dest := x.1.2
      group := through x.1.1.destination }

/-- A Journey a Subscription caused. -/
def Journey.matched (id : Nat) (subscription : String) : Journey :=
  { Journey.new id with subscription := some subscription }

def opened : (String → Subscriber → List Subscriber) → (Nat → Nat) → List Evaluation → List Opened :=
  openedBy Journey.matched

/-- The Journey told where its Stream came in. -/
def Opened.receivedAs (came : Received) (one : Opened) : Opened :=
  { one with journey := { one.journey with received := some came } }

/-! ### What is delivered -/

/-- What tells the deliveries apart: the Subscription and the Group. -/
def Opened.key (one : Opened) : String × Option String := (one.subscription, one.group)

/-- The sequence of the Group a Journey was opened through, where it names a Correlation. -/
def Opened.point (sends : Sends) (one : Opened) : Option Point := one.group.bind sends.groupPoint

def Opened.tell (delivery : GroupDelivery) (one : Opened) : Opened :=
  { one with journey := { one.journey with group := some delivery } }

/-- The delivery of a run of Journeys through the Group of `p`. -/
def deliveryOf (p : Point) (id : Nat) (run : List Opened) : GroupDelivery :=
  ⟨p.name, id, none, p.skips, run.map fun member => member.journey.id⟩

/-- The Journeys opened one after the other by one Subscription through one Group, told of their delivery where the Group
names a Correlation; `id` is the identifier minted for it. -/
def deliver (sends : Sends) (id : Nat) (run : List Opened) : List Opened :=
  match run.head?.bind (Opened.point sends) with
  | some p => run.map (Opened.tell (deliveryOf p id run))
  | none => run

/-- Each delivery told to its members; `mint i` is the identifier minted for that of the `i`th run. -/
def delivered (sends : Sends) (mint : Nat → Nat) (opened : List Opened) : List Opened :=
  (runsBy Opened.key opened).zipIdx.flatMap fun x => deliver sends (mint x.2) x.1

/-- What a Publication opens of a Stream that came in as `came`, its deliveries told. -/
def published (sends : Sends) (came : Received) (reaches : String → Subscriber → List Subscriber) (ids mint : Nat → Nat)
    (evaluations : List Evaluation) : List Opened :=
  delivered sends mint ((opened reaches ids evaluations).map (Opened.receivedAs came))

/-! ### Who heads a sequence -/

/-- What Xmip Storage reads of a sequence: who holds its first place, and how many places it says there are. -/
structure Head where
  first : Option Nat
  count : Nat

/-- Whether `member` holds the first place in the sequence `queue`, or was seen to before. -/
def heads (storage : Nat → Head) (headed : List (Nat × Nat)) (queue member : Nat) : Bool :=
  headed.contains (queue, member) ||
    match (storage queue).first with
    | some first => decide (first = member)
    | none => decide ((storage queue).count = 0)

/-- Whether a Journey's delivery heads its Group's sequence, where it is a member of one. -/
def groupHeads (storage : Nat → Head) (headed : List (Nat × Nat)) (j : Journey) : Bool :=
  match j.group.bind fun group => group.queue.map fun queue => (queue, group.delivery) with
  | some (queue, delivery) => heads storage headed queue delivery
  | none => true

/-! ### One delivery, one place -/

/-- A Group's delivery has one place: the Journeys one Subscription opened through a Group naming a Correlation are told
one delivery, of exactly them; no Journey is in two; and its members, whenever each takes the delivery's place, take it in
one queue and head it together. -/
structure OnePlace (c : Cluster) (sends : Sends) (promoted : Promoted) (l : List Opened) : Prop where
  told : ∀ o ∈ l, (o.point sends).isSome = true → ∃ d, o.journey.group = some d ∧ o.group = some d.name ∧
    d.members = (l.filter fun x => decide (x.key = o.key)).map fun x => x.journey.id
  untold : ∀ o ∈ l, o.point sends = none → o.journey.group = none
  apart : ∀ o ∈ l, ∀ o' ∈ l, ∀ d d', o.journey.group = some d → o'.journey.group = some d' →
    (d.delivery = d'.delivery ∨ ∃ id ∈ d.members, id ∈ d'.members) → d = d'
  place : ∀ o ∈ l, ∀ o' ∈ l, ∀ d, o.journey.group = some d → o'.journey.group = some d →
    ∀ state state' sequences sequences' j j' h h',
      groupPlaced c sends { o.journey with state := state, sequences := sequences } promoted = .ok (j, some h) →
      groupPlaced c sends { o'.journey with state := state', sequences := sequences' } promoted = .ok (j', some h') →
      h = h' ∧ ∀ storage headed, groupHeads storage headed j = groupHeads storage headed j'

/-- What one Subscription opened through a Group naming a Correlation stands together. -/
def StandTogether (sends : Sends) (l : List Opened) : Prop :=
  ∀ o ∈ l, (o.point sends).isSome = true → Together Opened.key o.key l

/-- Whether a Message and its Journey have every part of a Group's key. -/
def Keyed (p : Point) (promoted : Promoted) (o : Opened) : Prop :=
  ∀ key ∈ p.set.keys, key ≠ .sendPortGroup → (o.journey.value promoted (p.at_ o.journey) key).isSome = true

/-- Where a Group keys by the Send Port, what one Subscription opened through it with every part of the key goes by one. -/
def OneSendPort (sends : Sends) (promoted : Promoted) (l : List Opened) : Prop :=
  ∀ o ∈ l, ∀ o' ∈ l, o.key = o'.key → ∀ p, o.point sends = some p → .sendPort ∈ p.set.keys →
    Keyed p promoted o → Keyed p promoted o' → o.journey.sendPort = o'.journey.sendPort

section Telling

variable {sends : Sends} {mint : Nat → Nat} {l : List Opened}

theorem Opened.point_eq_of_key {o o' : Opened} (h : o.key = o'.key) : o.point sends = o'.point sends := by
  have hgroup : o.group = o'.group := congrArg Prod.snd h
  unfold Opened.point
  rw [hgroup]

/-- A Group's point is found by its name. -/
theorem Opened.group_eq_of_point {o : Opened} {p : Point} (h : o.point sends = some p) : o.group = some p.name := by
  obtain ⟨name, hname, hp⟩ := Option.bind_eq_some_iff.1 h
  have hfound := List.find?_some hp
  simp only [Bool.and_eq_true, decide_eq_true_eq] at hfound
  rw [hname, hfound.2]

/-- A run is told of one delivery, or of none. -/
theorem deliver_eq {run : List Opened} (hrun : run ∈ runsBy Opened.key l) (id : Nat) {o : Opened} (ho : o ∈ run) :
    deliver sends id run = (o.point sends).elim run fun p => run.map (Opened.tell (deliveryOf p id run)) := by
  cases hhead : run with
  | nil => simp [hhead] at ho
  | cons first rest =>
    have hpoint : o.point sends = first.point sends :=
      Opened.point_eq_of_key (key_eq_of_mem_run hrun ho (by simp [hhead]))
    rw [hpoint]
    unfold deliver
    cases h : first.point sends with
    | none => simp [h]
    | some p => simp [h]

/-- What each Journey is told leaves what it is told by as it was. -/
theorem map_delivered {γ : Type} (f : Opened → γ) (hf : ∀ d o, f (Opened.tell d o) = f o) :
    (delivered sends mint l).map f = l.map f := by
  have hdeliver : ∀ id run, (deliver sends id run).map f = run.map f := by
    intro id run
    unfold deliver
    cases run.head?.bind (Opened.point sends) with
    | none => rfl
    | some p =>
      rw [List.map_map]
      exact List.map_congr_left fun o _ => hf _ o
  have hruns : ∀ (runs : List (List Opened)) (n : Nat),
      ((runs.zipIdx n).flatMap fun x => deliver sends (mint x.2) x.1).map f = runs.flatten.map f := by
    intro runs
    induction runs with
    | nil => exact fun n => rfl
    | cons run runs ih =>
      intro n
      rw [List.zipIdx_cons, List.flatMap_cons, List.map_append, List.flatten_cons, List.map_append, hdeliver, ih]
  conv_rhs => rw [← flatten_runsBy Opened.key l]
  exact hruns (runsBy Opened.key l) 0

/-- What one Journey of a run becomes. -/
def Opened.told (sends : Sends) (id : Nat) (run : List Opened) (o : Opened) : Opened :=
  (o.point sends).elim o fun p => o.tell (deliveryOf p id run)

theorem mem_delivered {o' : Opened} :
    o' ∈ delivered sends mint l ↔
      ∃ i run, (runsBy Opened.key l)[i]? = some run ∧ ∃ o ∈ run, o' = Opened.told sends (mint i) run o := by
  unfold delivered
  rw [List.mem_flatMap]
  constructor
  · rintro ⟨⟨run, i⟩, hrun, ho'⟩
    have hget := List.mem_zipIdx_iff_getElem?.1 hrun
    have hmem := List.mem_of_getElem? hget
    refine ⟨i, run, hget, ?_⟩
    obtain ⟨first, hfirst⟩ := List.exists_mem_of_ne_nil run (List.ne_nil_of_mem_splitBy hmem)
    rw [deliver_eq hmem (mint i) hfirst] at ho'
    cases hpoint : first.point sends with
    | none =>
      rw [hpoint] at ho'
      refine ⟨o', ho', ?_⟩
      rw [Opened.told, Opened.point_eq_of_key (key_eq_of_mem_run hmem ho' hfirst), hpoint]
      rfl
    | some p =>
      rw [hpoint] at ho'
      obtain ⟨o, ho, rfl⟩ := List.mem_map.1 ho'
      refine ⟨o, ho, ?_⟩
      rw [Opened.told, Opened.point_eq_of_key (key_eq_of_mem_run hmem ho hfirst), hpoint]
      rfl
  · rintro ⟨i, run, hget, o, ho, rfl⟩
    refine ⟨(run, i), List.mem_zipIdx_iff_getElem?.2 hget, ?_⟩
    rw [deliver_eq (List.mem_of_getElem? hget) (mint i) ho, Opened.told]
    cases o.point sends with
    | none => exact ho
    | some p => exact List.mem_map_of_mem ho

/-- A Journey told a delivery is of the run the delivery is of. -/
theorem told_of_mem {o' : Opened} {d : GroupDelivery} (hfresh : ∀ o ∈ l, o.journey.group = none)
    (ho' : o' ∈ delivered sends mint l) (hd : o'.journey.group = some d) :
    ∃ i run o p, (runsBy Opened.key l)[i]? = some run ∧ o ∈ run ∧ o.point sends = some p ∧
      d = deliveryOf p (mint i) run ∧ o' = o.tell d := by
  obtain ⟨i, run, hget, o, ho, rfl⟩ := mem_delivered.1 ho'
  have hl : o ∈ l := by
    rw [← flatten_runsBy Opened.key l]
    exact List.mem_flatten.2 ⟨run, List.mem_of_getElem? hget, ho⟩
  rw [Opened.told] at hd ⊢
  cases hpoint : o.point sends with
  | none =>
    rw [hpoint] at hd
    rw [Option.elim_none, hfresh o hl] at hd
    cases hd
  | some p =>
    rw [hpoint] at hd
    cases hd
    exact ⟨i, run, o, p, hget, ho, hpoint, rfl, rfl⟩

end Telling

/-! ### The key each member reads -/

/-- A key tells the values apart. -/
theorem value_eq_of_textOf {value value' : KeyWord → Option String} {keys : List KeyWord} {text : String}
    (h : textOf value keys = some text) (h' : textOf value' keys = some text) : ∀ key ∈ keys, value key = value' key := by
  induction keys generalizing text with
  | nil => simp
  | cons key keys ih =>
    simp only [textOf] at h h'
    split at h
    · rename_i v rest hv hrest
      split at h'
      · rename_i w rest' hw hrest'
        have htexts : framed v ++ rest = framed w ++ rest' := by rw [framed, framed, Option.some.inj h, Option.some.inj h']
        obtain ⟨rfl, rfl⟩ := framed_inj htexts
        rw [List.forall_mem_cons]
        exact ⟨by rw [hv, hw], ih hrest hrest'⟩
      · cases h'
    · cases h

section Placing

variable {c : Cluster} {sends : Sends} {promoted : Promoted}

/-- What a member of a delivery takes: its place at the Group's point, under its own key. -/
theorem groupPlaced_ok_iff {j j' : Journey} {d : GroupDelivery} {p : Point} {h : Hold} (hd : j.group = some d)
    (hqueue : d.queue = none) (hp : sends.groupPoint d.name = some p) :
    groupPlaced c sends j promoted = .ok (j', some h) ↔
      ∃ key, textOf (j.value promoted (p.at_ j)) p.set.keys = some key ∧
        h = ⟨c.named (p.sequenceName c key), d.delivery, p.sequenceName c key⟩ ∧
        j' = { j with group := some { d with queue := some h.queue } } := by
  unfold groupPlaced
  simp only [hd, hqueue, hp]
  rw [map_answers_iff]
  unfold Point.place
  constructor
  · rintro ⟨place, hplace, heq⟩
    obtain ⟨key, hkey, rfl⟩ := map_answers_iff.1 hplace
    cases heq
    exact ⟨key, Cluster.text_ok_iff.1 hkey, rfl, rfl⟩
  · rintro ⟨key, hkey, rfl, rfl⟩
    exact ⟨_, map_answers_iff.2 ⟨key, Cluster.text_ok_iff.2 hkey, rfl⟩, rfl⟩

end Placing

/-! ### When a delivery has one place -/

/-- As they are opened: none told a delivery, each of its own identifier, and those of one Subscription through one Group
alike but for the Send Port. -/
structure Fresh (l : List Opened) : Prop where
  ungrouped : ∀ o ∈ l, o.journey.group = none
  nodup : (l.map fun o => o.journey.id).Nodup
  alike : ∀ o ∈ l, ∀ o' ∈ l, o.key = o'.key →
    { o.journey with id := o'.journey.id, sendPort := o'.journey.sendPort } = o'.journey

section Delivering

variable {c : Cluster} {sends : Sends} {promoted : Promoted} {mint : Nat → Nat} {l : List Opened}

theorem mem_of_mem_run {i : Nat} {run : List Opened} (hget : (runsBy Opened.key l)[i]? = some run) {o : Opened}
    (ho : o ∈ run) : o ∈ l := by
  rw [← flatten_runsBy Opened.key l]
  exact List.mem_flatten.2 ⟨run, List.mem_of_getElem? hget, ho⟩

/-- Each Journey opened is of a run. -/
theorem exists_run {o : Opened} (ho : o ∈ l) :
    ∃ (i : Nat) (run : List Opened), (runsBy Opened.key l)[i]? = some run ∧ o ∈ run := by
  rw [← flatten_runsBy Opened.key l, List.mem_flatten] at ho
  obtain ⟨run, hrun, ho⟩ := ho
  obtain ⟨i, hi⟩ := List.mem_iff_getElem?.1 hrun
  exact ⟨i, run, hi, ho⟩

/-- The Journeys of one key are the same once told. -/
theorem members_delivered (k : String × Option String) :
    (((delivered sends mint l).filter fun x => decide (x.key = k)).map fun x => x.journey.id) =
      (l.filter fun x => decide (x.key = k)).map fun x => x.journey.id := by
  have h := congrArg (fun l => (l.filter fun x => decide (x.1 = k)).map Prod.snd)
    (@map_delivered sends mint l _ (fun x => (x.key, x.journey.id)) fun _ _ => rfl)
  simpa [List.filter_map, Function.comp_def] using h

/-- A Journey of a run whose Group names a Correlation, once told. -/
theorem tell_mem_delivered {i : Nat} {run : List Opened} (hget : (runsBy Opened.key l)[i]? = some run) {o : Opened}
    (ho : o ∈ run) {p : Point} (hp : o.point sends = some p) :
    o.tell (deliveryOf p (mint i) run) ∈ delivered sends mint l :=
  mem_delivered.2 ⟨i, run, hget, o, ho, by rw [Opened.told, hp]; rfl⟩

/-- The members of a run's delivery are all of its Subscription and Group exactly where these stand together. -/
theorem members_deliveryOf_iff {i : Nat} {run : List Opened} (hget : (runsBy Opened.key l)[i]? = some run) {o : Opened}
    (ho : o ∈ run) {p : Point} {id : Nat} :
    (deliveryOf p id run).members =
        (((delivered sends mint l).filter fun x => decide (x.key = o.key)).map fun x => x.journey.id) ↔
      Together Opened.key o.key l := by
  rw [members_delivered, ← run_eq_filter_iff (List.mem_of_getElem? hget) ho fun x => x.journey.id]
  exact eq_comm

/-- Each is told one delivery, of exactly what its Subscription opened through its Group, exactly where these stand
together. -/
theorem told_iff_standTogether :
    (∀ o ∈ delivered sends mint l, (o.point sends).isSome = true → ∃ d, o.journey.group = some d ∧ o.group = some d.name ∧
      d.members = ((delivered sends mint l).filter fun x => decide (x.key = o.key)).map fun x => x.journey.id) ↔
      StandTogether sends l := by
  constructor
  · intro htold o ho hpoint
    obtain ⟨p, hp⟩ := Option.isSome_iff_exists.1 hpoint
    obtain ⟨i, run, hget, ho⟩ := exists_run ho
    obtain ⟨d, hd, -, hmembers⟩ := htold _ (tell_mem_delivered hget ho hp) hpoint
    cases hd
    exact (members_deliveryOf_iff hget ho).1 hmembers
  · intro htogether o' ho' hpoint
    obtain ⟨i, run, hget, o, ho, rfl⟩ := mem_delivered.1 ho'
    have hp : ∃ p, o.point sends = some p := by
      rw [Opened.told] at hpoint
      cases hp : o.point sends with
      | none =>
        rw [hp, Option.elim_none, hp] at hpoint
        cases hpoint
      | some p => exact ⟨p, rfl⟩
    obtain ⟨p, hp⟩ := hp
    rw [Opened.told, hp, Option.elim_some]
    refine ⟨_, rfl, Opened.group_eq_of_point hp, ?_⟩
    exact (members_deliveryOf_iff hget ho).2 (htogether o (mem_of_mem_run hget ho) (by rw [hp]; rfl))

/-- Each delivery has its own identifier and its own members. -/
theorem apart_delivered (hl : Fresh l) (hmint : Function.Injective mint) {o o' : Opened} {d d' : GroupDelivery}
    (ho : o ∈ delivered sends mint l) (ho' : o' ∈ delivered sends mint l) (hd : o.journey.group = some d)
    (hd' : o'.journey.group = some d') (h : d.delivery = d'.delivery ∨ ∃ id ∈ d.members, id ∈ d'.members) : d = d' := by
  obtain ⟨i, run, x, p, hget, hx, hp, rfl, rfl⟩ := told_of_mem hl.ungrouped ho hd
  obtain ⟨i', run', x', p', hget', hx', hp', rfl, rfl⟩ := told_of_mem hl.ungrouped ho' hd'
  have hi : i = i' := by
    rcases h with h | ⟨id, hmem, hmem'⟩
    · exact hmint h
    · by_contra hne
      have hnodup := hl.nodup
      rw [← flatten_runsBy Opened.key l, List.map_flatten, List.nodup_flatten] at hnodup
      have hdisjoint : ∀ {n n' : Nat} {r r' : List Opened}, n < n' → (runsBy Opened.key l)[n]? = some r →
          (runsBy Opened.key l)[n']? = some r' → id ∈ r.map (fun o => o.journey.id) → id ∉ r'.map fun o => o.journey.id := by
        intro n n' r r' hlt hr hr' hid hid'
        obtain ⟨hn, rfl⟩ := List.getElem?_eq_some_iff.1 hr
        obtain ⟨hn', rfl⟩ := List.getElem?_eq_some_iff.1 hr'
        exact List.pairwise_iff_getElem.1 (List.pairwise_map.1 hnodup.2) n n' hn hn' hlt hid hid'
      rcases Nat.lt_or_gt_of_ne hne with hlt | hlt
      · exact hdisjoint hlt hget hget' hmem hmem'
      · exact hdisjoint hlt hget' hget hmem' hmem
  subst hi
  obtain rfl : run = run' := Option.some.inj (hget.symm.trans hget')
  have hpoint := @Opened.point_eq_of_key sends _ _ (key_eq_of_mem_run (List.mem_of_getElem? hget) hx hx')
  rw [hp, hp'] at hpoint
  rw [Option.some.inj hpoint]

/-- Whatever a Group's key reads but the Send Port, the Journeys of one Subscription through it read alike. -/
theorem value_told {j j' : Journey} (h : { j with id := j'.id, sendPort := j'.sendPort } = j') (d : Option GroupDelivery)
    (state state' : Ledger.JourneyState) (sequences sequences' : List Ledger.Sequenced) (p : Point) {key : KeyWord}
    (hkey : key = .sendPort → j.sendPort = j'.sendPort) :
    ({ j with group := d, state := state, sequences := sequences } : Journey).value promoted
        (p.at_ { j with group := d, state := state, sequences := sequences }) key =
      ({ j' with group := d, state := state', sequences := sequences' } : Journey).value promoted
        (p.at_ { j' with group := d, state := state', sequences := sequences' }) key := by
  rw [← h]
  cases key with
  | sendPort => exact hkey rfl
  | receiveLocation | receivePort | workProcess | sendPortGroup | context name | journey value => rfl

/-- A member has every part of its Group's key exactly where its Journey did before it was told. -/
theorem keyed_iff {o : Opened} {p : Point} (d : GroupDelivery) (state : Ledger.JourneyState)
    (sequences : List Ledger.Sequenced) :
    (textOf (({ o.journey with group := some d, state := state, sequences := sequences } : Journey).value promoted
      (p.at_ { o.journey with group := some d, state := state, sequences := sequences })) p.set.keys).isSome = true ↔
      Keyed p promoted o := by
  rw [textOf_isSome]
  unfold Keyed
  have hat : p.at_ { o.journey with group := some d, state := state, sequences := sequences } = p.at_ o.journey := rfl
  rw [hat]
  have hvalue : ∀ key, (({ o.journey with group := some d, state := state, sequences := sequences } : Journey).value promoted
      (p.at_ o.journey) key).isSome = true ↔
        (key ≠ .sendPortGroup → (o.journey.value promoted (p.at_ o.journey) key).isSome = true) := by
    intro key
    cases key with
    | sendPortGroup => simp [Journey.value]
    | journey value => cases value <;> simp [Journey.value, Journey.contextValue]
    | receiveLocation | receivePort | workProcess | sendPort | context name => simp [Journey.value]
  exact forall₂_congr fun key _ => hvalue key

theorem Opened.groupPoint_of_point {o : Opened} {p : Point} (h : o.point sends = some p) :
    sends.groupPoint p.name = some p := by
  rwa [Opened.point, Opened.group_eq_of_point h, Option.bind_some] at h

/-- The members of one delivery are what a run told of it. -/
theorem members_of_delivered (hl : Fresh l) (hmint : Function.Injective mint) {o o' : Opened} {d : GroupDelivery}
    (ho : o ∈ delivered sends mint l) (ho' : o' ∈ delivered sends mint l) (hd : o.journey.group = some d)
    (hd' : o'.journey.group = some d) :
    ∃ x ∈ l, ∃ x' ∈ l, ∃ p, x.key = x'.key ∧ x.point sends = some p ∧ d.name = p.name ∧ d.queue = none ∧
      o = x.tell d ∧ o' = x'.tell d := by
  obtain ⟨i, run, x, p, hget, hx, hp, hof, hox⟩ := told_of_mem hl.ungrouped ho hd
  obtain ⟨i', run', x', p', hget', hx', -, hof', hox'⟩ := told_of_mem hl.ungrouped ho' hd'
  have hi : i = i' := hmint (congrArg GroupDelivery.delivery (hof.symm.trans hof'))
  subst hi
  obtain rfl : run = run' := Option.some.inj (hget.symm.trans hget')
  refine ⟨x, mem_of_mem_run hget hx, x', mem_of_mem_run hget' hx', p, ?_, hp, ?_, ?_, hox, hox'⟩
  · exact key_eq_of_mem_run (List.mem_of_getElem? hget) hx hx'
  · rw [hof]
    rfl
  · rw [hof]
    rfl

/-- Members that go by one Send Port where their Group keys by it take one place. -/
theorem place_of_oneSendPort (hl : Fresh l) (hmint : Function.Injective mint) (hport : OneSendPort sends promoted l)
    {o o' : Opened} {d : GroupDelivery} (ho : o ∈ delivered sends mint l) (ho' : o' ∈ delivered sends mint l)
    (hd : o.journey.group = some d) (hd' : o'.journey.group = some d) {state state' : Ledger.JourneyState}
    {sequences sequences' : List Ledger.Sequenced} {j j' : Journey} {h h' : Hold}
    (hj : groupPlaced c sends { o.journey with state := state, sequences := sequences } promoted = .ok (j, some h))
    (hj' : groupPlaced c sends { o'.journey with state := state', sequences := sequences' } promoted = .ok (j', some h')) :
    h = h' ∧ j.group = j'.group := by
  obtain ⟨x, hx, x', hx', p, hkey, hp, hname, hqueue, rfl, rfl⟩ := members_of_delivered hl hmint ho ho' hd hd'
  have hpoint : sends.groupPoint d.name = some p := by
    rw [hname]
    exact Opened.groupPoint_of_point hp
  obtain ⟨key, htext, rfl, rfl⟩ := (groupPlaced_ok_iff rfl hqueue hpoint).1 hj
  obtain ⟨key', htext', rfl, rfl⟩ := (groupPlaced_ok_iff rfl hqueue hpoint).1 hj'
  have hkeyed : Keyed p promoted x := (keyed_iff d state sequences).1 (Option.isSome_of_eq_some htext)
  have hkeyed' : Keyed p promoted x' := (keyed_iff d state' sequences').1 (Option.isSome_of_eq_some htext')
  have hsame := textOf_congr fun word hword =>
    @value_told promoted _ _ (hl.alike x hx x' hx' hkey) (some d) state state' sequences sequences' p word fun hsend =>
      hport x hx x' hx' hkey p hp (hsend ▸ hword) hkeyed hkeyed'
  have heq : key = key' := Option.some.inj (htext.symm.trans (hsame.trans htext'))
  subst heq
  exact ⟨rfl, rfl⟩

/-- Members that take one place go by one Send Port where their Group keys by it. -/
theorem oneSendPort_of_place (htogether : StandTogether sends l)
    (hplace : ∀ o ∈ delivered sends mint l, ∀ o' ∈ delivered sends mint l, ∀ d, o.journey.group = some d →
      o'.journey.group = some d → ∀ j j' h h', groupPlaced c sends o.journey promoted = .ok (j, some h) →
        groupPlaced c sends o'.journey promoted = .ok (j', some h') → h = h') :
    OneSendPort sends promoted l := by
  intro x hx x' hx' hkey p hp hsend hkeyed hkeyed'
  obtain ⟨i, run, hget, hxrun⟩ := exists_run hx
  -- nothing stands between the two, so they are of one run
  have hxrun' : x' ∈ run := by
    have hall := (run_eq_filter_iff (List.mem_of_getElem? hget) hxrun id).2 (htogether x hx (by rw [hp]; rfl))
    rw [List.map_id, List.map_id] at hall
    rw [← hall]
    exact List.mem_filter.2 ⟨hx', decide_eq_true hkey.symm⟩
  have hp' : x'.point sends = some p := by rw [← Opened.point_eq_of_key hkey, hp]
  let d := deliveryOf p (mint i) run
  have hpoint : sends.groupPoint d.name = some p := Opened.groupPoint_of_point hp
  obtain ⟨key, htext⟩ := Option.isSome_iff_exists.1 ((keyed_iff d x.journey.state x.journey.sequences).2 hkeyed)
  obtain ⟨key', htext'⟩ := Option.isSome_iff_exists.1 ((keyed_iff d x'.journey.state x'.journey.sequences).2 hkeyed')
  have hholds := hplace _ (tell_mem_delivered hget hxrun hp) _ (tell_mem_delivered hget hxrun' hp') d rfl rfl _ _ _ _
    ((groupPlaced_ok_iff rfl rfl hpoint).2 ⟨key, htext, rfl, rfl⟩)
    ((groupPlaced_ok_iff rfl rfl hpoint).2 ⟨key', htext', rfl, rfl⟩)
  have hnames : p.sequenceName c key = p.sequenceName c key' := congrArg Hold.name hholds
  have hkeys : key = key' := (String.append_right_inj _).1 hnames
  subst hkeys
  exact value_eq_of_textOf htext htext' .sendPort hsend

end Delivering

/-! ### What a Publication opens -/

section Publications

variable {make : Nat → String → Journey} {reaches : String → Subscriber → List Subscriber} {ids : Nat → Nat}
  {evaluations : List Evaluation}

/-- What is opened is as it was made, but for the Send Port it is led to. -/
theorem journey_of_mem_openedBy {o : Opened} (ho : o ∈ openedBy make reaches ids evaluations) :
    ∃ k port, o.journey = { make (ids k) o.subscription with sendPort := port } := by
  unfold openedBy at ho
  obtain ⟨x, -, rfl⟩ := List.mem_map.1 ho
  refine ⟨x.2, ?_⟩
  dsimp only
  split
  · exact ⟨_, rfl⟩
  · exact ⟨_, rfl⟩
  · exact ⟨_, rfl⟩

theorem ids_openedBy (hmake : ∀ id s, (make id s).id = id) :
    ∃ n, (openedBy make reaches ids evaluations).map (fun o => o.journey.id) = (List.range n).map ids := by
  unfold openedBy
  generalize ((evaluations.filter Evaluation.matched).flatMap fun e =>
    (reaches e.subscription e.destination).map fun dest => (e, dest)) = reached
  refine ⟨reached.length, ?_⟩
  rw [List.range_eq_range', ← List.zipIdx_map_snd 0 reached, List.map_map, List.map_map]
  refine List.map_congr_left fun x _ => ?_
  simp only [Function.comp]
  split
  · exact hmake ..
  · exact hmake ..
  · exact hmake ..

/-- Journeys made alike for one Subscription, whatever the identifier, are fresh as they are opened. -/
theorem fresh_openedBy (hids : Function.Injective ids) (hmake : ∀ id s, make id s = { make 0 s with id := id })
    (hgroup : ∀ id s, (make id s).group = none) : Fresh (openedBy make reaches ids evaluations) where
  ungrouped := by
    intro o ho
    obtain ⟨k, port, hj⟩ := journey_of_mem_openedBy ho
    rw [hj]
    exact hgroup ..
  nodup := by
    obtain ⟨n, hn⟩ := @ids_openedBy make reaches ids evaluations fun id s => by rw [hmake]
    rw [hn]
    exact List.Nodup.map hids List.nodup_range
  alike := by
    intro o ho o' ho' hkey
    obtain ⟨k, port, hj⟩ := journey_of_mem_openedBy ho
    obtain ⟨k', port', hj'⟩ := journey_of_mem_openedBy ho'
    have hsubscription : o.subscription = o'.subscription := congrArg Prod.fst hkey
    rw [hj, hj', hsubscription, hmake (ids k), hmake (ids k')]

theorem map_receivedAs_openedBy (came : Received) :
    (openedBy make reaches ids evaluations).map (Opened.receivedAs came) =
      openedBy (fun id s => { make id s with received := some came }) reaches ids evaluations := by
  unfold openedBy
  rw [List.map_map]
  refine List.map_congr_left fun x _ => ?_
  simp only [Function.comp, Opened.receivedAs]
  split <;> rfl

/-- A delivery by a Group has one place exactly where what its Subscription opened through it stands together, and goes by
one Send Port where the Group keys by that. -/
theorem onePlace_iff {c : Cluster} {sends : Sends} {mint : Nat → Nat} (hids : Function.Injective ids)
    (hmint : Function.Injective mint) (came : Received) (promoted : Promoted) :
    OnePlace c sends promoted (published sends came reaches ids mint evaluations) ↔
      StandTogether sends ((opened reaches ids evaluations).map (Opened.receivedAs came)) ∧
      OneSendPort sends promoted ((opened reaches ids evaluations).map (Opened.receivedAs came)) := by
  have hfresh : Fresh ((opened reaches ids evaluations).map (Opened.receivedAs came)) := by
    unfold opened
    rw [map_receivedAs_openedBy]
    exact fresh_openedBy hids (fun _ _ => rfl) fun _ _ => rfl
  unfold published
  generalize (opened reaches ids evaluations).map (Opened.receivedAs came) = l at hfresh ⊢
  constructor
  · intro h
    have htogether := told_iff_standTogether.1 h.told
    exact ⟨htogether, oneSendPort_of_place htogether fun o ho o' ho' d hd hd' j j' p p' hj hj' =>
      (h.place o ho o' ho' d hd hd' _ _ _ _ j j' p p' hj hj').1⟩
  · rintro ⟨htogether, hport⟩
    refine ⟨told_iff_standTogether.2 htogether, ?_, ?_, ?_⟩
    · intro o' ho' hpoint
      obtain ⟨i, run, hget, o, ho, rfl⟩ := mem_delivered.1 ho'
      rw [Opened.told] at hpoint ⊢
      cases hp : o.point sends with
      | none => exact hfresh.ungrouped o (mem_of_mem_run hget ho)
      | some p =>
        rw [hp] at hpoint
        exact absurd (hp.symm.trans hpoint) (by simp)
    · exact fun o ho o' ho' d d' hd hd' h => apart_delivered hfresh hmint ho ho' hd hd' h
    · intro o ho o' ho' d hd hd' state state' sequences sequences' j j' h h' hj hj'
      obtain ⟨hholds, hgroups⟩ := place_of_oneSendPort hfresh hmint hport ho ho' hd hd' hj hj'
      refine ⟨hholds, fun storage headed => ?_⟩
      rw [groupHeads, groupHeads, hgroups]

end Publications

/-- The Group "Spread" of two Send Ports, its Correlation of `keys`. -/
private def spread (keys : List KeyWord) : Sends :=
  ⟨[⟨"Spread", ["A", "B"]⟩], [], [⟨.sendPortGroup, "Spread", ⟨"PerClient", keys⟩, .block⟩]⟩

private def spreadCluster : Cluster := ⟨"xmip:///c", String.length, fun _ => "a part"⟩

private def spreadCame : Received := ⟨"In", "Orders", 42, [], false⟩

private def bothPorts : String → Subscriber → List Subscriber := fun _ _ => [.sendPort "A", .sendPort "B"]

private def toSpread : List Evaluation := [⟨"orders", .sendGroup "Spread", true⟩]

/-- A Group keyed by a value of the Message. -/
theorem onePlace_perClient :
    OnePlace spreadCluster (spread [.context "Client"]) [("Client", "7")]
      (published (spread [.context "Client"]) spreadCame bothPorts id id toSpread) := by
  refine (onePlace_iff Function.injective_id Function.injective_id spreadCame _).2 ⟨?_, ?_⟩
  · intro o ho _ i j m _ _ x y z _ hy _ _ _
    have hall : ∀ o ∈ (opened bothPorts id toSpread).map (Opened.receivedAs spreadCame), o.key = ("orders", some "Spread") := by
      decide +kernel
    rw [hall o ho, hall y (List.mem_of_getElem? hy)]
  · intro o ho o' _ _ p hp hkeys
    have hpoints : ∀ p ∈ (spread [.context "Client"]).points, ¬ .sendPort ∈ p.set.keys := by decide +kernel
    exact absurd hkeys (hpoints p (List.mem_of_find?_eq_some (Opened.groupPoint_of_point hp)))

/-- A Group keyed by the Send Port: the two members of one delivery take its place in two queues, each the first in its
own. -/
theorem delivery_split_by_port :
    ¬ OnePlace spreadCluster (spread [.sendPort]) []
      (published (spread [.sendPort]) spreadCame bothPorts id id toSpread) := by
  intro h
  let member (id : Nat) (port : String) : Opened := ⟨{ Journey.matched id "orders" with
    received := some spreadCame, sendPort := some port, group := some ⟨"Spread", 0, none, false, [0, 1]⟩ },
    "orders", .sendPort port, some "Spread"⟩
  have hmembers : published (spread [.sendPort]) spreadCame bothPorts id id toSpread = [member 0 "A", member 1 "B"] := by
    rfl
  rw [hmembers] at h
  have hplaces := h.place (member 0 "A") (by simp) (member 1 "B") (by simp) ⟨"Spread", 0, none, false, [0, 1]⟩ rfl rfl
    .active .active [] [] _ _ _ _ rfl rfl
  have hnames := congrArg Hold.name hplaces.1
  revert hnames
  decide +kernel

end Sequence
