import XmipRuntime.Sequence.Late

/-!
# What an opened Journey comes under

A Journey is opened by a Publication, by a Work Process's publish or by a Replay.  The first two tell the members of each
delivery by a Send Port Group naming a Correlation of it; a Replay does not.  What each Journey holds, or must first take,
of places at the point it is bound for is the same however it was opened, since none goes while it waits for them.
-/

namespace Sequence

open Library
open Ledger (JourneyState)

/-! ### What a Journey comes under -/

/-- Whether a send pass lets a Message go: it waits for no place, its Stream, its delivery and it head every sequence. -/
def goes (sends : Sends) (storage : Nat → Head) (headed : List (Nat × Nat)) (dest : Subscriber) (j : Journey) : Bool :=
  !sends.waitsForPlaces j dest && streamHeads storage headed j && groupHeads storage headed j &&
    j.sequences.all fun sequenced => heads storage headed sequenced.queue j.id

/-- What a Journey may be once it was opened: in any state, its places taken late. -/
inductive Later (c : Cluster) (sends : Sends) (dest : Subscriber) (j : Journey) : Journey → Prop
  | opened : Later c sends dest j j
  | state {j' : Journey} (state : JourneyState) : Later c sends dest j j' → Later c sends dest j { j' with state := state }
  | takes {j' j'' : Journey} {promoted : Promoted} {kept : Bool} {places : List Hold} : Later c sends dest j j' →
      takeLate c sends promoted dest kept j' = .ok (some (j'', places)) → Later c sends dest j j''

/-- A place in the sequence of each point, in order. -/
def Holds (c : Cluster) (points : List Point) (j : Journey) : Prop :=
  List.Forall₂ (fun sequenced p => ∃ key, sequenced.queue = c.named (p.sequenceName c key)) j.sequences points

/-- What a Journey opened beside the others of `l` comes under: where it was opened through a Group naming a Correlation,
a delivery with all that its Subscription opened with it, without which it does not go; and a place, held or to be taken
first, in every sequence of the point it is bound for. -/
structure ComesUnder (c : Cluster) (sends : Sends) (l : List Opened) (o : Opened) : Prop where
  member : ∀ p, o.point sends = some p → ∃ d, o.journey.group = some d ∧ d.name = p.name ∧ o.journey.id ∈ d.members ∧
    ∀ first part last, l = first ++ (part ++ last) → o ∈ part → (∀ x ∈ part, x.key = o.key) → ∀ x ∈ part,
      x.journey.id ∈ d.members ∧ x.journey.group.map GroupDelivery.delivery = some d.delivery
  waits : ∀ p, o.point sends = some p → ∀ j, Later c sends o.dest o.journey j → ∀ storage headed,
    goes sends storage headed o.dest j = true →
      ∃ d queue, j.group = some d ∧ d.name = p.name ∧ d.queue = some queue ∧ heads storage headed queue d.delivery = true
  places : ∀ j, Later c sends o.dest o.journey j → sends.waitsForPlaces j o.dest = true ∨ Holds c (sends.pointsOf o.dest) j

/-- No Subscription matched leads to a Group naming a Correlation. -/
def Ungrouped (sends : Sends) (reaches : String → Subscriber → List Subscriber) (evaluations : List Evaluation) : Prop :=
  ∀ e ∈ evaluations, e.matched = true → reaches e.subscription e.destination ≠ [] →
    (through e.destination).bind sends.groupPoint = none

/-! ### What taking places leaves of a Journey -/

/-- A delivery, whichever queue its place is in. -/
def GroupDelivery.apart (d : GroupDelivery) : GroupDelivery := { d with queue := none }

section Places

variable {c : Cluster} {sends : Sends} {promoted : Promoted}

theorem Point.place_queue {p : Point} {member : Nat} {j : Journey} {place : Hold}
    (h : p.place c member j promoted = .ok place) : ∃ key, place.queue = c.named (p.sequenceName c key) := by
  obtain ⟨key, -, rfl⟩ := map_answers_iff.1 h
  exact ⟨key, rfl⟩

/-- Taking the places of points adds a place at each. -/
theorem placed_ok {points : List Point} {j j' : Journey} {holds : List Hold}
    (h : placed c points j promoted = .ok (j', holds)) :
    ∃ taken, j' = { j with sequences := j.sequences ++ taken } ∧
      List.Forall₂ (fun sequenced p => ∃ key, sequenced.queue = c.named (Point.sequenceName c p key)) taken points := by
  induction points generalizing j j' holds with
  | nil =>
    cases h
    exact ⟨[], by simp, .nil⟩
  | cons p points ih =>
    obtain ⟨place, hplace, h⟩ := answers_iff.1 h
    obtain ⟨rest, hrest, h⟩ := answers_iff.1 h
    cases h
    obtain ⟨taken, hj, hall⟩ := ih hrest
    refine ⟨⟨place.queue, p.skips⟩ :: taken, ?_, .cons (Point.place_queue hplace) hall⟩
    rw [hj]
    simp

/-- Taking the delivery's place tells its queue alone, and takes one where the Journey waits for it. -/
theorem groupPlaced_ok {j j' : Journey} {hold : Option Hold} (h : groupPlaced c sends j promoted = .ok (j', hold)) :
    j' = { j with group := j'.group } ∧ j'.group.map GroupDelivery.apart = j.group.map GroupDelivery.apart ∧
      sends.waitsForGroup j = hold.isSome ∧ (hold = none → j' = j) := by
  unfold groupPlaced at h
  unfold Sends.waitsForGroup
  cases hgroup : j.group with
  | none =>
    rw [hgroup] at h
    cases h
    exact ⟨rfl, by rw [hgroup], rfl, fun _ => rfl⟩
  | some group =>
    rw [hgroup] at h
    rw [Option.any_some]
    cases hqueue : group.queue with
    | some queue =>
      simp only [hqueue] at h
      cases h
      exact ⟨rfl, by rw [hgroup], rfl, fun _ => rfl⟩
    | none =>
      cases hp : sends.groupPoint group.name with
      | none =>
        simp only [hqueue, hp] at h
        cases h
        exact ⟨rfl, by rw [hgroup], rfl, fun _ => rfl⟩
      | some p =>
        simp only [hqueue, hp] at h
        obtain ⟨place, -, h⟩ := map_answers_iff.1 h
        cases h
        exact ⟨rfl, rfl, rfl, nofun⟩

/-- What late taking leaves of a Journey: who it is and its delivery, and no place at its points or one at each. -/
structure Kept (c : Cluster) (sends : Sends) (dest : Subscriber) (j j' : Journey) : Prop where
  id : j'.id = j.id
  group : j'.group.map GroupDelivery.apart = j.group.map GroupDelivery.apart
  sequences : j'.sequences = [] ∨ Holds c (sends.pointsOf dest) j'

theorem takeLate_kept {dest : Subscriber} {kept : Bool} {j j' : Journey} {holds : List Hold}
    (hj : j.sequences = [] ∨ Holds c (sends.pointsOf dest) j)
    (h : takeLate c sends promoted dest kept j = .ok (some (j', holds))) : Kept c sends dest j j' := by
  unfold takeLate at h
  split at h
  · rename_i hwaits
    obtain ⟨⟨told, hold⟩, hgroup, h⟩ := answers_iff.1 h
    obtain ⟨⟨taken, places⟩, htaken, h⟩ := answers_iff.1 h
    obtain ⟨htold, hapart, hgroups, hnone⟩ := groupPlaced_ok hgroup
    have heq : taken = j' := by
      cases kept with
      | true => exact congrArg Prod.fst (Option.some.inj (Except.ok.inj h))
      | false => cases h
    subst heq
    cases hold with
    | some place =>
      cases htaken
      rw [htold]
      exact ⟨rfl, hapart, hj⟩
    | none =>
      obtain rfl := hnone rfl
      obtain ⟨added, rfl, hall⟩ := placed_ok htaken
      -- it waits for its points' places, so it holds none yet
      have hempty : told.sequences = [] := by
        unfold Sends.waitsForPlaces at hwaits
        rw [hgroups, Option.isSome_none, Bool.false_or, Bool.and_eq_true] at hwaits
        exact List.isEmpty_iff.1 hwaits.1
      refine ⟨rfl, rfl, .inr ?_⟩
      rw [hempty]
      exact hall
  · cases h
    exact ⟨rfl, rfl, hj⟩

/-- What a Journey is later is what it was opened as, its places taken. -/
theorem kept_of_later {dest : Subscriber} {j j' : Journey} (hj : j.sequences = [] ∨ Holds c (sends.pointsOf dest) j)
    (h : Later c sends dest j j') : Kept c sends dest j j' := by
  induction h with
  | opened => exact ⟨rfl, rfl, hj⟩
  | state state _ ih => exact ⟨ih.id, ih.group, ih.sequences⟩
  | takes _ htakes ih =>
    have hkept := takeLate_kept ih.sequences htakes
    exact ⟨hkept.id.trans ih.id, hkept.group.trans ih.group, hkept.sequences⟩

end Places

/-! ### What is written of what was opened -/

/-- What taking places leaves of what was opened. -/
def Opened.tag (o : Opened) : (String × Option String) × Subscriber × Nat × Option GroupDelivery :=
  (o.key, o.dest, o.journey.id, o.journey.group.map GroupDelivery.apart)

section Written

variable {c : Cluster} {sends : Sends} {promoted : Promoted} {l l' : List Opened}

theorem places_ok {holds : List Hold} (h : places c sends promoted l = .ok (l', holds)) :
    l'.map Opened.tag = l.map Opened.tag ∧
      ((∀ o ∈ l, o.journey.sequences = []) → ∀ o ∈ l', Holds c (sends.pointsOf o.dest) o.journey) := by
  induction l generalizing l' holds with
  | nil =>
    cases h
    exact ⟨rfl, fun _ o ho => absurd ho List.not_mem_nil⟩
  | cons one l ih =>
    obtain ⟨⟨told, hold⟩, hgroup, h⟩ := answers_iff.1 h
    obtain ⟨⟨taken, places⟩, htaken, h⟩ := answers_iff.1 h
    obtain ⟨rest, hrest, h⟩ := answers_iff.1 h
    cases h
    obtain ⟨htags, hholds⟩ := ih hrest
    obtain ⟨htold, hapart, -, -⟩ := groupPlaced_ok hgroup
    obtain ⟨added, rfl, hall⟩ := placed_ok htaken
    constructor
    · rw [List.map_cons, List.map_cons, htags]
      congr 1
      rw [Opened.tag, Opened.tag, ← hapart, htold]
      rfl
    · intro hempty o ho
      rw [List.forall_mem_cons] at hempty
      rcases List.mem_cons.1 ho with rfl | ho
      · have hsequences : told.sequences = [] := by
          rw [htold]
          exact hempty.1
        unfold Holds
        rw [hsequences]
        exact hall
      · exact hholds hempty.2 o ho

/-- What is opened, as it is written, is what was told. -/
theorem opens_ok {way : Way} {reaches : String → Subscriber → List Subscriber} {ids mint : Nat → Nat}
    {evaluations : List Evaluation} {holds : List Hold}
    (h : way.opens c sends reaches ids mint evaluations promoted = .ok (l, holds)) :
    l.map Opened.tag = (way.tells sends reaches ids mint evaluations).map Opened.tag ∧
      ((∀ o ∈ way.tells sends reaches ids mint evaluations, o.journey.sequences = []) →
        ∀ o ∈ l, o.journey.sequences = [] ∨ Holds c (sends.pointsOf o.dest) o.journey) := by
  unfold Way.opens at h
  cases way with
  | publication came =>
    simp only at h
    split at h
    · obtain ⟨htags, hholds⟩ := places_ok h
      exact ⟨htags, fun hempty o ho => .inr (hholds hempty o ho)⟩
    · cases h
      exact ⟨rfl, fun hempty o ho => .inl (hempty o ho)⟩
  | workProcess parent =>
    obtain ⟨htags, hholds⟩ := places_ok h
    exact ⟨htags, fun hempty o ho => .inr (hholds hempty o ho)⟩
  | replay =>
    cases h
    exact ⟨rfl, fun hempty o ho => .inl (hempty o ho)⟩

/-- A Journey told takes no place. -/
theorem sequences_told {mint : Nat → Nat} (hl : ∀ o ∈ l, o.journey.sequences = []) :
    ∀ o ∈ delivered sends mint l, o.journey.sequences = [] := by
  intro o ho
  have hmem : o.journey.sequences ∈ (delivered sends mint l).map fun o => o.journey.sequences := List.mem_map_of_mem ho
  rw [map_delivered _ fun _ _ => rfl] at hmem
  obtain ⟨x, hx, heq⟩ := List.mem_map.1 hmem
  rw [← heq]
  exact hl x hx

theorem sequences_openedBy {make : Nat → String → Journey} {reaches : String → Subscriber → List Subscriber}
    {ids : Nat → Nat} {evaluations : List Evaluation} (hmake : ∀ id s, (make id s).sequences = []) :
    ∀ o ∈ openedBy make reaches ids evaluations, o.journey.sequences = [] := by
  intro o ho
  obtain ⟨k, port, hj⟩ := journey_of_mem_openedBy ho
  rw [hj]
  exact hmake ..

theorem sequences_tells (way : Way) (reaches : String → Subscriber → List Subscriber) (ids mint : Nat → Nat)
    (evaluations : List Evaluation) :
    ∀ o ∈ way.tells sends reaches ids mint evaluations, o.journey.sequences = [] := by
  cases way with
  | publication came =>
    refine sequences_told ?_
    unfold opened
    rw [map_receivedAs_openedBy]
    exact sequences_openedBy fun _ _ => rfl
  | workProcess parent => exact sequences_told (sequences_openedBy fun _ _ => rfl)
  | replay => exact sequences_openedBy fun _ _ => rfl

end Written

/-! ### Members of a delivery -/

section Members

variable {c : Cluster} {sends : Sends} {mint : Nat → Nat} {l fresh : List Opened}

/-- What was opened through a Group naming a Correlation, as it is written: its run, and the delivery it was told. -/
theorem told_of_tag (htags : l.map Opened.tag = (delivered sends mint fresh).map Opened.tag) {o : Opened} (ho : o ∈ l)
    {p : Point} (hp : o.point sends = some p) :
    ∃ (i : Nat) (run : List Opened) (x : Opened) (d : GroupDelivery), (runsBy Opened.key fresh)[i]? = some run ∧ x ∈ run ∧
      x.point sends = some p ∧ x.key = o.key ∧ x.journey.id = o.journey.id ∧ o.journey.group = some d ∧
      d.apart = deliveryOf p (mint i) run := by
  have hmem : o.tag ∈ l.map Opened.tag := List.mem_map_of_mem ho
  rw [htags] at hmem
  obtain ⟨o', ho', htag⟩ := List.mem_map.1 hmem
  obtain ⟨i, run, hget, x, hx, rfl⟩ := mem_delivered.1 ho'
  have hkey : x.key = o.key := by
    have h := congrArg Prod.fst htag
    cases hpoint : x.point sends with
    | none => rwa [Opened.told, hpoint] at h
    | some p => rwa [Opened.told, hpoint] at h
  have hxp : x.point sends = some p := by rw [Opened.point_eq_of_key hkey, hp]
  rw [Opened.told, hxp, Option.elim_some] at htag
  have hgroup : some (deliveryOf p (mint i) run) = o.journey.group.map GroupDelivery.apart :=
    congrArg (fun tag => tag.2.2.2) htag
  obtain ⟨d, hd, hapart⟩ := Option.map_eq_some_iff.1 hgroup.symm
  exact ⟨i, run, x, d, hget, hx, hxp, hkey, congrArg (fun tag => tag.2.2.1) htag, hd, hapart⟩

/-- What was opened keeps its key and its identifier as it is written. -/
theorem map_key_id (htags : l.map Opened.tag = (delivered sends mint fresh).map Opened.tag) :
    l.map (fun o => (o.key, o.journey.id)) = fresh.map fun o => (o.key, o.journey.id) := by
  have h := congrArg (List.map fun tag => (tag.1, tag.2.2.1)) htags
  rw [List.map_map, List.map_map] at h
  exact h.trans (map_delivered (fun o => (o.key, o.journey.id)) fun _ _ => rfl)

/-- The members of a delivery are all that were opened with each other. -/
theorem member_of_delivered (hfresh : Fresh fresh) (hmint : Function.Injective mint)
    (htags : l.map Opened.tag = (delivered sends mint fresh).map Opened.tag) {o : Opened} (ho : o ∈ l) {p : Point}
    (hp : o.point sends = some p) :
    ∃ d, o.journey.group = some d ∧ d.name = p.name ∧ o.journey.id ∈ d.members ∧
      ∀ first part last, l = first ++ (part ++ last) → o ∈ part → (∀ x ∈ part, x.key = o.key) → ∀ x ∈ part,
        x.journey.id ∈ d.members ∧ x.journey.group.map GroupDelivery.delivery = some d.delivery := by
  obtain ⟨i, run, y, d, hget, hy, hyp, hykey, hyid, hd, hapart⟩ := told_of_tag htags ho hp
  have hmembers : d.members = run.map fun x => x.journey.id := congrArg GroupDelivery.members hapart
  have hdelivery : d.delivery = mint i := congrArg GroupDelivery.delivery hapart
  have hinj : ∀ {a b : Opened}, a ∈ fresh → b ∈ fresh → a.journey.id = b.journey.id → a = b := by
    intro a b ha hb heq
    exact List.inj_on_of_nodup_map hfresh.nodup ha hb heq
  refine ⟨d, hd, congrArg GroupDelivery.name hapart, ?_, ?_⟩
  · rw [hmembers, ← hyid]
    exact List.mem_map_of_mem hy
  · intro first part last hl hopart hpart x hx
    -- the stretch as it was before it was told
    have hsplit := map_key_id htags
    rw [hl, List.map_append, List.map_append] at hsplit
    obtain ⟨first', rest', hfresh', hfirst', hrest'⟩ := List.map_eq_append_iff.1 hsplit.symm
    obtain ⟨part', last', rfl, hpart', -⟩ := List.map_eq_append_iff.1 hrest'
    have hof : ∀ z ∈ part, ∃ z' ∈ part', z'.key = z.key ∧ z'.journey.id = z.journey.id := by
      intro z hz
      have hmem : (z.key, z.journey.id) ∈ part.map fun o => (o.key, o.journey.id) :=
        List.mem_map.2 ⟨z, hz, rfl⟩
      rw [← hpart'] at hmem
      obtain ⟨z', hz', heq⟩ := List.mem_map.1 hmem
      exact ⟨z', hz', congrArg Prod.fst heq, congrArg Prod.snd heq⟩
    have hinfresh : ∀ {z' : Opened}, z' ∈ part' → z' ∈ fresh := by
      intro z' hz'
      rw [hfresh']
      simp [hz']
    obtain ⟨y', hy', -, hyid'⟩ := hof o hopart
    obtain rfl : y' = y := hinj (hinfresh hy') (mem_of_mem_run hget hy) (hyid'.trans hyid.symm)
    obtain ⟨x', hx', hxkey', hxid'⟩ := hof x hx
    have hxrun : x' ∈ run := by
      refine mem_run_of_stretch (List.Nodup.of_map _ hfresh.nodup) (List.mem_of_getElem? hget) hfresh' hy' hy hx' ?_
      intro z' hz'
      have hmem : (z'.key, z'.journey.id) ∈ part'.map fun o => (o.key, o.journey.id) := List.mem_map.2 ⟨z', hz', rfl⟩
      rw [hpart'] at hmem
      obtain ⟨z, hz, heq⟩ := List.mem_map.1 hmem
      have hzkey : z.key = z'.key := congrArg Prod.fst heq
      rw [← hzkey, hpart z hz, hykey]
    have hxmem : x.journey.id ∈ run.map fun x => x.journey.id := by
      rw [← hxid']
      exact List.mem_map_of_mem hxrun
    refine ⟨by rwa [hmembers], ?_⟩
    have hxp : x.point sends = some p := by rw [Opened.point_eq_of_key (hpart x hx), hp]
    have hxl : x ∈ l := by
      rw [hl]
      simp [hx]
    obtain ⟨i', run', w, d', hget', hw, hwp, -, hwid, hd', hapart'⟩ := told_of_tag htags hxl hxp
    have hsame := apart_delivered hfresh hmint (tell_mem_delivered hget hy hyp) (tell_mem_delivered hget' hw hwp) rfl rfl
      (.inr ⟨x.journey.id, hxmem, by rw [← hwid]; exact List.mem_map_of_mem hw⟩)
    rw [hd', Option.map_some, hdelivery]
    congr 1
    exact (congrArg GroupDelivery.delivery hapart').trans (congrArg GroupDelivery.delivery hsame).symm

end Members

/-! ### However it was opened -/

section Ways

variable {c : Cluster} {sends : Sends} {way : Way} {reaches : String → Subscriber → List Subscriber} {ids mint : Nat → Nat}
  {evaluations : List Evaluation} {promoted : Promoted} {l : List Opened} {holds : List Hold}

/-- A member of a delivery goes only while the delivery heads its Group's sequence. -/
theorem heads_of_goes {j : Journey} {d : GroupDelivery} {p : Point} {dest : Subscriber} {storage : Nat → Head}
    {headed : List (Nat × Nat)} (hd : j.group = some d) (hp : sends.groupPoint d.name = some p)
    (h : goes sends storage headed dest j = true) :
    ∃ queue, d.queue = some queue ∧ heads storage headed queue d.delivery = true := by
  unfold goes at h
  simp only [Bool.and_eq_true, Bool.not_eq_true'] at h
  obtain ⟨⟨⟨hwaits, -⟩, hheads⟩, -⟩ := h
  cases hqueue : d.queue with
  | none =>
    have hgroup : sends.waitsForGroup j = true := by
      simp [Sends.waitsForGroup, hd, hqueue, hp]
    simp [Sends.waitsForPlaces, hgroup] at hwaits
  | some queue =>
    refine ⟨queue, rfl, ?_⟩
    simpa [groupHeads, hd, hqueue] using hheads

/-- A Journey that has taken none of its places, or all of them, waits for them or holds them. -/
theorem waits_or_holds {j : Journey} {dest : Subscriber} (h : j.sequences = [] ∨ Holds c (sends.pointsOf dest) j) :
    sends.waitsForPlaces j dest = true ∨ Holds c (sends.pointsOf dest) j := by
  rcases h with hnone | hholds
  · cases hpoints : sends.pointsOf dest with
    | nil =>
      refine .inr ?_
      unfold Holds
      rw [hnone]
      exact .nil
    | cons p points => simp [Sends.waitsForPlaces, hnone, hpoints]
  · exact .inr hholds

/-- Each way but a Replay tells its deliveries, of Journeys fresh as they are opened. -/
theorem tells_delivered (hids : Function.Injective ids) (hway : way ≠ .replay) :
    ∃ fresh, Fresh fresh ∧ way.tells sends reaches ids mint evaluations = delivered sends mint fresh := by
  cases way with
  | publication came =>
    refine ⟨_, ?_, rfl⟩
    unfold opened
    rw [map_receivedAs_openedBy]
    exact fresh_openedBy hids (fun _ _ => rfl) fun _ _ => rfl
  | workProcess parent => exact ⟨_, fresh_openedBy hids (fun _ _ => rfl) fun _ _ => rfl, rfl⟩
  | replay => exact absurd rfl hway

/-- A Replay opens nothing through a Group naming a Correlation where no Subscription matched leads to one. -/
theorem ungrouped_iff :
    Ungrouped sends reaches evaluations ↔ ∀ o ∈ opened reaches ids evaluations, o.point sends = none := by
  constructor
  · intro h o ho
    unfold opened openedBy at ho
    obtain ⟨⟨⟨e, dest⟩, k⟩, hx, rfl⟩ := List.mem_map.1 ho
    have hmem := List.mem_flatMap.1 (List.mem_of_getElem? (List.mem_zipIdx_iff_getElem?.1 hx))
    obtain ⟨e', he', hdest⟩ := hmem
    obtain ⟨dest', hdest', heq⟩ := List.mem_map.1 hdest
    cases heq
    obtain ⟨hmem, hmatched⟩ := List.mem_filter.1 he'
    exact h e hmem hmatched (List.ne_nil_of_mem hdest')
  · intro h e he hmatched hreaches
    obtain ⟨dest, hdest⟩ := List.exists_mem_of_ne_nil _ hreaches
    have hmem : (e, dest) ∈ (evaluations.filter Evaluation.matched).flatMap fun e =>
        (reaches e.subscription e.destination).map fun dest => (e, dest) :=
      List.mem_flatMap.2 ⟨e, List.mem_filter.2 ⟨he, hmatched⟩, List.mem_map.2 ⟨dest, hdest, rfl⟩⟩
    obtain ⟨k, hk⟩ := List.mem_iff_getElem?.1 hmem
    exact h _ (List.mem_map.2 ⟨((e, dest), k), List.mem_zipIdx_iff_getElem?.2 hk, rfl⟩)

/-- A Journey comes under its sequences however it was opened, exactly where it is not a Replay that opened one through a
Group naming a Correlation. -/
theorem comesUnder_iff (hids : Function.Injective ids) (hmint : Function.Injective mint)
    (h : way.opens c sends reaches ids mint evaluations promoted = .ok (l, holds)) :
    (∀ o ∈ l, ComesUnder c sends l o) ↔ (way = .replay → Ungrouped sends reaches evaluations) := by
  obtain ⟨htags, hsequences⟩ := opens_ok h
  have hsequences := hsequences (sequences_tells way reaches ids mint evaluations)
  constructor
  · rintro hunder rfl
    cases h
    rw [@ungrouped_iff sends reaches ids evaluations]
    intro o ho
    by_contra hpoint
    obtain ⟨p, hp⟩ := Option.ne_none_iff_exists'.1 hpoint
    obtain ⟨d, hd, -⟩ := (hunder o ho).member p hp
    obtain ⟨k, port, hj⟩ := journey_of_mem_openedBy ho
    rw [hj] at hd
    cases hd
  · intro hreplay o ho
    have hmember : ∀ p, o.point sends = some p → ∃ d, o.journey.group = some d ∧ d.name = p.name ∧
        o.journey.id ∈ d.members ∧ ∀ first part last, l = first ++ (part ++ last) → o ∈ part →
          (∀ x ∈ part, x.key = o.key) → ∀ x ∈ part,
            x.journey.id ∈ d.members ∧ x.journey.group.map GroupDelivery.delivery = some d.delivery := by
      intro p hp
      by_cases hway : way = .replay
      · subst hway
        cases h
        have hnone := (@ungrouped_iff sends reaches ids evaluations).1 (hreplay rfl) o ho
        rw [hp] at hnone
        cases hnone
      · obtain ⟨fresh, hfresh, htells⟩ := @tells_delivered sends way reaches ids mint evaluations hids hway
        rw [htells] at htags
        exact member_of_delivered hfresh hmint htags ho hp
    refine ⟨hmember, ?_, ?_⟩
    · intro p hp j hj storage headed hgoes
      obtain ⟨d, hd, hname, -⟩ := hmember p hp
      have hgroup := (kept_of_later (hsequences o ho) hj).group
      rw [hd, Option.map_some] at hgroup
      obtain ⟨d', hd', hapart⟩ := Option.map_eq_some_iff.1 hgroup
      have hname' : d'.name = p.name := (congrArg GroupDelivery.name hapart).trans hname
      have hpoint : sends.groupPoint d'.name = some p := by
        rw [hname']
        exact Opened.groupPoint_of_point hp
      obtain ⟨queue, hqueue, hheads⟩ := heads_of_goes hd' hpoint hgoes
      exact ⟨d', queue, hd', hname', hqueue, hheads⟩
    · intro j hj
      exact waits_or_holds (kept_of_later (hsequences o ho) hj).sequences

end Ways

/-- The Group "Copies" of two Send Ports naming a Correlation, and its Subscription. -/
private def copies : Sends :=
  ⟨[⟨"Copies", ["A", "B"]⟩], [], [⟨.sendPortGroup, "Copies", ⟨"PerClient", [.context "Client"]⟩, .block⟩]⟩

private def copiesCluster : Cluster := ⟨"xmip:///c", String.length, fun _ => "a part"⟩

private def eachCopy : String → Subscriber → List Subscriber := fun _ _ => [.sendPort "A", .sendPort "B"]

private def toCopies : List Evaluation := [⟨"orders", .sendGroup "Copies", true⟩]

/-- A Publication through a Group naming a Correlation. -/
theorem comesUnder_publication :
    ∃ l holds, (Way.publication ⟨"In", "Orders", 42, [], false⟩).opens copiesCluster copies eachCopy id id toCopies
      [("Client", "7")] = .ok (l, holds) ∧ ∀ o ∈ l, ComesUnder copiesCluster copies l o := by
  have hopens : ∃ written, (Way.publication ⟨"In", "Orders", 42, [], false⟩).opens copiesCluster copies eachCopy id id
      toCopies [("Client", "7")] = .ok written := ⟨_, rfl⟩
  obtain ⟨⟨l, holds⟩, h⟩ := hopens
  exact ⟨l, holds, h, (comesUnder_iff Function.injective_id Function.injective_id h).2 nofun⟩

/-- A Replay of the same Message: its two Journeys know of no delivery. -/
theorem replay_tells_no_delivery :
    ¬ ∀ l holds, Way.replay.opens copiesCluster copies eachCopy id id toCopies [("Client", "7")] = .ok (l, holds) →
      ∀ o ∈ l, ComesUnder copiesCluster copies l o := by
  intro h
  have hfirst := h _ _ rfl _ (List.mem_cons_self ..)
  obtain ⟨d, hd, -⟩ := hfirst.member _ rfl
  cases hd

end Sequence
