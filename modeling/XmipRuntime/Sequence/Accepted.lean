import XmipRuntime.Library.Run
import XmipRuntime.Sequence.Opened

/-!
# Messages accepted, and their places

Whether a Message has every part of the keys its destination is sequenced by is found out where its places are taken: in
the write that opens its Journeys, which a missing part refuses (`src/ledger/publication.rs`), or late, by the scan that
takes it up, which drops what it is told (`src/send_step/scan.rs`, `placed`).  The pass that follows ends behind, as it
waits for its places, and its settling asks for the queue to be read at once where its Stream and its delivery head
(`src/send_step/dispatch.rs`, `settle`).

Other nodes and steps may make anything of the sequences meanwhile.  Claims are this node's while it has a Message; that
one is lost is a write that takes nothing.
-/

namespace Sequence

open Library
open WorkStep (KeyWord textOf)

/-! ### Scans, passes and settling -/

/-- A Message in its destination's queue. -/
structure Entry where
  journey : Journey
  dest : Subscriber
  promoted : Promoted

/-- A node's destinations: what waits in their queues, which of it a pass has, which passes ended behind, the queues asked
for at once, the sequences and which of them were seen headed. -/
structure Node where
  waiting : List Entry
  passing : List Nat
  behind : List Nat
  asked : List Subscriber
  queues : Queues
  headed : List (Nat × Nat)

inductive Act where
  | opens (way : Way) (ids mint : Nat → Nat) (evaluations : List Evaluation) (promoted : Promoted) (lined : List Nat)
  | reads (dest : Subscriber)
  | takes (id : Nat) (kept : Bool)
  | ends (id : Nat)
  | settles (id : Nat)
  | others (queues : Queues) (headed : List (Nat × Nat))

def Node.entry (s : Node) (id : Nat) : Option Entry := s.waiting.find? fun e => decide (e.journey.id = id)

/-- Whether what is bound for `dest` may be a member of a delivery by a Group naming a Correlation. -/
def Sends.grouped (sends : Sends) : Subscriber → Bool
  | .sendPort port => sends.groups.any fun group => group.sendPorts.contains port && (sends.groupPoint group.name).isSome
  | .sendGroup _ | .workProcess _ => false

/-- Whether a scan claims what is bound for `dest` itself, in its queue's order. -/
def Sends.sequenced (sends : Sends) (dest : Subscriber) : Bool := !(sends.pointsOf dest).isEmpty || sends.grouped dest

/-- What the scan that claims an entry makes of its places, no answer where it does not take them; a failure it is told of
is dropped. -/
def Entry.taken (c : Cluster) (sends : Sends) (headed : List (Nat × Nat)) (queues : Queues) (kept : Bool) (e : Entry) :
    Headed :=
  if sends.sequenced e.dest && sends.waitsForPlaces e.journey e.dest then
    heading c sends e.promoted e.dest kept headed e.journey queues
  else ⟨e.journey, queues, none⟩

/-- The places a Message sent lets go of. -/
def Queues.letGo (queues : Queues) (j : Journey) : Queues := fun queue =>
  if j.sequences.any fun sequenced => decide (sequenced.queue = queue) then
    (queues queue).filter fun member => decide (member ≠ j.id)
  else queues queue

/-- Whether a pass that ended behind has its queue read at once. -/
def Node.asks (s : Node) (j : Journey) : Bool :=
  j.sequences.isEmpty && streamHeads s.queues.read s.headed j && groupHeads s.queues.read s.headed j

def Node.step (c : Cluster) (sends : Sends) (reaches : String → Subscriber → List Subscriber) (s : Node) :
    Act → Option Node
  | .opens way ids mint evaluations promoted lined =>
    match way.opens c sends reaches ids mint evaluations promoted with
    | .ok (opened, holds) => some { s with
        waiting := s.waiting ++ opened.map fun o => ⟨o.journey, o.dest, promoted⟩
        passing := s.passing ++ lined
        queues := holds.foldl Queues.take s.queues }
    | .error _ => some s
  | .reads dest => some { s with asked := s.asked.filter fun asked => decide (asked ≠ dest) }
  | .takes id kept =>
    match s.entry id with
    | some e =>
      if s.passing.contains id || s.behind.contains id then none
      else
        let taken := e.taken c sends s.headed s.queues kept
        some { s with
          waiting := s.waiting.map fun x => if x.journey.id = id then { e with journey := taken.journey } else x
          passing := id :: s.passing
          queues := taken.queues }
    | none => none
  | .ends id =>
    match s.entry id with
    | some e =>
      if s.passing.contains id then
        if goes sends s.queues.read s.headed e.dest e.journey then
          some { s with
            waiting := s.waiting.filter fun x => decide (x.journey.id ≠ id)
            passing := s.passing.filter fun other => decide (other ≠ id)
            queues := s.queues.letGo e.journey }
        else some { s with passing := s.passing.filter fun other => decide (other ≠ id), behind := id :: s.behind }
      else none
    | none => none
  | .settles id =>
    match s.entry id with
    | some e =>
      if s.behind.contains id then
        some { s with
          behind := s.behind.filter fun other => decide (other ≠ id)
          asked := if s.asks e.journey && !s.asked.contains e.dest then e.dest :: s.asked else s.asked }
      else none
    | none => none
  | .others queues headed => some { s with queues := queues, headed := headed }

/-- A node nothing waits in. -/
def Node.start : Node := ⟨[], [], [], [], fun _ => [], []⟩

/-! ### What can take its places -/

/-- The sequences a Message passes on its way: its Group's for its delivery, and those of its destination. -/
def Sends.pointsAt (sends : Sends) (j : Journey) (dest : Subscriber) : List Point :=
  (j.group.bind fun d => sends.groupPoint d.name).toList ++ sends.pointsOf dest

/-- Whether a Message and its Journey have every part of the keys it is sequenced by. -/
def Whole (sends : Sends) (promoted : Promoted) (dest : Subscriber) (j : Journey) : Prop :=
  ∀ p ∈ sends.pointsAt j dest, ∀ key ∈ p.set.keys, (j.value promoted (p.at_ j) key).isSome = true

/-- No place of a Message that waits is refused for a part of its key, and the scan of one that waits for its places takes
them, finds it behind another or has lost its claim, and never fails. -/
structure Placeable (c : Cluster) (sends : Sends) (s : Node) : Prop where
  place : ∀ e ∈ s.waiting, ∀ p ∈ sends.pointsAt e.journey e.dest, ∀ member,
    ∃ place, p.place c member e.journey e.promoted = .ok place
  scan : ∀ e ∈ s.waiting, sends.waitsForPlaces e.journey e.dest = true → ∀ kept,
    ∃ placing, (e.taken c sends s.headed s.queues kept).answer = some (.ok placing)

/-- Whether a way takes no place in its write: a Publication whose Stream holds a sequence end to end, a Replay. -/
def Way.late : Way → Bool
  | .publication came => !came.sequences.isEmpty
  | .workProcess _ => false
  | .replay => true

/-- Where places are taken late, what is opened has every part of the keys it is sequenced by, and a member of a Group's
delivery is led to a Send Port of such a Group. -/
def Act.carries (sends : Sends) (reaches : String → Subscriber → List Subscriber) : Act → Prop
  | .opens way ids mint evaluations promoted _ =>
    way.late = true → ∀ o ∈ way.tells sends reaches ids mint evaluations,
      Whole sends promoted o.dest o.journey ∧ (sends.waitsForGroup o.journey = true → sends.grouped o.dest = true)
  | .reads _ | .takes _ _ | .ends _ | .settles _ | .others _ _ => True

/-! ### Parts of keys -/

section Keys

variable {c : Cluster} {sends : Sends} {promoted : Promoted}

/-- A place is given where every part of its key is there. -/
theorem Point.place_ok_iff {p : Point} {member : Nat} {j : Journey} :
    (∃ place, p.place c member j promoted = .ok place) ↔
      ∀ key ∈ p.set.keys, (j.value promoted (p.at_ j) key).isSome = true := by
  rw [← textOf_isSome, Option.isSome_iff_exists]
  constructor
  · rintro ⟨place, h⟩
    obtain ⟨key, hkey, -⟩ := map_answers_iff.1 h
    exact ⟨key, Cluster.text_ok_iff.1 hkey⟩
  · rintro ⟨key, hkey⟩
    exact ⟨_, map_answers_iff.2 ⟨key, Cluster.text_ok_iff.2 hkey, rfl⟩⟩

/-- What a Journey becomes as it is written: its state, its places and its delivery's queue alone change. -/
def Like (j j' : Journey) : Prop :=
  (∃ state group sequences, j' = { j with state := state, group := group, sequences := sequences }) ∧
    j'.group.map GroupDelivery.apart = j.group.map GroupDelivery.apart

theorem Like.refl (j : Journey) : Like j j := ⟨⟨_, _, _, rfl⟩, rfl⟩

theorem Like.trans {j j' j'' : Journey} (h : Like j j') (h' : Like j' j'') : Like j j'' := by
  obtain ⟨⟨state, group, sequences, rfl⟩, hgroup⟩ := h
  obtain ⟨⟨state', group', sequences', rfl⟩, hgroup'⟩ := h'
  exact ⟨⟨_, _, _, rfl⟩, hgroup'.trans hgroup⟩

theorem Like.groupName {j j' : Journey} (h : Like j j') : j'.group.map GroupDelivery.name = j.group.map GroupDelivery.name := by
  have hname := congrArg (Option.map GroupDelivery.name) h.2
  rw [Option.map_map, Option.map_map] at hname
  exact hname

/-- A key reads nothing that changes. -/
theorem Like.value {j j' : Journey} (h : Like j j') (p : Point) (key : KeyWord) :
    j'.value promoted (p.at_ j') key = j.value promoted (p.at_ j) key := by
  have hname := h.groupName
  obtain ⟨⟨state, group, sequences, rfl⟩, -⟩ := h
  cases key with
  | sendPortGroup => exact hname
  | journey value => cases value <;> rfl
  | receiveLocation | receivePort | workProcess | sendPort | context name => rfl

theorem Like.pointsAt {j j' : Journey} (h : Like j j') (dest : Subscriber) :
    sends.pointsAt j' dest = sends.pointsAt j dest := by
  have hbind : ∀ j : Journey, (j.group.bind fun d => sends.groupPoint d.name) =
      (j.group.map GroupDelivery.name).bind sends.groupPoint := by
    intro j
    rw [Option.bind_map]
    rfl
  rw [Sends.pointsAt, Sends.pointsAt, hbind, hbind, h.groupName]

theorem Like.whole {j j' : Journey} (h : Like j j') {dest : Subscriber} (hj : Whole sends promoted dest j) :
    Whole sends promoted dest j' := by
  intro p hp key hkey
  rw [h.pointsAt] at hp
  rw [h.value]
  exact hj p hp key hkey

/-- The places at points are taken where every part of their keys is there. -/
theorem placed_ok_iff {points : List Point} {j : Journey} :
    (∃ taken, placed c points j promoted = .ok taken) ↔
      ∀ p ∈ points, ∀ key ∈ p.set.keys, (j.value promoted (p.at_ j) key).isSome = true := by
  induction points generalizing j with
  | nil => simp [placed]
  | cons p points ih =>
    rw [List.forall_mem_cons, ← @Point.place_ok_iff c promoted p j.id j]
    have hrest : ∀ place : Hold,
        (∃ taken, placed c points { j with sequences := j.sequences ++ [⟨place.queue, p.skips⟩] } promoted = .ok taken) ↔
        ∀ p ∈ points, ∀ key ∈ p.set.keys, (j.value promoted (p.at_ j) key).isSome = true := by
      intro place
      rw [ih]
      have hlike : Like j { j with sequences := j.sequences ++ [⟨place.queue, p.skips⟩] } := ⟨⟨_, _, _, rfl⟩, rfl⟩
      refine forall₂_congr fun q _ => forall₂_congr fun key _ => ?_
      rw [hlike.value]
    constructor
    · rintro ⟨taken, h⟩
      obtain ⟨place, hplace, h⟩ := answers_iff.1 h
      obtain ⟨rest, h, -⟩ := answers_iff.1 h
      exact ⟨⟨place, hplace⟩, (hrest place).1 ⟨rest, h⟩⟩
    · rintro ⟨⟨place, hplace⟩, hkeys⟩
      obtain ⟨rest, h⟩ := (hrest place).2 hkeys
      exact ⟨_, answers_iff.2 ⟨place, hplace, answers_iff.2 ⟨rest, h, rfl⟩⟩⟩

/-- A delivery's place is taken where every part of its key is there. -/
theorem groupPlaced_answers_iff {j : Journey} :
    (∃ taken, groupPlaced c sends j promoted = .ok taken) ↔
      ∀ d, j.group = some d → d.queue = none → ∀ p, sends.groupPoint d.name = some p →
        ∀ key ∈ p.set.keys, (j.value promoted (p.at_ j) key).isSome = true := by
  unfold groupPlaced
  cases hgroup : j.group with
  | none => simp
  | some d =>
    cases hqueue : d.queue with
    | some queue => simp [hqueue]
    | none =>
      cases hp : sends.groupPoint d.name with
      | none => simp [hqueue, hp]
      | some p =>
        simp only [hqueue, hp]
        rw [← hgroup]
        constructor
        · rintro ⟨taken, h⟩ d' hd' - p' hp'
          obtain ⟨place, hplace, -⟩ := map_answers_iff.1 h
          rw [hgroup] at hd'
          cases hd'
          cases hp.symm.trans hp'
          exact Point.place_ok_iff.1 ⟨place, hplace⟩
        · intro hkeys
          obtain ⟨place, hplace⟩ := (@Point.place_ok_iff c promoted p d.delivery j).2 (hkeys d hgroup hqueue p hp)
          exact ⟨_, map_answers_iff.2 ⟨place, hplace, rfl⟩⟩

/-- A Journey whose delivery's place was asked for waits for it no more. -/
theorem waitsForGroup_groupPlaced {j j' : Journey} {hold : Option Hold}
    (h : groupPlaced c sends j promoted = .ok (j', hold)) : sends.waitsForGroup j' = false := by
  obtain ⟨-, -, hwaits, hnone⟩ := groupPlaced_ok h
  cases hold with
  | none =>
    obtain rfl := hnone rfl
    exact hwaits
  | some place =>
    unfold groupPlaced at h
    split at h
    · split at h
      · obtain ⟨place, -, h⟩ := map_answers_iff.1 h
        cases h
        rfl
      · cases h
    · cases h

theorem like_groupPlaced {j j' : Journey} {hold : Option Hold} (h : groupPlaced c sends j promoted = .ok (j', hold)) :
    Like j j' := by
  obtain ⟨heq, hgroup, -, -⟩ := groupPlaced_ok h
  exact ⟨⟨_, _, _, heq⟩, hgroup⟩

theorem like_placed {points : List Point} {j j' : Journey} {holds : List Hold}
    (h : placed c points j promoted = .ok (j', holds)) : Like j j' := by
  obtain ⟨taken, rfl, -⟩ := placed_ok h
  exact ⟨⟨_, _, _, rfl⟩, rfl⟩

/-- The parts of a Message's keys, by the Group's and by the destination's. -/
theorem whole_iff {dest : Subscriber} {j : Journey} :
    Whole sends promoted dest j ↔
      (∀ d, j.group = some d → ∀ p, sends.groupPoint d.name = some p →
        ∀ key ∈ p.set.keys, (j.value promoted (p.at_ j) key).isSome = true) ∧
      ∀ p ∈ sends.pointsOf dest, ∀ key ∈ p.set.keys, (j.value promoted (p.at_ j) key).isSome = true := by
  unfold Whole Sends.pointsAt
  rw [List.forall_mem_append]
  refine and_congr_left fun _ => ?_
  cases j.group with
  | none => simp
  | some d => cases sends.groupPoint d.name <;> simp

/-- Places are taken in the write that opens what waits for them exactly where all of it has every part of its keys. -/
theorem places_ok_iff {l : List Opened} (hqueues : ∀ o ∈ l, ∀ d, o.journey.group = some d → d.queue = none) :
    (∃ taken, places c sends promoted l = .ok taken) ↔ ∀ o ∈ l, Whole sends promoted o.dest o.journey := by
  induction l with
  | nil => simp [places]
  | cons one l ih =>
    rw [List.forall_mem_cons] at hqueues
    rw [List.forall_mem_cons, ← ih hqueues.2, whole_iff]
    constructor
    · rintro ⟨taken, h⟩
      obtain ⟨⟨told, hold⟩, hgroup, h⟩ := answers_iff.1 h
      obtain ⟨⟨at_, holds⟩, hplaced, h⟩ := answers_iff.1 h
      obtain ⟨rest, hrest, -⟩ := answers_iff.1 h
      refine ⟨⟨?_, ?_⟩, rest, hrest⟩
      · exact fun d hd => groupPlaced_answers_iff.1 ⟨_, hgroup⟩ d hd (hqueues.1 d hd)
      · intro p hp key hkey
        rw [← (like_groupPlaced hgroup).value]
        exact placed_ok_iff.1 ⟨_, hplaced⟩ p hp key hkey
    · rintro ⟨⟨hgroups, hpoints⟩, rest, hrest⟩
      obtain ⟨⟨told, hold⟩, hgroup⟩ := (@groupPlaced_answers_iff c sends promoted one.journey).2 fun d hd _ => hgroups d hd
      obtain ⟨taken, hplaced⟩ := (@placed_ok_iff c promoted (sends.pointsOf one.dest) told).2 fun p hp key hkey => by
        rw [(like_groupPlaced hgroup).value]
        exact hpoints p hp key hkey
      exact ⟨_, answers_iff.2 ⟨_, hgroup, answers_iff.2 ⟨_, hplaced, answers_iff.2 ⟨_, hrest, rfl⟩⟩⟩⟩

end Keys

/-! ### The loop that takes places late -/

section Heading

variable {c : Cluster} {sends : Sends} {promoted : Promoted} {dest : Subscriber} {kept : Bool} {headed : List (Nat × Nat)}

/-- How many writes a Message still takes its places in: its Group's, and its destination's. -/
def Sends.toTake (sends : Sends) (dest : Subscriber) (j : Journey) : Nat :=
  (sends.waitsForGroup j).toNat + (j.sequences.isEmpty && !(sends.pointsOf dest).isEmpty).toNat

theorem takeLate_answers {j : Journey} (hj : Whole sends promoted dest j) :
    ∃ taken, takeLate c sends promoted dest kept j = .ok taken := by
  unfold takeLate
  split
  · obtain ⟨hgroups, hpoints⟩ := whole_iff.1 hj
    obtain ⟨⟨told, hold⟩, hgroup⟩ := (@groupPlaced_answers_iff c sends promoted j).2 fun d hd _ => hgroups d hd
    have htaken : ∃ taken, takesNow c sends promoted dest (told, hold) = .ok taken := by
      cases hold with
      | some place => exact ⟨_, rfl⟩
      | none =>
        refine placed_ok_iff.2 fun p hp key hkey => ?_
        rw [(like_groupPlaced hgroup).value]
        exact hpoints p hp key hkey
    obtain ⟨taken, htaken⟩ := htaken
    exact ⟨_, answers_iff.2 ⟨_, hgroup, answers_iff.2 ⟨_, htaken, rfl⟩⟩⟩
  · exact ⟨_, rfl⟩

/-- Each write leaves one less to be taken, and never the Group's. -/
theorem takeLate_less {j j' : Journey} {holds : List Hold} (hwaits : sends.waitsForPlaces j dest = true)
    (h : takeLate c sends promoted dest kept j = .ok (some (j', holds))) :
    Like j j' ∧ sends.toTake dest j' < sends.toTake dest j ∧ sends.waitsForGroup j' = false := by
  unfold takeLate at h
  rw [if_pos hwaits] at h
  obtain ⟨⟨told, hold⟩, hgroup, h⟩ := answers_iff.1 h
  obtain ⟨⟨taken, places⟩, htaken, h⟩ := answers_iff.1 h
  have heq : taken = j' := by
    cases kept with
    | true => exact congrArg Prod.fst (Option.some.inj (Except.ok.inj h))
    | false => cases h
  subst heq
  have hlike := like_groupPlaced hgroup
  have hno := waitsForGroup_groupPlaced hgroup
  obtain ⟨htold, -, hwas, hnone⟩ := groupPlaced_ok hgroup
  unfold Sends.toTake
  cases hold with
  | some place =>
    cases htaken
    have hsequences : told.sequences = j.sequences := by rw [htold]
    refine ⟨hlike, ?_, hno⟩
    rw [hno, hwas, hsequences]
    simp
  | none =>
    obtain rfl := hnone rfl
    obtain ⟨added, rfl, hall⟩ := placed_ok htaken
    refine ⟨⟨⟨_, _, _, rfl⟩, rfl⟩, ?_, hno⟩
    unfold Sends.waitsForPlaces at hwaits
    rw [hno, Bool.false_or] at hwaits
    have hadded : added ≠ [] := by
      have hlength := hall.length_eq
      intro hnil
      rw [hnil, List.length_nil] at hlength
      have hnone : sends.pointsOf dest = [] := List.length_eq_zero_iff.1 hlength.symm
      simp [hnone] at hwaits
    have hstill : sends.waitsForGroup { told with sequences := told.sequences ++ added } = false := hno
    rw [hstill, hno, hwaits]
    simp [hadded]

/-- The loop answers before it has gone on too long, and never that a part is missing. -/
theorem headingFrom_answers {fuel : Nat} {j : Journey} {queues : Queues} (hj : Whole sends promoted dest j)
    (hfuel : sends.toTake dest j < fuel) :
    ∃ placing, (headingFrom c sends promoted dest kept headed fuel j queues).answer = some (.ok placing) := by
  induction fuel generalizing j queues with
  | zero => omega
  | succ fuel ih =>
    unfold headingFrom
    split
    · split
      · rename_i hwaits
        obtain ⟨taken, htaken⟩ := @takeLate_answers c sends promoted dest kept j hj
        rw [htaken]
        cases taken with
        | none => exact ⟨_, rfl⟩
        | some taken =>
          obtain ⟨hlike, hless, -⟩ := takeLate_less hwaits htaken
          exact ih (hlike.whole hj) (by omega)
      · exact ⟨_, rfl⟩
    · exact ⟨_, rfl⟩

/-- What the loop leaves of a Journey is it, its places taken. -/
theorem like_headingFrom {fuel : Nat} {j : Journey} {queues : Queues} :
    Like j (headingFrom c sends promoted dest kept headed fuel j queues).journey ∧
      (sends.waitsForGroup (headingFrom c sends promoted dest kept headed fuel j queues).journey = true →
        sends.waitsForGroup j = true) := by
  induction fuel generalizing j queues with
  | zero => exact ⟨Like.refl j, fun h => h⟩
  | succ fuel ih =>
    unfold headingFrom
    split
    · split
      · rename_i hwaits
        split
        · exact ⟨Like.refl j, fun h => h⟩
        · exact ⟨Like.refl j, fun h => h⟩
        · rename_i taken places htaken
          obtain ⟨hlike, -, hno⟩ := takeLate_less hwaits htaken
          refine ⟨hlike.trans ih.1, fun h => ?_⟩
          rw [ih.2 h] at hno
          cases hno
      · exact ⟨Like.refl j, fun h => h⟩
    · exact ⟨Like.refl j, fun h => h⟩

theorem toTake_lt_three (j : Journey) : sends.toTake dest j < 3 := by
  unfold Sends.toTake
  have hgroup := Bool.toNat_le (sends.waitsForGroup j)
  have hpoints := Bool.toNat_le (j.sequences.isEmpty && !(sends.pointsOf dest).isEmpty)
  omega

theorem heading_answers {j : Journey} {queues : Queues} (hj : Whole sends promoted dest j) :
    ∃ placing, (heading c sends promoted dest kept headed j queues).answer = some (.ok placing) := by
  unfold heading
  split
  · exact headingFrom_answers hj (toTake_lt_three j)
  · exact ⟨_, rfl⟩

theorem like_heading {j : Journey} {queues : Queues} :
    Like j (heading c sends promoted dest kept headed j queues).journey ∧
      (sends.waitsForGroup (heading c sends promoted dest kept headed j queues).journey = true →
        sends.waitsForGroup j = true) := by
  unfold heading
  split
  · exact like_headingFrom
  · exact ⟨Like.refl j, fun h => h⟩

end Heading

/-! ### Every run -/

section Runs

variable {c : Cluster} {sends : Sends} {reaches : String → Subscriber → List Subscriber} {promoted : Promoted}

/-- A Message has every part of its keys, and the scan that takes its Group's place reads its queue. -/
def Ready (sends : Sends) (promoted : Promoted) (dest : Subscriber) (j : Journey) : Prop :=
  Whole sends promoted dest j ∧ (sends.waitsForGroup j = true → sends.grouped dest = true)

/-- What was told takes no place yet. -/
theorem queue_tells (way : Way) (ids mint : Nat → Nat) (evaluations : List Evaluation) :
    ∀ o ∈ way.tells sends reaches ids mint evaluations, ∀ d, o.journey.group = some d → d.queue = none := by
  have hdelivered : ∀ {fresh : List Opened}, (∀ o ∈ fresh, o.journey.group = none) →
      ∀ o ∈ delivered sends mint fresh, ∀ d, o.journey.group = some d → d.queue = none := by
    intro fresh hfresh o ho d hd
    obtain ⟨i, run, x, p, -, -, -, rfl, -⟩ := told_of_mem hfresh ho hd
    rfl
  have hopened : ∀ {make : Nat → String → Journey}, (∀ id s, (make id s).group = none) →
      ∀ o ∈ openedBy make reaches ids evaluations, o.journey.group = none := by
    intro make hmake o ho
    obtain ⟨k, port, hj⟩ := journey_of_mem_openedBy ho
    rw [hj]
    exact hmake ..
  cases way with
  | publication came =>
    refine hdelivered ?_
    unfold opened
    rw [map_receivedAs_openedBy]
    exact hopened fun _ _ => rfl
  | workProcess parent => exact hdelivered (hopened fun _ _ => rfl)
  | replay =>
    intro o ho d hd
    rw [hopened (fun _ _ => rfl) o ho] at hd
    cases hd

/-- What took its places in the write that opens it is ready. -/
theorem ready_of_places {l l' : List Opened} {holds : List Hold}
    (hqueues : ∀ o ∈ l, ∀ d, o.journey.group = some d → d.queue = none)
    (h : places c sends promoted l = .ok (l', holds)) : ∀ o ∈ l', Ready sends promoted o.dest o.journey := by
  have hwhole := (places_ok_iff hqueues).1 ⟨_, h⟩
  clear hqueues
  induction l generalizing l' holds with
  | nil =>
    cases h
    exact fun o ho => absurd ho List.not_mem_nil
  | cons one l ih =>
    obtain ⟨⟨told, hold⟩, hgroup, h⟩ := answers_iff.1 h
    obtain ⟨⟨taken, places⟩, htaken, h⟩ := answers_iff.1 h
    obtain ⟨rest, hrest, h⟩ := answers_iff.1 h
    cases h
    rw [List.forall_mem_cons] at hwhole ⊢
    refine ⟨⟨((like_groupPlaced hgroup).trans (like_placed htaken)).whole hwhole.1, ?_⟩, ih hrest hwhole.2⟩
    intro hwaits
    obtain ⟨added, rfl, -⟩ := placed_ok htaken
    have hno := waitsForGroup_groupPlaced hgroup
    change sends.waitsForGroup told = true at hwaits
    rw [hno] at hwaits
    cases hwaits

/-- What is opened is ready where what is opened late carries what it must. -/
theorem ready_of_opens {way : Way} {ids mint : Nat → Nat} {evaluations : List Evaluation} {lined : List Nat}
    {l : List Opened} {holds : List Hold}
    (hcarries : (Act.opens way ids mint evaluations promoted lined).carries sends reaches)
    (h : way.opens c sends reaches ids mint evaluations promoted = .ok (l, holds)) :
    ∀ o ∈ l, Ready sends promoted o.dest o.journey := by
  have hplaces := @ready_of_places c sends promoted _ l holds (@queue_tells sends reaches way ids mint evaluations)
  unfold Way.opens at h
  cases way with
  | publication came =>
    simp only at h
    split at h
    · exact hplaces h
    · rename_i hsequences
      cases h
      exact hcarries (by simpa [Way.late] using hsequences)
  | workProcess parent => exact hplaces h
  | replay =>
    cases h
    exact hcarries rfl

/-- What each step keeps: every Message that waits is ready. -/
theorem ready_of_step {s s' : Node} {a : Act} (hs : ∀ e ∈ s.waiting, Ready sends e.promoted e.dest e.journey)
    (hcarries : a.carries sends reaches) (h : s.step c sends reaches a = some s') :
    ∀ e ∈ s'.waiting, Ready sends e.promoted e.dest e.journey := by
  unfold Node.step at h
  cases a with
  | opens way ids mint evaluations promoted lined =>
    simp only at h
    split at h
    · rename_i l holds hopens
      cases h
      intro e he
      rcases List.mem_append.1 he with he | he
      · exact hs e he
      · obtain ⟨o, ho, rfl⟩ := List.mem_map.1 he
        exact ready_of_opens hcarries hopens o ho
    · cases h
      exact hs
  | reads dest =>
    cases h
    exact hs
  | takes id kept =>
    simp only at h
    split at h
    · rename_i e he
      split at h
      · cases h
      · cases h
        intro x hx
        obtain ⟨y, hy, rfl⟩ := List.mem_map.1 hx
        split
        · have hready := hs e (List.mem_of_find?_eq_some he)
          unfold Entry.taken
          split
          · obtain ⟨hlike, hwaits⟩ := @like_heading c sends e.promoted e.dest kept s.headed e.journey s.queues
            exact ⟨hlike.whole hready.1, fun h => hready.2 (hwaits h)⟩
          · exact hready
        · exact hs y hy
    · cases h
  | ends id =>
    simp only at h
    split at h
    · split at h
      · split at h
        · cases h
          exact fun e he => hs e (List.mem_filter.1 he).1
        · cases h
          exact hs
      · cases h
    · cases h
  | settles id =>
    simp only at h
    split at h
    · split at h
      · cases h
        exact hs
      · cases h
    · cases h
  | others queues headed =>
    cases h
    exact hs

/-- A Message that is ready has its scan answer. -/
theorem taken_answers {e : Entry} (he : Ready sends e.promoted e.dest e.journey)
    (hwaits : sends.waitsForPlaces e.journey e.dest = true) (headed : List (Nat × Nat)) (queues : Queues) (kept : Bool) :
    ∃ placing, (e.taken c sends headed queues kept).answer = some (.ok placing) := by
  have hsequenced : sends.sequenced e.dest = true := by
    unfold Sends.waitsForPlaces at hwaits
    unfold Sends.sequenced
    rw [Bool.or_eq_true] at hwaits ⊢
    rcases hwaits with hgroup | hpoints
    · exact .inr (he.2 hgroup)
    · rw [Bool.and_eq_true] at hpoints
      exact .inl hpoints.2
  unfold Entry.taken
  rw [hsequenced, hwaits]
  exact heading_answers he.1

theorem ready_of_reach {s : Node}
    (h : Reach (Node.step c sends reaches) (fun _ a => a.carries sends reaches) (fun s => s = Node.start) s) :
    ∀ e ∈ s.waiting, Ready sends e.promoted e.dest e.journey := by
  induction h with
  | start hs =>
    subst hs
    exact fun e he => absurd he List.not_mem_nil
  | next _ hcarries hstep ih => exact ready_of_step ih hcarries hstep

/-- Where all that is opened late carries every part of its keys, no Message waits that cannot take its places; and
whether one is accepted is whether its places could be taken in the write that opens it, exactly where it does so. -/
theorem placeable_of_carries {s : Node}
    (h : Reach (Node.step c sends reaches) (fun _ a => a.carries sends reaches) (fun s => s = Node.start) s) :
    Placeable c sends s ∧
      ∀ (way : Way) (ids mint : Nat → Nat) (evaluations : List Evaluation) (promoted : Promoted),
        ((∃ written, way.opens c sends reaches ids mint evaluations promoted = .ok written) ↔
          ∃ written, places c sends promoted (way.tells sends reaches ids mint evaluations) = .ok written) ↔
        (way.late = true → ∀ o ∈ way.tells sends reaches ids mint evaluations, Whole sends promoted o.dest o.journey) := by
  have hready := ready_of_reach h
  refine ⟨⟨?_, ?_⟩, ?_⟩
  · exact fun e he p hp member => Point.place_ok_iff.2 fun key hkey => (hready e he).1 p hp key hkey
  · exact fun e he hwaits kept => taken_answers (hready e he) hwaits s.headed s.queues kept
  · intro way ids mint evaluations promoted
    rw [← @places_ok_iff c sends promoted _ (queue_tells way ids mint evaluations)]
    unfold Way.opens
    cases way with
    | publication came =>
      by_cases hsequences : came.sequences.isEmpty = true
      · simp [Way.late, hsequences]
      · simp [Way.late, hsequences]
    | workProcess parent => simp [Way.late]
    | replay => simp [Way.late]

end Runs

/-- The Send Port "Out" naming a Correlation keyed by a context name, and its Subscription. -/
private def outSends : Sends := ⟨[], [], [⟨.sendPort, "Out", ⟨"PerClient", [.context "Client"]⟩, .block⟩]⟩

private def outCluster : Cluster := ⟨"xmip:///c", String.length, fun _ => "context:Client"⟩

private def reachesOut : String → Subscriber → List Subscriber := fun _ _ => [.sendPort "Out"]

/-- A Message of a Stream that holds its Receive Location's sequence, published. -/
private def publishesOut (promoted : Promoted) : Act :=
  .opens (.publication ⟨"In", "Orders", 42, [47], false⟩) id id [⟨"orders", .sendPort "Out", true⟩] promoted []

/-- A node that took up a Message with every part of its key. -/
theorem placeable_perClient :
    ∃ s, Node.step outCluster outSends reachesOut Node.start (publishesOut [("Client", "7")]) = some s ∧ s.waiting ≠ [] ∧
      Placeable outCluster outSends s := by
  have hcarries : (publishesOut [("Client", "7")]).carries outSends reachesOut := by
    intro _ o ho
    obtain rfl := List.mem_singleton.1 ho
    refine ⟨?_, nofun⟩
    intro p hp key hkey
    obtain rfl := List.mem_singleton.1 hp
    obtain rfl := List.mem_singleton.1 hkey
    rfl
  refine ⟨_, rfl, List.cons_ne_nil _ _, (placeable_of_carries (.next (.start rfl) hcarries rfl)).1⟩

/-- What the node does with a Message that lacks the part: its scan, its pass and its settling. -/
private def onceMore : List Act := [.reads (.sendPort "Out"), .takes 0 true, .ends 0, .settles 0]

/-- A Message lacking the part is accepted where its Stream holds a sequence, and each scan of it fails alike: its pass
ends behind, its settling has its queue read at once, and the node is where it was. -/
theorem missing_part_for_ever :
    ¬ (∀ s, Reach (Node.step outCluster outSends reachesOut) Always (fun s => s = Node.start) s →
      Placeable outCluster outSends s) ∧
    ∃ s, Reach (Node.step outCluster outSends reachesOut) Always (fun s => s = Node.start) s ∧
      (∃ e ∈ s.waiting, ∃ why, (e.taken outCluster outSends s.headed s.queues true).answer = some (.error why)) ∧
      runWhere (Node.step outCluster outSends reachesOut) Always s onceMore = some s := by
  have hrun : ∃ s, runWhere (Node.step outCluster outSends reachesOut) Always Node.start
      (publishesOut [] :: onceMore) = some s ∧
      (∃ e ∈ s.waiting, outSends.waitsForPlaces e.journey e.dest = true ∧
        ∃ why, (e.taken outCluster outSends s.headed s.queues true).answer = some (.error why)) ∧
      runWhere (Node.step outCluster outSends reachesOut) Always s onceMore = some s :=
    ⟨_, rfl, ⟨_, List.mem_cons_self .., rfl, _, rfl⟩, rfl⟩
  obtain ⟨s, hs, ⟨e, he, hwaits, why, hwhy⟩, hagain⟩ := hrun
  have hreach : Reach (Node.step outCluster outSends reachesOut) Always (fun s => s = Node.start) s :=
    Reach.of_runWhere (.start rfl) hs
  refine ⟨fun h => ?_, s, hreach, ⟨e, he, why, hwhy⟩, hagain⟩
  obtain ⟨placing, hplacing⟩ := (h s hreach).scan e he hwaits true
  rw [hwhy] at hplacing
  cases hplacing

end Sequence
