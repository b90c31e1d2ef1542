import XmipRuntime.Library.Run
import XmipRuntime.Library.Table
import XmipRuntime.Sequence.Points

/-!
# A Stream's places end to end

A Stream holds a place in the sequence of its Receive Location and in that of its Receive Port, from the write that
brings it until the last Journey born from it ends.  Xmip Storage lets go of its places, all of them, once no Journey born
from it is written open; what is written of each Journey is one flag (`src/ledger/record.rs`), computed from whether a
failure lets the rest pass, which is asked once for all of the Stream's sequences (`src/sequence.rs`, `received`).
-/

namespace Sequence

open Library
open Ledger (JourneyState)

/-! ### What is written of a Journey -/

/-- Whether a Journey in `state` still keeps the places it shares. -/
def isOpen (state : JourneyState) (skips : Bool) : Bool :=
  match state with
  | .completed | .dismissed => false
  | .failed => !skips
  | .active | .recovering | .waiting => true

/-- Where a Journey's Stream came in, where it holds a place in a sequence. -/
def Journey.held (j : Journey) : Option Received := j.received.filter fun received => !received.sequences.isEmpty

/-- What of a Journey is written beside its body for Xmip Storage to count. -/
structure JourneyFacts where
  origin : Option Nat
  isOpen : Bool
  groupDelivery : Option Nat
  groupOpen : Bool
  deriving DecidableEq

def journeyRecord (j : Journey) : JourneyFacts where
  origin := j.held.map Received.origin
  isOpen := j.held.any fun received => Sequence.isOpen j.state received.skips
  groupDelivery := j.group.map GroupDelivery.delivery
  groupOpen := j.group.any fun group => Sequence.isOpen j.state group.skips

/-! ### The Journeys of one Stream -/

/-- The Journeys born from a Stream, as each was written last, and whether Xmip Storage keeps the Stream's places. -/
structure Stream where
  journeys : Table Nat Journey
  held : Bool

/-- Whether a Journey of `origin` is written open. -/
def anyOpen (origin : Nat) (journeys : Table Nat Journey) : Bool :=
  journeys.entries.any fun x => decide ((journeyRecord x.2).origin = some origin) && (journeyRecord x.2).isOpen

/-- A write of the Journey `id` in `state`, with the Journeys it opens. -/
structure Written where
  id : Nat
  state : JourneyState
  opened : List Nat

/-- Whether a Journey in `j`'s state is written so: one still to be sent or taken a turn of in any way but dismissed,
opening others where it publishes; a failed one retried or dismissed by an operator. -/
def Written.may (w : Written) (j : Journey) : Bool :=
  match j.state with
  | .active | .recovering | .waiting => decide (w.state ≠ .dismissed)
  | .failed => (decide (w.state = .active) || decide (w.state = .dismissed)) && w.opened.isEmpty
  | .completed | .dismissed => false

/-- The Journeys once `w` is written. -/
def Stream.after (s : Stream) (w : Written) (j : Journey) : Table Nat Journey :=
  w.opened.foldl (fun t id => t.put id { Journey.new id with received := j.received, previous := some w.id })
    (s.journeys.put w.id { j with state := w.state })

def Stream.step (origin : Nat) (s : Stream) (w : Written) : Option Stream :=
  match s.journeys.get w.id with
  | some j =>
    if w.may j = true ∧ (∀ id ∈ w.opened, s.journeys.get id = none) then
      some ⟨s.after w j, s.held && anyOpen origin (s.after w j)⟩
    else none
  | none => none

/-- As a Publication writes it: a Journey at least, each active and born from the Stream that came in so. -/
def Publishes (came : Received) (s : Stream) : Prop :=
  s.held = true ∧ s.journeys.entries ≠ [] ∧ ∀ x ∈ s.journeys.entries, x.2.state = .active ∧ x.2.received = some came

/-- Each sequence keeps to its own point's `on_failure`: where that blocks, the Stream's place is kept while a Journey of
it is Failed; where it skips, no Failed Journey keeps it. -/
def OwnPolicy (points : List Point) (s : Stream) : Prop :=
  ∀ p ∈ points, (p.onFailure = .block → (∃ x ∈ s.journeys.entries, x.2.state = .failed) → s.held = true) ∧
    (p.onFailure = .skip → s.held = true → ∃ x ∈ s.journeys.entries, isOpen x.2.state true = true)

section Policies

variable {came : Received} {s s' : Stream}

/-- What a Stream's places make of where it came in: a queue for each point, and whether any of them skips. -/
theorem takesEndToEnd_ok {c : Cluster} {j : Journey} {promoted : Promoted} {origin : Nat} {points : List Point}
    {was came : Received} {places : List Hold} (h : takesEndToEnd c j promoted origin points was = .ok (came, places)) :
    came.skips = was.skips ∧ came.origin = was.origin ∧ came.sequences.length = was.sequences.length + points.length := by
  induction points generalizing was came places with
  | nil =>
    cases h
    exact ⟨rfl, rfl, rfl⟩
  | cons p points ih =>
    obtain ⟨place, -, h⟩ := answers_iff.1 h
    obtain ⟨rest, hrest, h⟩ := answers_iff.1 h
    cases h
    obtain ⟨hskips, horigin, hlength⟩ := ih hrest
    refine ⟨hskips, horigin, ?_⟩
    simp only [List.length_append, List.length_cons, List.length_nil] at hlength ⊢
    omega

theorem received_ok {c : Cluster} {location port : String} {points : List Point} {origin : Nat}
    {promoted : Except String Promoted} {places : List Hold}
    (h : received c location port points origin promoted = .ok (came, places)) :
    came.skips = points.any Point.skips ∧ came.sequences.length = points.length := by
  obtain ⟨promoted, -, h⟩ := answers_iff.1 h
  obtain ⟨hskips, -, hlength⟩ := takesEndToEnd_ok h
  exact ⟨hskips, by simpa using hlength⟩

/-- Every Journey of the Stream says where it came in. -/
def Born (came : Received) (journeys : Table Nat Journey) : Prop := ∀ x ∈ journeys.entries, x.2.received = some came

private theorem mem_put {t : Table Nat Journey} {k : Nat} {j : Journey} {x : Nat × Journey}
    (h : x ∈ (t.put k j).entries) : x = (k, j) ∨ x ∈ t.entries := by
  rcases List.mem_cons.1 h with rfl | h
  · exact .inl rfl
  · exact .inr (List.mem_filter.1 h).1

theorem Born.after {j : Journey} (hs : Born came s.journeys) (w : Written) (hj : j.received = some came) :
    Born came (s.after w j) := by
  have hfirst : Born came (s.journeys.put w.id { j with state := w.state }) := by
    intro x hx
    rcases mem_put hx with rfl | hx
    · exact hj
    · exact hs x hx
  unfold Stream.after
  generalize s.journeys.put w.id { j with state := w.state } = t at hfirst
  induction w.opened generalizing t with
  | nil => exact hfirst
  | cons id opened ih =>
    apply ih
    intro x hx
    rcases mem_put hx with rfl | hx
    · exact hj
    · exact hfirst x hx

/-- Where the Stream holds a place, a Journey born from it is written open by its state and the Stream's one flag. -/
theorem anyOpen_iff {journeys : Table Nat Journey} (hs : Born came journeys) (hheld : came.sequences ≠ []) :
    anyOpen came.origin journeys = true ↔ ∃ x ∈ journeys.entries, isOpen x.2.state came.skips = true := by
  have hrecord : ∀ x ∈ journeys.entries, (journeyRecord x.2).origin = some came.origin ∧
      (journeyRecord x.2).isOpen = isOpen x.2.state came.skips := by
    intro x hx
    simp [journeyRecord, Journey.held, hs x hx, hheld]
  unfold anyOpen
  rw [List.any_eq_true]
  constructor
  · rintro ⟨x, hx, hopen⟩
    rw [(hrecord x hx).2, Bool.and_eq_true] at hopen
    exact ⟨x, hx, hopen.2⟩
  · rintro ⟨x, hx, hopen⟩
    exact ⟨x, hx, by rw [(hrecord x hx).1, (hrecord x hx).2, hopen]; simp⟩

/-- What a step is: a write its Journey's state permits. -/
theorem Stream.step_cases {origin : Nat} {w : Written} (h : s.step origin w = some s') :
    ∃ j, s.journeys.get w.id = some j ∧ w.may j = true ∧
      s' = ⟨s.after w j, s.held && anyOpen origin (s.after w j)⟩ := by
  unfold Stream.step at h
  split at h
  · rename_i j hj
    split at h
    · rename_i hmay
      cases h
      exact ⟨j, hj, hmay.1, rfl⟩
    · cases h
  · cases h

/-- The Journeys say where they came in, and the places are kept only while one of them is open. -/
private theorem held_of_reach (hheld : came.sequences ≠ []) (h : Reach (Stream.step came.origin) Always (Publishes came) s) :
    Born came s.journeys ∧ (s.held = true → ∃ x ∈ s.journeys.entries, isOpen x.2.state came.skips = true) := by
  induction h with
  | start hpublishes =>
    obtain ⟨-, hsome, hall⟩ := hpublishes
    refine ⟨fun x hx => (hall x hx).2, fun _ => ?_⟩
    obtain ⟨x, hx⟩ := List.exists_mem_of_ne_nil _ hsome
    exact ⟨x, hx, by rw [(hall x hx).1]; rfl⟩
  | @next s s' w _ _ hstep ih =>
    obtain ⟨j, hj, -, rfl⟩ := Stream.step_cases hstep
    have hborn := ih.1.after w (ih.1 _ (Table.mem_iff_get.2 hj))
    refine ⟨hborn, fun hkept => ?_⟩
    rw [Bool.and_eq_true] at hkept
    exact (anyOpen_iff hborn hheld).1 hkept.2

/-- Where no sequence of the Stream skips, its places are kept while one of its Journeys is open. -/
private theorem kept_of_reach (hheld : came.sequences ≠ []) (hblocks : came.skips = false)
    (h : Reach (Stream.step came.origin) Always (Publishes came) s) :
    (∃ x ∈ s.journeys.entries, isOpen x.2.state false = true) → s.held = true := by
  induction h with
  | start hpublishes => exact fun _ => hpublishes.1
  | @next s s' w hreach _ hstep ih =>
    intro hopen
    obtain ⟨j, hj, hmay, rfl⟩ := Stream.step_cases hstep
    have hborn := (held_of_reach hheld hreach).1
    -- a Journey that is written was open before, so the places were kept
    have hwas : isOpen j.state false = true := by
      unfold Written.may at hmay
      cases hstate : j.state with
      | completed | dismissed => simp [hstate] at hmay
      | active | recovering | waiting | failed => rfl
    have hkept : s.held = true := ih ⟨_, Table.mem_iff_get.2 hj, hwas⟩
    rw [Bool.and_eq_true]
    refine ⟨hkept, (anyOpen_iff (hborn.after w (hborn _ (Table.mem_iff_get.2 hj))) hheld).2 ?_⟩
    rw [hblocks]
    exact hopen

/-- One Journey of a Stream, active. -/
private def oneJourney (came : Received) : Stream :=
  ⟨Table.empty.put 1 { Journey.new 1 with received := some came }, true⟩

private theorem publishes_oneJourney (came : Received) : Publishes came (oneJourney came) := by
  refine ⟨rfl, List.cons_ne_nil _ _, ?_⟩
  intro x hx
  rcases mem_put hx with rfl | hx
  · exact ⟨rfl, rfl⟩
  · cases hx

/-- A Stream with one Journey that fails, where one of its sequences skips: its places are all let go of. -/
private theorem failed_oneJourney (hheld : came.sequences ≠ []) (hskips : came.skips = true) :
    ∃ s, Reach (Stream.step came.origin) Always (Publishes came) s ∧
      (∃ x ∈ s.journeys.entries, x.2.state = .failed) ∧ s.held = false := by
  have hget : (oneJourney came).journeys.get 1 = some { Journey.new 1 with received := some came } :=
    Table.get_put_self ..
  have hstep : (oneJourney came).step came.origin ⟨1, .failed, []⟩ = some
      ⟨(oneJourney came).after ⟨1, .failed, []⟩ { Journey.new 1 with received := some came },
        (oneJourney came).held && anyOpen came.origin
          ((oneJourney came).after ⟨1, .failed, []⟩ { Journey.new 1 with received := some came })⟩ := by
    unfold Stream.step
    rw [hget]
    simp [Written.may, Journey.new]
  refine ⟨_, .next (.start (publishes_oneJourney came)) trivial hstep, ⟨_, List.mem_cons_self .., rfl⟩, ?_⟩
  have hborn : Born came (oneJourney came).journeys := fun x hx => ((publishes_oneJourney came).2.2 x hx).2
  have hclosed : ¬ anyOpen came.origin
      ((oneJourney came).after ⟨1, .failed, []⟩ { Journey.new 1 with received := some came }) = true := by
    rw [anyOpen_iff (hborn.after _ rfl) hheld]
    rintro ⟨x, hx, hopen⟩
    have hx : x = (1, { Journey.new 1 with received := some came, state := .failed }) := List.mem_singleton.1 hx
    rw [hx, hskips] at hopen
    cases hopen
  rw [Bool.eq_false_iff.2 hclosed, Bool.and_false]

/-- Each sequence a Stream holds a place in keeps to its own point's `on_failure`, whatever its Journeys come to, exactly
where all of them say the same. -/
theorem ownPolicy_iff_unmixed {c : Cluster} {location port : String} {points : List Point} {origin : Nat}
    {promoted : Except String Promoted} {places : List Hold}
    (h : received c location port points origin promoted = .ok (came, places)) :
    (∀ s, Reach (Stream.step came.origin) Always (Publishes came) s → OwnPolicy points s) ↔
      ∀ p ∈ points, ∀ q ∈ points, p.onFailure = q.onFailure := by
  obtain ⟨hskips, hlength⟩ := received_ok h
  have hheld : points ≠ [] → came.sequences ≠ [] := by
    intro hpoints hnil
    rw [hnil] at hlength
    exact hpoints (List.length_eq_zero_iff.1 hlength.symm)
  constructor
  · intro hown p hp q hq
    -- a point that blocks beside one that skips: the one flag says skip
    have hblocks : ∀ p ∈ points, ∀ q ∈ points, p.onFailure = .block → q.onFailure = .skip → False := by
      intro p hp q hq hblock hskip
      have hany : came.skips = true := by
        rw [hskips, List.any_eq_true]
        exact ⟨q, hq, by simp [Point.skips, hskip]⟩
      obtain ⟨s, hs, hfailed, hgone⟩ := failed_oneJourney (hheld (List.ne_nil_of_mem hp)) hany
      rw [(hown s hs p hp).1 hblock hfailed] at hgone
      cases hgone
    cases hpf : p.onFailure with
    | block =>
      cases hqf : q.onFailure with
      | block => rfl
      | skip => exact (hblocks p hp q hq hpf hqf).elim
    | skip =>
      cases hqf : q.onFailure with
      | block => exact (hblocks q hq p hp hqf hpf).elim
      | skip => rfl
  · intro hsame s hs p hp
    have hsequences := hheld (List.ne_nil_of_mem hp)
    constructor
    · intro hblock hfailed
      have hnone : came.skips = false := by
        rw [hskips, List.any_eq_false]
        intro q hq
        simp [Point.skips, ← hsame p hp q hq, hblock]
      obtain ⟨x, hx, hstate⟩ := hfailed
      exact kept_of_reach hsequences hnone hs ⟨x, hx, by rw [hstate]; rfl⟩
    · intro hskip hkept
      have hany : came.skips = true := by
        rw [hskips, List.any_eq_true]
        exact ⟨p, hp, by simp [Point.skips, hskip]⟩
      have hopen := (held_of_reach hsequences hs).2 hkept
      rwa [hany] at hopen

end Policies

/-- A Receive Location named "In", and its Receive Port's set of one context name. -/
private def inPoints (onFailure : OnFailure) : List Point :=
  [.receiveLocation "In", ⟨.receivePort, "Orders", ⟨"PerClient", [.context "Client"]⟩, onFailure⟩]

private def plainCluster : Cluster := ⟨"xmip:///c", String.length, fun _ => "a part"⟩

private def cameIn (skips : Bool) : Received := ⟨"In", "Orders", 42, [47, 53], skips⟩

private theorem received_inPoints (onFailure : OnFailure) :
    ∃ places, received plainCluster "In" "Orders" (inPoints onFailure) 42 (.ok [("Client", "A")]) =
      .ok (cameIn ((inPoints onFailure).any Point.skips), places) := by
  cases onFailure with
  | block => exact ⟨_, rfl⟩
  | skip => exact ⟨_, rfl⟩

/-- A Stream both of whose sequences block. -/
theorem ownPolicy_blocking :
    ∃ places, received plainCluster "In" "Orders" (inPoints .block) 42 (.ok [("Client", "A")]) = .ok (cameIn false, places) ∧
      ∀ s, Reach (Stream.step (cameIn false).origin) Always (Publishes (cameIn false)) s → OwnPolicy (inPoints .block) s := by
  obtain ⟨places, h⟩ := received_inPoints .block
  refine ⟨places, h, (ownPolicy_iff_unmixed h).2 ?_⟩
  simp [inPoints, Point.receiveLocation]

/-- A Stream whose Receive Location blocks, as it does where it names no set, and whose Receive Port skips: once its only
Journey fails its place at the Location is let go of too. -/
theorem block_lost_beside_skip :
    ¬ ∀ s, Reach (Stream.step (cameIn true).origin) Always (Publishes (cameIn true)) s →
      OwnPolicy (inPoints .skip) s := by
  intro h
  obtain ⟨s, hs, hfailed, hgone⟩ := @failed_oneJourney (cameIn true) (by decide) rfl
  rw [(h s hs (.receiveLocation "In") (List.mem_cons_self ..)).1 rfl hfailed] at hgone
  cases hgone

end Sequence
