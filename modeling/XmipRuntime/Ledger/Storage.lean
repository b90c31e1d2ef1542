import XmipRuntime.Library.Numbered
import XmipRuntime.Library.Table

/-!
# The Ledger, as the steps of a node see it

Xmip Storage is another program; what the steps of this one rely on is written down here, each write one definition:
a claim is granted only where no live one is, a hand-on is taken only under its claim's token and then whole, and the
places of a sequence are kept in the order they were taken (`src/sequence.rs`, `src/send_step/pass.rs`).  A Stream's
place and a delivery's place are let go with the last Journey that holds them, which Xmip Storage counts.

Of a Journey's record only what a step reads or writes is kept.  A sequence's queue is named by its point's kind and
by one number, the name-based identifier of its point's name, its Correlation and the key's values; all places are in
one list in the order they were taken, a queue being the places that name it.
-/

namespace Ledger

open Library

/-! ### Journeys -/

inductive JourneyState where
  | active
  | recovering
  | waiting
  | completed
  | failed
  | dismissed
  deriving DecidableEq

/-- A sequence's queue: a Receive Location's or a Receive Port's, a Send Port Group's, or that of a Work Process, a Send
Port or a Send Location. -/
inductive Queue where
  | endToEnd (key : Nat)
  | group (key : Nat)
  | point (key : Nat)
  deriving DecidableEq

/-- Who holds a place: a Stream by its origin, a Send Port Group's delivery, or a Message by its Journey. -/
inductive Member where
  | origin (id : Nat)
  | delivery (id : Nat)
  | journey (id : Nat)
  deriving DecidableEq

abbrev Place := Queue × Member

/-- Where the Stream came in: its origin, the end-to-end sequences it holds a place in, and whether a failure lets the
rest pass. -/
structure Received where
  origin : Nat
  sequences : List Nat
  skips : Bool
  deriving DecidableEq

structure Sequenced where
  queue : Nat
  skips : Bool
  deriving DecidableEq

structure GroupDelivery where
  delivery : Nat
  queue : Option Nat
  skips : Bool
  deriving DecidableEq

structure JourneyEntry where
  execution : Nat
  action : String
  outcome : String
  deriving DecidableEq

structure Journey where
  state : JourneyState
  received : Option Received
  sequences : List Sequenced
  group : Option GroupDelivery
  sendPort : Option String
  currentWorkProcess : Option String
  attempts : Nat
  entries : List JourneyEntry
  deriving DecidableEq

/-- `entry` appended to its history, in `state`. -/
def Journey.append (r : Journey) (entry : JourneyEntry) (state : JourneyState) : Journey :=
  { r with state, entries := r.entries ++ [entry] }

/-- Whether it is still to be sent or taken a turn of: neither failed nor ended. -/
def Journey.live (r : Journey) : Bool :=
  match r.state with
  | .active | .recovering | .waiting => true
  | .completed | .failed | .dismissed => false

/-- Whether it still counts for a place it shares whose sequence skips a failure or not. -/
def Journey.isOpen (r : Journey) (skips : Bool) : Bool :=
  match r.state with
  | .active | .recovering | .waiting => true
  | .completed | .dismissed => false
  | .failed => !skips

/-- The places its Stream holds end to end. -/
def Journey.streamPlaces (r : Journey) : List Place :=
  match r.received with
  | none => []
  | some received => received.sequences.map fun q => (.endToEnd q, .origin received.origin)

/-- The place its delivery holds in its Send Port Group's sequence, once it is taken. -/
def Journey.groupPlaces (r : Journey) : List Place :=
  match r.group with
  | some ⟨delivery, some q, _⟩ => [(.group q, .delivery delivery)]
  | _ => []

/-- The places its own Message holds where it is bound. -/
def Journey.pointPlaces (id : Nat) (r : Journey) : List Place :=
  r.sequences.map fun sequenced => (.point sequenced.queue, .journey id)

/-- Every place its record names, in the order a pass asks whether it heads them. -/
def Journey.places (id : Nat) (r : Journey) : List Place := r.streamPlaces ++ r.groupPlaces ++ r.pointPlaces id

/-- The holders it shares with other Journeys, each with whether its sequences skip a failure. -/
def Journey.shared (r : Journey) : List (Member × Bool) :=
  (r.received.toList.map fun received => (Member.origin received.origin, received.skips)) ++
    r.group.toList.map fun group => (Member.delivery group.delivery, group.skips)

/-- Whether it is open for the holder `m` it shares. -/
def Journey.openFor (r : Journey) (m : Member) : Bool := r.shared.any fun x => decide (x.1 = m) && r.isOpen x.2

/-! ### What Xmip Storage keeps -/

structure Storage where
  journeys : Table Nat Journey
  /-- The live claims, by Journey, each by its token. -/
  claims : Table Nat Nat
  places : Numbered Place
  /-- Whether a place its holder has already is kept a second time. -/
  twice : Bool

/-- The holder of the first place in `q`. -/
def Storage.first (s : Storage) (q : Queue) : Option Member :=
  (s.places.firstWhere fun x => decide (x.1 = q)).map fun x => x.2.2

/-- `place` is in its queue. -/
def Storage.Holds (s : Storage) (place : Place) : Prop := ∃ n, (n, place) ∈ s.places.items

instance (s : Storage) (place : Place) : Decidable (s.Holds place) :=
  decidable_of_iff (∃ x ∈ s.places.items, x.2 = place) (by
    constructor
    · rintro ⟨x, hx, rfl⟩; exact ⟨x.1, hx⟩
    · rintro ⟨n, hn⟩; exact ⟨_, hn, rfl⟩)

/-- `place` taken at the end of its queue. -/
def takePlace (twice : Bool) (places : Numbered Place) (place : Place) : Numbered Place :=
  if !twice && places.items.any (fun x => decide (x.2 = place)) then places else places.push place

/-- One hand-on: the Journey claimed and its claim's token, its record as it is to be, the Journeys opened with it, the
queues it leaves, the places taken, and whether the claim is kept. -/
structure HandOn where
  journey : Nat
  token : Nat
  result : Journey
  next : List (Nat × Journey)
  leaves : List Queue
  queued : List Place
  kept : Bool

/-- The Journeys once `h` is written. -/
def HandOn.journeys (h : HandOn) (journeys : Table Nat Journey) : Table Nat Journey :=
  h.next.foldl (fun t x => t.put x.1 x.2) (journeys.put h.journey h.result)

/-- Whether no Journey holds a place of `m` open any more. -/
def closed (journeys : Table Nat Journey) (m : Member) : Bool := journeys.entries.all fun x => !x.2.openFor m

/-- Whether `h`, the Journeys then `journeys`, lets go of `place`: its own in a queue it leaves, or one it shares whose
last open Journey it was. -/
def HandOn.letsGo (h : HandOn) (journeys : Table Nat Journey) (place : Place) : Bool :=
  (decide (place.2 = .journey h.journey) && decide (place.1 ∈ h.leaves)) ||
    (h.result.shared.any fun x => decide (x.1 = place.2)) && closed journeys place.2

/-- `h` written: the Journeys, the places taken and let go of, and its claim ended unless it is kept. -/
def Storage.written (s : Storage) (h : HandOn) : Storage :=
  let journeys := h.journeys s.journeys
  { s with
    journeys
    claims := if h.kept then s.claims else s.claims.drop h.journey
    places := (h.queued.foldl (takePlace s.twice) s.places).filter fun x => !h.letsGo journeys x.2 }

/-- Whether `token` is the live claim on the Journey `id`. -/
def Storage.Claimed (s : Storage) (id token : Nat) : Prop := s.claims.get id = some token

instance (s : Storage) (id token : Nat) : Decidable (s.Claimed id token) :=
  inferInstanceAs (Decidable (s.claims.get id = some token))

/-- A hand-on asked: written where its claim is still its own, nothing otherwise. -/
def Storage.handOn (s : Storage) (h : HandOn) : Storage := if s.Claimed h.journey h.token then s.written h else s

/-- A claim asked: granted where no live one is. -/
def Storage.claim (s : Storage) (id token : Nat) : Storage :=
  if s.claims.get id = none then { s with claims := s.claims.put id token } else s

/-- A claim given back, where it is still the holder's. -/
def Storage.release (s : Storage) (id token : Nat) : Storage :=
  if s.Claimed id token then { s with claims := s.claims.drop id } else s

/-- A Publication's or a Replay's one write: its Journeys and the places they take. -/
def Storage.publish (s : Storage) (opened : List (Nat × Journey)) (queued : List Place) : Storage :=
  { s with
    journeys := opened.foldl (fun t x => t.put x.1 x.2) s.journeys
    places := queued.foldl (takePlace s.twice) s.places }

/-! ### Places taken and let go of -/

theorem mem_takePlace {twice : Bool} {places : Numbered Place} {place : Place} {x : Nat × Place}
    (h : x ∈ (takePlace twice places place).items) : x ∈ places.items ∨ x = (places.next, place) := by
  unfold takePlace at h
  split at h
  · exact .inl h
  · exact Numbered.mem_push.1 h

theorem mem_takePlace_of_mem {twice : Bool} {places : Numbered Place} {place : Place} {x : Nat × Place}
    (h : x ∈ places.items) : x ∈ (takePlace twice places place).items := by
  unfold takePlace
  split
  · exact h
  · exact Numbered.mem_push.2 (.inl h)

theorem exists_mem_takePlace (twice : Bool) (places : Numbered Place) (place : Place) :
    ∃ n, (n, place) ∈ (takePlace twice places place).items := by
  unfold takePlace
  split
  · rename_i h
    simp only [Bool.and_eq_true, List.any_eq_true, decide_eq_true_eq] at h
    obtain ⟨-, x, hx, rfl⟩ := h
    exact ⟨x.1, hx⟩
  · exact ⟨places.next, Numbered.mem_push.2 (.inr rfl)⟩

/-- A place there after others were taken was there, or is one of them, at the end. -/
theorem mem_takePlaces {twice : Bool} {queued : List Place} {places : Numbered Place} {x : Nat × Place}
    (h : x ∈ (queued.foldl (takePlace twice) places).items) :
    x ∈ places.items ∨ x.2 ∈ queued ∧ places.next ≤ x.1 := by
  induction queued generalizing places with
  | nil => exact .inl h
  | cons q queued ih =>
    rw [List.foldl_cons] at h
    have hnext : places.next ≤ (takePlace twice places q).next := by
      unfold takePlace
      split
      · exact Nat.le_refl _
      · exact Nat.le_succ _
    rcases ih h with h | ⟨h, hn⟩
    · rcases mem_takePlace h with h | rfl
      · exact .inl h
      · exact .inr ⟨List.mem_cons_self .., Nat.le_refl _⟩
    · exact .inr ⟨List.mem_cons_of_mem _ h, by omega⟩

theorem mem_takePlaces_of_mem {twice : Bool} {queued : List Place} {places : Numbered Place} {x : Nat × Place}
    (h : x ∈ places.items) : x ∈ (queued.foldl (takePlace twice) places).items := by
  induction queued generalizing places with
  | nil => exact h
  | cons q queued ih => exact ih (mem_takePlace_of_mem h)

theorem holds_takePlaces (twice : Bool) (queued : List Place) (places : Numbered Place) (place : Place) :
    (∃ n, (n, place) ∈ (queued.foldl (takePlace twice) places).items) ↔
      (∃ n, (n, place) ∈ places.items) ∨ place ∈ queued := by
  induction queued generalizing places with
  | nil => simp
  | cons q queued ih =>
    rw [List.foldl_cons, ih]
    constructor
    · rintro (⟨n, hn⟩ | h)
      · rcases mem_takePlace hn with hn | hn
        · exact .inl ⟨n, hn⟩
        · exact .inr (List.mem_cons.2 (.inl (congrArg Prod.snd hn)))
      · exact .inr (List.mem_cons_of_mem _ h)
    · rintro (⟨n, hn⟩ | h)
      · exact .inl ⟨n, mem_takePlace_of_mem hn⟩
      · rcases List.mem_cons.1 h with rfl | h
        · exact .inl (exists_mem_takePlace twice places place)
        · exact .inr h

theorem firstWhere_takePlaces {twice : Bool} {queued : List Place} {places : Numbered Place} {p : Place → Bool}
    {x : Nat × Place} (h : places.firstWhere p = some x) :
    (queued.foldl (takePlace twice) places).firstWhere p = some x := by
  induction queued generalizing places with
  | nil => exact h
  | cons q queued ih =>
    rw [List.foldl_cons]
    apply ih
    unfold takePlace
    split
    · exact h
    · exact Numbered.firstWhere_push h

theorem written_holds {s : Storage} {h : HandOn} {place : Place} :
    (s.written h).Holds place ↔
      (s.Holds place ∨ place ∈ h.queued) ∧ h.letsGo (h.journeys s.journeys) place = false := by
  unfold Storage.Holds
  rw [← holds_takePlaces s.twice]
  simp [Storage.written]

theorem publish_holds {s : Storage} {l : List (Nat × Journey)} {queued : List Place} {place : Place} :
    (s.publish l queued).Holds place ↔ s.Holds place ∨ place ∈ queued :=
  holds_takePlaces s.twice queued s.places place

/-- A queue somebody holds a place in has a first. -/
theorem first_ne_none {s : Storage} {place : Place} (h : s.Holds place) : s.first place.1 ≠ none := by
  obtain ⟨n, hn⟩ := h
  unfold Storage.first
  intro hnone
  rw [Option.map_eq_none_iff, Numbered.firstWhere_eq_none] at hnone
  have := hnone _ hn
  simp at this

end Ledger
