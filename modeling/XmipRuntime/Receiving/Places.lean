import XmipRuntime.Receiving.State

/-!
# Who holds the node's carry places

The node's carry places are held by arrivals under way, by receives being asked of their transports, and by nothing else:
that is what they are for.  A Location's loop holds the places of a receive to the end of its body, and the body ends
with the Location's rest; so one whose receive found nothing rests with them, and where all the node's places rest so, a
Location with arrivals to take waits for the rests to end.
-/

namespace Receiving

open Library

/-! ### What is claimed -/

/-- The places of a receive being asked of its transport, or handing over what it found. -/
def Location.asked (l : Location) : Nat :=
  match l.serving with
  | .asking places => places
  | .handing places => places - l.taken.length
  | _ => 0

/-- Its arrivals under way: taken, and not told and let go of. -/
def Location.open_ (l : Location) : Nat := l.taken.length + l.queued.length + l.running.length

/-- The places a resting Location holds. -/
def Location.rested (l : Location) : Nat :=
  match l.serving with
  | .resting places => places
  | _ => 0

/-- The carry places held are those of arrivals under way and of receives being asked; a Location that rests holds none; and
one that asks while no other carries or asks has them at once, where its own carries leave a place. -/
structure Node.HeldByWork (n : Node) : Prop where
  held : n.carries.held = total (fun l => l.open_ + l.asked) n.locations
  resting : ∀ l ∈ n.locations, l.rested = 0
  atOnce : ∀ i l rest, pick n.locations i = some (l, rest) → (∀ other ∈ rest, other.open_ = 0 ∧ other.asked = 0) →
    l.serving = .settling → l.count ≤ l.busy → l.open_ < n.carries.most → (n.step (.serve i .hold)).isSome = true

/-- A receive that found nothing, or failed in a way asking again may mend, is followed by no rest: its transport waits by
itself, its interval is over, a word of a change was told, or the node stops. -/
def Restless (n : Node) : Action → Prop
  | .serve i (.unfound ended asking took nudged) =>
    ∀ l ∈ (pick n.locations i).map Prod.fst, l.pace.rest asking ended took = 0 ∨ nudged = true ∨ n.raised = true
  | _ => True

instance (n : Node) (a : Action) : Decidable (Restless n a) :=
  match a with
  | .serve i (.unfound ended asking took nudged) =>
    inferInstanceAs (Decidable (∀ l ∈ (pick n.locations i).map Prod.fst,
      l.pace.rest asking ended took = 0 ∨ nudged = true ∨ n.raised = true))
  | .raise | .work _ _ | .serve _ (.ask _ _) | .serve _ .settle | .serve _ .hold | .serve _ (.found _ _)
  | .serve _ (.failed _) | .serve _ .handOver | .serve _ .handed | .serve _ .crash | .serve _ .rested
  | .serve _ .finish => .isTrue trivial

/-! ### What each Location holds -/

/-- The places a Location's loop holds. -/
def Serving.places : Serving → Nat
  | .asking places | .handing places | .resting places => places
  | .top | .settling | .ending _ | .returned _ | .crashed => 0

/-- Every place a Location holds. -/
def Location.places (l : Location) : Nat := l.serving.places + l.queued.length + l.running.length

/-- Arrivals are on the loop's thread while it hands them over, each with a place. -/
def Location.Placed (l : Location) : Prop :=
  match l.serving with
  | .handing places => l.taken.length ≤ places
  | _ => l.taken = []

theorem Location.placed_of_taken {l : Location} (h : l.taken = []) : l.Placed := by
  unfold Placed
  split
  · rw [h]
    exact Nat.zero_le _
  · exact h

theorem Location.places_eq {l : Location} (h : l.Placed) : l.places = l.open_ + l.asked + l.rested := by
  unfold Placed at h
  unfold places open_ asked rested
  cases hs : l.serving with
  | handing places =>
    rw [hs] at h
    dsimp only [Serving.places] at h ⊢
    omega
  | top | settling | ending | returned | crashed | asking | resting =>
    rw [hs] at h
    dsimp only [Serving.places] at h ⊢
    rw [h, List.length_nil]
    omega

section Budgets

variable {b b' : Budget} {wanted charge : Nat}

theorem Budget.holdUpTo_spec (h : b.holdUpTo wanted = some (charge, b')) :
    b'.held = b.held + charge ∧ b'.most = b.most ∧ 0 < charge ∧ b'.held ≤ b.most := by
  unfold holdUpTo at h
  dsimp only at h
  split at h
  · cases h
  · cases h
    refine ⟨rfl, rfl, ?_, ?_⟩
    · omega
    · dsimp only
      omega

theorem Budget.holdUpTo_isSome : (b.holdUpTo wanted).isSome = decide (b.held < b.most) := by
  unfold holdUpTo
  dsimp only
  split
  · rename_i hfull
    rw [decide_eq_false (Nat.not_lt.2 hfull)]
    rfl
  · rename_i hroom
    rw [decide_eq_true (Nat.not_le.1 hroom)]
    rfl

@[simp] theorem Budget.release_held : (b.release charge).held = b.held - charge := rfl

@[simp] theorem Budget.release_most : (b.release charge).most = b.most := rfl

end Budgets

variable {carries carries' received received' : Budget} {charge : Nat} {raised : Bool} {l l' : Location} {n n' : Node}

/-- A settling is of the channel and the count alone. -/
theorem Location.settles_spec (h : l.settles = some l') : ∃ a cycle told channel, l.channel = (a, cycle, told) :: channel ∧
    ∃ heard serving, l' = { l with
      channel
      count := l.count - 1
      settled := l.settled ++ [(a, cycle)]
      heard
      serving } ∧ (serving = l.serving ∨ ∃ why, serving = .ending why) := by
  unfold settles at h
  split at h
  · rename_i a cycle told channel hchannel
    refine ⟨a, cycle, told, channel, hchannel, ?_⟩
    dsimp only at h
    split at h
    · cases h
      exact ⟨l.heard, l.serving, rfl, .inl rfl⟩
    · cases h
      exact ⟨_, l.serving, rfl, .inl rfl⟩
    · split at h
      · cases h
        exact ⟨l.heard, _, rfl, .inr ⟨_, rfl⟩⟩
      · cases h
        exact ⟨l.heard, _, rfl, .inr ⟨_, rfl⟩⟩
  · cases h

namespace Location

/-- What a loop's step holds and gives back of the node's places is what its Location holds more or less. -/
theorem serve_places {what : Serve} (hp : l.Placed) (hle : l.places ≤ carries.held)
    (h : Serves carries raised l what carries' l') :
    l'.Placed ∧ carries'.held + l.places = carries.held + l'.places ∧ carries'.most = carries.most := by
  unfold Placed at hp
  unfold places at hle ⊢
  cases h with
  | @asks now now' hs =>
    rw [hs] at hp ⊢
    have hnone : (if (l.drain.asks raised now now').1 then Serving.settling else .ending none).places = 0 := by
      split <;> rfl
    refine ⟨placed_of_taken hp, ?_, rfl⟩
    dsimp only
    rw [hnone]
    rfl
  | settles hs hcount hsettles =>
    obtain ⟨a, cycle, told, channel, -, heard, serving, rfl, hserving⟩ := settles_spec hsettles
    have htaken : l.taken = [] := by
      rcases hs with hs | ⟨why, hs⟩
      · rw [hs] at hp
        exact hp
      · rw [hs] at hp
        exact hp
    have hnone : serving.places = l.serving.places := by
      rcases hserving with rfl | ⟨why, rfl⟩
      · rfl
      · rcases hs with hs | ⟨why, hs⟩
        · rw [hs]
          rfl
        · rw [hs]
          rfl
    refine ⟨placed_of_taken htaken, ?_, rfl⟩
    rw [hnone]
  | holds hs hfew hheld =>
    obtain ⟨hheld', hmost, -, -⟩ := Budget.holdUpTo_spec hheld
    rw [hs] at hp ⊢
    refine ⟨hp, ?_, hmost⟩
    dsimp only [Serving.places]
    omega
  | found hs hn hmost =>
    rw [hs] at hp ⊢
    refine ⟨?_, rfl, rfl⟩
    show (l.arrivals _).length ≤ _
    unfold arrivals
    rw [List.length_map, List.length_range]
    exact hmost
  | rests hs =>
    rw [hs] at hp ⊢
    exact ⟨hp, rfl, rfl⟩
  | goesOn hs | fails hs | rested hs =>
    rw [hs] at hp hle ⊢
    refine ⟨hp, ?_, rfl⟩
    dsimp only [Serving.places, Budget.release_held] at hle ⊢
    omega
  | handsOver hs hfirst =>
    rw [hs, hfirst] at hp
    rw [hs]
    dsimp only [List.length_cons] at hp
    refine ⟨?_, ?_, rfl⟩
    · exact Nat.le_sub_of_add_le hp
    · dsimp only [Serving.places]
      rw [List.length_append, List.length_singleton]
      omega
  | handed hs hnone =>
    rw [hs] at hle ⊢
    refine ⟨hnone, ?_, rfl⟩
    dsimp only [Serving.places, Budget.release_held] at hle ⊢
    omega
  | crashes hs =>
    rw [hs] at hle ⊢
    refine ⟨rfl, ?_, rfl⟩
    dsimp only [Serving.places, Budget.release_held] at hle ⊢
    omega
  | finishes hs hnone =>
    rw [hs] at hp ⊢
    exact ⟨hp, rfl, rfl⟩

@[simp] theorem passTurn_serving (a : Arrival) : (l.passTurn a).serving = l.serving := by
  unfold passTurn
  split <;> rfl

@[simp] theorem passTurn_taken (a : Arrival) : (l.passTurn a).taken = l.taken := by
  unfold passTurn
  split <;> rfl

@[simp] theorem passTurn_queued (a : Arrival) : (l.passTurn a).queued = l.queued := by
  unfold passTurn
  split <;> rfl

/-- So is what a step of its pool gives back. -/
theorem work_places {what : Work} (hp : l.Placed) (hle : l.places ≤ carries.held)
    (h : Works carries received charge l what carries' received' l') :
    l'.Placed ∧ carries'.held + l.places = carries.held + l'.places ∧ carries'.most = carries.most := by
  unfold places at hle ⊢
  cases h with
  | takes hfirst hfree =>
    refine ⟨hp, ?_, rfl⟩
    dsimp only
    rw [hfirst, List.length_append, List.length_cons, List.length_singleton]
    omega
  | moves hpick | holds hpick | frees hpick | sends hpick =>
    refine ⟨hp, ?_, rfl⟩
    dsimp only
    rw [List.length_append, List.length_singleton, length_of_pick hpick]
  | tells hpick =>
    unfold Placed at hp ⊢
    refine ⟨?_, ?_, rfl⟩
    · dsimp only
      rw [passTurn_serving, passTurn_taken]
      exact hp
    · dsimp only
      rw [passTurn_serving, passTurn_queued, List.length_append, List.length_singleton, length_of_pick hpick]
  | letsGo hpick =>
    refine ⟨hp, ?_, rfl⟩
    have := length_of_pick hpick
    dsimp only [Budget.release_held]
    omega
  | passes hpick =>
    have := length_of_pick hpick
    unfold Placed at hp ⊢
    refine ⟨?_, ?_, rfl⟩
    · dsimp only
      rw [passTurn_serving, passTurn_taken]
      exact hp
    · dsimp only [Budget.release_held]
      rw [passTurn_serving, passTurn_queued]
      omega

end Location

/-! ### What the node holds -/

namespace Node

/-- The carry places held are what the Locations hold. -/
structure Accounted (n : Node) : Prop where
  most : 0 < n.carries.most
  held : n.carries.held = total Location.places n.locations
  placed : ∀ l ∈ n.locations, l.Placed

theorem step_accounted {a : Action} (h : n.Accounted) (hs : n.step a = some n') : n'.Accounted := by
  -- One Location goes on, with the places it holds more or less.
  have hone : ∀ {i : Nat} {l l' : Location} {rest : List Location} {carries received : Budget},
      pick n.locations i = some (l, rest) →
      (l.Placed → l.places ≤ n.carries.held →
        l'.Placed ∧ carries.held + l.places = n.carries.held + l'.places ∧ carries.most = n.carries.most) →
      { n with carries, received, locations := rest ++ [l'] }.Accounted := by
    intro i l l' rest carries received hp hl
    have htotal := total_of_pick Location.places hp
    have hheld := h.held
    obtain ⟨hplaced, hcarries, hmost⟩ := hl (h.placed l (mem_of_pick hp)) (by omega)
    refine ⟨?_, ?_, ?_⟩
    · dsimp only
      rw [hmost]
      exact h.most
    · dsimp only
      rw [total_snoc]
      omega
    · intro l'' hl''
      rcases List.mem_append.1 hl'' with hl'' | hl''
      · exact h.placed l'' (mem_of_mem_pick hp hl'')
      · rw [List.mem_singleton.1 hl'']
        exact hplaced
  obtain ⟨rfl, rfl⟩ | ⟨i, what, l, rest, carries, l', rfl, hp, hserves, rfl⟩ |
    ⟨i, what, l, rest, carries, received, l', rfl, hp, hworks, rfl⟩ := step_cases hs
  · exact ⟨h.most, h.held, h.placed⟩
  · exact hone hp fun hplaced hle => Location.serve_places hplaced hle hserves
  · exact hone hp fun hplaced hle => Location.work_places hplaced hle hworks

theorem starts_accounted (h : Starts n) : n.Accounted := by
  have hnew : ∀ l ∈ n.locations, l.places = 0 ∧ l.Placed := by
    intro l hl
    obtain ⟨name, ordered, polled, most, pace, rfl⟩ := h.locations l hl
    exact ⟨rfl, rfl⟩
  refine ⟨h.carries.1, ?_, fun l hl => (hnew l hl).2⟩
  rw [h.carries.2]
  exact (total_eq_zero fun l hl => (hnew l hl).1).symm

theorem accounted_of_reach {ok : Node → Action → Prop} (h : Reach step ok Starts n) : n.Accounted :=
  Reach.invariant (fun _ h => starts_accounted h) (fun _ _ _ ha _ hs => step_accounted ha hs) h

end Node

namespace Location

/-- A step of the pool is of the loop in nothing. -/
theorem work_serving {what : Work} (h : Works carries received charge l what carries' received' l') :
    l'.serving = l.serving := by
  cases h with
  | takes | moves | holds | frees | sends | letsGo => rfl
  | tells | passes => exact passTurn_serving _

/-- A loop that does not rest holds no places at rest. -/
theorem rested_of_serve {what : Serve} (h : Serves carries raised l what carries' l') (hl : l.rested = 0)
    (hnot : ∀ ended asking took nudged, what = .unfound ended asking took nudged →
      l.pace.rest asking ended took = 0 ∨ nudged = true ∨ raised = true) : l'.rested = 0 := by
  cases h with
  | asks hs =>
    unfold rested
    dsimp only
    split
    · rename_i heq
      split at heq
      · cases heq
      · cases heq
    · rfl
  | settles hs hcount hsettles =>
    obtain ⟨a, cycle, told, channel, -, heard, serving, rfl, rfl | ⟨why, rfl⟩⟩ := settles_spec hsettles
    · exact hl
    · rfl
  | holds | found | goesOn | fails | handsOver | handed | crashes | rested | finishes => rfl
  | rests hs hlong hstill hraised =>
    rcases hnot _ _ _ _ rfl with h | h | h
    · exact absurd h (Nat.ne_of_gt hlong)
    · rw [hstill] at h
      cases h
    · rw [hraised] at h
      cases h

end Location

namespace Node

/-- No Location comes to rest while none does. -/
private theorem step_unrested {a : Action} (h : ∀ l ∈ n.locations, l.rested = 0) (hok : Restless n a)
    (hs : n.step a = some n') : ∀ l ∈ n'.locations, l.rested = 0 := by
  have hone : ∀ {i : Nat} {l l' : Location} {rest : List Location}, pick n.locations i = some (l, rest) → l'.rested = 0 →
      ∀ l'' ∈ rest ++ [l'], l''.rested = 0 := by
    intro i l l' rest hp hl' l'' hl''
    rcases List.mem_append.1 hl'' with hl'' | hl''
    · exact h l'' (mem_of_mem_pick hp hl'')
    · rw [List.mem_singleton.1 hl'']
      exact hl'
  obtain ⟨rfl, rfl⟩ | ⟨i, what, l, rest, carries, l', rfl, hp, hserves, rfl⟩ |
    ⟨i, what, l, rest, carries, received, l', rfl, hp, hworks, rfl⟩ := step_cases hs
  · exact h
  · refine hone hp (Location.rested_of_serve hserves (h l (mem_of_pick hp)) ?_)
    rintro ended asking took nudged rfl
    exact hok l (by rw [hp]; rfl)
  · refine hone hp ?_
    have hl := h l (mem_of_pick hp)
    unfold Location.rested at hl ⊢
    rw [Location.work_serving hworks]
    exact hl

theorem Accounted.heldByWork (h : n.Accounted) (hrested : ∀ l ∈ n.locations, l.rested = 0) : n.HeldByWork := by
  have heq : ∀ l ∈ n.locations, l.places = l.open_ + l.asked := by
    intro l hl
    rw [Location.places_eq (h.placed l hl), hrested l hl, Nat.add_zero]
  refine ⟨h.held.trans (total_congr heq), hrested, ?_⟩
  intro i l rest hp hothers hserving hfew hown
  -- No other holds a place, and this one no more than its own carries.
  have hothersTotal : total Location.places rest = 0 := by
    refine total_eq_zero fun other hother => ?_
    obtain ⟨hopen, hasked⟩ := hothers other hother
    rw [heq other (mem_of_mem_pick hp hother), hopen, hasked]
  have hheld : n.carries.held = l.open_ := by
    rw [h.held, total_of_pick Location.places hp, hothersTotal, heq l (mem_of_pick hp)]
    unfold Location.asked
    rw [hserving]
    rfl
  have hroom : (n.carries.holdUpTo (max l.most 1 - l.count)).isSome = true := by
    rw [Budget.holdUpTo_isSome, hheld]
    exact decide_eq_true hown
  simp only [step, hp, Location.serve, hserving, if_pos hfew, Option.isSome_map]
  exact hroom

/-- In every run in which no Location rests with its places, the carry places are held by work alone. -/
theorem heldByWork_of_restless (h : Reach step Restless Starts n) : n.HeldByWork := by
  have hrested : ∀ l ∈ n.locations, l.rested = 0 := by
    have hstart : ∀ n, Starts n → ∀ l ∈ n.locations, l.rested = 0 := by
      intro n hn l hl
      obtain ⟨name, ordered, polled, most, pace, rfl⟩ := hn.locations l hl
      rfl
    exact Reach.invariant hstart (fun n a n' hl hok hs => step_unrested hl hok hs) h
  exact (accounted_of_reach h).heldByWork hrested

private def everySecond : Pace := ⟨1000, 1000, 5000, 1000⟩

private def listening : Location := .new "listening" false false 2 everySecond

private def watching : Location := .new "watching" true true 2 everySecond

/-- Two places in all, for the Locations `locations`. -/
private def twoPlaces (locations : List Location) : Node := ⟨⟨2, 0⟩, ⟨100, 0⟩, 1, false, locations⟩

private theorem starts_twoPlaces (locations : List Location) (h : ∀ l ∈ locations, l = listening ∨ l = watching) :
    Starts (twoPlaces locations) := by
  refine ⟨⟨Nat.zero_lt_two, rfl⟩, ⟨Nat.succ_pos 99, rfl⟩, ?_⟩
  intro l hl
  rcases h l hl with rfl | rfl
  · exact ⟨_, _, _, _, _, rfl⟩
  · exact ⟨_, _, _, _, _, rfl⟩

/-- A Location whose receive waits by itself: a receive that found nothing, then one that found an arrival, being carried;
and its next receive is asked with the place left. -/
theorem heldByWork_of_listening : ∃ n : Node, n.HeldByWork ∧ n.carries.held = 2 ∧
    n.locations.map (fun l => (l.open_, l.asked)) = [(1, 1)] := by
  obtain ⟨n, hn, hp⟩ := Reach.exists_of_runWhere step Restless
    (starts_twoPlaces [listening] fun l hl => .inl (List.mem_singleton.1 hl))
    [.serve 0 (.ask 0 0), .serve 0 .hold, .serve 0 (.unfound .nothing .waits 10 false), .serve 0 (.ask 10 10),
      .serve 0 .hold, .serve 0 (.found 1 true), .serve 0 .handOver, .serve 0 .handed, .work 0 .take, .work 0 (.guard 0),
      .work 0 (.hold 0), .serve 0 (.ask 20 20), .serve 0 .hold]
    (fun n => decide (n.carries.held = 2) && decide (n.locations.map (fun l => (l.open_, l.asked)) = [(1, 1)]))
    (by decide +kernel)
  simp only [Bool.and_eq_true, decide_eq_true_eq] at hp
  exact ⟨n, heldByWork_of_restless hn, hp⟩

/-- A polled Location found nothing, and rests with both the node's places; nothing is carried and nothing is asked, and the
other Location waits for the rest to end. -/
theorem heldByRest : ∃ n : Node, Reach step Always Starts n ∧ n.carries.held = 2 ∧
    (∀ l ∈ n.locations, l.open_ = 0 ∧ l.asked = 0) ∧ n.step (.serve 1 .hold) = none ∧ ¬ n.HeldByWork := by
  obtain ⟨n, hn, hp⟩ := Reach.exists_of_runWhere step Always
    (starts_twoPlaces [watching, listening] fun l hl => (List.mem_pair.1 hl).symm)
    [.serve 0 (.ask 0 0), .serve 1 .hold, .serve 1 (.unfound .nothing .polled 10 false), .serve 0 (.ask 20 20)]
    (fun n => decide (n.carries.held = 2) && (n.locations.all (fun l => decide (l.open_ = 0 ∧ l.asked = 0)) &&
      ((n.step (.serve 1 .hold)).isNone && n.locations.any fun l => decide (l.rested = 2))))
    (by decide +kernel)
  simp only [Bool.and_eq_true, List.all_eq_true, List.any_eq_true, Option.isNone_iff_eq_none, decide_eq_true_eq] at hp
  obtain ⟨hheld, hnone, hwaits, l, hl, hrests⟩ := hp
  refine ⟨n, hn, hheld, hnone, hwaits, fun h => ?_⟩
  have := h.resting l hl
  omega

end Node

end Receiving
