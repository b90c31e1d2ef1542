import Mathlib.Data.List.Infix
import Mathlib.Data.List.Nodup
import Mathlib.Data.List.Range
import XmipRuntime.Receiving.Places

/-!
# Every arrival is answered

Once its `Telling` is made, whatever ends an arrival's carry tells its far end, passes its turn on and sends what came of
it to the loop.  An arrival whose thread panics before that is told nothing, and is counted for good: the loop waits for a
telling that will not come.
-/

namespace Receiving

open Library

/-! ### What is claimed -/

/-- Work the threads under way owe, whatever arrives later: every step of theirs but asking for more, and panics. -/
def Owed : Action → Prop
  | .raise => False
  | .serve _ what =>
    match what with
    | .hold | .found .. | .crash => False
    | .ask .. | .settle | .unfound .. | .failed _ | .handOver | .handed | .rested | .finish => True
  | .work _ what =>
    match what with
    | .breaks _ | .panics _ | .tellPanics _ => False
    | .take | .guard _ | .hold _ | .carry .. | .audit _ | .tell .. | .send _ | .letGo _ | .pass _ => True

/-- Steps that ask for more: the node's stop, places held, and arrivals found. -/
def Asks : Action → Prop
  | .raise | .serve _ .hold | .serve _ (.found ..) => True
  | _ => False

/-- What is left of a loop's turn, in steps. -/
def Serving.owed : Serving → Nat
  | .asking _ | .handing _ => 4
  | .resting _ => 3
  | .top => 2
  | .settling | .ending _ => 1
  | .returned _ | .crashed => 0

/-- What is left of an arrival on a thread, in steps. -/
def Task.owed (t : Task) : Nat :=
  match t.phase with
  | .entered => 8
  | .guarded => 7
  | .carrying => 6
  | .carried _ => 5
  | .telling .. => 4
  | .sending .. => 3
  | .sent | .lost => 1

namespace Location

/-- Every arrival was told and settled, each once. -/
structure Done (l : Location) : Prop where
  told : (l.told.map Prod.fst).Perm l.all
  settled : (l.settled.map Prod.fst).Perm l.all
  count : l.count = 0

/-- No far end is told twice, and none that did not arrive; none is settled twice, or before it is told; ordered ones are
told in the order they came, each passing its turn on as it is told; and a Location that returned has answered all. -/
structure Answers (l : Location) : Prop where
  arrived : l.all.Nodup
  toldOnce : (l.told.map Prod.fst).Nodup ∧ ∀ a ∈ l.told.map Prod.fst, a ∈ l.all
  settledOnce : (l.settled.map Prod.fst).Nodup ∧ ∀ a ∈ l.settled.map Prod.fst, a ∈ l.told.map Prod.fst
  inOrder : l.ordered = true → l.told.map Prod.fst <+: l.all ∧ l.passed = l.told.map Prod.fst
  returned : ∀ why, l.serving = .returned why → l.Done

/-- What is left to do at a Location, in steps. -/
def owed (l : Location) : Nat :=
  l.serving.owed + 10 * l.taken.length + 9 * l.queued.length + l.channel.length + total Task.owed l.running

end Location

/-- Every arrival is answered: its Location answers it at most once and in order; whatever the threads do ends, and when
nothing is left for them to do every arrival was told and settled, and its place and bytes given back. -/
structure Node.Answered (n : Node) : Prop where
  answers : ∀ l ∈ n.locations, l.Answers
  ends : ∀ a n', ¬ Asks a → n.step a = some n' → total Location.owed n'.locations < total Location.owed n.locations
  done : (∀ a, Owed a → n.step a = none) → (∀ l ∈ n.locations, l.Done) ∧ n.carries.held = 0 ∧ n.received.held = 0

/-- No thread panics while an arrival is taken and has no `Telling`. -/
def Guarded (_ : Node) : Action → Prop
  | .serve _ .crash | .work _ (.breaks _) => False
  | _ => True

instance (n : Node) (a : Action) : Decidable (Guarded n a) :=
  match a with
  | .serve _ .crash | .work _ (.breaks _) => .isFalse id
  | .raise | .serve _ (.ask ..) | .serve _ .settle | .serve _ .hold | .serve _ (.found ..) | .serve _ (.unfound ..)
  | .serve _ (.failed _) | .serve _ .handOver | .serve _ .handed | .serve _ .rested | .serve _ .finish | .work _ .take
  | .work _ (.guard _) | .work _ (.hold _) | .work _ (.carry ..) | .work _ (.audit _) | .work _ (.panics _)
  | .work _ (.tell ..) | .work _ (.tellPanics _) | .work _ (.send _) | .work _ (.letGo _) | .work _ (.pass _) => .isTrue trivial

/-! ### Arrivals under way -/

/-- An arrival whose far end is not told. -/
def Task.untold (t : Task) : Option Arrival :=
  match t.phase with
  | .sending .. | .sent => none
  | .entered | .guarded | .carrying | .carried _ | .telling .. | .lost => some t.arrival

/-- An arrival whose loop is sent nothing of it. -/
def Task.unsent (t : Task) : Option Arrival :=
  match t.phase with
  | .sent => none
  | .entered | .guarded | .carrying | .carried _ | .telling .. | .sending .. | .lost => some t.arrival

namespace Location

variable {carries carries' received received' : Budget} {charge : Nat} {raised : Bool} {l l' : Location}

def untold (l : Location) : List Arrival := l.taken ++ l.queued ++ l.running.filterMap Task.untold

def unsettled (l : Location) : List Arrival :=
  l.taken ++ l.queued ++ l.running.filterMap Task.unsent ++ l.channel.map Prod.fst

/-- Where every arrival of a Location is. -/
structure Sound (l : Location) : Prop where
  numbered : l.all.map Arrival.number = List.range l.all.length
  told : (l.untold ++ l.told.map Prod.fst).Perm l.all
  settled : (l.unsettled ++ l.settled.map Prod.fst).Perm l.all
  count : l.count = l.unsettled.length
  found : ∀ t ∈ l.running, t.phase ≠ .lost ∧ t.arrival ∈ l.all
  uncrashed : l.serving ≠ .crashed
  placed : l.Placed
  alone : l.ordered = true → ∀ places, l.serving = .asking places → l.count = 0
  turn : l.ordered = true → ∀ a ∈ l.untold, a.receive + 1 = l.receives ∧ a.number + l.turns a.receive = l.told.length + a.place
  fresh : ∀ receive, l.receives ≤ receive → l.turns receive = 0
  inOrder : l.ordered = true → l.told.map Prod.fst <+: l.all ∧ l.passed = l.told.map Prod.fst
  first : (l.queued ++ l.taken).Pairwise (·.number < ·.number) ∧
    ∀ t ∈ l.running, ∀ a ∈ l.queued ++ l.taken, t.arrival.number < a.number
  returned : ∀ why, l.serving = .returned why → l.count = 0

theorem unsent_of_untold {t : Task} {a : Arrival} (h : t.untold = some a) : t.unsent = some a := by
  unfold Task.untold at h
  unfold Task.unsent
  cases hp : t.phase with
  | sending | sent =>
    rw [hp] at h
    cases h
  | entered | guarded | carrying | carried | telling | lost =>
    rw [hp] at h
    exact h

/-- What is not told is not settled. -/
theorem mem_unsettled_of_untold {a : Arrival} (h : a ∈ l.untold) : a ∈ l.unsettled := by
  rcases List.mem_append.1 h with h | h
  · exact List.mem_append_left _ (List.mem_append_left _ h)
  · obtain ⟨t, ht, hut⟩ := List.mem_filterMap.1 h
    exact List.mem_append_left _ (List.mem_append_right _ (List.mem_filterMap.2 ⟨t, ht, unsent_of_untold hut⟩))

theorem Sound.nodup (h : l.Sound) : l.all.Nodup := by
  refine List.Nodup.of_map Arrival.number ?_
  rw [h.numbered]
  exact List.nodup_range

theorem Sound.done (h : l.Sound) (hcount : l.count = 0) : l.Done := by
  have hnone : l.unsettled = [] := List.eq_nil_of_length_eq_zero (h.count.symm.trans hcount)
  have huntold : l.untold = [] := by
    refine List.eq_nil_iff_forall_not_mem.2 fun a ha => ?_
    have := mem_unsettled_of_untold ha
    rw [hnone] at this
    cases this
  have htold := h.told
  have hsettled := h.settled
  rw [huntold, List.nil_append] at htold
  rw [hnone, List.nil_append] at hsettled
  exact ⟨htold, hsettled, hcount⟩

theorem Sound.answers (h : l.Sound) : l.Answers := by
  have htold := h.told.nodup_iff.2 h.nodup
  have hsettled := h.settled.nodup_iff.2 h.nodup
  refine ⟨h.nodup, ⟨(List.nodup_append.1 htold).2.1, ?_⟩, ⟨(List.nodup_append.1 hsettled).2.1, ?_⟩, h.inOrder,
    fun why hs => h.done (h.returned why hs)⟩
  · exact fun a ha => h.told.mem_iff.1 (List.mem_append_right _ ha)
  · -- What is settled is not unsettled, and so not untold.
    intro a ha
    have hall : a ∈ l.untold ++ l.told.map Prod.fst :=
      h.told.mem_iff.2 (h.settled.mem_iff.1 (List.mem_append_right _ ha))
    refine (List.mem_append.1 hall).resolve_left fun huntold => ?_
    exact (List.nodup_append.1 hsettled).2.2 a (mem_unsettled_of_untold huntold) a ha rfl

theorem new_sound (name : String) (ordered polled : Bool) (most : Nat) (pace : Pace) :
    (new name ordered polled most pace).Sound := by
  refine ⟨rfl, .refl _, .refl _, rfl, ?_, ?_, rfl, ?_, ?_, fun _ _ => rfl, ?_, ⟨.nil, ?_⟩, ?_⟩
  · intro t ht
    cases ht
  · intro h
    cases h
  · intro _ places h
    cases h
  · intro _ a ha
    cases ha
  · exact fun _ => ⟨List.prefix_rfl, rfl⟩
  · intro t ht
    cases ht
  · intro why h
    cases h

/-- A step that leaves every arrival where it is. -/
private theorem Sound.goesOn (h : l.Sound) (drain : Drain) (serving : Serving) (hcrashed : serving ≠ .crashed)
    (hplaced : { l with drain, serving }.Placed)
    (halone : l.ordered = true → ∀ places, serving = .asking places → l.count = 0)
    (hreturned : ∀ why, serving = .returned why → l.count = 0) : { l with drain, serving }.Sound :=
  ⟨h.numbered, h.told, h.settled, h.count, h.found, hcrashed, hplaced, halone, h.turn, h.fresh, h.inOrder, h.first,
    hreturned⟩

private theorem settles_sound (h : l.Sound) (hserving : l.serving = .settling ∨ ∃ why, l.serving = .ending why)
    (hs : l.settles = some l') : l'.Sound := by
  obtain ⟨a, cycle, told, channel, hchannel, heard, serving, rfl, hnext⟩ := settles_spec hs
  have hends : serving = .settling ∨ ∃ why, serving = .ending why := by
    rcases hnext with rfl | ⟨why, rfl⟩
    · exact hserving
    · exact .inr ⟨why, rfl⟩
  have htaken : l.taken = [] := by
    have hplaced := h.placed
    unfold Placed at hplaced
    rcases hserving with hs | ⟨why, hs⟩
    · rw [hs] at hplaced
      exact hplaced
    · rw [hs] at hplaced
      exact hplaced
  -- The first of the channel is settled.
  have hunsettled : l.unsettled = l.taken ++ l.queued ++ l.running.filterMap Task.unsent ++ a :: channel.map Prod.fst := by
    unfold unsettled
    rw [hchannel]
    rfl
  have hperm : (l.taken ++ l.queued ++ l.running.filterMap Task.unsent ++ channel.map Prod.fst ++
      (l.settled ++ [(a, cycle)]).map Prod.fst).Perm (l.unsettled ++ l.settled.map Prod.fst) := by
    rw [hunsettled, List.map_append, List.append_assoc, List.append_assoc (l.taken ++ l.queued ++ _)]
    refine List.Perm.append_left _ ?_
    rw [← List.append_assoc, List.cons_append]
    exact List.perm_append_singleton ..
  refine ⟨h.numbered, h.told, hperm.trans h.settled, ?_, h.found, ?_, placed_of_taken htaken, ?_, h.turn, h.fresh, h.inOrder,
    h.first, ?_⟩
  · show l.count - 1 = _
    rw [h.count, hunsettled]
    unfold unsettled
    simp only [List.length_append, List.length_cons]
    omega
  · rcases hends with rfl | ⟨why, rfl⟩
    · exact fun h => (by cases h)
    · exact fun h => (by cases h)
  · intro _ places heq
    rcases hends with rfl | ⟨why, rfl⟩
    · cases heq
    · cases heq
  · intro why heq
    rcases hends with rfl | ⟨why, rfl⟩
    · cases heq
    · cases heq

private theorem arrivals_number (l : Location) (n : Nat) :
    (l.arrivals n).map Arrival.number = List.range' l.all.length n := by
  unfold arrivals
  rw [List.map_map, List.range'_eq_map_range]
  rfl

private theorem mem_arrivals {n : Nat} {a : Arrival} (h : a ∈ l.arrivals n) :
    a.receive = l.receives ∧ a.number = l.all.length + a.place := by
  obtain ⟨place, -, rfl⟩ := List.mem_map.1 h
  exact ⟨rfl, rfl⟩

theorem Sound.lt_of_mem (h : l.Sound) {a : Arrival} (ha : a ∈ l.all) : a.number < l.all.length := by
  have : a.number ∈ l.all.map Arrival.number := List.mem_map.2 ⟨a, ha, rfl⟩
  rw [h.numbered] at this
  exact List.mem_range.1 this

theorem Sound.mem_of_untold (h : l.Sound) {a : Arrival} (ha : a ∈ l.untold) : a ∈ l.all :=
  h.told.mem_iff.1 (List.mem_append_left _ ha)

private theorem found_sound (h : l.Sound) {places n : Nat} {letGo : Bool} (hs : l.serving = .asking places)
    (hn : n ≤ places) :
    { l with
      drain := l.drain.handed letGo
      count := l.count + n
      receives := l.receives + 1
      taken := l.arrivals n
      all := l.all ++ l.arrivals n
      serving := .handing places }.Sound := by
  have hlength : (l.arrivals n).length = n := by
    unfold arrivals
    rw [List.length_map, List.length_range]
  have htaken : l.taken = [] := by
    have hplaced := h.placed
    unfold Placed at hplaced
    rw [hs] at hplaced
    exact hplaced
  have huntold : l.untold = l.queued ++ l.running.filterMap Task.untold := by
    unfold untold
    rw [htaken, List.nil_append]
  have hunsettled : l.unsettled = l.queued ++ l.running.filterMap Task.unsent ++ l.channel.map Prod.fst := by
    unfold unsettled
    rw [htaken, List.nil_append]
  -- An ordered one is asked again once all is told.
  have halone (hordered : l.ordered = true) : l.untold = [] ∧ l.told.length = l.all.length := by
    have hdone := h.done (h.alone hordered places hs)
    refine ⟨?_, by rw [← List.length_map Prod.fst, hdone.told.length_eq]⟩
    have htotal := h.told.length_eq
    rw [List.length_append, hdone.told.length_eq] at htotal
    exact List.eq_nil_of_length_eq_zero (by omega)
  have hbefore : ∀ a ∈ l.all, ∀ a' ∈ l.arrivals n, a.number < a'.number := by
    intro a ha a' ha'
    have h₁ := h.lt_of_mem ha
    have h₂ := (mem_arrivals ha').2
    omega
  refine ⟨?_, ?_, ?_, ?_, ?_, fun h => (by cases h), ?_, fun _ _ h => (by cases h), ?_, ?_, ?_, ⟨?_, ?_⟩,
    fun _ h => (by cases h)⟩
  · dsimp only
    rw [List.map_append, h.numbered, arrivals_number, List.length_append, hlength, List.range_eq_range',
      List.range_eq_range', ← List.range'_append_1, Nat.zero_add]
  · have htold := h.told
    rw [huntold] at htold
    show ((l.arrivals n ++ l.queued ++ l.running.filterMap Task.untold) ++ _).Perm _
    rw [List.append_assoc (l.arrivals n), List.append_assoc]
    exact (htold.append_left _).trans List.perm_append_comm
  · have hsettled := h.settled
    rw [hunsettled] at hsettled
    show ((l.arrivals n ++ l.queued ++ l.running.filterMap Task.unsent ++ _) ++ _).Perm _
    rw [List.append_assoc (l.arrivals n), List.append_assoc (l.arrivals n), List.append_assoc (l.arrivals n)]
    exact (hsettled.append_left _).trans List.perm_append_comm
  · show l.count + n = (l.arrivals n ++ l.queued ++ _ ++ _).length
    rw [h.count, hunsettled]
    simp only [List.length_append, hlength]
    omega
  · exact fun t ht => ⟨(h.found t ht).1, List.mem_append_left _ (h.found t ht).2⟩
  · show (l.arrivals n).length ≤ places
    omega
  · intro hordered a ha
    obtain ⟨hnone, htold⟩ := halone hordered
    have ha' : a ∈ l.arrivals n := by
      have : a ∈ l.arrivals n ++ l.queued ++ l.running.filterMap Task.untold := ha
      rw [List.append_assoc, ← huntold, hnone, List.append_nil] at this
      exact this
    obtain ⟨hreceive, hnumber⟩ := mem_arrivals ha'
    refine ⟨by rw [hreceive], ?_⟩
    dsimp only
    rw [hreceive, h.fresh _ (Nat.le_refl _), htold, hnumber, Nat.add_zero]
  · intro receive hle
    exact h.fresh receive (Nat.le_of_succ_le hle)
  · intro hordered
    obtain ⟨hpre, hpassed⟩ := h.inOrder hordered
    exact ⟨hpre.trans (List.prefix_append ..), hpassed⟩
  · have hfirst := h.first.1
    rw [htaken, List.append_nil] at hfirst
    refine List.pairwise_append.2 ⟨hfirst, ?_, ?_⟩
    · have hsorted : ((l.arrivals n).map Arrival.number).Pairwise (· < ·) := by
        rw [arrivals_number]
        exact List.pairwise_lt_range' ..
      exact List.pairwise_map.1 hsorted
    · intro a ha a' ha'
      refine hbefore a (h.mem_of_untold ?_) a' ha'
      rw [huntold]
      exact List.mem_append_left _ ha
  · intro t ht a ha
    rcases List.mem_append.1 ha with ha | ha
    · refine h.first.2 t ht a ?_
      exact List.mem_append_left _ ha
    · exact hbefore _ (h.found t ht).2 a ha

theorem serve_sound {what : Serve} (h : l.Sound) (hs : Serves carries raised l what carries' l')
    (hle : l.places ≤ carries.held) (hnot : what ≠ .crash) : l'.Sound := by
  have hplaced : l'.Placed := (serve_places h.placed hle hs).1
  cases hs with
  | asks hserving =>
    refine h.goesOn _ _ ?_ hplaced ?_ ?_
    · split <;> exact fun h => (by cases h)
    · intro _ places heq
      split at heq <;> cases heq
    · intro why heq
      split at heq <;> cases heq
  | settles hserving hcount hsettles => exact settles_sound h hserving hsettles
  | holds hserving hfew hheld =>
    refine h.goesOn _ _ (fun h => (by cases h)) hplaced ?_ fun _ h => (by cases h)
    intro hordered places _
    unfold busy at hfew
    rw [if_pos hordered] at hfew
    exact Nat.le_zero.1 hfew
  | found hserving hn hmost => exact found_sound h hserving hmost
  | rests | goesOn | fails | handed | rested =>
    exact h.goesOn _ _ (fun h => (by cases h)) hplaced (fun _ _ h => (by cases h)) fun _ h => (by cases h)
  | @handsOver places a taken hserving hfirst =>
    -- The first on the loop's thread is the last in the pool's queue.
    have hwaits : (taken ++ (l.queued ++ [a])).Perm (l.taken ++ l.queued) := by
      rw [hfirst, ← List.append_assoc, List.cons_append]
      exact List.perm_append_singleton ..
    have hsame : l.queued ++ [a] ++ taken = l.queued ++ l.taken := by
      rw [hfirst, List.append_assoc]
      rfl
    have huntold : (taken ++ (l.queued ++ [a]) ++ l.running.filterMap Task.untold).Perm l.untold := hwaits.append_right _
    have hunsettled : (taken ++ (l.queued ++ [a]) ++ l.running.filterMap Task.unsent ++ l.channel.map Prod.fst).Perm
        l.unsettled := (hwaits.append_right _).append_right _
    refine ⟨h.numbered, (huntold.append_right _).trans h.told, (hunsettled.append_right _).trans h.settled,
      h.count.trans hunsettled.length_eq.symm, h.found, fun h => (by cases h), hplaced, fun _ _ h => (by cases h), ?_,
      h.fresh, h.inOrder, ?_, fun _ h => (by cases h)⟩
    · exact fun hordered b hb => h.turn hordered b (huntold.mem_iff.1 hb)
    · dsimp only
      rw [hsame]
      exact h.first
  | crashes => exact absurd rfl hnot
  | finishes hserving hnone =>
    exact h.goesOn _ _ (fun h => (by cases h)) hplaced (fun _ _ h => (by cases h)) fun _ _ => hnone

/-- One picked and put back, its phase another: the same arrivals run. -/
private theorem mem_replaced {running rest : List Task} {i : Nat} {a : Arrival} {phase phase' : Phase}
    (hp : pick running i = some (⟨a, phase⟩, rest)) {t : Task} (ht : t ∈ rest ++ [⟨a, phase'⟩]) :
    (∃ t' ∈ running, t'.arrival = t.arrival) ∧ (t ∈ running ∨ t.phase = phase') := by
  rcases List.mem_append.1 ht with ht | ht
  · exact ⟨⟨t, mem_of_mem_pick hp ht, rfl⟩, .inl (mem_of_mem_pick hp ht)⟩
  · rw [List.mem_singleton.1 ht]
    exact ⟨⟨_, mem_of_pick hp, rfl⟩, .inr rfl⟩

private theorem found_replaced (h : l.Sound) {rest : List Task} {i : Nat} {a : Arrival} {phase : Phase}
    (hp : pick l.running i = some (⟨a, phase⟩, rest)) (phase' : Phase) (hlost : phase' ≠ .lost) :
    ∀ t ∈ rest ++ [Task.mk a phase'], t.phase ≠ .lost ∧ t.arrival ∈ l.all := by
  intro t ht
  obtain ⟨⟨t', ht', heq⟩, hphase⟩ := mem_replaced hp ht
  refine ⟨?_, heq ▸ (h.found t' ht').2⟩
  rcases hphase with hmem | hphase
  · exact (h.found t hmem).1
  · rw [hphase]
    exact hlost

private theorem first_replaced (h : l.Sound) {rest : List Task} {i : Nat} {a : Arrival} {phase : Phase}
    (hp : pick l.running i = some (⟨a, phase⟩, rest)) (phase' : Phase) :
    ∀ t ∈ rest ++ [Task.mk a phase'], ∀ b ∈ l.queued ++ l.taken, t.arrival.number < b.number := by
  intro t ht b hb
  obtain ⟨⟨t', ht', heq⟩, -⟩ := mem_replaced hp ht
  rw [← heq]
  exact h.first.2 t' ht' b hb

/-- What of the running is `f`, one of them in another phase of which `f` is the same. -/
private theorem filterMap_replaced {β : Type} {running rest : List Task} {i : Nat} {t : Task} (f : Task → Option β)
    (t' : Task) (hp : pick running i = some (t, rest)) (hf : f t' = f t) :
    ((rest ++ [t']).filterMap f).Perm (running.filterMap f) := by
  rw [filterMap_snoc, hf]
  exact filterMap_of_pick f hp

private theorem replaced_sound (h : l.Sound) {rest : List Task} {i : Nat} {a : Arrival} {phase phase' : Phase}
    (hp : pick l.running i = some (⟨a, phase⟩, rest)) (hlost : phase' ≠ .lost)
    (huntold : Task.untold ⟨a, phase'⟩ = Task.untold ⟨a, phase⟩) (hunsent : Task.unsent ⟨a, phase'⟩ = Task.unsent ⟨a, phase⟩) :
    { l with running := rest ++ [Task.mk a phase'] }.Sound := by
  have hu : (l.taken ++ l.queued ++ (rest ++ [Task.mk a phase']).filterMap Task.untold).Perm l.untold :=
    (filterMap_replaced _ _ hp huntold).append_left _
  have hs : (l.taken ++ l.queued ++ (rest ++ [Task.mk a phase']).filterMap Task.unsent ++ l.channel.map Prod.fst).Perm
      l.unsettled := ((filterMap_replaced _ _ hp hunsent).append_left _).append_right _
  exact ⟨h.numbered, (hu.append_right _).trans h.told, (hs.append_right _).trans h.settled,
    h.count.trans hs.length_eq.symm, found_replaced h hp _ hlost, h.uncrashed, h.placed, h.alone,
    fun hordered b hb => h.turn hordered b (hu.mem_iff.1 hb), h.fresh, h.inOrder, ⟨h.first.1, first_replaced h hp _⟩,
    h.returned⟩

private theorem takes_sound (h : l.Sound) {a : Arrival} {queued : List Arrival} (hfirst : l.queued = a :: queued) :
    { l with queued, running := l.running ++ [Task.mk a .entered] }.Sound := by
  have hmoves (r : List Arrival) : (l.taken ++ queued ++ (r ++ [a])).Perm (l.taken ++ l.queued ++ r) := by
    rw [hfirst, List.append_assoc, List.append_assoc]
    refine List.Perm.append_left _ ?_
    rw [← List.append_assoc, List.cons_append]
    exact List.perm_append_singleton ..
  have hu : (l.taken ++ queued ++ (l.running ++ [Task.mk a .entered]).filterMap Task.untold).Perm l.untold := by
    rw [filterMap_snoc]
    exact hmoves _
  have hs : (l.taken ++ queued ++ (l.running ++ [Task.mk a .entered]).filterMap Task.unsent ++ l.channel.map Prod.fst).Perm
      l.unsettled := by
    rw [filterMap_snoc]
    exact (hmoves _).append_right _
  have hall : a ∈ l.all := by
    refine h.mem_of_untold (hu.mem_iff.1 (List.mem_append_right _ ?_))
    rw [filterMap_snoc]
    exact List.mem_append_right _ (List.mem_singleton.2 rfl)
  -- The first of the queue is before the rest of it.
  have hsorted := h.first.1
  rw [hfirst, List.cons_append, List.pairwise_cons] at hsorted
  have hplaced := h.placed
  refine ⟨h.numbered, (hu.append_right _).trans h.told, (hs.append_right _).trans h.settled,
    h.count.trans hs.length_eq.symm, ?_, h.uncrashed, hplaced, h.alone,
    fun hordered b hb => h.turn hordered b (hu.mem_iff.1 hb), h.fresh, h.inOrder, ⟨hsorted.2, ?_⟩, h.returned⟩
  · intro t ht
    rcases List.mem_append.1 ht with ht | ht
    · exact h.found t ht
    · rw [List.mem_singleton.1 ht]
      exact ⟨fun h => (by cases h), hall⟩
  · intro t ht b hb
    rcases List.mem_append.1 ht with ht | ht
    · refine h.first.2 t ht b ?_
      rw [hfirst]
      exact List.mem_cons_of_mem _ hb
    · rw [List.mem_singleton.1 ht]
      exact hsorted.1 b hb

private theorem sends_sound (h : l.Sound) {i : Nat} {a : Arrival} {cycle : Cycle} {told : Told} {rest : List Task}
    (hp : pick l.running i = some (⟨a, .sending cycle told⟩, rest)) :
    { l with running := rest ++ [Task.mk a .sent], channel := l.channel ++ [(a, cycle, told)] }.Sound := by
  have hu : (l.taken ++ l.queued ++ (rest ++ [Task.mk a .sent]).filterMap Task.untold).Perm l.untold :=
    (filterMap_replaced _ ⟨a, .sent⟩ hp rfl).append_left _
  have hs : (l.taken ++ l.queued ++ (rest ++ [Task.mk a .sent]).filterMap Task.unsent ++
      (l.channel ++ [(a, cycle, told)]).map Prod.fst).Perm l.unsettled := by
    have hrunning := filterMap_of_pick Task.unsent hp
    refine List.Perm.trans ?_ ((hrunning.append_left (l.taken ++ l.queued)).append_right (l.channel.map Prod.fst))
    rw [filterMap_snoc, List.map_append, List.append_assoc (l.taken ++ l.queued), List.append_assoc (l.taken ++ l.queued),
      List.append_assoc (rest.filterMap Task.unsent), List.append_assoc (rest.filterMap Task.unsent)]
    refine (List.Perm.append_left _ ?_).append_left _
    exact List.perm_append_singleton ..
  exact ⟨h.numbered, (hu.append_right _).trans h.told, (hs.append_right _).trans h.settled,
    h.count.trans hs.length_eq.symm, found_replaced h hp _ fun h => (by cases h), h.uncrashed, h.placed, h.alone,
    fun hordered b hb => h.turn hordered b (hu.mem_iff.1 hb), h.fresh, h.inOrder, ⟨h.first.1, first_replaced h hp _⟩,
    h.returned⟩

private theorem letsGo_sound (h : l.Sound) {i : Nat} {a : Arrival} {rest : List Task}
    (hp : pick l.running i = some (⟨a, .sent⟩, rest)) : { l with running := rest }.Sound := by
  have hgone {f : Task → Option Arrival} (hf : f ⟨a, .sent⟩ = none) :
      (rest.filterMap f).Perm (l.running.filterMap f) := by
    have := filterMap_of_pick f hp
    rwa [hf, Option.toList_none, List.append_nil] at this
  have hu : (l.taken ++ l.queued ++ rest.filterMap Task.untold).Perm l.untold := (hgone rfl).append_left _
  have hs : (l.taken ++ l.queued ++ rest.filterMap Task.unsent ++ l.channel.map Prod.fst).Perm l.unsettled :=
    ((hgone rfl).append_left _).append_right _
  exact ⟨h.numbered, (hu.append_right _).trans h.told, (hs.append_right _).trans h.settled,
    h.count.trans hs.length_eq.symm, fun t ht => h.found t (mem_of_mem_pick hp ht), h.uncrashed, h.placed, h.alone,
    fun hordered b hb => h.turn hordered b (hu.mem_iff.1 hb), h.fresh, h.inOrder,
    ⟨h.first.1, fun t ht => h.first.2 t (mem_of_mem_pick hp ht)⟩, h.returned⟩

theorem Sound.get_number (h : l.Sound) {a : Arrival} (ha : a ∈ l.all) : l.all[a.number]? = some a := by
  obtain ⟨i, hi, rfl⟩ := List.getElem_of_mem ha
  have hnumber : (l.all.map Arrival.number)[i]? = some i := by
    rw [h.numbered, List.getElem?_range hi]
  rw [List.getElem?_map, List.getElem?_eq_getElem hi, Option.map_some, Option.some.injEq] at hnumber
  rw [hnumber, List.getElem?_eq_getElem hi]

theorem Sound.number_of_get (h : l.Sound) {i : Nat} {a : Arrival} (ha : l.all[i]? = some a) : a.number = i := by
  obtain ⟨hi, rfl⟩ := List.getElem?_eq_some_iff.1 ha
  have hnumber : (l.all.map Arrival.number)[i]? = some i := by
    rw [h.numbered, List.getElem?_range hi]
  rw [List.getElem?_map, List.getElem?_eq_getElem hi] at hnumber
  exact Option.some.inj hnumber

/-- Those not told of an ordered Location came after those told. -/
theorem Sound.le_number (h : l.Sound) (hordered : l.ordered = true) {a : Arrival} (ha : a ∈ l.untold) :
    l.told.length ≤ a.number := by
  refine Nat.le_of_not_lt fun hlt => ?_
  obtain ⟨rest, hrest⟩ := (h.inOrder hordered).1
  have hget := h.get_number (h.mem_of_untold ha)
  rw [← hrest, List.getElem?_append_left (by rwa [List.length_map])] at hget
  have hnodup := h.told.nodup_iff.2 h.nodup
  exact (List.nodup_append.1 hnodup).2.2 a ha a (List.mem_of_getElem? hget) rfl

/-- The next that came after those told is not told. -/
theorem Sound.next_untold (h : l.Sound) (hordered : l.ordered = true) (hlt : l.told.length < l.all.length) :
    ∃ a ∈ l.untold, a.number = l.told.length := by
  have hget := List.getElem?_eq_getElem hlt
  have hnumber := h.number_of_get hget
  refine ⟨_, ?_, hnumber⟩
  have hmem : l.all[l.told.length] ∈ l.untold ++ l.told.map Prod.fst := h.told.mem_iff.2 (List.getElem_mem hlt)
  refine (List.mem_append.1 hmem).resolve_right fun htold => ?_
  -- One told is among the first, as many as are told.
  obtain ⟨rest, hrest⟩ := (h.inOrder hordered).1
  obtain ⟨i, hi, heq⟩ := List.getElem_of_mem htold
  have hi' : i < l.told.length := by rwa [List.length_map] at hi
  have hat : l.all[i]? = some l.all[l.told.length] := by
    conv_lhs => rw [← hrest]
    rw [List.getElem?_append_left hi, List.getElem?_eq_getElem hi, heq]
  have := h.number_of_get hat
  omega

private theorem snoc_isPrefix {α : Type} {told all : List α} {a : α} (h : told <+: all) (ha : all[told.length]? = some a) :
    told ++ [a] <+: all := by
  obtain ⟨rest, rfl⟩ := h
  rw [List.getElem?_append_right (Nat.le_refl _), Nat.sub_self] at ha
  cases rest with
  | nil => cases ha
  | cons b rest =>
    cases ha
    exact ⟨rest, by rw [List.append_assoc]; rfl⟩

private theorem tells_sound (h : l.Sound) {i : Nat} {a : Arrival} {cycle cycle' : Cycle} {unwinding : Bool} {told : Told}
    {rest : List Task} (hp : pick l.running i = some (⟨a, .telling cycle unwinding⟩, rest)) (hturn : l.inTurn a) :
    { l.passTurn a with
      running := rest ++ [Task.mk a (.sending cycle' told)]
      told := l.told ++ [(a, cycle.verdict)] }.Sound := by
  have hrunning := filterMap_of_pick Task.untold hp
  have hu : (l.taken ++ l.queued ++ (rest ++ [Task.mk a (.sending cycle' told)]).filterMap Task.untold ++ [a]).Perm
      l.untold := by
    rw [filterMap_snoc, List.append_assoc]
    refine List.Perm.append_left _ ?_
    rw [show Task.untold ⟨a, .sending cycle' told⟩ = none from rfl, Option.toList_none, List.append_nil]
    exact hrunning
  have hs : (l.taken ++ l.queued ++ (rest ++ [Task.mk a (.sending cycle' told)]).filterMap Task.unsent ++
      l.channel.map Prod.fst).Perm l.unsettled :=
    ((filterMap_replaced _ ⟨a, .sending cycle' told⟩ hp rfl).append_left _).append_right _
  have htold : (l.taken ++ l.queued ++ (rest ++ [Task.mk a (.sending cycle' told)]).filterMap Task.untold ++
      (l.told ++ [(a, cycle.verdict)]).map Prod.fst).Perm l.all := by
    refine List.Perm.trans ?_ ((hu.append_right _).trans h.told)
    rw [List.map_append, List.append_assoc _ [a]]
    exact List.Perm.append_left _ List.perm_append_comm
  have hmem : a ∈ l.untold := hu.mem_iff.1 (List.mem_append_right _ (List.mem_singleton.2 rfl))
  have hfound := found_replaced h hp (.sending cycle' told) fun h => (by cases h)
  have hfirst := first_replaced h hp (.sending cycle' told)
  have hplaced := h.placed
  unfold Placed at hplaced
  unfold passTurn
  cases hordered : l.ordered with
  | false =>
    have hnot : ∀ {p : Prop}, l.ordered = true → p := fun h => by
      rw [hordered] at h
      cases h
    exact ⟨h.numbered, htold, (hs.append_right _).trans h.settled, h.count.trans hs.length_eq.symm, hfound, h.uncrashed,
      hplaced, h.alone, hnot, h.fresh, hnot, ⟨h.first.1, hfirst⟩, h.returned⟩
  | true =>
    obtain ⟨hreceive, hnumber⟩ := h.turn hordered a hmem
    obtain ⟨hpre, hpassed⟩ := h.inOrder hordered
    -- It is the next to be told, and the next that came.
    have hnext : a.number = l.told.length := by
      have := hturn hordered
      omega
    have hat : l.all[(l.told.map Prod.fst).length]? = some a := by
      rw [List.length_map, ← hnext]
      exact h.get_number (h.mem_of_untold hmem)
    refine ⟨h.numbered, htold, (hs.append_right _).trans h.settled, h.count.trans hs.length_eq.symm, hfound, h.uncrashed,
      hplaced, fun _ => h.alone hordered, ?_, ?_, ?_, ⟨h.first.1, hfirst⟩, h.returned⟩
    · intro _ b hb
      obtain ⟨hb₁, hb₂⟩ := h.turn hordered b (hu.mem_iff.1 (List.mem_append_left _ hb))
      have hsame : b.receive = a.receive := by omega
      refine ⟨hb₁, ?_⟩
      have := hturn hordered
      rw [hsame] at hb₂
      show b.number + (if b.receive = a.receive then a.place + 1 else l.turns b.receive) = _
      rw [if_pos hsame, List.length_append, List.length_singleton]
      omega
    · intro receive hle
      have hle' : l.receives ≤ receive := hle
      show (if receive = a.receive then a.place + 1 else l.turns receive) = 0
      rw [if_neg (by omega)]
      exact h.fresh receive hle'
    · intro _
      refine ⟨?_, ?_⟩
      · show (l.told ++ [(a, cycle.verdict)]).map Prod.fst <+: l.all
        rw [List.map_append]
        exact snoc_isPrefix hpre hat
      · show l.passed ++ [a] = (l.told ++ [(a, cycle.verdict)]).map Prod.fst
        rw [hpassed, List.map_append]
        rfl

theorem work_sound {what : Work} (h : l.Sound) (hw : Works carries received charge l what carries' received' l')
    (hnot : ∀ i, what ≠ .breaks i) : l'.Sound := by
  cases hw with
  | takes hfirst hfree => exact takes_sound h hfirst
  | moves hp hmoves =>
    cases hmoves with
    | breaks => exact absurd rfl (hnot _)
    | guard | audit | panicsGuarded | panicsCarried => exact replaced_sound h hp (fun h => (by cases h)) rfl rfl
  | holds hp => exact replaced_sound h hp (fun h => (by cases h)) rfl rfl
  | frees hp hfrees =>
    cases hfrees with
    | carry | panics => exact replaced_sound h hp (fun h => (by cases h)) rfl rfl
  | tells hp hturn htells =>
    cases htells with
    | tell | tellPanics => exact tells_sound h hp hturn
  | sends hp => exact sends_sound h hp
  | letsGo hp => exact letsGo_sound h hp
  | passes hp => exact absurd rfl (h.found _ (mem_of_pick hp)).1

/-! ### What is left to do -/

theorem serve_owed {what : Serve} (hs : Serves carries raised l what carries' l') (hhold : what ≠ .hold)
    (hfound : ∀ n letGo, what ≠ .found n letGo) : l'.owed < l.owed := by
  unfold owed
  cases hs with
  | @asks now now' hserving =>
    have hnext : (if (l.drain.asks raised now now').1 then Serving.settling else .ending none).owed = 1 := by
      split <;> rfl
    dsimp only
    rw [hnext, hserving]
    dsimp only [Serving.owed]
    omega
  | settles hserving hcount hsettles =>
    obtain ⟨a, cycle, told, channel, hchannel, heard, serving, rfl, hnext⟩ := settles_spec hsettles
    have hone : l.serving.owed = 1 := by
      rcases hserving with hs | ⟨why, hs⟩
      · rw [hs]
        rfl
      · rw [hs]
        rfl
    have hthen : serving.owed = 1 := by
      rcases hnext with rfl | ⟨why, rfl⟩
      · exact hone
      · rfl
    dsimp only
    rw [hone, hthen, hchannel, List.length_cons]
    omega
  | holds => exact absurd rfl hhold
  | found => exact absurd rfl (hfound _ _)
  | rests hserving | goesOn hserving | fails hserving | handed hserving | rested hserving | finishes hserving =>
    rw [hserving]
    dsimp only [Serving.owed]
    omega
  | handsOver hserving hfirst =>
    rw [hserving, hfirst, List.length_append, List.length_singleton, List.length_cons]
    dsimp only [Serving.owed]
    omega
  | crashes hserving =>
    rw [hserving]
    dsimp only [Serving.owed, List.length_nil]
    omega

@[simp] theorem passTurn_channel (a : Arrival) : (l.passTurn a).channel = l.channel := by
  unfold passTurn
  split <;> rfl

theorem work_owed {what : Work} (hw : Works carries received charge l what carries' received' l') : l'.owed < l.owed := by
  unfold owed
  cases hw with
  | takes hfirst =>
    dsimp only
    rw [hfirst, total_snoc, List.length_cons]
    dsimp only [Task.owed]
    omega
  | moves hp hmoves =>
    dsimp only
    rw [total_snoc, total_of_pick Task.owed hp]
    cases hmoves with
    | guard | breaks | audit | panicsGuarded | panicsCarried =>
      dsimp only [Task.owed]
      omega
  | holds hp =>
    dsimp only
    rw [total_snoc, total_of_pick Task.owed hp]
    dsimp only [Task.owed]
    omega
  | frees hp hfrees =>
    dsimp only
    rw [total_snoc, total_of_pick Task.owed hp]
    cases hfrees with
    | carry | panics =>
      dsimp only [Task.owed]
      omega
  | tells hp hturn htells =>
    dsimp only
    rw [passTurn_serving, passTurn_taken, passTurn_queued, passTurn_channel, total_snoc, total_of_pick Task.owed hp]
    cases htells with
    | tell | tellPanics =>
      dsimp only [Task.owed]
      omega
  | sends hp =>
    dsimp only
    rw [total_snoc, total_of_pick Task.owed hp, List.length_append, List.length_singleton]
    dsimp only [Task.owed]
    omega
  | letsGo hp =>
    dsimp only
    rw [total_of_pick Task.owed hp]
    dsimp only [Task.owed]
    omega
  | passes hp =>
    dsimp only
    rw [passTurn_serving, passTurn_taken, passTurn_queued, passTurn_channel, total_of_pick Task.owed hp]
    dsimp only [Task.owed]
    omega

/-! ### Bytes -/

/-- The bytes a Location's carries hold, `charge` each. -/
def bytes (charge : Nat) (l : Location) : Nat :=
  total (fun t => if t.phase = .carrying then charge else 0) l.running

end Location

theorem Budget.hold_spec {b b' : Budget} {charge held : Nat} (h : b.hold charge = some (held, b')) :
    b'.held = b.held + min charge b.most ∧ b'.most = b.most := by
  unfold hold at h
  dsimp only at h
  split at h
  · cases h
  · cases h
    exact ⟨rfl, rfl⟩

namespace Location

variable {carries carries' received received' : Budget} {charge : Nat} {raised : Bool} {l l' : Location}

/-- What a step of the pool holds and gives back of the byte budget is what its Location holds more or less. -/
theorem work_bytes {what : Work} (hw : Works carries received charge l what carries' received' l')
    (hle : l.bytes (min charge received.most) ≤ received.held) :
    received'.held + l.bytes (min charge received.most) = received.held + l'.bytes (min charge received.most) ∧
      received'.most = received.most := by
  unfold bytes at *
  cases hw with
  | takes =>
    refine ⟨?_, rfl⟩
    dsimp only
    rw [total_snoc]
    rfl
  | moves hp hmoves =>
    refine ⟨?_, rfl⟩
    dsimp only
    rw [total_snoc, total_of_pick _ hp]
    cases hmoves with
    | guard | breaks | audit | panicsGuarded | panicsCarried =>
      dsimp only
      rw [if_neg (fun h => (by cases h)), if_neg (fun h => (by cases h))]
      omega
  | holds hp hheld =>
    obtain ⟨hheld', hmost⟩ := Budget.hold_spec hheld
    refine ⟨?_, hmost⟩
    dsimp only
    rw [total_snoc, total_of_pick _ hp, hheld']
    dsimp only
    rw [if_neg (fun h => (by cases h)), if_pos rfl]
    omega
  | frees hp hfrees =>
    refine ⟨?_, rfl⟩
    dsimp only
    rw [total_of_pick _ hp] at hle
    rw [total_snoc, total_of_pick _ hp]
    cases hfrees with
    | carry | panics =>
      dsimp only [Budget.release_held] at hle ⊢
      rw [if_pos rfl] at hle ⊢
      rw [if_neg (fun h => (by cases h))]
      omega
  | tells hp hturn htells =>
    refine ⟨?_, rfl⟩
    dsimp only
    rw [total_snoc, total_of_pick _ hp]
    cases htells with
    | tell | tellPanics =>
      dsimp only
      rw [if_neg (fun h => (by cases h)), if_neg (fun h => (by cases h))]
      omega
  | sends hp =>
    refine ⟨?_, rfl⟩
    dsimp only
    rw [total_snoc, total_of_pick _ hp]
    dsimp only
    rw [if_neg (fun h => (by cases h)), if_neg (fun h => (by cases h))]
    omega
  | letsGo hp | passes hp =>
    refine ⟨?_, rfl⟩
    dsimp only
    rw [total_of_pick _ hp]
    dsimp only
    rw [if_neg (fun h => (by cases h))]
    omega

theorem serve_running {what : Serve} (hs : Serves carries raised l what carries' l') : l'.running = l.running := by
  cases hs with
  | settles hserving hcount hsettles =>
    obtain ⟨a, cycle, told, channel, -, heard, serving, rfl, -⟩ := settles_spec hsettles
    rfl
  | asks | holds | found | rests | goesOn | fails | handsOver | handed | crashes | rested | finishes => rfl

end Location

/-! ### The node -/

namespace Node

variable {n n' : Node}

/-- Every arrival is somewhere, and what the budgets hold is what the Locations hold. -/
structure Right (n : Node) : Prop where
  sound : ∀ l ∈ n.locations, l.Sound
  accounted : n.Accounted
  bytes : n.received.held = total (Location.bytes (min n.carry n.received.most)) n.locations

private theorem places_le (h : n.Accounted) {i : Nat} {l : Location} {rest : List Location}
    (hp : pick n.locations i = some (l, rest)) : l.places ≤ n.carries.held := by
  rw [h.held, total_of_pick Location.places hp]
  exact Nat.le_add_right ..

theorem step_right {a : Action} (h : n.Right) (hok : Guarded n a) (hs : n.step a = some n') : n'.Right := by
  have haccounted := step_accounted h.accounted hs
  have hall : ∀ {i : Nat} {l l' : Location} {rest : List Location}, pick n.locations i = some (l, rest) → l'.Sound →
      ∀ l'' ∈ rest ++ [l'], l''.Sound := by
    intro i l l' rest hp hl' l'' hl''
    rcases List.mem_append.1 hl'' with hl'' | hl''
    · exact h.sound l'' (mem_of_mem_pick hp hl'')
    · rw [List.mem_singleton.1 hl'']
      exact hl'
  obtain ⟨rfl, rfl⟩ | ⟨i, what, l, rest, carries, l', rfl, hp, hserves, rfl⟩ |
    ⟨i, what, l, rest, carries, received, l', rfl, hp, hworks, rfl⟩ := step_cases hs
  · exact ⟨h.sound, haccounted, h.bytes⟩
  · refine ⟨hall hp ?_, haccounted, ?_⟩
    · refine Location.serve_sound (h.sound l (mem_of_pick hp)) hserves (places_le h.accounted hp) ?_
      rintro rfl
      exact hok
    · have hsame : l'.bytes (min n.carry n.received.most) = l.bytes (min n.carry n.received.most) := by
        unfold Location.bytes
        rw [Location.serve_running hserves]
      show n.received.held = total (Location.bytes (min n.carry n.received.most)) (rest ++ [l'])
      rw [total_snoc, hsame, h.bytes, total_of_pick _ hp]
      exact Nat.add_comm ..
  · have hle : l.bytes (min n.carry n.received.most) ≤ n.received.held := by
      rw [h.bytes, total_of_pick _ hp]
      exact Nat.le_add_right ..
    obtain ⟨hheld, hmost⟩ := Location.work_bytes hworks hle
    refine ⟨hall hp ?_, haccounted, ?_⟩
    · refine Location.work_sound (h.sound l (mem_of_pick hp)) hworks ?_
      rintro i rfl
      exact hok
    · have hbytes := h.bytes
      rw [total_of_pick _ hp] at hbytes
      show received.held = total (Location.bytes (min n.carry received.most)) (rest ++ [l'])
      rw [hmost, total_snoc]
      omega

theorem starts_right (h : Starts n) : n.Right := by
  have hnew : ∀ l ∈ n.locations, l.Sound ∧ l.running = [] := by
    intro l hl
    obtain ⟨name, ordered, polled, most, pace, rfl⟩ := h.locations l hl
    exact ⟨Location.new_sound .., rfl⟩
  refine ⟨fun l hl => (hnew l hl).1, starts_accounted h, ?_⟩
  rw [h.received.2]
  refine (total_eq_zero fun l hl => ?_).symm
  unfold Location.bytes
  rw [(hnew l hl).2]
  rfl

/-- Every step but one that asks for more leaves less to do. -/
theorem step_owed {a : Action} (hnot : ¬ Asks a) (hs : n.step a = some n') :
    total Location.owed n'.locations < total Location.owed n.locations := by
  obtain ⟨rfl, rfl⟩ | ⟨i, what, l, rest, carries, l', rfl, hp, hserves, rfl⟩ |
    ⟨i, what, l, rest, carries, received, l', rfl, hp, hworks, rfl⟩ := step_cases hs
  · exact absurd trivial hnot
  · have hless : l'.owed < l.owed := by
      refine Location.serve_owed hserves ?_ ?_
      · rintro rfl
        exact hnot trivial
      · rintro found letGo rfl
        exact hnot trivial
    dsimp only
    rw [total_snoc, total_of_pick _ hp]
    omega
  · have hless := Location.work_owed hworks
    dsimp only
    rw [total_snoc, total_of_pick _ hp]
    omega

/-! ### When nothing is left to do -/

section Quiet

variable (hright : n.Right) (hquiet : ∀ a, Owed a → n.step a = none)

include hquiet

/-- Nothing a loop owes can be done. -/
private theorem serve_none {i : Nat} {l : Location} {rest : List Location} (hp : pick n.locations i = some (l, rest))
    (what : Serve) (howed : Owed (.serve i what)) : l.serve n.carries n.raised what = none := by
  have := hquiet (.serve i what) howed
  simp only [step, hp] at this
  exact Option.map_eq_none_iff.1 this

private theorem work_none {i : Nat} {l : Location} {rest : List Location} (hp : pick n.locations i = some (l, rest))
    (what : Work) (howed : Owed (.work i what)) : l.work n.carries n.received n.carry what = none := by
  have := hquiet (.work i what) howed
  simp only [step, hp] at this
  exact Option.map_eq_none_iff.1 this

include hright

/-- No loop is in the middle of its turn. -/
private theorem serving_of_quiet {l : Location} (hl : l ∈ n.locations) :
    l.serving = .settling ∨ (∃ why, l.serving = .ending why) ∨ ∃ why, l.serving = .returned why := by
  obtain ⟨i, rest, hp⟩ := exists_pick_of_mem hl
  have hnone := serve_none hquiet hp
  cases hserving : l.serving with
  | top =>
    have := hnone (.ask 0 0) trivial
    simp only [Location.serve, hserving] at this
    cases this
  | settling => exact .inl rfl
  | asking places =>
    cases hpolled : l.polled with
    | false =>
      have := hnone (.unfound .nothing .waits 0 false) trivial
      simp only [Location.serve, hserving, hpolled] at this
      split at this <;> simp_all [Pace.rest]
    | true =>
      have := hnone (.unfound .nothing .polled 0 true) trivial
      simp only [Location.serve, hserving, hpolled] at this
      split at this <;> simp_all
  | handing places =>
    cases htaken : l.taken with
    | nil =>
      have := hnone .handed trivial
      simp only [Location.serve, hserving, if_pos htaken] at this
      cases this
    | cons a taken =>
      have := hnone .handOver trivial
      simp only [Location.serve, hserving, htaken] at this
      cases this
  | resting places =>
    have := hnone .rested trivial
    simp only [Location.serve, hserving] at this
    cases this
  | ending why => exact .inr (.inl ⟨why, rfl⟩)
  | returned why => exact .inr (.inr ⟨why, rfl⟩)
  | crashed => exact absurd hserving (hright.sound l hl).uncrashed

/-- No thread of a pool but one that waits for bytes, or for its turn to tell. -/
private theorem waits_of_quiet {l : Location} (hl : l ∈ n.locations) {t : Task} (ht : t ∈ l.running) :
    t.phase = .guarded ∨ ∃ cycle unwinding, t.phase = .telling cycle unwinding := by
  obtain ⟨i, rest, hp⟩ := exists_pick_of_mem hl
  have hnone := work_none hquiet hp
  obtain ⟨j, others, hj⟩ := exists_pick_of_mem ht
  obtain ⟨a, phase⟩ := t
  cases phase with
  | entered =>
    have := hnone (.guard j) trivial
    simp only [Location.work, hj] at this
    cases this
  | guarded => exact .inl rfl
  | carrying =>
    have := hnone (.carry j .completed) trivial
    simp only [Location.work, hj] at this
    cases this
  | carried cycle =>
    have := hnone (.audit j) trivial
    simp only [Location.work, hj] at this
    cases this
  | telling cycle unwinding => exact .inr ⟨cycle, unwinding, rfl⟩
  | sending cycle told =>
    have := hnone (.send j) trivial
    simp only [Location.work, hj] at this
    cases this
  | sent =>
    have := hnone (.letGo j) trivial
    simp only [Location.work, hj] at this
    cases this
  | lost => exact absurd rfl ((hright.sound l hl).found _ ht).1

/-- With no carry under way there are bytes for the next. -/
private theorem received_of_quiet : n.received.held = 0 := by
  rw [hright.bytes]
  refine total_eq_zero fun l hl => total_eq_zero fun t ht => if_neg fun hcarrying => ?_
  rcases waits_of_quiet hright hquiet hl ht with h | ⟨cycle, unwinding, h⟩
  · rw [hcarrying] at h
    cases h
  · rw [hcarrying] at h
    cases h

private theorem telling_of_quiet {l : Location} (hl : l ∈ n.locations) {t : Task} (ht : t ∈ l.running) :
    ∃ cycle unwinding, t.phase = .telling cycle unwinding ∧ ¬ l.inTurn t.arrival := by
  obtain ⟨i, rest, hp⟩ := exists_pick_of_mem hl
  have hnone := work_none hquiet hp
  have hwaits := waits_of_quiet hright hquiet hl ht
  obtain ⟨j, others, hj⟩ := exists_pick_of_mem ht
  obtain ⟨a, phase⟩ := t
  rcases hwaits with rfl | ⟨cycle, unwinding, rfl⟩
  · have hbytes := received_of_quiet hright hquiet
    have := hnone (.hold j) trivial
    simp only [Location.work, hj, Option.map_eq_none_iff, Budget.hold, hbytes] at this
    cases this
  · refine ⟨cycle, unwinding, rfl, fun hturn => ?_⟩
    have := hnone (.tell j .ok) trivial
    simp only [Location.work, hj, if_pos hturn] at this
    cases this

/-- The first not told of an ordered Location is before all that wait. -/
private theorem running_of_quiet {l : Location} (hl : l ∈ n.locations) : l.running = [] := by
  have h := hright.sound l hl
  refine List.eq_nil_iff_forall_not_mem.2 fun t ht => ?_
  obtain ⟨cycle, unwinding, hphase, hnot⟩ := telling_of_quiet hright hquiet hl ht
  have hordered : l.ordered = true := by
    cases hordered : l.ordered with
    | true => rfl
    | false =>
      refine absurd (fun h => ?_) hnot
      rw [hordered] at h
      cases h
  have htaken : l.taken = [] := by
    have hplaced := h.placed
    unfold Location.Placed at hplaced
    rcases serving_of_quiet hright hquiet hl with hs | ⟨why, hs⟩ | ⟨why, hs⟩
    · rw [hs] at hplaced
      exact hplaced
    · rw [hs] at hplaced
      exact hplaced
    · rw [hs] at hplaced
      exact hplaced
  have huntold : t.arrival ∈ l.untold := by
    refine List.mem_append_right _ (List.mem_filterMap.2 ⟨t, ht, ?_⟩)
    unfold Task.untold
    rw [hphase]
  have hlt : l.told.length < l.all.length := by
    have htotal := h.told.length_eq
    have hpos := List.length_pos_of_mem huntold
    rw [List.length_append, List.length_map] at htotal
    omega
  -- The next to be told has its turn, so it is on no thread; and the pool takes what came first.
  obtain ⟨b, hb, hnumber⟩ := h.next_untold hordered hlt
  have hturn : l.inTurn b := by
    intro _
    have := (h.turn hordered b hb).2
    omega
  have hqueued : b ∈ l.queued ++ l.taken := by
    unfold Location.untold at hb
    rw [htaken, List.nil_append] at hb
    rcases List.mem_append.1 hb with hb | hb
    · exact List.mem_append_left _ hb
    · obtain ⟨t', ht', hb⟩ := List.mem_filterMap.1 hb
      obtain ⟨cycle', unwinding', hphase', hnot'⟩ := telling_of_quiet hright hquiet hl ht'
      unfold Task.untold at hb
      rw [hphase'] at hb
      cases hb
      exact absurd hturn hnot'
  have h₁ := h.first.2 t ht b hqueued
  have h₂ := h.le_number hordered huntold
  omega

theorem done_of_quiet : (∀ l ∈ n.locations, l.Done) ∧ n.carries.held = 0 ∧ n.received.held = 0 := by
  have hone : ∀ l ∈ n.locations, l.Done ∧ l.places = 0 := by
    intro l hl
    have h := hright.sound l hl
    obtain ⟨i, rest, hp⟩ := exists_pick_of_mem hl
    have hrunning := running_of_quiet hright hquiet hl
    have hqueued : l.queued = [] := by
      cases hqueued : l.queued with
      | nil => rfl
      | cons a queued =>
        have := work_none hquiet hp .take trivial
        have hfree : l.running.length < max l.most 1 := by
          rw [hrunning, List.length_nil]
          omega
        simp only [Location.work, hqueued, if_pos hfree] at this
        cases this
    have hserving := serving_of_quiet hright hquiet hl
    have hplaced := h.placed
    unfold Location.Placed at hplaced
    have hplaces : l.serving.places = 0 ∧ l.taken = [] := by
      rcases hserving with hs | ⟨why, hs⟩ | ⟨why, hs⟩
      · rw [hs] at hplaced ⊢
        exact ⟨rfl, hplaced⟩
      · rw [hs] at hplaced ⊢
        exact ⟨rfl, hplaced⟩
      · rw [hs] at hplaced ⊢
        exact ⟨rfl, hplaced⟩
    have hcount : l.count = l.channel.length := by
      rw [h.count]
      unfold Location.unsettled
      rw [hplaces.2, hqueued, hrunning]
      simp
    have hzero : l.count = 0 := by
      cases hchannel : l.channel with
      | nil =>
        rw [hchannel] at hcount
        exact hcount
      | cons one channel =>
        have hpos : 0 < l.count := by
          rw [hcount, hchannel, List.length_cons]
          exact Nat.succ_pos _
        have hsettles : l.settles ≠ none := by
          obtain ⟨a, cycle, told⟩ := one
          unfold Location.settles
          rw [hchannel]
          dsimp only
          split
          · exact fun h => (by cases h)
          · exact fun h => (by cases h)
          · split <;> exact fun h => (by cases h)
        rcases hserving with hs | ⟨why, hs⟩ | ⟨why, hs⟩
        · have := serve_none hquiet hp .settle trivial
          simp only [Location.serve, hs, if_pos hpos, Option.map_eq_none_iff] at this
          exact absurd this hsettles
        · have := serve_none hquiet hp .settle trivial
          simp only [Location.serve, hs, if_pos hpos, Option.map_eq_none_iff] at this
          exact absurd this hsettles
        · exact h.returned why hs
    refine ⟨h.done hzero, ?_⟩
    unfold Location.places
    rw [hplaces.1, hqueued, hrunning]
    rfl
  refine ⟨fun l hl => (hone l hl).1, ?_, received_of_quiet hright hquiet⟩
  rw [hright.accounted.held]
  exact total_eq_zero fun l hl => (hone l hl).2

end Quiet

theorem right_of_reach (h : Reach step Guarded Starts n) : n.Right :=
  Reach.invariant (fun _ h => starts_right h) (fun _ _ _ hr hok hs => step_right hr hok hs) h

theorem Right.answered (h : n.Right) : n.Answered :=
  ⟨fun l hl => (h.sound l hl).answers, fun _ _ hnot hs => step_owed hnot hs, done_of_quiet h⟩

/-- In every run in which no thread panics with an arrival taken and no `Telling` made for it, every arrival is answered. -/
theorem answered_of_guarded (h : Reach step Guarded Starts n) : n.Answered := (right_of_reach h).answered

private def polledInOrder : Location := .new "in order" true true 2 ⟨1000, 1000, 5000, 1000⟩

/-- A node of one ordered Location, with room for two arrivals. -/
private def oneLocation : Node := ⟨⟨2, 0⟩, ⟨100, 0⟩, 1, false, [polledInOrder]⟩

private theorem starts_oneLocation : Starts oneLocation := by
  refine ⟨⟨Nat.zero_lt_two, rfl⟩, ⟨Nat.succ_pos 99, rfl⟩, ?_⟩
  intro l hl
  rw [List.mem_singleton.1 hl]
  exact ⟨_, _, _, _, _, rfl⟩

/-- Of two arrivals in order the second is carried first, and the first panics: the first is told that it failed, then the
second, and the Location returns. -/
theorem answered_of_panic : ∃ n : Node, n.Answered ∧
    n.locations.map (fun l => (l.serving, l.told.map fun x => (x.1.place, x.2))) =
      [(.returned none, [(0, .failed), (1, .accepted)])] ∧ n.carries.held = 0 ∧ n.received.held = 0 := by
  obtain ⟨n, hn, hp⟩ := Reach.exists_of_runWhere step Guarded starts_oneLocation
    [.serve 0 (.ask 0 0), .serve 0 .hold, .serve 0 (.found 2 false), .serve 0 .handOver, .serve 0 .handOver,
      .serve 0 .handed, .work 0 .take, .work 0 .take, .work 0 (.guard 1), .work 0 (.guard 0), .work 0 (.hold 0),
      .work 0 (.carry 1 .completed), .work 0 (.audit 1), .work 0 (.panics 0), .work 0 (.tell 1 .ok), .work 0 (.tell 0 .ok),
      .work 0 (.send 0), .work 0 (.send 0), .work 0 (.letGo 0), .work 0 (.letGo 0), .raise, .serve 0 (.ask 9 9),
      .serve 0 .settle, .serve 0 .settle, .serve 0 .finish]
    (fun n => decide (n.locations.map (fun l => (l.serving, l.told.map fun x => (x.1.place, x.2))) =
      [(.returned none, [(0, .failed), (1, .accepted)])]) && (decide (n.carries.held = 0) && decide (n.received.held = 0)))
    (by decide +kernel)
  simp only [Bool.and_eq_true, decide_eq_true_eq] at hp
  exact ⟨n, answered_of_guarded hn, hp⟩

/-- A panic as the arrival is made out: nothing of it is left under way, its far end is told nothing, and the Location waits
for a telling that will not come. -/
theorem unanswered_of_panic : ∃ n : Node, Reach step Always Starts n ∧ (∃ l ∈ n.locations, l.all.length = 1 ∧ l.told = []) ∧
    (∀ a, Owed a → n.step a = none) ∧ ¬ n.Answered := by
  obtain ⟨n, hn, hp⟩ := Reach.exists_of_runWhere step Always starts_oneLocation
    [.serve 0 (.ask 0 0), .serve 0 .hold, .serve 0 (.found 1 false), .serve 0 .handOver, .serve 0 .handed, .work 0 .take,
      .work 0 (.breaks 0), .work 0 (.pass 0), .serve 0 (.ask 9 9)]
    (fun n => decide (n.locations.length = 1) && n.locations.all fun l => decide (l.all.length = 1) &&
      (decide (l.told = []) && (decide (l.queued = []) && (l.running.isEmpty && (decide (l.channel = []) &&
        (decide (l.serving = .settling) && decide (l.count = 1)))))))
    (by decide +kernel)
  simp only [Bool.and_eq_true, List.all_eq_true, List.isEmpty_iff, decide_eq_true_eq] at hp
  obtain ⟨l, hl⟩ := List.length_eq_one_iff.1 hp.1
  have hmem : l ∈ n.locations := by
    rw [hl]
    exact List.mem_singleton.2 rfl
  obtain ⟨hall, htold, hqueued, hrunning, hchannel, hserving, hcount⟩ := hp.2 l hmem
  have hquiet : ∀ a, Owed a → n.step a = none := by
    intro a howed
    cases hs : n.step a with
    | none => rfl
    | some n' =>
      obtain ⟨rfl, rfl⟩ | ⟨i, what, l', rest, carries, l'', rfl, hpick, hserves, rfl⟩ |
        ⟨i, what, l', rest, carries, received, l'', rfl, hpick, hworks, rfl⟩ := step_cases hs
      · exact howed.elim
      · have := mem_of_pick hpick
        rw [hl] at this
        obtain rfl := List.mem_singleton.1 this
        cases hserves with
        | asks h | rests h | goesOn h | fails h | handsOver h | handed h | rested h | finishes h =>
          rw [hserving] at h
          cases h
        | settles _ _ hsettles =>
          obtain ⟨a, cycle, told, channel, h, -⟩ := Location.settles_spec hsettles
          rw [hchannel] at h
          cases h
        | holds | found | crashes => exact howed.elim
      · have := mem_of_pick hpick
        rw [hl] at this
        obtain rfl := List.mem_singleton.1 this
        cases hworks with
        | takes hfirst =>
          rw [hqueued] at hfirst
          cases hfirst
        | moves h | holds h | frees h | tells h | sends h | letsGo h | passes h =>
          rw [hrunning] at h
          cases h
  refine ⟨n, hn, ⟨l, hmem, hall, htold⟩, hquiet, fun h => ?_⟩
  have := ((h.done hquiet).1 l hmem).count
  omega

end Node

end Receiving
