import XmipRuntime.Receiving.Answered

/-!
# A stopping Location drains

Once its node's stop is raised a Location whose receive waits goes on taking what its far end already let go of
(`src/receiving/drain.rs`).  That its far end lets go it learns from the arrivals handed over: from none it learns nothing,
and one that is stopped before its first arrival takes no more.

Beside each Location is kept what its loop went through: whether an arrival was let go of, when it first asked after the
stop, and how each receive it asked for since then ended.  No step reads it.
-/

namespace Receiving

open Library

/-- What a Location's loop went through. -/
structure History where
  /-- Whether a far end let go of an arrival it handed over. -/
  letGo : Bool
  /-- When the loop first asked after the stop. -/
  since : Option Nat
  /-- How each receive asked after the stop ended. -/
  drained : List Ended
  deriving DecidableEq

namespace History

def new : History := ⟨false, none, []⟩

def ended (h : History) (how : Ended) : History :=
  { h with drained := if h.since.isSome then h.drained ++ [how] else h.drained }

/-- One step of the loop noted. -/
def note (h : History) (raised : Bool) : Serve → History
  | .ask now _ => { h with since := if raised then h.since.or (some now) else h.since }
  | .found _ letGo => { h with letGo := h.letGo || letGo }.ended .found
  | .unfound ended _ _ _ => h.ended ended
  | .settle | .hold | .failed _ | .handOver | .handed | .crash | .rested | .finish => h

end History

/-- A node, and what the loop of each of its Locations went through. -/
structure Noted where
  node : Node
  histories : List History

namespace Noted

/-- The node's step, noted of the Location it is of. -/
def step (s : Noted) (a : Action) : Option Noted :=
  (s.node.step a).map fun node =>
    match a with
    | .raise => ⟨node, s.histories⟩
    | .serve i what => ⟨node, (pick s.histories i).elim s.histories fun (h, rest) => rest ++ [h.note s.node.raised what]⟩
    | .work i _ => ⟨node, (pick s.histories i).elim s.histories fun (h, rest) => rest ++ [h]⟩

def Starts (s : Noted) : Prop := Node.Starts s.node ∧ s.histories = s.node.locations.map fun _ => .new

/-- No thread panics while an arrival is taken and has no `Telling`. -/
def Guarded (s : Noted) (a : Action) : Prop := Receiving.Guarded s.node a

instance (s : Noted) (a : Action) : Decidable (s.Guarded a) := inferInstanceAs (Decidable (Receiving.Guarded s.node a))

end Noted

/-! ### What is claimed -/

/-- Whether a Location's loop is still to ask. -/
def Serving.live : Serving → Bool
  | .top | .settling | .asking _ | .handing _ | .resting _ => true
  | .ending _ | .returned _ | .crashed => false

/-- A Location's loop goes on to its next receive until the stop, and after it where its receive waits, its far end let go
of an arrival, no receive asked since found nothing or failed and its bound has not passed; and it ends there only, or
where the transport failed for good, in a receive or in telling a far end. -/
structure Location.Drains (raised : Bool) (l : Location) (h : History) : Prop where
  asksOn : ∀ carries now now' carries' l', l.serve carries raised (.ask now now') = some (carries', l') →
    (l'.serving = .settling ↔ raised = false ∨ l.polled = false ∧ h.letGo = true ∧ (∀ ended ∈ h.drained, ended = .found) ∧
      now' < h.since.getD now + l.pace.drain)
  leaves : ∀ carries what carries' l' why, l.serve carries raised what = some (carries', l') → l.serving.live = true →
    l'.serving = .ending why → (∃ now now', what = .ask now now') ∨ (∃ failure, what = .failed failure) ∨
      what = .settle ∧ ∃ a cycle failure channel, l.channel = (a, cycle, .final failure) :: channel

/-- Each Location drains; one that goes on to a receive is given places for it once nothing else is left to do; and every
arrival is answered. -/
structure Noted.Drains (s : Noted) : Prop where
  locations : List.Forall₂ (Location.Drains s.node.raised) s.node.locations s.histories
  asks : (∀ a, Owed a → s.node.step a = none) → ∀ i l rest, pick s.node.locations i = some (l, rest) →
    l.serving = .settling → (s.node.step (.serve i .hold)).isSome = true
  answered : s.node.Answered

/-! ### A Location's drain and its history -/

/-- What a Location's drain knows is what its loop went through. -/
structure Location.Follows (l : Location) (h : History) : Prop where
  waits : l.drain.waits = !l.polled
  bound : l.drain.bound = l.pace.drain
  letGo : l.drain.letGo = h.letGo
  deadline : l.serving.live = true → l.drain.deadline = h.since.map (· + l.pace.drain)
  quiet : l.serving.live = true → (l.drain.quiet = false ↔ ∀ ended ∈ h.drained, ended = .found)

namespace Location

variable {carries carries' received received' : Budget} {charge : Nat} {raised : Bool} {l l' : Location} {h : History}

/-- Whether a drain asks once more after the stop. -/
theorem Follows.asks_iff (hl : l.Follows h) (hlive : l.serving.live = true) (now now' : Nat) :
    (l.drain.asks true now now').1 = true ↔ l.polled = false ∧ h.letGo = true ∧
      (∀ ended ∈ h.drained, ended = .found) ∧ now' < h.since.getD now + l.pace.drain := by
  have hdeadline : l.drain.deadline.getD (now + l.drain.bound) = h.since.getD now + l.pace.drain := by
    rw [hl.deadline hlive, hl.bound]
    cases h.since <;> rfl
  rw [← hl.quiet hlive, ← hl.letGo, ← hdeadline]
  unfold Drain.asks
  rw [hl.waits]
  cases l.polled <;> cases l.drain.letGo <;> cases l.drain.quiet <;> simp

theorem Follows.congr (hl : l.Follows h) (hdrain : l'.drain = l.drain) (hpolled : l'.polled = l.polled)
    (hpace : l'.pace = l.pace) (hserving : l'.serving.live = true → l.serving.live = true) : l'.Follows h := by
  obtain ⟨hwaits, hbound, hletGo, hdeadline, hquiet⟩ := hl
  refine ⟨?_, ?_, ?_, fun hlive => ?_, fun hlive => ?_⟩
  · rw [hdrain, hpolled, hwaits]
  · rw [hdrain, hpace, hbound]
  · rw [hdrain, hletGo]
  · rw [hdrain, hpace, hdeadline (hserving hlive)]
  · rw [hdrain, hquiet (hserving hlive)]

@[simp] theorem drain_received_found (d : Drain) : d.received .found = d := if_neg fun h => h.2 rfl

/-- What a receive's end leaves of the drain and of the history. -/
theorem Follows.ended (hl : l.Follows h) (hlive : l.serving.live = true) (ended : Ended) {serving : Serving} :
    ({ l with drain := l.drain.received ended, serving } : Location).Follows (h.ended ended) := by
  have hsome : l.drain.deadline.isSome = h.since.isSome := by
    rw [hl.deadline hlive, Option.isSome_map]
  obtain ⟨hwaits, hbound, hletGo, hdeadline, hquiet⟩ := hl
  replace hdeadline := hdeadline hlive
  replace hquiet := hquiet hlive
  unfold Drain.received History.ended
  rw [hsome]
  by_cases hsince : h.since.isSome = true
  · rw [if_pos hsince]
    by_cases hfound : ended = .found
    · rw [if_neg fun hnot => hnot.2 hfound]
      refine ⟨hwaits, hbound, hletGo, fun _ => hdeadline, fun _ => hquiet.trans ?_⟩
      rw [List.forall_mem_append, List.forall_mem_singleton, and_iff_left hfound]
    · rw [if_pos ⟨hsince, hfound⟩]
      refine ⟨hwaits, hbound, hletGo, fun _ => hdeadline, fun _ => iff_of_false (by simp) fun hall => ?_⟩
      exact hfound (hall ended (List.mem_append_right _ (List.mem_singleton.2 rfl)))
  · rw [if_neg fun h => hsince h.1, if_neg hsince]
    exact ⟨hwaits, hbound, hletGo, fun _ => hdeadline, fun _ => hquiet⟩

theorem Follows.handed (hl : l.Follows h) (letGo : Bool) :
    ({ l with drain := l.drain.handed letGo } : Location).Follows { h with letGo := h.letGo || letGo } := by
  obtain ⟨hwaits, hbound, hletGo, hdeadline, hquiet⟩ := hl
  exact ⟨hwaits, hbound, congrArg (· || letGo) hletGo, hdeadline, hquiet⟩

/-- The loop asks: it goes on, and its drain is begun where the stop is raised; or it ends. -/
theorem Follows.asks (hl : l.Follows h) (htop : l.serving = .top) (raised : Bool) (now now' : Nat) :
    ({ l with
      drain := (l.drain.asks raised now now').2
      serving := if (l.drain.asks raised now now').1 then .settling else .ending none } : Location).Follows
      (h.note raised (.ask now now')) := by
  have hlive : l.serving.live = true := by rw [htop]; rfl
  obtain ⟨hwaits, hbound, hletGo, hdeadline, hquiet⟩ := hl
  unfold Drain.asks History.note
  cases raised with
  | false => exact ⟨hwaits, hbound, hletGo, fun _ => hdeadline hlive, fun _ => hquiet hlive⟩
  | true =>
    rw [if_neg (by simp)]
    split
    · exact ⟨hwaits, hbound, hletGo, fun hlive => (by cases hlive), fun hlive => (by cases hlive)⟩
    · refine ⟨hwaits, hbound, hletGo, fun _ => ?_, fun _ => hquiet hlive⟩
      dsimp only
      rw [hdeadline hlive, hbound]
      cases h.since <;> rfl

/-- A Location is stopped while it settles only by a telling that failed for good. -/
theorem final_of_settles (hs : l.settles = some l') (hlive : l.serving.live = true) {why : Option String}
    (hending : l'.serving = .ending why) : ∃ a cycle failure channel, l.channel = (a, cycle, .final failure) :: channel := by
  unfold settles at hs
  split at hs
  · rename_i a cycle told channel hchannel
    dsimp only at hs
    split at hs
    · cases hs
      dsimp only at hending
      rw [hending] at hlive
      cases hlive
    · cases hs
      dsimp only at hending
      rw [hending] at hlive
      cases hlive
    · exact ⟨a, cycle, _, channel, hchannel⟩
  · cases hs

theorem serve_follows {what : Serve} (hl : l.Follows h) (hs : Serves carries raised l what carries' l') :
    l'.Follows (h.note raised what) := by
  cases hs with
  | asks htop => exact hl.asks htop _ _ _
  | settles _ _ hsettles =>
    obtain ⟨a, cycle, told, channel, -, heard, serving, rfl, hserving⟩ := settles_spec hsettles
    refine hl.congr rfl rfl rfl fun hlive => ?_
    rcases hserving with rfl | ⟨why, rfl⟩
    · exact hlive
    · cases hlive
  | holds hserving => exact hl.congr rfl rfl rfl fun _ => by rw [hserving]; rfl
  | @found places n letGo hserving =>
    have hlive : l.serving.live = true := by rw [hserving]; rfl
    have hended : ({ l with drain := (l.drain.handed letGo).received .found } : Location).Follows
        ({ h with letGo := h.letGo || letGo }.ended .found) := (hl.handed letGo).ended hlive .found
    rw [drain_received_found] at hended
    exact hended.congr rfl rfl rfl fun _ => hlive
  | rests hserving | goesOn hserving => exact hl.ended (by rw [hserving]; rfl) _
  | fails => exact hl.congr rfl rfl rfl fun hlive => by cases hlive
  | handsOver hserving => exact hl.congr rfl rfl rfl fun _ => by rw [hserving]; rfl
  | handed hserving => exact hl.congr (drain_received_found _) rfl rfl fun _ => by rw [hserving]; rfl
  | crashes => exact hl.congr rfl rfl rfl fun hlive => by cases hlive
  | rested hserving => exact hl.congr rfl rfl rfl fun _ => by rw [hserving]; rfl
  | finishes => exact hl.congr rfl rfl rfl fun hlive => by cases hlive

theorem work_follows {what : Work} (hl : l.Follows h) (hw : Works carries received charge l what carries' received' l') :
    l'.Follows h := by
  have hpass (a : Arrival) : (l.passTurn a).drain = l.drain ∧ (l.passTurn a).polled = l.polled ∧
      (l.passTurn a).pace = l.pace := by
    unfold passTurn
    split <;> exact ⟨rfl, rfl, rfl⟩
  have hserving := work_serving hw
  cases hw with
  | takes | moves | holds | frees | sends | letsGo => exact hl.congr rfl rfl rfl id
  | @tells _ _ a | @passes _ a =>
    obtain ⟨hdrain, hpolled, hpace⟩ := hpass a
    exact hl.congr hdrain hpolled hpace fun hlive => hserving ▸ hlive

/-- What its drain knows makes a Location drain. -/
theorem Follows.drains (hl : l.Follows h) (raised : Bool) : l.Drains raised h := by
  refine ⟨fun carries now now' carries' l' hs => ?_, fun carries what carries' l' why hs hlive hending => ?_⟩
  · cases serves_of_serve hs with
    | asks htop =>
      have hlive : l.serving.live = true := by rw [htop]; rfl
      have hiff : (l.drain.asks raised now now').1 = true ↔ raised = false ∨ l.polled = false ∧ h.letGo = true ∧
          (∀ ended ∈ h.drained, ended = .found) ∧ now' < h.since.getD now + l.pace.drain := by
        cases raised with
        | false => exact iff_of_true rfl (.inl rfl)
        | true => exact (hl.asks_iff hlive now now').trans (by simp)
      rw [← hiff]
      dsimp only
      split
      · rename_i hasks
        exact iff_of_true rfl hasks
      · rename_i hasks
        exact iff_of_false (by simp) hasks
  · cases serves_of_serve hs with
    | @asks now now' => exact .inl ⟨now, now', rfl⟩
    | settles _ _ hsettles => exact .inr (.inr ⟨rfl, final_of_settles hsettles hlive hending⟩)
    | @fails _ failure => exact .inr (.inl ⟨failure, rfl⟩)
    | holds | found | rests | goesOn | handsOver | handed | crashes | rested | finishes => cases hending

end Location

/-! ### Every run -/

namespace Noted

variable {s s' : Noted} {a : Action}

/-- Each Location's drain knows what its loop went through. -/
def Follows (s : Noted) : Prop := List.Forall₂ Location.Follows s.node.locations s.histories

theorem step_node (h : s.step a = some s') : s.node.step a = some s'.node := by
  obtain ⟨node, hnode, rfl⟩ := Option.map_eq_some_iff.1 h
  cases a <;> exact hnode

theorem step_follows (hs : s.Follows) (h : s.step a = some s') : s'.Follows := by
  obtain ⟨node, hnode, rfl⟩ := Option.map_eq_some_iff.1 h
  obtain ⟨rfl, rfl⟩ | ⟨i, what, l, rest, carries, l', rfl, hpick, hserves, rfl⟩ |
    ⟨i, what, l, rest, carries, received, l', rfl, hpick, hworks, rfl⟩ := Node.step_cases hnode
  · exact hs
  · obtain ⟨history, rest', hpick', hl, hrest⟩ := pick_forall₂ hs hpick
    unfold Follows
    dsimp only
    rw [hpick']
    exact List.rel_append hrest (.cons (Location.serve_follows hl hserves) .nil)
  · obtain ⟨history, rest', hpick', hl, hrest⟩ := pick_forall₂ hs hpick
    unfold Follows
    dsimp only
    rw [hpick']
    exact List.rel_append hrest (.cons (Location.work_follows hl hworks) .nil)

theorem starts_follows (h : Starts s) : s.Follows := by
  obtain ⟨hnode, hhistories⟩ := h
  unfold Follows
  rw [hhistories, List.forall₂_map_right_iff, List.forall₂_same]
  intro l hl
  obtain ⟨name, ordered, polled, most, pace, rfl⟩ := hnode.locations l hl
  exact ⟨rfl, rfl, rfl, fun _ => rfl, fun _ => iff_of_true rfl fun _ h => by cases h⟩

/-- A run noted is a run of the node. -/
theorem reach_node (h : Reach step Guarded Starts s) : Reach Node.step Receiving.Guarded Node.Starts s.node := by
  induction h with
  | start h => exact .start h.1
  | next _ hok hs ih => exact .next ih hok (step_node hs)

end Noted

/-- In every run in which no thread panics with an arrival taken and no `Telling` made for it, each Location drains and every
arrival is answered. -/
theorem drains_of_guarded (s : Noted) (h : Reach Noted.step Noted.Guarded Noted.Starts s) : s.Drains := by
  have hfollows : s.Follows :=
    Reach.invariant (fun _ h => Noted.starts_follows h) (fun _ _ _ hs _ h => Noted.step_follows hs h) h
  have hright := Node.right_of_reach (Noted.reach_node h)
  refine ⟨hfollows.imp fun _ _ hl => hl.drains s.node.raised, ?_, hright.answered⟩
  intro hquiet i l rest hpick hserving
  -- Nothing is carried any more, so the node's places are all free.
  obtain ⟨hdone, hheld, -⟩ := hright.answered.done hquiet
  have hcount := (hdone l (mem_of_pick hpick)).count
  have hroom : (s.node.carries.holdUpTo (max l.most 1 - l.count)).isSome = true := by
    rw [Budget.holdUpTo_isSome, hheld]
    exact decide_eq_true hright.accounted.most
  obtain ⟨x, hx⟩ := Option.isSome_iff_exists.1 hroom
  have hfew : l.count ≤ l.busy := by
    rw [hcount]
    exact Nat.zero_le _
  simp only [Node.step, hpick, Location.serve, hserving, if_pos hfew, hx, Option.map_some, Option.isSome_some]

/-- A Location whose receive waits, with up to two threads. -/
private def listening : Location := .new "listening" false false 2 ⟨1000, 1000, 5000, 1000⟩

private def listens : Noted := ⟨⟨⟨2, 0⟩, ⟨100, 0⟩, 1, false, [listening]⟩, [.new]⟩

private theorem starts_listens : Noted.Starts listens := by
  refine ⟨⟨⟨Nat.zero_lt_two, rfl⟩, ⟨Nat.succ_pos 99, rfl⟩, ?_⟩, rfl⟩
  intro l hl
  rw [List.mem_singleton.1 hl]
  exact ⟨_, _, _, _, _, rfl⟩

/-- An arrival its far end let go of is handed over and carried. -/
private def carriesOne : List Action :=
  [.serve 0 .hold, .serve 0 (.found 1 true), .serve 0 .handOver, .serve 0 .handed, .work 0 .take, .work 0 (.guard 0),
    .work 0 (.hold 0), .work 0 (.carry 0 .completed), .work 0 (.audit 0), .work 0 (.tell 0 .ok), .work 0 (.send 0),
    .work 0 (.letGo 0)]

/-- The stop is raised after the first arrival: the loop asks twice more, takes the second, and returns once a receive found
nothing, with both told. -/
theorem drains_of_letGo : ∃ s : Noted, s.Drains ∧ s.histories = [⟨true, some 5, [.found, .nothing]⟩] ∧
    s.node.locations.map (fun l => (l.serving, l.told.length)) = [(.returned none, 2)] := by
  obtain ⟨s, hs, hp⟩ := Reach.exists_of_runWhere Noted.step Noted.Guarded starts_listens
    (List.flatten [[.serve 0 (.ask 0 0)], carriesOne, [.raise, .serve 0 (.ask 5 5), .serve 0 .settle], carriesOne,
      [.serve 0 (.ask 6 6), .serve 0 .settle, .serve 0 .hold, .serve 0 (.unfound .nothing .waits 1 false),
        .serve 0 (.ask 7 7), .serve 0 .finish]])
    (fun s => decide (s.histories = [⟨true, some 5, [.found, .nothing]⟩]) &&
      decide (s.node.locations.map (fun l => (l.serving, l.told.length)) = [(.returned none, 2)])) (by decide +kernel)
  simp only [Bool.and_eq_true, decide_eq_true_eq] at hp
  exact ⟨s, drains_of_guarded s hs, hp.1, hp.2⟩

/-- The stop is raised before the first arrival: the loop asks for nothing after it, and returns at once. -/
theorem undrained_of_early_stop : ∃ s, Reach Noted.step Always Noted.Starts s ∧
    ∃ l, s.node.locations = [l] ∧ l.polled = false ∧ l.all = [] ∧ l.serving = .returned none ∧ 5 < 5 + l.pace.drain ∧
      s.histories = [⟨false, some 5, []⟩] := by
  obtain ⟨s, hs, hp⟩ := Reach.exists_of_runWhere Noted.step Always starts_listens
    [.raise, .serve 0 (.ask 5 5), .serve 0 .finish]
    (fun s => decide (s.node.locations.length = 1) && (decide (s.histories = [⟨false, some 5, []⟩]) &&
      s.node.locations.all fun l => decide (l.polled = false ∧ l.all = [] ∧ l.serving = .returned none ∧
        5 < 5 + l.pace.drain)))
    (by decide +kernel)
  simp only [Bool.and_eq_true, decide_eq_true_eq, List.all_eq_true] at hp
  obtain ⟨hone, hhistories, hall⟩ := hp
  obtain ⟨l, hl⟩ := List.length_eq_one_iff.1 hone
  obtain ⟨hpolled, hnone, hreturned, hearly⟩ := hall l (hl ▸ List.mem_singleton.2 rfl)
  exact ⟨s, hs, l, hl, hpolled, hnone, hreturned, hearly, hhistories⟩

end Receiving
