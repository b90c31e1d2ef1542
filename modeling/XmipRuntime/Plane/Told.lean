import XmipRuntime.Plane.Following

/-!
# What a surface's followers are told

Over every run of the node, its followers, the calls and the follow: what was told is never past the board of the process
the follow holds a line to, and the node holds the follow's wait exactly while the revision told is its own
(`revision_of_asked`); the node is said reachable only by a follow whose line it answered on, and while the follow tries
again a call is refused at once (`reachable_of_reach`); one count of tellings names one state (`standing_eq_of_told`);
the pauses follow the schedule (`paused_of_reach`); and the follow never tells what was told last (`told_once`).
-/

namespace Surface

open Library World

variable {c : Settings} {w w' : World} {ok : World → Action → Prop}

/-! ### Revisions and reachability -/

/-- While the node's wait stands on the follow's line, what was told is never ahead of the node, and the node holds the
wait exactly while what was told is its revision: no advance goes untold. -/
theorem revision_of_asked (h : Reach (World.step c) Always Begins w) {r : Nat}
    (hasked : w.follow = .asked w.process r true) :
    w.state.revision ≤ w.board.revision ∧ (w.board.revision ≤ r ↔ w.state.revision = w.board.revision) := by
  have hfits := fits_of_reach h
  rw [hasked] at hfits
  have hknown : w.state.revision = r := hfits.2
  have hhad : r ≤ w.board.revision := hfits.1.2 rfl
  omega

/-- A surface on a node, its pauses the schedule's. -/
def onNode : Settings := .reaching "node:7401" []

/-- The first publication told, and the node's next wait begun. -/
def toldFirst : List Action :=
  [.wait 0 true, .follow .goes, .follow .opened, .follow .goes, .post "a", .follow .answers, .follow .arrives,
    .follow .goes, .follow .goes, .follow .goes]

theorem revision_of_asked_told : ∃ w, Reach (World.step onNode) Always Begins w ∧ w.follow = .asked w.process 1 true ∧
    (w.board.revision ≤ 1 ↔ w.state.revision = w.board.revision) := by
  obtain ⟨w, hreach, hw⟩ := Reach.exists_of_runWhere (World.step onNode) Always (show Begins _ from rfl) toldFirst
    (fun w => decide (w.follow = .asked w.process 1 true)) (by decide +kernel)
  exact ⟨w, hreach, of_decide_eq_true hw, (revision_of_asked hreach (of_decide_eq_true hw)).2⟩

/-- On a line the node answered on, or about to say that line lost. -/
def Follow.reached : Follow → Bool
  | .holding _ _ reached | .asked _ _ reached | .answering _ _ reached _ | .heard _ _ reached _ => reached
  | .telling _ _ => true
  | .lost a _ | .deciding a _ | .tellingLost a _ => decide (a = 0)
  | .idle | .looking _ | .opening _ | .pausing _ | .ended => false

/-- Trying again to reach a node it said lost. -/
def Follow.again : Follow → Bool
  | .looking a | .opening a | .lost a _ | .deciding a _ | .tellingLost a _ => decide (0 < a)
  | .pausing _ => true
  | _ => false

private theorem knows_reached {p r : Nat} {reached : Bool} (h : w.Knows p r reached) (hw : w.state.reachable = true) :
    reached = true := by
  cases reached with
  | true => rfl
  | false =>
    have hnot : w.state.reachable = false := h.2
    rw [hw] at hnot
    exact nomatch hnot

private theorem not_away {tried : Prop} (h : w.Away tried) (hw : w.state.reachable = true) : False := by
  have hnot := h.1
  rw [hw] at hnot
  exact nomatch hnot

private theorem first_of_reachable {a : Nat} (h : 0 < a → w.Away True) (hw : w.state.reachable = true) :
    decide (a = 0) = true := by
  rw [decide_eq_true_eq]
  by_contra hpos
  exact not_away (h (Nat.pos_of_ne_zero hpos)) hw

theorem reached_of_fits {f : Follow} (h : w.Fits f) (hw : w.state.reachable = true) :
    f.reached = true ∨ w.ending = true := by
  cases f with
  | idle =>
    have hnot : w.state.reachable = false := h
    rw [hw] at hnot
    exact nomatch hnot
  | looking a => exact (not_away h hw).elim
  | opening a => exact (not_away h hw).elim
  | holding p r reached => exact .inl (knows_reached h hw)
  | asked p r reached => exact .inl (knows_reached h hw)
  | answering p r reached now => exact .inl (knows_reached h.1 hw)
  | heard p r reached now => exact .inl (knows_reached h.1 hw)
  | telling p now => exact .inl rfl
  | lost a why => exact .inl (first_of_reachable h hw)
  | deciding a why => exact .inl (first_of_reachable h hw)
  | tellingLost a why => exact .inl (first_of_reachable h hw)
  | pausing a => exact (not_away h hw).elim
  | ended => exact .inr h

theorem away_of_again {f : Follow} (h : w.Fits f) (hf : f.again = true) : w.Away True := by
  cases f with
  | looking a => exact ⟨h.1, fun _ => h.2 (of_decide_eq_true hf)⟩
  | opening a => exact ⟨h.1, fun _ => h.2 (of_decide_eq_true hf)⟩
  | lost a why => exact h (of_decide_eq_true hf)
  | deciding a why => exact h (of_decide_eq_true hf)
  | tellingLost a why => exact h (of_decide_eq_true hf)
  | pausing a => exact h
  | _ => exact nomatch hf

/-- A surface that does not end says its node reachable only while its follow is on a line the node answered on, or about
to say it lost; and while the follow tries again, a call is refused at once. -/
theorem reachable_of_reach (h : Reach (World.step c) Always Begins w) :
    (w.state.reachable = true → w.ending = false → w.follow.reached = true) ∧
      (w.follow.again = true → (w.refusal c).isSome = true) := by
  have hfits := fits_of_reach h
  refine ⟨fun hreachable hending => ?_, fun hagain => ?_⟩
  · rcases reached_of_fits hfits hreachable with hreached | hended
    · exact hreached
    · rw [hending] at hended
      exact nomatch hended
  · have haway := away_of_again hfits hagain
    unfold World.refusal
    rw [if_pos ⟨haway.1, haway.2 trivial⟩]
    rfl

/-- A call not answered, the follow started, its first try failed and told. -/
def lostFirst : List Action :=
  [.ask, .unanswered 0 "no answer", .tell 0, .starts 0 true, .follow .goes, .follow (.fails "refused"), .follow .goes,
    .follow .goes, .follow .goes, .follow .goes, .follow .goes]

theorem reachable_of_reach_lost : ∃ w, Reach (World.step onNode) Always Begins w ∧ w.follow = .opening 1 ∧
    (w.refusal onNode).isSome = true := by
  obtain ⟨w, hreach, hw⟩ := Reach.exists_of_runWhere (World.step onNode) Always (show Begins _ from rfl) lostFirst
    (fun w => decide (w.follow = .opening 1)) (by decide +kernel)
  have hf : w.follow = .opening 1 := of_decide_eq_true hw
  exact ⟨w, hreach, hf, (reachable_of_reach hreach).2 (by rw [hf]; rfl)⟩

/-! ### One count, one state -/

/-- A step tells nothing, or one more. -/
theorem told_of_step {a : Action} (hs : w.step c a = some w') :
    (w'.log = w.log ∧ w'.state = w.state) ∨
      ∃ standing, w'.log = w.log ++ [standing] ∧ w'.state = ⟨standing, w.state.told + 1⟩ := by
  rcases follows_or_aside hs with ⟨came, -, hfollows⟩ | haside
  · cases hfollows with
    | tells p now hf => exact .inr ⟨_, rfl, rfl⟩
    | tellsLost a why hf => exact .inr ⟨_, rfl, rfl⟩
    | _ => exact .inl ⟨rfl, rfl⟩
  · cases haside with
    | tells i why ops hpick => exact .inr ⟨_, rfl, rfl⟩
    | _ => exact .inl ⟨rfl, rfl⟩

theorem current_of_reach (h : Reach (World.step c) ok Begins w) :
    Current notConnected w.log w.state.told w.state.toStanding := by
  refine @Reach.invariant _ _ _ _ _ (fun w => Current notConnected w.log w.state.told w.state.toStanding) ?_ ?_ _ h
  · rintro w rfl
    exact .start _
  · intro w a w' hcurrent _ hs
    rcases told_of_step hs with ⟨hlog, hstate⟩ | ⟨standing, hlog, hstate⟩
    · rw [hlog, hstate]
      exact hcurrent
    · rw [hlog, hstate]
      exact hcurrent.put standing

theorem log_prefix_of_run {as : List Action} (h : runWhere (World.step c) Always w as = some w') : w.log <+: w'.log := by
  refine @invariant_of_runWhere _ _ _ _ _ (fun v => w.log <+: v.log) (fun v a v' hprefix hs => ?_) _ _ _ List.prefix_rfl h
  rcases told_of_step hs with ⟨hlog, -⟩ | ⟨standing, hlog, -⟩
  · rw [hlog]
    exact hprefix
  · rw [hlog]
    exact hprefix.trans (List.prefix_append _ _)

/-- A follower that was told a count is told nothing while the count stays, and then nothing there is to tell has changed:
over every run, the same count is the same standing. -/
theorem standing_eq_of_told (h : Reach (World.step c) Always Begins w) {as : List Action}
    (hrun : runWhere (World.step c) Always w as = some w') (htold : w'.state.told = w.state.told) :
    w'.state = w.state := by
  have hbefore := current_of_reach h
  have hafter := current_of_reach (h.of_runWhere hrun)
  have hlog : w.log = w'.log := by
    refine (log_prefix_of_run hrun).eq_of_length ?_
    rw [← hbefore.count, ← hafter.count, htold]
  have hnamed := hafter.named
  rw [← hlog, htold, hbefore.named, Option.some.injEq] at hnamed
  cases hw : w.state
  cases hw' : w'.state
  rw [hw, hw'] at hnamed htold
  exact State.mk.injEq .. ▸ ⟨hnamed.symm, htold⟩

/-- The node posts and the follow hears of it; its followers are not told yet. -/
theorem standing_eq_of_told_heard : ∃ w w', Reach (World.step onNode) Always Begins w ∧
    runWhere (World.step onNode) Always w [.post "b", .follow .answers, .follow .arrives] = some w' ∧
    w'.board ≠ w.board ∧ w'.state = w.state := by
  obtain ⟨w, hreach, hw⟩ := Reach.exists_of_runWhere (World.step onNode) Always (show Begins _ from rfl) toldFirst
    (fun w => (runWhere (World.step onNode) Always w [.post "b", .follow .answers, .follow .arrives]).any fun w' =>
      decide (w'.board ≠ w.board ∧ w'.state.told = w.state.told)) (by decide +kernel)
  obtain ⟨w', hrun, hw'⟩ := (Option.any_eq_true _ _).1 hw
  obtain ⟨hboard, htold⟩ := of_decide_eq_true hw'
  exact ⟨w, w', hreach, hrun, hboard, standing_eq_of_told hreach hrun htold⟩

/-! ### The pauses -/

/-- How many tries there were since the node was last reached. -/
def Follow.attempt : Follow → Option Nat
  | .looking a | .opening a | .lost a _ | .deciding a _ | .tellingLost a _ | .pausing a => some a
  | .ended => none
  | _ => some 0

/-- The pauses since the node was last reached. -/
def Paused (c : Settings) (w : World) : Prop :=
  ∀ a, w.follow.attempt = some a → w.paused = (List.range a).map c.delay

private theorem paused_of_follows {came : Came} (h : Follows c w came w') (hpaused : Paused c w) : Paused c w' := by
  intro a ha
  cases h with
  | opened b hf =>
    cases ha
    rfl
  | resumes b hf =>
    cases ha
    have hbefore : w.paused = (List.range b).map c.delay := hpaused b (by rw [hf]; rfl)
    show w.paused ++ [c.delay b] = (List.range (b + 1)).map c.delay
    rw [hbefore, List.range_succ, List.map_append]
    rfl
  | quits b hf he => exact nomatch ha
  | stops b why hf he => exact nomatch ha
  | looks b hf he => exact hpaused a (by rw [hf]; exact ha)
  | unopened b why hf => exact hpaused a (by rw [hf]; exact ha)
  | asks p r reached hf he => exact hpaused a (by rw [hf]; exact ha)
  | leaves p r reached hf he => exact hpaused a (by rw [hf]; exact ha)
  | answered r reached hf => exact hpaused a (by rw [hf]; exact ha)
  | broken p r reached why hf => exact hpaused a (by rw [hf]; exact ha)
  | arrived p r reached now hf => exact hpaused a (by rw [hf]; exact ha)
  | cut p r reached now why hf => exact hpaused a (by rw [hf]; exact ha)
  | news p r reached now hf hnews => exact hpaused a (by rw [hf]; exact ha)
  | nothing p r hf hreachable => exact hpaused a (by rw [hf]; exact ha)
  | tells p now hf => exact hpaused a (by rw [hf]; exact ha)
  | loses b why hf he => exact hpaused a (by rw [hf]; exact ha)
  | anew b why hf hanew => exact hpaused a (by rw [hf]; exact ha)
  | known b why hf htold hreachable hwhy => exact hpaused a (by rw [hf]; exact ha)
  | tellsLost b why hf => exact hpaused a (by rw [hf]; exact ha)

/-- Since the node was last reached the follow has paused as long as the schedule has it, one pause after the other, the
schedule's last repeated. -/
theorem paused_of_reach (h : Reach (World.step c) Always Begins w) : Paused c w := by
  refine h.invariant ?_ fun w a w' hpaused _ hs => ?_
  · rintro w rfl a ha
    cases ha
    rfl
  · rcases follows_or_aside hs with ⟨came, -, hfollows⟩ | haside
    · exact paused_of_follows hfollows hpaused
    · cases haside with
      | starts b ops hidle =>
        intro a ha
        cases ha
        exact hpaused 0 (by rw [hidle]; rfl)
      | _ => exact hpaused

theorem paused_of_reach_lost : ∃ w, Reach (World.step onNode) Always Begins w ∧ w.follow = .opening 2 ∧
    w.paused = [0, 2000] := by
  obtain ⟨w, hreach, hw⟩ := Reach.exists_of_runWhere (World.step onNode) Always (show Begins _ from rfl)
    (lostFirst ++ [.follow (.fails "refused"), .follow .goes, .follow .goes, .follow .goes, .follow .goes])
    (fun w => decide (w.follow = .opening 2)) (by decide +kernel)
  have hf : w.follow = .opening 2 := of_decide_eq_true hw
  refine ⟨w, hreach, hf, ?_⟩
  rw [paused_of_reach hreach 2 (by rw [hf]; rfl)]
  decide

/-! ### Told once -/

def Action.tells : Action → Bool
  | .tell _ => true
  | _ => false

/-- No call tells that the node did not answer it. -/
def Quiet (_ : World) (a : Action) : Prop := a.tells = false

instance (w : World) (a : Action) : Decidable (Quiet w a) := inferInstanceAs (Decidable (a.tells = false))

/-- What the follow is about to tell is news. -/
def Fresh (w : World) : Follow → Prop
  | .telling _ now => w.state.reachable = false ∨ w.state.revision ≠ now
  | .tellingLost _ why => w.state.told = 0 ∨ w.state.reachable = true ∨ w.state.reason ≠ why
  | _ => True

structure Once (w : World) : Prop where
  fits : w.Fits w.follow
  current : Current notConnected w.log w.state.told w.state.toStanding
  fresh : Fresh w w.follow
  chain : w.log.IsChain (· ≠ ·)

private theorem chain_put {log : List Standing} {told : Nat} {now standing : Standing}
    (hcurrent : Current notConnected log told now) (hchain : log.IsChain (· ≠ ·)) (hne : told = 0 ∨ now ≠ standing) :
    (log ++ [standing]).IsChain (· ≠ ·) := by
  refine List.isChain_append.2 ⟨hchain, List.isChain_singleton _, ?_⟩
  intro last hlast first hfirst
  rw [List.head?_cons, Option.mem_def, Option.some.injEq] at hfirst
  rw [Option.mem_def] at hlast
  have hnow : now = last := by
    rw [hcurrent.eq_getLastD, List.getLastD_eq_getLast?, hlast]
    rfl
  rcases hne with hzero | hne
  · rw [hcurrent.count, List.length_eq_zero_iff] at hzero
    rw [hzero] at hlast
    exact nomatch hlast
  · rw [← hnow, ← hfirst]
    exact hne

private theorem fresh_heard {p r now : Nat} {reached : Bool} (h : w.Knows p r reached)
    (hnews : reached = false ∨ now ≠ r ∨ w.state.reachable = false) :
    w.state.reachable = false ∨ w.state.revision ≠ now := by
  cases reached with
  | false => exact .inl h.2
  | true =>
    rcases hnews with hfalse | hnow | haway
    · exact nomatch hfalse
    · have hknown : w.state.revision = r := h.2
      rw [hknown]
      exact .inr (Ne.symm hnow)
    · exact .inl haway

theorem Once.follows {came : Came} (h : Once w) (hs : Follows c w came w') : Once w' := by
  have hfits := fits_of_follows hs h.fits
  cases hs with
  | news p r reached now hf hnews =>
    have hheard := h.fits
    rw [hf] at hheard
    exact ⟨hfits, h.current, fresh_heard hheard.1 hnews, h.chain⟩
  | tells p now hf =>
    have hfresh := h.fresh
    rw [hf] at hfresh
    refine ⟨hfits, h.current.put _, trivial, chain_put h.current h.chain (.inr fun heq => ?_)⟩
    rcases hfresh with haway | hnow
    · rw [heq] at haway
      exact nomatch haway
    · rw [heq] at hnow
      exact hnow rfl
  | anew a why hf hanew => exact ⟨hfits, h.current, hanew, h.chain⟩
  | tellsLost a why hf =>
    have hfresh := h.fresh
    rw [hf] at hfresh
    refine ⟨hfits, h.current.put _, trivial, chain_put h.current h.chain ?_⟩
    rcases hfresh with hzero | hreachable | hwhy
    · exact .inl hzero
    · refine .inr fun heq => ?_
      rw [heq] at hreachable
      exact nomatch hreachable
    · refine .inr fun heq => ?_
      rw [heq] at hwhy
      exact hwhy rfl
  | _ => exact ⟨hfits, h.current, trivial, h.chain⟩

/-- Where no call tells, the follow never tells what was told last. -/
theorem told_once (h : Reach (World.step c) Quiet Begins w) : w.log.IsChain (· ≠ ·) := by
  have honce : Once w := by
    refine h.invariant ?_ fun w a w' honce hquiet hs => ?_
    · rintro w rfl
      exact ⟨rfl, Current.start _, trivial, List.isChain_nil⟩
    · rcases follows_or_aside hs with ⟨came, -, hfollows⟩ | haside
      · exact honce.follows hfollows
      · have hfits := fits_of_aside haside honce.fits
        cases haside with
        | tells i why ops hpick => exact nomatch hquiet
        | starts a ops hidle => exact ⟨hfits, honce.current, trivial, honce.chain⟩
        | _ => exact ⟨hfits, honce.current, honce.fresh, honce.chain⟩
  exact honce.chain

/-- Reached, lost, and the same failure twice, told once. -/
theorem told_once_lost : ∃ w, Reach (World.step onNode) Quiet Begins w ∧
    w.log = [⟨true, "", 1⟩, ⟨false, "lost: reset", 1⟩, ⟨false, "refused", 1⟩] ∧ w.log.IsChain (· ≠ ·) := by
  obtain ⟨w, hreach, hw⟩ := Reach.exists_of_runWhere (World.step onNode) Quiet (show Begins _ from rfl)
    (toldFirst ++ [.follow (.fails "reset"), .follow .goes, .follow .goes, .follow .goes, .follow .goes, .follow .goes,
      .follow (.fails "refused"), .follow .goes, .follow .goes, .follow .goes, .follow .goes, .follow .goes,
      .follow (.fails "refused"), .follow .goes, .follow .goes])
    (fun w => decide (w.log = [⟨true, "", 1⟩, ⟨false, "lost: reset", 1⟩, ⟨false, "refused", 1⟩]))
    (by decide +kernel)
  exact ⟨w, hreach, of_decide_eq_true hw, told_once hreach⟩

end Surface
