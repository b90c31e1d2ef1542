import XmipRuntime.Plane.Told

/-!
# A lost node is reached again

A surface that was told anything, that its node is lost for one, is followed or about to be (`trying_of_reach`), as long
as the threads it spawns start.  While it does not end, and wherever its follow is, the follow's own next steps, a line it
is on given up, and a node that answers lead to a surface that says the node reachable at the revision its board has
(`recovers`).  There is one lemma for each place the follow may be at, each built on the place after it.
-/

namespace Surface

open Library World

variable (c : Settings) {w w' : World}

/-! ### The follow is tried -/

def Action.unspawned : Action → Bool
  | .wait _ spawned | .starts _ spawned => !spawned
  | _ => false

/-- A thread to start starts. -/
def Spawns (_ : World) (a : Action) : Prop := a.unspawned = false

instance (w : World) (a : Action) : Decidable (Spawns w a) := inferInstanceAs (Decidable (a.unspawned = false))

/-- The follow runs, or a call that told is about to start it. -/
def Trying (w : World) : Prop := w.follow ≠ .idle ∨ Op.starting ∈ w.ops

variable {c}

theorem trying_of_follows {came : Came} (h : Follows c w came w') : w'.follow ≠ .idle := by
  cases h <;> simp

theorem mem_starting_of_pick {ops : List Op} {i : Nat} {op : Op} (hpick : pick w.ops i = some (op, ops))
    (hop : op ≠ .starting) (h : Op.starting ∈ w.ops) : Op.starting ∈ ops := by
  rcases eq_or_mem_of_pick hpick h with heq | hmem
  · exact absurd heq.symm hop
  · exact hmem

/-- Beside the follow, what is about to start it stays until it does. -/
theorem trying_of_step {a : Action} (hspawns : Spawns w a) (hs : w.step c a = some w') (h : Trying w) : Trying w' := by
  have hfollowed (v : World) (hv : v.follow ≠ .idle ∨ Op.starting ∈ v.ops) (spawned : Bool) :
      (v.followed spawned).follow ≠ .idle ∨ Op.starting ∈ (v.followed spawned).ops := by
    unfold World.followed
    split
    · exact .inl (by simp)
    · exact hv
  cases a with
  | post text => cases hs; exact h
  | restart => cases hs; exact h
  | wait seen spawned =>
    cases hs
    rcases hfollowed w h spawned with hf | hmem
    · exact .inl hf
    · exact .inr (List.mem_append_left _ hmem)
  | woken i =>
    simp only [World.step] at hs
    split at hs
    · rename_i seen ops hpick
      split at hs
      · cases hs
        exact h.imp_right (mem_starting_of_pick hpick (by simp))
      · cases hs
    · cases hs
  | timedOut i =>
    simp only [World.step] at hs
    split at hs
    · rename_i seen ops hpick
      cases hs
      exact h.imp_right (mem_starting_of_pick hpick (by simp))
    · cases hs
  | ask =>
    simp only [World.step, Option.some.injEq] at hs
    subst hs
    split
    · exact h
    · exact h.imp_right (List.mem_append_left _)
  | answered i =>
    simp only [World.step] at hs
    split at hs
    · rename_i ops hpick
      cases hs
      exact h.imp_right (mem_starting_of_pick hpick (by simp))
    · cases hs
  | unanswered i why =>
    simp only [World.step] at hs
    split at hs
    · rename_i ops hpick
      cases hs
      exact h.imp_right fun hmem => List.mem_append_left _ (mem_starting_of_pick hpick (by simp) hmem)
    · cases hs
  | tell i =>
    simp only [World.step] at hs
    split at hs
    · cases hs
      exact .inr (List.mem_append_right _ (List.mem_singleton_self _))
    · cases hs
  | starts i spawned =>
    simp only [World.step] at hs
    split at hs
    · rename_i ops hpick
      cases hs
      have hspawned : spawned = true := by
        cases spawned with
        | true => rfl
        | false => cases hspawns
      unfold World.followed
      split
      · exact .inl (by simp)
      · rename_i hidle
        exact .inl fun heq => hidle ⟨heq, hspawned⟩
    · cases hs
  | ends => cases hs; exact h
  | follow came => exact .inl (trying_of_follows (follows_of_step c hs))

/-- Once anything was told, the follow runs or is about to be started. -/
theorem trying_of_reach (h : Reach (World.step c) Spawns Begins w) (htold : 0 < w.state.told) : Trying w := by
  have hinv : 0 < w.state.told → Trying w := by
    refine @Reach.invariant _ _ _ _ _ (fun w => 0 < w.state.told → Trying w) ?_ (fun w a w' hinv hspawns hs htold => ?_) _ h
    · rintro w rfl h0
      exact absurd h0 (Nat.lt_irrefl 0)
    · by_cases hbefore : 0 < w.state.told
      · exact trying_of_step hspawns hs (hinv hbefore)
      · rcases follows_or_aside hs with ⟨came, -, hfollows⟩ | haside
        · exact .inl (trying_of_follows hfollows)
        · cases haside with
          | tells i why ops hpick => exact .inr (List.mem_append_right _ (List.mem_singleton_self _))
          | starts a ops hidle => exact absurd htold hbefore
          | _ => exact absurd htold hbefore
  exact hinv htold

/-! ### And reaches the node -/

variable (c)

/-- Said reachable, at the revision the node's board has. -/
def CaughtUp (w : World) : Prop := w.state.reachable = true ∧ w.state.revision = w.board.revision

/-- There is a run on from here, the node's board as it is, to a surface that has caught up. -/
def Recovers (w : World) : Prop :=
  ∃ as w', runWhere (World.step c) Spawns w as = some w' ∧ CaughtUp w' ∧ w'.board = w.board ∧ w'.process = w.process

variable {c}

theorem Recovers.of_caughtUp (h : CaughtUp w) : Recovers c w := ⟨[], w, rfl, h, rfl, rfl⟩

/-- One step on. -/
theorem Recovers.of_step {a : Action} (hspawns : Spawns w a) (hs : w.step c a = some w') (hboard : w'.board = w.board)
    (hprocess : w'.process = w.process) (h : Recovers c w') : Recovers c w := by
  obtain ⟨as, v, hrun, hv, hboard', hprocess'⟩ := h
  exact ⟨a :: as, v, runWhere_cons_iff.2 ⟨hspawns, w', hs, hrun⟩, hv, hboard'.trans hboard, hprocess'.trans hprocess⟩

/-- One step of the follow on. -/
theorem Recovers.of_follows {came : Came} (hs : Follows c w came w') (hboard : w'.board = w.board)
    (hprocess : w'.process = w.process) (h : Recovers c w') : Recovers c w :=
  .of_step (a := .follow came) rfl hs.step hboard hprocess h

theorem recovers_of_telling_now (hf : w.follow = .telling w.process w.board.revision) : Recovers c w := by
  refine .of_follows (.tells _ _ hf) rfl rfl (.of_caughtUp ?_)
  exact ⟨rfl, rfl⟩

/-- A line just opened: its first wait is answered at once, and told. -/
theorem recovers_of_asked_first (hf : w.follow = .asked w.process 0 false) : Recovers c w := by
  refine .of_follows (.answered _ _ hf) rfl rfl ?_
  refine .of_follows (.arrived _ _ _ _ rfl) rfl rfl ?_
  refine .of_follows (.news _ _ _ _ rfl (.inl rfl)) rfl rfl ?_
  exact recovers_of_telling_now rfl

theorem recovers_of_opening {a : Nat} (he : w.ending = false) (hf : w.follow = .opening a) : Recovers c w := by
  refine .of_follows (.opened a hf) rfl rfl ?_
  refine .of_follows (.asks _ _ _ rfl he) rfl rfl ?_
  exact recovers_of_asked_first rfl

theorem recovers_of_looking {a : Nat} (he : w.ending = false) (hf : w.follow = .looking a) : Recovers c w := by
  refine .of_follows (.looks a hf he) rfl rfl ?_
  exact recovers_of_opening he rfl

theorem recovers_of_pausing {a : Nat} (he : w.ending = false) (hf : w.follow = .pausing a) : Recovers c w := by
  refine .of_follows (.resumes a hf) rfl rfl ?_
  exact recovers_of_looking he rfl

theorem recovers_of_tellingLost {a : Nat} {why : String} (he : w.ending = false) (hf : w.follow = .tellingLost a why) :
    Recovers c w := by
  refine .of_follows (.tellsLost a why hf) rfl rfl ?_
  exact recovers_of_pausing he rfl

theorem recovers_of_deciding {a : Nat} {why : String} (he : w.ending = false) (hf : w.follow = .deciding a why) :
    Recovers c w := by
  by_cases hanew : w.state.told = 0 ∨ w.state.reachable = true ∨ w.state.reason ≠ why
  · refine .of_follows (.anew a why hf hanew) rfl rfl ?_
    exact recovers_of_tellingLost he rfl
  · simp only [not_or, Bool.not_eq_true, ne_eq, not_not] at hanew
    refine .of_follows (.known a why hf hanew.1 hanew.2.1 hanew.2.2) rfl rfl ?_
    exact recovers_of_pausing he rfl

theorem recovers_of_lost {a : Nat} {why : String} (he : w.ending = false) (hf : w.follow = .lost a why) :
    Recovers c w := by
  refine .of_follows (.loses a why hf he) rfl rfl ?_
  exact recovers_of_deciding he rfl

/-- On a line of whatever process, lost at worst. -/
theorem recovers_of_asked {p r : Nat} {reached : Bool} (he : w.ending = false) (hf : w.follow = .asked p r reached) :
    Recovers c w := by
  refine .of_follows (.broken p r reached "" hf) rfl rfl ?_
  exact recovers_of_lost he rfl

theorem recovers_of_holding {p r : Nat} {reached : Bool} (he : w.ending = false) (hf : w.follow = .holding p r reached) :
    Recovers c w := by
  refine .of_follows (.asks p r reached hf he) rfl rfl ?_
  exact recovers_of_asked he rfl

theorem recovers_of_telling {p now : Nat} (he : w.ending = false) (hf : w.follow = .telling p now) : Recovers c w := by
  refine .of_follows (.tells p now hf) rfl rfl ?_
  exact recovers_of_holding he rfl

theorem recovers_of_heard {p r now : Nat} {reached : Bool} (he : w.ending = false)
    (hf : w.follow = .heard p r reached now) : Recovers c w := by
  by_cases hnews : reached = false ∨ now ≠ r ∨ w.state.reachable = false
  · refine .of_follows (.news p r reached now hf hnews) rfl rfl ?_
    exact recovers_of_telling he rfl
  · simp only [not_or, Bool.not_eq_false, ne_eq, not_not] at hnews
    obtain ⟨rfl, rfl, hreachable⟩ := hnews
    refine .of_follows (.nothing p now hf hreachable) rfl rfl ?_
    exact recovers_of_holding he rfl

theorem recovers_of_answering {p r now : Nat} {reached : Bool} (he : w.ending = false)
    (hf : w.follow = .answering p r reached now) : Recovers c w := by
  refine .of_follows (.arrived p r reached now hf) rfl rfl ?_
  exact recovers_of_heard he rfl

/-- Wherever the follow is. -/
theorem recovers_of_follow (he : w.ending = false) (hidle : w.follow ≠ .idle) (hended : w.follow ≠ .ended) :
    Recovers c w := by
  cases hf : w.follow with
  | idle => exact absurd hf hidle
  | looking a => exact recovers_of_looking he hf
  | opening a => exact recovers_of_opening he hf
  | holding p r reached => exact recovers_of_holding he hf
  | asked p r reached => exact recovers_of_asked he hf
  | answering p r reached now => exact recovers_of_answering he hf
  | heard p r reached now => exact recovers_of_heard he hf
  | telling p now => exact recovers_of_telling he hf
  | lost a why => exact recovers_of_lost he hf
  | deciding a why => exact recovers_of_deciding he hf
  | tellingLost a why => exact recovers_of_tellingLost he hf
  | pausing a => exact recovers_of_pausing he hf
  | ended => exact absurd hf hended

theorem recovers_of_starting (he : w.ending = false) (hf : w.follow = .idle) (hmem : Op.starting ∈ w.ops) :
    Recovers c w := by
  obtain ⟨i, hi, hget⟩ := List.getElem_of_mem hmem
  have hpick : pick w.ops i = some (.starting, w.ops.eraseIdx i) := by
    rw [pick, List.getElem?_eq_getElem hi, hget]
    rfl
  refine .of_step (a := .starts i true) rfl (by rw [World.step, hpick]) ?_ ?_ ?_
  · rw [World.followed, if_pos ⟨hf, rfl⟩]
  · rw [World.followed, if_pos ⟨hf, rfl⟩]
  · rw [World.followed, if_pos ⟨hf, rfl⟩]
    exact recovers_of_looking he rfl

/-- A surface that does not end, and whose follow runs or is about to start, can always be brought back by its follow and
a node that answers: from every state reached, whether it refuses its calls or is behind its node's board, to one that is
reachable at the revision that board has. -/
theorem recovers (h : Reach (World.step c) Spawns Begins w) (hending : w.ending = false) (htrying : Trying w) :
    Recovers c w := by
  have hended : w.follow ≠ .ended := by
    intro hf
    have hfits := fits_of_reach h
    rw [hf] at hfits
    have hended : w.ending = true := hfits
    rw [hending] at hended
    cases hended
  by_cases hidle : w.follow = .idle
  · rcases htrying with hrun | hmem
    · exact absurd hidle hrun
    · exact recovers_of_starting hending hidle hmem
  · exact recovers_of_follow hending hidle hended

/-- A call not answered and told, the follow not started yet. -/
theorem recovers_unanswered : ∃ w, Reach (World.step onNode) Spawns Begins w ∧ w.follow = .idle ∧
    (w.refusal onNode).isSome = true ∧ Recovers onNode w := by
  obtain ⟨w, hreach, hw⟩ := Reach.exists_of_runWhere (World.step onNode) Spawns (show Begins _ from rfl)
    [.post "a", .ask, .unanswered 0 "no answer", .tell 0]
    (fun w => decide (w.follow = .idle ∧ w.ending = false ∧ (w.refusal onNode).isSome = true ∧ 0 < w.state.told))
    (by decide +kernel)
  obtain ⟨hidle, hending, hrefused, htold⟩ := of_decide_eq_true hw
  exact ⟨w, hreach, hidle, hrefused, recovers hreach hending (trying_of_reach hreach htold)⟩

end Surface
