import XmipRuntime.Plane.Board

/-!
# The follow of a remote surface

A surface over a node's operate listener keeps one state — whether the node answers, why not, and its publication's
revision — and counts how many times its followers were told (`src/plane/remote.rs`, `src/plane/shared.rs`).  Its follow
is a thread with a line of its own: it reaches the node, holds the node's wait past the revision it knows, tells each
revision as it advances, and when the line is lost tells why and tries again (`src/plane/follow.rs`).  A call on the
other line that the node does not answer is told as well, and starts the follow; while the surface says its node
unreachable a call is refused at once (`Remote::asked_for`).

A step is one hold of the lock on the state, one reading of whether the surface ends, or what comes of a connect or a
call.  The node may post, and be started anew as another process with a board of its own, at any time; a wait it holds
may be answered with the revision unchanged, its time over.  How long a pause is is written down, no clock is kept.
What was told and how long was paused is written down beside the state, for the results to speak of; no step reads it.
-/

namespace Surface

open Library

/-! ### The state told -/

/-- Whether the node answers, why not, and its publication's revision. -/
structure Standing where
  reachable : Bool
  reason : String
  revision : Nat
  deriving DecidableEq

/-- The standing, and how many times a follower has been told. -/
structure State extends Standing where
  told : Nat
  deriving DecidableEq

def notConnected : Standing := ⟨false, "not connected yet", 0⟩

/-- How long the follow waits before each try, in milliseconds. -/
def retrySchedule : List Nat := [0, 2000, 10000, 30000]

/-- What a surface is made with: what it calls its node, and the pauses of its retries. -/
structure Settings where
  address : String
  retry : List Nat
  nonempty : retry ≠ []

/-- A surface made; no pauses given are the schedule's. -/
def Settings.reaching (address : String) (retry : List Nat) : Settings :=
  if h : retry = [] then ⟨address, retrySchedule, by decide⟩ else ⟨address, retry, h⟩

variable (c : Settings)

/-- The pause after a try that is the `attempt`th since the node was reached, the last repeated. -/
def Settings.delay (attempt : Nat) : Nat := c.retry.getD (min attempt (c.retry.length - 1)) 0

/-! ### The threads -/

/-- Where the follow is.  A line is known by the process of the node it reaches; `revision` and `reached` are the follow's
own, `now` what the node answered. -/
inductive Follow where
  | idle
  /-- About to look whether the surface ends. -/
  | looking (attempt : Nat)
  | opening (attempt : Nat)
  | holding (process revision : Nat) (reached : Bool)
  | asked (process revision : Nat) (reached : Bool)
  /-- The node has answered; the answer is on its way. -/
  | answering (process revision : Nat) (reached : Bool) (now : Nat)
  | heard (process revision : Nat) (reached : Bool) (now : Nat)
  | telling (process now : Nat)
  /-- The line was lost or never opened; about to look whether the surface ends. -/
  | lost (attempt : Nat) (why : String)
  /-- About to look whether that is told anew. -/
  | deciding (attempt : Nat) (why : String)
  | tellingLost (attempt : Nat) (why : String)
  | pausing (attempt : Nat)
  | ended
  deriving DecidableEq

/-- A follower's wait, or a call past the look at the state. -/
inductive Op where
  | waiting (seen : Nat)
  | asking
  /-- The node did not answer the call; about to tell why. -/
  | tellingLost (why : String)
  /-- Told; about to start the follow. -/
  | starting
  deriving DecidableEq

structure World where
  process : Nat
  board : Board
  state : State
  ending : Bool
  follow : Follow
  ops : List Op
  /-- What was told, in order. -/
  log : List Standing
  /-- How long each pause was since the node was last reached. -/
  paused : List Nat
  deriving DecidableEq

def World.Begins (w : World) : Prop := w = ⟨0, .default, ⟨notConnected, 0⟩, false, .idle, [], [], []⟩

/-- What comes of what the follow does: its next step by itself, its line opened, the node's answer given, the answer
arrived, or the connect or the line failed. -/
inductive Came where
  | goes
  | opened
  | answers
  | arrives
  | fails (why : String)
  deriving DecidableEq

inductive Action where
  | post (text : String)
  /-- The node started anew. -/
  | restart
  /-- A wait past what was `seen`, and whether the follow's thread started where it was to. -/
  | wait (seen : Nat) (spawned : Bool)
  | woken (i : Nat)
  | timedOut (i : Nat)
  | ask
  /-- The node answered or refused a call. -/
  | answered (i : Nat)
  | unanswered (i : Nat) (why : String)
  | tell (i : Nat)
  | starts (i : Nat) (spawned : Bool)
  | ends
  | follow (came : Came)
  deriving DecidableEq

namespace World

/-- Every follower told. -/
def tell (w : World) (standing : Standing) : World :=
  { w with state := ⟨standing, w.state.told + 1⟩, log := w.log ++ [standing] }

/-- The follow started, where it was not before. -/
def followed (w : World) (spawned : Bool) : World :=
  if w.follow = .idle ∧ spawned = true then { w with follow := .looking 0 } else w

/-- What a call is told at once while the node is lost. -/
def refusal (w : World) : Option String :=
  if w.state.reachable = false ∧ 0 < w.state.told then
    some (c.address ++ " unreachable: " ++ w.state.reason)
  else none

/-- A step of the follow. -/
def follows (w : World) (came : Came) : Option World :=
  match w.follow, came with
  | .looking attempt, .goes => some { w with follow := if w.ending then .ended else .opening attempt }
  | .opening _, .opened => some { w with follow := .holding w.process 0 false, paused := [] }
  | .opening attempt, .fails why => some { w with follow := .lost attempt why }
  | .holding process revision reached, .goes =>
    some { w with follow := if w.ending then .lost 0 "" else .asked process revision reached }
  | .asked process revision reached, .answers =>
    if process = w.process then some { w with follow := .answering process revision reached w.board.revision } else none
  | .asked _ _ _, .fails why => some { w with follow := .lost 0 ("lost: " ++ why) }
  | .answering process revision reached now, .arrives => some { w with follow := .heard process revision reached now }
  | .answering _ _ _ _, .fails why => some { w with follow := .lost 0 ("lost: " ++ why) }
  | .heard process revision reached now, .goes =>
    -- A call that waited too long said the node unreachable; this answer says it is back.
    if reached = false ∨ now ≠ revision ∨ w.state.reachable = false then
      some { w with follow := .telling process now }
    else some { w with follow := .holding process revision true }
  | .telling process now, .goes =>
    some { w.tell ⟨true, "", now⟩ with follow := .holding process now true }
  | .lost attempt why, .goes => some { w with follow := if w.ending then .ended else .deciding attempt why }
  | .deciding attempt why, .goes =>
    if w.state.told = 0 ∨ w.state.reachable = true ∨ w.state.reason ≠ why then
      some { w with follow := .tellingLost attempt why }
    else some { w with follow := .pausing attempt }
  | .tellingLost attempt why, .goes =>
    some { w.tell ⟨false, why, w.state.revision⟩ with follow := .pausing attempt }
  | .pausing attempt, .goes =>
    some { w with follow := .looking (attempt + 1), paused := w.paused ++ [c.delay attempt] }
  | _, _ => none

def step (w : World) : Action → Option World
  | .post text => some { w with board := w.board.post text }
  | .restart => some { w with process := w.process + 1, board := .default }
  | .wait seen spawned =>
    let w := w.followed spawned
    some { w with ops := w.ops ++ [.waiting seen] }
  | .woken i =>
    match pick w.ops i with
    | some (.waiting seen, ops) => if seen < w.state.told ∨ w.ending = true then some { w with ops } else none
    | _ => none
  | .timedOut i =>
    match pick w.ops i with
    | some (.waiting _, ops) => some { w with ops }
    | _ => none
  | .ask => some (if (w.refusal c).isSome then w else { w with ops := w.ops ++ [.asking] })
  | .answered i =>
    match pick w.ops i with
    | some (.asking, ops) => some { w with ops }
    | _ => none
  | .unanswered i why =>
    match pick w.ops i with
    | some (.asking, ops) => some { w with ops := ops ++ [.tellingLost why] }
    | _ => none
  | .tell i =>
    match pick w.ops i with
    | some (.tellingLost why, ops) =>
      some { w.tell ⟨false, why, w.state.revision⟩ with ops := ops ++ [.starting] }
    | _ => none
  | .starts i spawned =>
    match pick w.ops i with
    | some (.starting, ops) => some ({ w with ops }.followed spawned)
    | _ => none
  | .ends => some { w with ending := true }
  | .follow came => w.follows c came

end World

/-! ### What a step of the follow does -/

/-- Where the follow goes, and what it tells. -/
inductive Follows (w : World) : Came → World → Prop where
  | looks (a : Nat) : w.follow = .looking a → w.ending = false → Follows w .goes { w with follow := .opening a }
  | quits (a : Nat) : w.follow = .looking a → w.ending = true → Follows w .goes { w with follow := .ended }
  | opened (a : Nat) : w.follow = .opening a →
      Follows w .opened { w with follow := .holding w.process 0 false, paused := [] }
  | unopened (a : Nat) (why : String) : w.follow = .opening a → Follows w (.fails why) { w with follow := .lost a why }
  | asks (p r : Nat) (reached : Bool) : w.follow = .holding p r reached → w.ending = false →
      Follows w .goes { w with follow := .asked p r reached }
  | leaves (p r : Nat) (reached : Bool) : w.follow = .holding p r reached → w.ending = true →
      Follows w .goes { w with follow := .lost 0 "" }
  | answered (r : Nat) (reached : Bool) : w.follow = .asked w.process r reached →
      Follows w .answers { w with follow := .answering w.process r reached w.board.revision }
  | broken (p r : Nat) (reached : Bool) (why : String) : w.follow = .asked p r reached →
      Follows w (.fails why) { w with follow := .lost 0 ("lost: " ++ why) }
  | arrived (p r : Nat) (reached : Bool) (now : Nat) : w.follow = .answering p r reached now →
      Follows w .arrives { w with follow := .heard p r reached now }
  | cut (p r : Nat) (reached : Bool) (now : Nat) (why : String) : w.follow = .answering p r reached now →
      Follows w (.fails why) { w with follow := .lost 0 ("lost: " ++ why) }
  | news (p r : Nat) (reached : Bool) (now : Nat) : w.follow = .heard p r reached now →
      reached = false ∨ now ≠ r ∨ w.state.reachable = false → Follows w .goes { w with follow := .telling p now }
  | nothing (p r : Nat) : w.follow = .heard p r true r → w.state.reachable = true →
      Follows w .goes { w with follow := .holding p r true }
  | tells (p now : Nat) : w.follow = .telling p now →
      Follows w .goes { w.tell ⟨true, "", now⟩ with follow := .holding p now true }
  | loses (a : Nat) (why : String) : w.follow = .lost a why → w.ending = false →
      Follows w .goes { w with follow := .deciding a why }
  | stops (a : Nat) (why : String) : w.follow = .lost a why → w.ending = true → Follows w .goes { w with follow := .ended }
  | anew (a : Nat) (why : String) : w.follow = .deciding a why →
      w.state.told = 0 ∨ w.state.reachable = true ∨ w.state.reason ≠ why →
      Follows w .goes { w with follow := .tellingLost a why }
  | known (a : Nat) (why : String) : w.follow = .deciding a why → w.state.told ≠ 0 → w.state.reachable = false →
      w.state.reason = why → Follows w .goes { w with follow := .pausing a }
  | tellsLost (a : Nat) (why : String) : w.follow = .tellingLost a why →
      Follows w .goes { w.tell ⟨false, why, w.state.revision⟩ with follow := .pausing a }
  | resumes (a : Nat) : w.follow = .pausing a →
      Follows w .goes { w with follow := .looking (a + 1), paused := w.paused ++ [c.delay a] }

theorem follows_of_step {w w' : World} {came : Came} (h : w.follows c came = some w') : Follows c w came w' := by
  unfold World.follows at h
  split at h
  · rename_i a hf
    cases h
    by_cases he : w.ending = true
    · rw [if_pos he]
      exact .quits a hf he
    · rw [if_neg he]
      exact .looks a hf (Bool.eq_false_iff.2 he)
  · rename_i a hf
    cases h
    exact .opened a hf
  · rename_i a why hf
    cases h
    exact .unopened a why hf
  · rename_i p r reached hf
    cases h
    by_cases he : w.ending = true
    · rw [if_pos he]
      exact .leaves p r reached hf he
    · rw [if_neg he]
      exact .asks p r reached hf (Bool.eq_false_iff.2 he)
  · rename_i p r reached hf
    split at h
    · rename_i hp
      cases h
      subst hp
      exact .answered r reached hf
    · exact nomatch h
  · rename_i p r reached why hf
    cases h
    exact .broken p r reached why hf
  · rename_i p r reached now hf
    cases h
    exact .arrived p r reached now hf
  · rename_i p r reached now why hf
    cases h
    exact .cut p r reached now why hf
  · rename_i p r reached now hf
    split at h
    · rename_i hnews
      cases h
      exact .news p r reached now hf hnews
    · rename_i hnews
      cases h
      simp only [not_or, Bool.not_eq_false, ne_eq, not_not] at hnews
      obtain ⟨rfl, rfl, hreachable⟩ := hnews
      exact .nothing p now hf hreachable
  · rename_i p now hf
    cases h
    exact .tells p now hf
  · rename_i a why hf
    cases h
    by_cases he : w.ending = true
    · rw [if_pos he]
      exact .stops a why hf he
    · rw [if_neg he]
      exact .loses a why hf (Bool.eq_false_iff.2 he)
  · rename_i a why hf
    split at h
    · rename_i hanew
      cases h
      exact .anew a why hf hanew
    · rename_i hknown
      cases h
      simp only [not_or, Bool.not_eq_true, ne_eq, not_not] at hknown
      exact .known a why hf hknown.1 hknown.2.1 hknown.2.2
  · rename_i a why hf
    cases h
    exact .tellsLost a why hf
  · rename_i a hf
    cases h
    exact .resumes a hf
  · exact nomatch h

theorem Follows.step {w w' : World} {came : Came} (h : Follows c w came w') : w.follows c came = some w' := by
  cases h with
  | looks a hf he => simp [World.follows, hf, he]
  | quits a hf he => simp [World.follows, hf, he]
  | opened a hf => simp [World.follows, hf]
  | unopened a why hf => simp [World.follows, hf]
  | asks p r reached hf he => simp [World.follows, hf, he]
  | leaves p r reached hf he => simp [World.follows, hf, he]
  | answered r reached hf => simp [World.follows, hf]
  | broken p r reached why hf => simp [World.follows, hf]
  | arrived p r reached now hf => simp [World.follows, hf]
  | cut p r reached now why hf => simp [World.follows, hf]
  | news p r reached now hf hnews => simp only [World.follows, hf, if_pos hnews]
  | nothing p r hf hreachable => simp [World.follows, hf, hreachable]
  | tells p now hf => simp [World.follows, hf]
  | loses a why hf he => simp [World.follows, hf, he]
  | stops a why hf he => simp [World.follows, hf, he]
  | anew a why hf hanew => simp only [World.follows, hf, if_pos hanew]
  | known a why hf htold hreachable hwhy => simp [World.follows, hf, htold, hreachable, hwhy]
  | tellsLost a why hf => simp [World.follows, hf]
  | resumes a hf => simp [World.follows, hf]

/-! ### What holds of the follow -/

namespace World

/-- A revision the process `process` has had, where it is the one that runs now. -/
def Had (w : World) (process revision : Nat) : Prop :=
  process ≤ w.process ∧ (process = w.process → revision ≤ w.board.revision)

/-- Said unreachable, and once at least, where it was tried before. -/
def Away (w : World) (tried : Prop) : Prop := w.state.reachable = false ∧ (tried → 0 < w.state.told)

/-- What the follow knows on a line. -/
def Knows (w : World) (process revision : Nat) (reached : Bool) : Prop :=
  w.Had process revision ∧ (if reached = true then w.state.revision = revision else w.state.reachable = false)

/-- What holds where the follow is. -/
def Fits (w : World) : Follow → Prop
  | .idle => w.state.reachable = false
  | .looking a | .opening a => w.Away (0 < a)
  | .holding p r reached | .asked p r reached => w.Knows p r reached
  | .answering p r reached now | .heard p r reached now => w.Knows p r reached ∧ w.Had p now
  | .telling p now => w.Had p now
  | .lost a _ | .deciding a _ | .tellingLost a _ => 0 < a → w.Away True
  | .pausing _ => w.Away True
  | .ended => w.ending = true

/-- What another thread may do to what the follow relies on: never say the node reachable, never go back. -/
structure Beside (w w' : World) : Prop where
  process : w.process ≤ w'.process
  board : w.process = w'.process → w.board.revision ≤ w'.board.revision
  revision : w'.state.revision = w.state.revision
  reachable : w'.state.reachable = true → w.state.reachable = true
  told : w.state.told ≤ w'.state.told
  ending : w.ending = true → w'.ending = true

variable {w w' : World}

theorem Beside.had (h : Beside w w') {p r : Nat} (hr : w.Had p r) : w'.Had p r := by
  refine ⟨hr.1.trans h.process, fun hp => ?_⟩
  have hsame : w.process = w'.process := by
    have := hr.1
    have := h.process
    omega
  exact (hr.2 (hp.trans hsame.symm)).trans (h.board hsame)

theorem Beside.unreachable (h : Beside w w') (hw : w.state.reachable = false) : w'.state.reachable = false := by
  cases hw' : w'.state.reachable with
  | false => rfl
  | true => rw [h.reachable hw'] at hw; exact nomatch hw

theorem Beside.away (h : Beside w w') {tried : Prop} (hw : w.Away tried) : w'.Away tried :=
  ⟨h.unreachable hw.1, fun htried => Nat.lt_of_lt_of_le (hw.2 htried) h.told⟩

theorem Beside.knows (h : Beside w w') {p r : Nat} {reached : Bool} (hw : w.Knows p r reached) :
    w'.Knows p r reached := by
  refine ⟨h.had hw.1, ?_⟩
  have hknown := hw.2
  split at hknown
  · rename_i hreached
    rw [if_pos hreached, h.revision]
    exact hknown
  · rename_i hreached
    rw [if_neg hreached]
    exact h.unreachable hknown

theorem Beside.fits (h : Beside w w') {f : Follow} (hw : w.Fits f) : w'.Fits f := by
  cases f with
  | idle => exact h.unreachable hw
  | looking a => exact h.away hw
  | opening a => exact h.away hw
  | holding p r reached => exact h.knows hw
  | asked p r reached => exact h.knows hw
  | answering p r reached now => exact ⟨h.knows hw.1, h.had hw.2⟩
  | heard p r reached now => exact ⟨h.knows hw.1, h.had hw.2⟩
  | telling p now => exact h.had hw
  | lost a why => exact fun ha => h.away (hw ha)
  | deciding a why => exact fun ha => h.away (hw ha)
  | tellingLost a why => exact fun ha => h.away (hw ha)
  | pausing a => exact h.away hw
  | ended => exact h.ending hw

end World

open World

variable {c} {w w' : World} {ok : World → Action → Prop}

theorem fits_of_follows {came : Came} (h : Follows c w came w') (hfits : w.Fits w.follow) : w'.Fits w'.follow := by
  cases h with
  | looks a hf he => rw [hf] at hfits; exact hfits
  | quits a hf he => exact he
  | opened a hf =>
    rw [hf] at hfits
    exact ⟨⟨Nat.le_refl _, fun _ => Nat.zero_le _⟩, hfits.1⟩
  | unopened a why hf =>
    rw [hf] at hfits
    exact fun ha => ⟨hfits.1, fun _ => hfits.2 ha⟩
  | asks p r reached hf he => rw [hf] at hfits; exact hfits
  | leaves p r reached hf he => exact fun h0 => absurd h0 (Nat.lt_irrefl 0)
  | answered r reached hf =>
    rw [hf] at hfits
    exact ⟨hfits, Nat.le_refl _, fun _ => Nat.le_refl _⟩
  | broken p r reached why hf => exact fun h0 => absurd h0 (Nat.lt_irrefl 0)
  | arrived p r reached now hf => rw [hf] at hfits; exact hfits
  | cut p r reached now why hf => exact fun h0 => absurd h0 (Nat.lt_irrefl 0)
  | news p r reached now hf hnews => rw [hf] at hfits; exact hfits.2
  | nothing p r hf hreachable => rw [hf] at hfits; exact hfits.1
  | tells p now hf =>
    rw [hf] at hfits
    exact ⟨hfits, rfl⟩
  | loses a why hf he => rw [hf] at hfits; exact hfits
  | stops a why hf he => exact he
  | anew a why hf hanew => rw [hf] at hfits; exact hfits
  | known a why hf htold hreachable hwhy => exact ⟨hreachable, fun _ => Nat.pos_of_ne_zero htold⟩
  | tellsLost a why hf => exact ⟨rfl, fun _ => Nat.succ_pos _⟩
  | resumes a hf =>
    rw [hf] at hfits
    exact ⟨hfits.1, fun _ => hfits.2 trivial⟩

/-- What the node, the followers and the calls do beside the follow. -/
inductive Aside (w : World) : Action → World → Prop where
  | posts (text : String) : Aside w (.post text) { w with board := w.board.post text }
  | restarts : Aside w .restart { w with process := w.process + 1, board := .default }
  | changes (a : Action) (ops : List Op) : Aside w a { w with ops }
  | starts (a : Action) (ops : List Op) : w.follow = .idle → Aside w a { w with ops, follow := .looking 0 }
  | tells (i : Nat) (why : String) (ops : List Op) : pick w.ops i = some (.tellingLost why, ops) →
      Aside w (.tell i) { w.tell ⟨false, why, w.state.revision⟩ with ops := ops ++ [.starting] }
  | ends : Aside w .ends { w with ending := true }

theorem aside_followed (a : Action) (ops : List Op) (spawned : Bool) :
    Aside w a { w.followed spawned with ops } := by
  unfold World.followed
  split
  · rename_i hidle
    exact .starts a ops hidle.1
  · exact .changes a ops

theorem aside_of_step {a : Action} (hs : w.step c a = some w') (hother : ∀ came, a ≠ .follow came) : Aside w a w' := by
  cases a with
  | post text => cases hs; exact .posts text
  | restart => cases hs; exact .restarts
  | wait seen spawned => cases hs; exact aside_followed _ _ spawned
  | woken i =>
    simp only [World.step] at hs
    split at hs
    · split at hs
      · cases hs
        exact .changes _ _
      · exact nomatch hs
    · exact nomatch hs
  | timedOut i =>
    simp only [World.step] at hs
    split at hs
    · cases hs
      exact .changes _ _
    · exact nomatch hs
  | ask =>
    simp only [World.step, Option.some.injEq] at hs
    subst hs
    split
    · exact .changes _ w.ops
    · exact .changes _ _
  | answered i =>
    simp only [World.step] at hs
    split at hs
    · cases hs
      exact .changes _ _
    · exact nomatch hs
  | unanswered i why =>
    simp only [World.step] at hs
    split at hs
    · cases hs
      exact .changes _ _
    · exact nomatch hs
  | tell i =>
    simp only [World.step] at hs
    split at hs
    · rename_i why ops hpick
      cases hs
      exact .tells i why ops hpick
    · exact nomatch hs
  | starts i spawned =>
    simp only [World.step] at hs
    split at hs
    · rename_i ops hpick
      cases hs
      unfold World.followed
      split
      · rename_i hidle
        exact .starts _ _ hidle.1
      · exact .changes _ _
    · exact nomatch hs
  | ends => cases hs; exact .ends
  | follow came => exact absurd rfl (hother came)

/-- It says the node reachable never, and never goes back. -/
theorem Aside.beside {a : Action} (h : Aside w a w') : Beside w w' := by
  cases h with
  | posts text => exact ⟨Nat.le_refl _, fun _ => w.board.le_post text, rfl, id, Nat.le_refl _, id⟩
  | restarts =>
    refine ⟨Nat.le_succ _, fun hp => ?_, rfl, id, Nat.le_refl _, id⟩
    exact absurd hp (Nat.ne_of_lt (Nat.lt_succ_self _))
  | changes a ops => exact ⟨Nat.le_refl _, fun _ => Nat.le_refl _, rfl, id, Nat.le_refl _, id⟩
  | starts a ops hidle => exact ⟨Nat.le_refl _, fun _ => Nat.le_refl _, rfl, id, Nat.le_refl _, id⟩
  | tells i why ops hpick =>
    exact ⟨Nat.le_refl _, fun _ => Nat.le_refl _, rfl, fun hr => (nomatch hr), Nat.le_succ _, id⟩
  | ends => exact ⟨Nat.le_refl _, fun _ => Nat.le_refl _, rfl, id, Nat.le_refl _, fun _ => rfl⟩

/-- A step is one of the follow, or one beside it. -/
theorem follows_or_aside {a : Action} (hs : w.step c a = some w') :
    (∃ came, a = .follow came ∧ Follows c w came w') ∨ Aside w a w' := by
  by_cases hother : ∀ came, a ≠ .follow came
  · exact .inr (aside_of_step hs hother)
  · simp only [ne_eq, not_forall, not_not] at hother
    obtain ⟨came, rfl⟩ := hother
    exact .inl ⟨came, rfl, follows_of_step c hs⟩

/-- Beside the follow, what fits it still does, where it is or is started. -/
theorem fits_of_aside {a : Action} (h : Aside w a w') (hfits : w.Fits w.follow) : w'.Fits w'.follow := by
  have hbeside := h.beside
  cases h with
  | posts text => exact hbeside.fits hfits
  | restarts => exact hbeside.fits hfits
  | changes a ops => exact hbeside.fits hfits
  | starts a ops hidle =>
    rw [hidle] at hfits
    exact ⟨hfits, fun h0 => absurd h0 (Nat.lt_irrefl 0)⟩
  | tells i why ops hpick => exact hbeside.fits hfits
  | ends => exact hbeside.fits hfits

theorem fits_of_reach (h : Reach (World.step c) ok Begins w) : w.Fits w.follow := by
  refine @Reach.invariant _ _ _ _ _ (fun w => w.Fits w.follow) ?_ (fun w a w' hfits _ hs => ?_) _ h
  · rintro w rfl
    rfl
  · rcases follows_or_aside hs with ⟨came, -, hfollows⟩ | haside
    · exact fits_of_follows hfollows hfits
    · exact fits_of_aside haside hfits

end Surface
