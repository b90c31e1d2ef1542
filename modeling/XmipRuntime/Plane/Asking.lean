import XmipRuntime.Library.Run
import XmipRuntime.Plane.Following

/-!
# A surface's calls

Every call a surface makes goes out on its asking line, under the lock that holds the line (`src/plane/remote/asking.rs`):
on the line held first, and once more on a fresh one where that line was lost before a call's patience passed.  A line
that answered, or on which the node refused, is held for the next call; one that lost a call is let go of.  What the
call came to is said to the caller, and a node that did not answer to every follower (`src/plane/remote.rs`).

The lock makes a call one step.  What the lines answer, whether a fresh one opens and whether the patience has passed are
the outside's.  Every request put on a line is written down, with what came of it; nothing reads it.
-/

namespace Surface

open Library

/-- What every refusal of a call by the node opens with. -/
def refusedCall : String := "the node refused the call"

/-- What came of a request put on a line: the node's answer, or why there was none. -/
inductive Reply where
  | answered
  | failed (why : String)
  deriving DecidableEq

/-- Whether the node refused the call, by what its refusals open with. -/
def refuses (why : String) : Bool := refusedCall.toList.isPrefixOf why.toList

/-- No answer, and no refusal: the line is lost. -/
def Reply.lost : Reply → Bool
  | .answered => false
  | .failed why => !refuses why

/-- A request put on a line for a call. -/
structure Sent where
  call : Nat
  line : Nat
  reply : Reply
  deriving DecidableEq

structure Lines where
  /-- The asking line. -/
  held : Option Nat
  /-- How many lines were opened, and how many calls were made. -/
  opened : Nat
  calls : Nat
  sent : List Sent
  deriving DecidableEq

def Lines.Begins (s : Lines) : Prop := s = ⟨none, 0, 0, []⟩

/-- What the outside makes of one call: of the request on the line held, whether the patience has passed by then, of a
fresh line and of the request on it, and whether the deadline fired or the patience has passed by the call's end. -/
structure Outcome where
  first : Reply
  silent : Bool
  fresh : Except String Unit
  second : Reply
  late : Bool

namespace Lines

/-- A request of the call being made put on `line`. -/
def put (s : Lines) (line : Nat) (reply : Reply) : Lines := { s with sent := s.sent ++ [⟨s.calls, line, reply⟩] }

/-- The call on a fresh line: an error with whether the node was lost, and why. -/
def callingFresh (s : Lines) (o : Outcome) : Except (Bool × String) Unit × Lines :=
  match o.fresh with
  | .error why => (.error (true, why), s)
  | .ok () =>
    let line := s.opened
    let s := { s with opened := s.opened + 1 }.put line o.second
    match o.second with
    | .answered => (.ok (), { s with held := some line })
    | .failed why =>
      if refuses why then (.error (false, why), { s with held := some line }) else (.error (true, why), s)

/-- The call itself. -/
def calling (s : Lines) (o : Outcome) : Except (Bool × String) Unit × Lines :=
  match s.held with
  | some line =>
    let s := s.put line o.first
    match o.first with
    | .answered => (.ok (), s)
    | .failed why =>
      if refuses why then (.error (false, why), s)
      -- Silent for as long as a call waits: not tried again.
      else if o.silent then (.error (true, why), { s with held := none })
      else { s with held := none }.callingFresh o
  | none => s.callingFresh o

/-- A node that took longer than `patience` milliseconds, in one sentence. -/
def notAnswered (patience : Nat) : String :=
  "the node did not answer within " ++
    if patience % 1000 = 0 then toString (patience / 1000) ++ " s" else toString patience ++ " ms"

/-- The call, bounded by the surface's patience, made. -/
def called (patience : Nat) (s : Lines) (o : Outcome) : Except (Bool × String) Unit × Lines :=
  let (came, s) := s.calling o
  let s := { s with calls := s.calls + 1 }
  match came with
  | .ok () => (.ok (), s)
  | .error (lost, why) => (.error (if lost && o.late then (true, notAnswered patience) else (lost, why)), s)

/-- What a call of `w`'s surface comes to: refused at once while the node is lost, else made; with why, where every
follower is to be told. -/
def askedFor (c : Settings) (w : World) (patience : Nat) (s : Lines) (o : Outcome) :
    Except String Unit × Option String × Lines :=
  match w.refusal c with
  | some refused => (.error refused, none, s)
  | none =>
    match s.called patience o with
    | (.ok (), s) => (.ok (), none, s)
    | (.error (false, why), s) => (.error why, none, s)
    | (.error (true, why), s) => (.error (c.address ++ " unreachable: " ++ why), some why, s)

/-- What the surface's threads do for a call that was not refused at once, numbered `n` among what is under way. -/
def beside (n : Nat) (spawned : Bool) : Option String → List Action
  | none => [.answered n]
  | some why => [.unanswered n why, .tell n, .starts n spawned]

/-- A call made is told of as the surface's threads tell it: nothing where the node answered or refused, and otherwise
why, and the follow started. -/
theorem run_of_askedFor {c : Settings} {w : World} {patience : Nat} {s s' : Lines} {o : Outcome}
    {came : Except String Unit} {told : Option String} (spawned : Bool) (hrefusal : w.refusal c = none)
    (hasked : askedFor c w patience s o = (came, told, s')) :
    ∃ w', runWhere (World.step c) Always w (.ask :: beside w.ops.length spawned told) = some w' ∧ w'.ops = w.ops ∧
      w'.log = w.log ++ (told.toList.map fun why => ⟨false, why, w.state.revision⟩) ∧
      (came = .ok () → told = none) := by
  have hask : w.step c .ask = some { w with ops := w.ops ++ [.asking] } := by
    rw [World.step, hrefusal]
    rfl
  have hcame : came = .ok () → told = none := by
    rintro rfl
    rw [askedFor, hrefusal] at hasked
    dsimp only at hasked
    split at hasked
    · exact (Prod.mk.inj (Prod.mk.inj hasked).2).1.symm
    · cases (Prod.mk.inj hasked).1
    · cases (Prod.mk.inj hasked).1
  cases told with
  | none =>
    refine ⟨w, runWhere_cons_iff.2 ⟨trivial, _, hask, runWhere_cons_iff.2 ⟨trivial, w, ?_, rfl⟩⟩, rfl, ?_, hcame⟩
    · rw [World.step, pick_concat]
    · rw [Option.toList_none, List.map_nil, List.append_nil]
  | some why =>
    have hlost : World.step c { w with ops := w.ops ++ [Op.asking] } (.unanswered w.ops.length why) =
        some { w with ops := w.ops ++ [Op.tellingLost why] } := by
      rw [World.step, pick_concat]
    have htell : World.step c { w with ops := w.ops ++ [Op.tellingLost why] } (.tell w.ops.length) =
        some { w.tell ⟨false, why, w.state.revision⟩ with ops := w.ops ++ [Op.starting] } := by
      rw [World.step, pick_concat]
      rfl
    have hstart : World.step c { w.tell ⟨false, why, w.state.revision⟩ with ops := w.ops ++ [Op.starting] }
        (.starts w.ops.length spawned) =
        some (World.followed { w.tell ⟨false, why, w.state.revision⟩ with ops := w.ops } spawned) := by
      rw [World.step, pick_concat]
    refine ⟨_, runWhere_cons_iff.2 ⟨trivial, _, hask, runWhere_cons_iff.2 ⟨trivial, _, hlost,
      runWhere_cons_iff.2 ⟨trivial, _, htell, runWhere_cons_iff.2 ⟨trivial, _, hstart, rfl⟩⟩⟩⟩, ?_, ?_, hcame⟩
    · unfold World.followed
      split <;> rfl
    · unfold World.followed
      split <;> rfl

/-! ### What a call does to the lines -/

/-- The line a request on a fresh one leaves held. -/
def after (line : Nat) (reply : Reply) : Option Nat := if reply.lost then none else some line

/-- What a call puts on which line, and the line it leaves held. -/
inductive Calls (s : Lines) (o : Outcome) : Lines → Prop where
  | kept (line : Nat) : s.held = some line → o.first.lost = false → Calls s o (s.put line o.first)
  | lost (line : Nat) : s.held = some line → o.first.lost = true →
      Calls s o { s.put line o.first with held := none }
  | unopened : s.held = none → Calls s o s
  | fresh : s.held = none →
      Calls s o { { s with opened := s.opened + 1 }.put s.opened o.second with held := after s.opened o.second }
  | again (line : Nat) : s.held = some line → o.first.lost = true →
      Calls s o { { s.put line o.first with opened := s.opened + 1 }.put s.opened o.second with
        held := after s.opened o.second }

theorem callingFresh_eq (s : Lines) (o : Outcome) (hheld : s.held = none) :
    (s.callingFresh o).2 = s ∨ (s.callingFresh o).2 =
      { { s with opened := s.opened + 1 }.put s.opened o.second with held := after s.opened o.second } := by
  unfold callingFresh after
  cases o.fresh with
  | error why => exact .inl rfl
  | ok u =>
    refine .inr ?_
    cases o.second with
    | answered => rfl
    | failed why =>
      by_cases hrefuses : refuses why = true
      · simp [Reply.lost, hrefuses]
      · simp [Reply.lost, hrefuses, put, hheld]

theorem calls_of_calling (s : Lines) (o : Outcome) : Calls s o (s.calling o).2 := by
  unfold calling
  cases hheld : s.held with
  | none =>
    rcases callingFresh_eq s o hheld with heq | heq
    · rw [heq]
      exact .unopened hheld
    · rw [heq]
      exact .fresh hheld
  | some line =>
    dsimp only
    cases hfirst : o.first with
    | answered =>
      have hkept : Calls s o (s.put line o.first) := .kept line hheld (by rw [hfirst]; rfl)
      rw [hfirst] at hkept
      exact hkept
    | failed why =>
      dsimp only
      by_cases hrefuses : refuses why = true
      · have hkept : Calls s o (s.put line o.first) := .kept line hheld (by simp [hfirst, Reply.lost, hrefuses])
        rw [hfirst] at hkept
        rw [if_pos hrefuses]
        exact hkept
      · have hlost : o.first.lost = true := by simp [hfirst, Reply.lost, hrefuses]
        have hgone : Calls s o { s.put line o.first with held := none } := .lost line hheld hlost
        have hagain := Calls.again line hheld hlost
        rw [hfirst] at hgone hagain
        rw [if_neg hrefuses]
        split
        · exact hgone
        · rcases callingFresh_eq { s.put line (.failed why) with held := none } o rfl with heq | heq
          · rw [heq]
            exact hgone
          · rw [heq]
            exact hagain

/-! ### Over every run of calls -/

def step (patience : Nat) (s : Lines) (o : Outcome) : Option Lines := some (s.called patience o).2

/-- Of two requests in order: on one line, the first was not lost; of one call, it was, and the other is on another
line. -/
def Apart (a b : Sent) : Prop :=
  (a.line = b.line → a.reply.lost = false) ∧ (a.call = b.call → a.reply.lost = true ∧ a.line ≠ b.line)

/-- A request of a call that put one before is the first on its line. -/
def Fresh (sent : List Sent) : Prop :=
  ∀ before b after, sent = before ++ b :: after → (∃ a ∈ before, a.call = b.call) → ∀ a ∈ before, a.line ≠ b.line

/-- The requests of a call. -/
def requestsOf (s : Lines) (call : Nat) : Nat := s.sent.countP fun one => decide (one.call = call)

structure Sound (s : Lines) : Prop where
  lines : ∀ one ∈ s.sent, one.line < s.opened
  calls : ∀ one ∈ s.sent, one.call < s.calls
  held : ∀ line, s.held = some line → line < s.opened ∧ ∀ one ∈ s.sent, one.line = line → one.reply.lost = false
  apart : s.sent.Pairwise Apart
  fresh : Fresh s.sent
  twice : ∀ call, s.requestsOf call ≤ 2

variable {s s' : Lines}

theorem Sound.requestsOf_calls (h : s.Sound) : s.requestsOf s.calls = 0 := by
  rw [requestsOf, List.countP_eq_zero]
  intro one hone
  have := h.calls one hone
  simp only [decide_eq_true_eq]
  omega

/-- What a call adds keeps requests apart, where what it adds is on lines no request was lost on. -/
private theorem apart_append {added : List Sent} (h : s.Sound) (hadded : added.Pairwise Apart)
    (hcall : ∀ b ∈ added, b.call = s.calls)
    (hline : ∀ b ∈ added, ∀ a ∈ s.sent, a.line = b.line → a.reply.lost = false) :
    (s.sent ++ added).Pairwise Apart := by
  refine List.pairwise_append.2 ⟨h.apart, hadded, fun a ha b hb => ⟨hline b hb a ha, fun heq => ?_⟩⟩
  have hlt := h.calls a ha
  rw [heq, hcall b hb] at hlt
  exact absurd hlt (Nat.lt_irrefl _)

/-- What a call adds leaves a second request the first on its line, where it is so among what is added. -/
private theorem fresh_append {added : List Sent} (h : s.Sound)
    (hadded : ∀ before b after, added = before ++ b :: after → (∃ a ∈ s.sent ++ before, a.call = b.call) →
      ∀ a ∈ s.sent ++ before, a.line ≠ b.line) : Fresh (s.sent ++ added) := by
  intro before b after heq hagain
  rcases List.append_eq_append_iff.1 heq with ⟨new, rfl, hnew⟩ | ⟨old, hold, hnew⟩
  · exact hadded new b after hnew hagain
  · cases old with
    | nil =>
      rw [List.append_nil] at hold
      subst hold
      have hfirst := hadded [] b after hnew.symm
      rw [List.append_nil] at hfirst
      exact hfirst hagain
    | cons one old =>
      obtain ⟨rfl, -⟩ := List.cons.inj hnew
      exact h.fresh before b old hold hagain

/-- The first request of a call has none of it before. -/
private theorem fresh_one (h : s.Sound) (line : Nat) (reply : Reply) (before : List Sent) (b : Sent) (after : List Sent)
    (heq : [⟨s.calls, line, reply⟩] = before ++ b :: after) (hagain : ∃ a ∈ s.sent ++ before, a.call = b.call) :
    ∀ a ∈ s.sent ++ before, a.line ≠ b.line := by
  cases before with
  | nil =>
    obtain ⟨rfl, -⟩ := List.cons.inj heq
    obtain ⟨a, ha, hcall⟩ := hagain
    rw [List.append_nil] at ha
    exact absurd hcall (Nat.ne_of_lt (h.calls a ha))
  | cons one before =>
    have hlength := congrArg List.length heq
    simp at hlength

private theorem twice_append {added : List Sent} (h : s.Sound) (hadded : added.length ≤ 2)
    (hcall : ∀ b ∈ added, b.call = s.calls) (call : Nat) :
    (s.sent ++ added).countP (fun one => decide (one.call = call)) ≤ 2 := by
  rw [List.countP_append]
  by_cases heq : call = s.calls
  · have hnone : s.sent.countP (fun one => decide (one.call = call)) = 0 := heq ▸ h.requestsOf_calls
    have hle : added.countP (fun one => decide (one.call = call)) ≤ added.length := List.countP_le_length
    omega
  · have hnone : added.countP (fun one => decide (one.call = call)) = 0 := by
      rw [List.countP_eq_zero]
      intro b hb
      rw [hcall b hb, decide_eq_true_eq]
      exact Ne.symm heq
    have hle : s.sent.countP (fun one => decide (one.call = call)) ≤ 2 := h.twice call
    omega

/-- A line not opened yet has no request on it. -/
private theorem fresh_line (h : s.Sound) {a : Sent} (ha : a ∈ s.sent) : a.line ≠ s.opened := by
  have := h.lines a ha
  omega

private theorem sound_of_added (held : Option Nat) (opened : Nat) (added : List Sent) (h : s.Sound)
    (hopened : s.opened ≤ opened) (hlength : added.length ≤ 2) (hadded : added.Pairwise Apart)
    (hcall : ∀ b ∈ added, b.call = s.calls) (hline : ∀ b ∈ added, b.line < opened)
    (hunlost : ∀ b ∈ added, ∀ a ∈ s.sent, a.line = b.line → a.reply.lost = false)
    (hfresh : ∀ before b after, added = before ++ b :: after → (∃ a ∈ s.sent ++ before, a.call = b.call) →
      ∀ a ∈ s.sent ++ before, a.line ≠ b.line)
    (hheld : ∀ line, held = some line →
      line < opened ∧ ∀ one ∈ s.sent ++ added, one.line = line → one.reply.lost = false) :
    Sound ⟨held, opened, s.calls + 1, s.sent ++ added⟩ where
  lines one hone := by
    rcases List.mem_append.1 hone with hone | hone
    · exact Nat.lt_of_lt_of_le (h.lines one hone) hopened
    · exact hline one hone
  calls one hone := by
    rcases List.mem_append.1 hone with hone | hone
    · exact Nat.lt_succ_of_lt (h.calls one hone)
    · rw [hcall one hone]
      exact Nat.lt_succ_self _
  held := hheld
  apart := apart_append h hadded hcall hunlost
  fresh := fresh_append h hfresh
  twice call := twice_append h hlength hcall call

/-- The line a fresh one leaves held has no lost request on it. -/
private theorem after_unlost (h : s.Sound) (before : List Sent) (hbefore : ∀ a ∈ before, a.line ≠ s.opened)
    {reply : Reply} {line : Nat} (hheld : after s.opened reply = some line) :
    line < s.opened + 1 ∧ ∀ one ∈ s.sent ++ (before ++ [⟨s.calls, s.opened, reply⟩]), one.line = line →
      one.reply.lost = false := by
  unfold after at hheld
  split at hheld
  · exact nomatch hheld
  · rename_i hlost
    cases hheld
    refine ⟨Nat.lt_succ_self _, fun one hone hline => ?_⟩
    rcases List.mem_append.1 hone with hone | hone
    · exact absurd hline (fresh_line h hone)
    · rcases List.mem_append.1 hone with hone | hone
      · exact absurd hline (hbefore one hone)
      · rw [List.mem_singleton.1 hone]
        exact Bool.eq_false_iff.2 hlost

theorem Sound.calls_step {o : Outcome} (h : s.Sound) (hs : Calls s o s') : Sound { s' with calls := s'.calls + 1 } := by
  have hone (line : Nat) (reply : Reply) : ([⟨s.calls, line, reply⟩] : List Sent).Pairwise Apart :=
    List.pairwise_singleton _ _
  cases hs with
  | kept line hheld hfirst =>
    obtain ⟨hlt, hunlost⟩ := h.held line hheld
    refine sound_of_added s.held s.opened [⟨s.calls, line, o.first⟩] h (Nat.le_refl _) (by simp) (hone line o.first)
      (by simp) (by simpa using hlt) (by simpa using hunlost) (fresh_one h line o.first) fun line' hheld' => ?_
    have heq : line = line' := Option.some.inj (hheld.symm.trans hheld')
    subst heq
    refine ⟨hlt, fun one hmem hline => ?_⟩
    rcases List.mem_append.1 hmem with hmem | hmem
    · exact hunlost one hmem hline
    · rw [List.mem_singleton.1 hmem]
      exact hfirst
  | lost line hheld hfirst =>
    obtain ⟨hlt, hunlost⟩ := h.held line hheld
    exact sound_of_added none s.opened [⟨s.calls, line, o.first⟩] h (Nat.le_refl _) (by simp) (hone line o.first)
      (by simp) (by simpa using hlt) (by simpa using hunlost) (fresh_one h line o.first) fun line' hheld' => nomatch hheld'
  | unopened hheld =>
    have hsame := sound_of_added s.held s.opened [] h (Nat.le_refl _) (by simp) List.Pairwise.nil (by simp) (by simp)
      (by simp) (by simp) fun line' hheld' => by rw [hheld] at hheld'; exact nomatch hheld'
    rw [List.append_nil] at hsame
    exact hsame
  | fresh hheld =>
    refine sound_of_added (after s.opened o.second) (s.opened + 1) [⟨s.calls, s.opened, o.second⟩] h (Nat.le_succ _)
      (by simp) (hone s.opened o.second) (by simp) (by simp) ?_ (fresh_one h s.opened o.second) ?_
    · intro b hb a ha hline
      rw [List.mem_singleton.1 hb] at hline
      exact absurd hline (fresh_line h ha)
    · exact fun line hafter => after_unlost h [] (by simp) hafter
  | again line hheld hfirst =>
    obtain ⟨hlt, hunlost⟩ := h.held line hheld
    have hne : line ≠ s.opened := Nat.ne_of_lt hlt
    have hadded : ([⟨s.calls, line, o.first⟩, ⟨s.calls, s.opened, o.second⟩] : List Sent).Pairwise Apart := by
      refine List.pairwise_pair.2 ⟨fun heq => absurd heq hne, fun _ => ⟨hfirst, hne⟩⟩
    have hsound := sound_of_added (after s.opened o.second) (s.opened + 1)
      [⟨s.calls, line, o.first⟩, ⟨s.calls, s.opened, o.second⟩] h (Nat.le_succ _) (by simp) hadded (by simp)
      (by simpa using Nat.lt_succ_of_lt hlt) ?_ ?_
      fun line' hafter => after_unlost h [⟨s.calls, line, o.first⟩] (by simpa using hne) hafter
    · have happend : s.sent ++ [⟨s.calls, line, o.first⟩, ⟨s.calls, s.opened, o.second⟩] =
          s.sent ++ [⟨s.calls, line, o.first⟩] ++ [⟨s.calls, s.opened, o.second⟩] := by simp
      rw [happend] at hsound
      exact hsound
    · intro b hb a ha hline
      rcases List.mem_pair.1 hb with rfl | rfl
      · exact hunlost a ha hline
      · exact absurd hline (fresh_line h ha)
    · intro before b after heq hagain a ha
      cases before with
      | nil =>
        obtain ⟨rfl, -⟩ := List.cons.inj heq
        exact fresh_one h line o.first [] _ [] rfl hagain a ha
      | cons one before =>
        obtain ⟨rfl, htail⟩ := List.cons.inj heq
        -- The second of the call: its line was opened for it.
        cases before with
        | nil =>
          obtain ⟨rfl, -⟩ := List.cons.inj htail
          rcases List.mem_append.1 ha with ha | ha
          · exact fresh_line h ha
          · rw [List.mem_singleton.1 ha]
            exact hne
        | cons two before =>
          have hlength := congrArg List.length htail
          simp at hlength

theorem called_lines (patience : Nat) (s : Lines) (o : Outcome) :
    (s.called patience o).2 = { (s.calling o).2 with calls := (s.calling o).2.calls + 1 } := by
  unfold called
  cases s.calling o with
  | mk came s =>
    cases came with
    | ok u => rfl
    | error lost => rfl

/-- Over every run of calls on a surface: a line that lost a request carries no other after it, so what is read on a line
answers the request last put on it; and a call is put on a line at most twice, the second time on a fresh one, which
carried no request before, and only where the first was lost with its line. -/
theorem asked_once {patience : Nat} (h : Reach (step patience) Always Begins s) :
    s.sent.Pairwise Apart ∧ Fresh s.sent ∧ ∀ call, s.requestsOf call ≤ 2 := by
  have hsound : s.Sound := by
    refine h.invariant ?_ fun s o s' hsound _ hs => ?_
    · rintro s rfl
      exact ⟨by simp, by simp, by simp, List.Pairwise.nil, by simp [Fresh], by simp [requestsOf]⟩
    · cases hs
      rw [called_lines]
      exact hsound.calls_step (calls_of_calling s o)
  exact ⟨hsound.apart, hsound.fresh, hsound.twice⟩

/-- A line opened, lost with the second call and replaced; the third call refused on the line that replaced it. -/
theorem asked_once_again : ∃ s, Reach (step 5000) Always Begins s ∧
    s.sent = [⟨0, 0, .answered⟩, ⟨1, 0, .failed "reset"⟩, ⟨1, 1, .answered⟩,
      ⟨2, 1, .failed "the node refused the call (7): no"⟩] ∧ s.requestsOf 1 ≤ 2 := by
  obtain ⟨s, hreach, hs⟩ := Reach.exists_of_runWhere (step 5000) Always (show Begins _ from rfl)
    [⟨.answered, false, .ok (), .answered, false⟩, ⟨.failed "reset", false, .ok (), .answered, false⟩,
      ⟨.failed "the node refused the call (7): no", false, .ok (), .answered, false⟩]
    (fun s => decide (s.sent = [⟨0, 0, .answered⟩, ⟨1, 0, .failed "reset"⟩, ⟨1, 1, .answered⟩,
      ⟨2, 1, .failed "the node refused the call (7): no"⟩])) (by decide +kernel)
  exact ⟨s, hreach, of_decide_eq_true hs, (asked_once hreach).2.2 1⟩

end Lines

end Surface
