import Mathlib.Algebra.Ring.Nat
import Mathlib.Logic.Function.Basic
import XmipRuntime.Library.Halts
import XmipRuntime.Library.Later
import XmipRuntime.Library.Run

/-!
# The Messages that failed, listed

A Send Port's queue has an index of the Messages that failed in it in Xmip Storage, numbered as they were entered.  A
surface reads it a page at a time (`src/send_step/failed.rs`): from the first page on, each from the place the one before
it says, every entry is listed once and in order, and the pages end.  The node keeps the oldest of it
(`src/send_step/figures.rs`), read again only where the number the next entry gets, or how many there are, has changed:
an act that clears a failure changes how many there are, and one that enters another changes the number, so a window
that is not read again is what the index holds.
-/

namespace FailedIndex

open Library

/-! ### What Xmip Storage answers -/

structure FailedMessage where
  journey : Nat
  place : Nat
  reason : String
  deriving DecidableEq

/-- A queue's index: a number for each entry, in the order they were entered. -/
abbrev Index := Numbered FailedMessage

/-- What Xmip Storage answers a read with: the number the next entry gets, how many there are, and those found. -/
structure FailedQueue where
  next : Nat
  count : Nat
  failed : List (Nat × FailedMessage)

/-- `FailedMessage::of` an entry. -/
def FailedMessage.of (failed : Nat × FailedMessage) : FailedMessage := failed.2

/-- The reads of queues' indexes: answered, or why not. -/
abbrev Storage (κ : Type) := κ → Nat → Nat → Except String FailedQueue

/-- An index read from a place on. -/
def Storage.readFailed (index : Index) (start most : Nat) : FailedQueue :=
  ⟨index.next, index.items.length, index.readFrom start most⟩

/-- What of a node's send step lists failed Messages: the queue of each Send Port, and how many of the oldest are kept, as
`[tuning] failed_window` may say. -/
structure SendStep (κ : Type) where
  queue : String → κ
  window : Nat
  declared : 1 ≤ window ∧ window ≤ 10000

variable {κ : Type}

/-! ### Page by page -/

structure FailedPage where
  count : Nat
  messages : List FailedMessage
  next : Option Nat

namespace SendStep

def failedMessages (step : SendStep κ) (storage : Storage κ) (port : String) (start most : Nat) :
    Except String FailedPage :=
  match storage (step.queue port) start (max most 1) with
  | .error error => .error ("FAILED: Xmip Storage did not answer for " ++ port ++ "'s queue: " ++ error)
  | .ok read =>
    let full := decide (max most 1 ≤ read.failed.length)
    let next := (read.failed.getLast?.map fun last => last.1 + 1).filter fun next => full && decide (next < read.next)
    .ok ⟨read.count, read.failed.map FailedMessage.of, next⟩

/-- One page more for a surface that lists: the place it reads from and what it listed.  It ends at the last page, or
where a page is not answered. -/
def follow (step : SendStep κ) (storage : Storage κ) (port : String) (most : Nat) (at_ : Nat × List FailedMessage) :
    (Nat × List FailedMessage) ⊕ Except String (List FailedMessage) :=
  match step.failedMessages storage port at_.1 most with
  | .error why => .inr (.error why)
  | .ok page =>
    match page.next with
    | some next => .inl (next, at_.2 ++ page.messages)
    | none => .inr (.ok (at_.2 ++ page.messages))

variable {step : SendStep κ} {storage : Storage κ} {port : String} {index : Index} {start most : Nat}

/-- A page that says another begins after its last entry; one that does not is the last. -/
theorem failedMessages_cases
    (hreads : ∀ start most, storage (step.queue port) start most = .ok (Storage.readFailed index start most))
    (start most : Nat) :
    ∃ page, step.failedMessages storage port start most = .ok page ∧
      ((∃ next, page.next = some next ∧ start < next ∧ next < index.next ∧
          page.messages ++ (index.onFrom next).map FailedMessage.of = (index.onFrom start).map FailedMessage.of) ∨
        page.next = none ∧ page.messages = (index.onFrom start).map FailedMessage.of) := by
  unfold failedMessages
  rw [hreads]
  refine ⟨_, rfl, ?_⟩
  simp only [Storage.readFailed]
  generalize hm : max most 1 = m
  have hpos : 1 ≤ m := by omega
  cases hlast : (index.readFrom start m).getLast? with
  | none =>
    have hempty : index.readFrom start m = [] := List.getLast?_eq_none_iff.1 hlast
    refine .inr ⟨rfl, ?_⟩
    rw [Numbered.onFrom_of_lt (by rw [hempty]; exact hpos), hempty]
  | some last =>
    have hpage := Numbered.onFrom_page hlast
    have hstart := (Numbered.mem_readFrom (List.mem_of_getLast? hlast)).2
    rw [Option.map_some, Option.filter_some]
    split
    · rename_i hmore
      have hbound := of_decide_eq_true (Bool.and_eq_true_iff.1 hmore).2
      refine .inl ⟨_, rfl, by omega, hbound, ?_⟩
      rw [hpage, List.map_append]
    · rename_i hmore
      refine .inr ⟨rfl, ?_⟩
      rcases Bool.and_eq_false_iff.1 (Bool.not_eq_true _ ▸ hmore) with hshort | hend
      · rw [Numbered.onFrom_of_lt (Nat.lt_of_not_le (of_decide_eq_false hshort))]
      · rw [hpage, Numbered.onFrom_of_le (Nat.le_of_not_lt (of_decide_eq_false hend)), List.append_nil]

/-- Followed from the start, the pages list every entry once, in order, and end. -/
theorem follow_ends
    (hreads : ∀ start most, storage (step.queue port) start most = .ok (Storage.readFailed index start most)) :
    ∃ last, Comes (step.follow storage port most) (0, []) last (.ok (index.items.map FailedMessage.of)) := by
  let inv (at_ : Nat × List FailedMessage) : Prop :=
    at_.2 ++ (index.onFrom at_.1).map FailedMessage.of = index.items.map FailedMessage.of
  have hinit : inv (0, []) := by
    show [] ++ (index.onFrom 0).map FailedMessage.of = _
    rw [Numbered.onFrom_zero, List.nil_append]
  have hstep : ∀ s s', inv s → step.follow storage port most s = .inl s' →
      inv s' ∧ index.next - s'.1 < index.next - s.1 := by
    intro s s' hs h
    obtain ⟨page, hpage, ⟨next, hnext, hlt, hbound, hlists⟩ | ⟨hnext, -⟩⟩ :=
      failedMessages_cases hreads s.1 most
    · simp only [follow, hpage, hnext, Sum.inl.injEq] at h
      subst h
      refine ⟨?_, by dsimp only; omega⟩
      show (s.2 ++ page.messages) ++ _ = _
      rw [List.append_assoc, hlists]
      exact hs
    · simp only [follow, hpage, hnext] at h
      cases h
  obtain ⟨last, e, h⟩ := Comes.of_decreasing Nat.lt_wfRel.wf (fun s => index.next - s.1) hstep hinit
  obtain ⟨hinv, hend⟩ := h.invariant (fun s s' hs hn => (hstep s s' hs hn).1) hinit
  refine ⟨last, ?_⟩
  obtain ⟨page, hpage, ⟨next, hnext, -⟩ | ⟨hnext, hlists⟩⟩ :=
    failedMessages_cases hreads last.1 most
  · simp only [follow, hpage, hnext] at hend
    cases hend
  · simp only [follow, hpage, hnext, hlists, Sum.inr.injEq] at hend
    rw [show last.2 ++ (index.onFrom last.1).map FailedMessage.of = _ from hinv] at hend
    exact hend ▸ h

end SendStep

/-! ### The window kept -/

/-- What the node keeps of an index: how many there are, where the index stood as it was read, and the oldest. -/
structure Window where
  count : Nat
  readAt : Option (Nat × Nat)
  oldest : List FailedMessage
  deriving DecidableEq

structure State (κ : Type) where
  indexes : κ → Index
  failing : String → Option Window

/-- What any node does to an index: a Message that failed entered, its number the next or a later one, or one taken out. -/
inductive Change (κ : Type) where
  | fails (queue : κ) (skipped : Nat) (message : FailedMessage)
  | clears (queue : κ) (sequence : Nat)

/-- A change, or a call of `read_failed`: whether its first read is answered, what changes before its second, and whether
that is answered. -/
inductive Input (κ : Type) where
  | changes (change : Change κ)
  | reads (port : String) (afresh : Bool) (first : Bool) (between : List (Change κ)) (second : Bool)

namespace SendStep

/-- As many as a `u32` says. -/
def most (step : SendStep κ) : Nat := if step.window < 2 ^ 32 then step.window else 2 ^ 32 - 1

theorem most_eq (step : SendStep κ) : step.most = step.window := by
  have h := step.declared.2
  unfold most
  rw [if_pos (by omega)]

/-- What the node is to keep of an index. -/
def kept (step : SendStep κ) (index : Index) : Window :=
  ⟨index.items.length, some (index.next, index.items.length), (index.items.take step.window).map FailedMessage.of⟩

/-- Each window is what was to be kept of its queue's index as it once was. -/
def WasRead (step : SendStep κ) (s : State κ) : Prop :=
  ∀ port w, s.failing port = some w → ∃ was, w = step.kept was ∧ was.Later (s.indexes (step.queue port))

variable {step : SendStep κ} {s s' : State κ} {port : String}

theorem WasRead.later (h : step.WasRead s) (hfailing : s'.failing = s.failing)
    (hlater : ∀ queue, (s.indexes queue).Later (s'.indexes queue)) : step.WasRead s' := by
  intro port w hw
  rw [hfailing] at hw
  obtain ⟨was, hkept, hwas⟩ := h port w hw
  exact ⟨was, hkept, hwas.trans (hlater _)⟩

/-- A window read where the index stands as it does is what is to be kept of it. -/
theorem WasRead.window_eq (h : step.WasRead s) {w : Window} (hw : s.failing port = some w)
    (hat : w.readAt = some ((s.indexes (step.queue port)).next, (s.indexes (step.queue port)).items.length)) :
    w = step.kept (s.indexes (step.queue port)) := by
  obtain ⟨was, rfl, hwas⟩ := h port w hw
  simp only [kept, Option.some.injEq, Prod.mk.injEq] at hat
  have hitems := hwas.items_eq hat.1.symm hat.2.symm
  unfold kept
  rw [hitems, hat.1]

end SendStep

variable [DecidableEq κ]

def State.changed (s : State κ) : Change κ → State κ
  | .fails queue skipped message =>
    { s with indexes := Function.update s.indexes queue (((s.indexes queue).skip skipped).push message) }
  | .clears queue sequence =>
    { s with indexes := Function.update s.indexes queue ((s.indexes queue).filter fun x => x.1 ≠ sequence) }

/-- What changed, in order. -/
def State.goes (s : State κ) (changes : List (Change κ)) : State κ := changes.foldl State.changed s

namespace SendStep

/-- The state after, and whether Xmip Storage answered. -/
def readFailed (step : SendStep κ) (s : State κ) (port : String) (afresh first : Bool) (between : List (Change κ))
    (second : Bool) : State κ × Bool :=
  if !first then (s, false)
  else
    let places := Storage.readFailed (s.indexes (step.queue port)) 0 0
    let unchanged := (s.failing port).any fun w => w.readAt == some (places.next, places.count)
    if !afresh && unchanged then (s, true)
    else
      let s := s.goes between
      if !second then (s, false)
      else
        let read := Storage.readFailed (s.indexes (step.queue port)) 0 step.most
        let window : Window := ⟨read.count, some (read.next, read.count), read.failed.map FailedMessage.of⟩
        ({ s with failing := Function.update s.failing port (some window) }, true)

def next (step : SendStep κ) (s : State κ) : Input κ → Option (State κ)
  | .changes change => some (s.changed change)
  | .reads port afresh first between second => some (step.readFailed s port afresh first between second).1

/-- No window yet, and anything in the indexes. -/
def Begins (s : State κ) : Prop := ∀ port, s.failing port = none

variable {step : SendStep κ} {s : State κ}

/-- Whatever changes, an index is later than it was. -/
theorem later_changed (change : Change κ) (queue : κ) : (s.indexes queue).Later ((s.changed change).indexes queue) := by
  cases change with
  | fails queue' skipped message =>
    show Numbered.Later _ (Function.update s.indexes queue' _ queue)
    by_cases h : queue = queue'
    · subst h
      rw [Function.update_self]
      exact (Numbered.later_skip _ _).trans (Numbered.later_push _ _)
    · rw [Function.update_of_ne h]
      exact .refl _
  | clears queue' sequence =>
    show Numbered.Later _ (Function.update s.indexes queue' _ queue)
    by_cases h : queue = queue'
    · subst h
      rw [Function.update_self]
      exact Numbered.later_filter _ _
    · rw [Function.update_of_ne h]
      exact .refl _

theorem later_goes (changes : List (Change κ)) (queue : κ) :
    (s.indexes queue).Later ((s.goes changes).indexes queue) := by
  induction changes generalizing s with
  | nil => exact .refl _
  | cons change changes ih => exact (later_changed change queue).trans ih

theorem failing_goes (changes : List (Change κ)) : (s.goes changes).failing = s.failing := by
  induction changes generalizing s with
  | nil => rfl
  | cons change changes ih =>
    have hchange : (s.changed change).failing = s.failing := by cases change <;> rfl
    exact ih.trans hchange

/-- What a call does: it is not answered, and keeps the windows; or the window is what is to be kept of the index, as it
was or read again. -/
theorem readFailed_cases (port : String) (afresh first : Bool) (between : List (Change κ)) (second : Bool)
    (h : step.WasRead s) : ∃ t answered,
    step.readFailed s port afresh first between second = (t, answered) ∧ step.WasRead t ∧
      (answered = true → t.failing port = some (step.kept (t.indexes (step.queue port)))) := by
  unfold readFailed
  have hgoes : step.WasRead (s.goes between) := h.later (failing_goes between) fun queue => later_goes between queue
  split
  · exact ⟨s, false, rfl, h, nofun⟩
  dsimp only
  split
  · -- The window read where the index stands as it does now.
    rename_i hskip
    refine ⟨s, true, rfl, h, fun _ => ?_⟩
    rw [Bool.and_eq_true, Option.any_eq_true] at hskip
    obtain ⟨-, w, hw, hat⟩ := hskip
    rw [hw, h.window_eq hw (beq_iff_eq.1 hat)]
  split
  · exact ⟨_, false, rfl, hgoes, nofun⟩
  · refine ⟨_, true, rfl, ?_, ?_⟩
    · intro port' w hw
      dsimp only at hw
      by_cases hport : port' = port
      · subst hport
        rw [Function.update_self] at hw
        cases hw
        refine ⟨_, ?_, .refl _⟩
        simp only [kept, Storage.readFailed, Numbered.readFrom_zero, most_eq]
      · rw [Function.update_of_ne hport] at hw
        exact hgoes port' w hw
    · rintro -
      simp only [kept, Storage.readFailed, Numbered.readFrom_zero, most_eq, Function.update_self]

theorem reach_wasRead (h : Reach step.next Always Begins s) : step.WasRead s := by
  refine h.invariant ?_ ?_
  · intro s hs port w hw
    rw [hs port] at hw
    cases hw
  · rintro s a s' hinv - hs
    cases a with
    | changes change =>
      cases hs
      exact hinv.later (failing_goes [change]) fun queue => later_changed change queue
    | reads port afresh first between second =>
      obtain ⟨t, answered, ht, hread, -⟩ := readFailed_cases port afresh first between second hinv
      cases hs
      rw [ht]
      exact hread

end SendStep

/-- What failed is listed exactly: the pages of an index, each read from where the one before it says, list every entry
once, in order, and end; and after a call of `read_failed` that is answered, whatever failed and was cleared before it,
the window is the oldest of the index as it is, and how many there are. -/
theorem failed_listed (step : SendStep κ) :
    (∀ (storage : Storage κ) (port : String) (index : Index) (most : Nat),
      (∀ start most, storage (step.queue port) start most = .ok (Storage.readFailed index start most)) →
      ∃ last, Comes (step.follow storage port most) (0, []) last (.ok (index.items.map FailedMessage.of))) ∧
    ∀ s, Reach step.next Always SendStep.Begins s → ∀ port afresh first between second s',
      step.readFailed s port afresh first between second = (s', true) →
      ∃ window, s'.failing port = some window ∧
        window.oldest = ((s'.indexes (step.queue port)).items.take step.window).map FailedMessage.of ∧
        window.count = (s'.indexes (step.queue port)).items.length := by
  refine ⟨fun storage port index most hreads => SendStep.follow_ends hreads, ?_⟩
  intro s hs port afresh first between second s' h
  obtain ⟨t, answered, ht, -, hkept⟩ := SendStep.readFailed_cases port afresh first between second
    (SendStep.reach_wasRead hs)
  rw [h] at ht
  cases ht
  exact ⟨_, hkept rfl, rfl, rfl⟩

section Instance

/-- A node that keeps the two oldest of each Port's queue. -/
private def keepsTwo : SendStep String := ⟨fun port => "xmip:///c/send-port/" ++ port, 2, by decide⟩

private def refused (journey : Nat) : FailedMessage := ⟨journey, journey, "refused"⟩

/-- An index three Messages failed in, one of which was dismissed. -/
private def threeFailed : Index :=
  (((Numbered.empty.push (refused 7)).push (refused 8)).push (refused 9)).filter fun x => x.1 ≠ 1

private def answers : Storage String := fun _ start most => .ok (Storage.readFailed threeFailed start most)

private def fresh : State String := ⟨fun _ => threeFailed, fun _ => none⟩

/-- Read, and then the first retried. -/
private def retried : State String :=
  (keepsTwo.readFailed fresh "orders" false true [] true).1.changed (.clears (keepsTwo.queue "orders") 0)

private theorem retried_reached : Reach keepsTwo.next Always SendStep.Begins retried :=
  .next (.next (s := fresh) (a := .reads "orders" false true [] true) (.start fun _ => rfl) trivial rfl)
    (a := .changes (.clears (keepsTwo.queue "orders") 0)) trivial rfl

theorem threeFailed_listed :
    (∃ last, Comes (keepsTwo.follow answers "orders" 1) (0, []) last (.ok [refused 7, refused 9])) ∧
      ∃ window, (keepsTwo.readFailed retried "orders" false true [] true).1.failing "orders" = some window ∧
        window.oldest = [refused 9] ∧ window.count = 1 :=
  ⟨(failed_listed keepsTwo).1 answers "orders" threeFailed 1 fun _ _ => rfl,
    (failed_listed keepsTwo).2 retried retried_reached "orders" false true [] true _ rfl⟩

end Instance

end FailedIndex
