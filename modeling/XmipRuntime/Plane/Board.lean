import XmipRuntime.Library.Pick
import XmipRuntime.Library.Run
import XmipRuntime.Library.Versions

/-!
# What a listener answers from

The program running a node posts each publication to a board as it writes it, and the node's operate listener answers
reads and waits from there (`src/plane/board.rs`).  A post holds the lock on the text while it compares, writes and raises
the revision; a read holds it while it reads both; a wait looks at the revision alone, which `xcore::wake::Revision`
keeps and wakes.  So a step is one post up to the revision raised, the raise, one read, or a wait begun or answered.

What was posted and what was answered is written down beside the board as it happens, for the results to speak of; no
step reads it.
-/

namespace Surface

open Library

/-! ### The board -/

/-- The text posted last, and the revision that numbers it. -/
structure Board where
  text : String
  revision : Nat
  deriving DecidableEq

namespace Board

/-- Nothing published yet. -/
def default : Board := ⟨"", 0⟩

/-- Whether `text` says nothing new. -/
def same (b : Board) (text : String) : Bool := decide (b.revision ≠ 0) && decide (b.text = text)

/-- `text` posted: a new revision where it differs from the last. -/
def post (b : Board) (text : String) : Board := if b.same text then b else ⟨text, b.revision + 1⟩

/-- The revision never goes back. -/
theorem le_post (b : Board) (text : String) : b.revision ≤ (b.post text).revision := by
  unfold post
  split
  · exact Nat.le_refl _
  · exact Nat.le_succ _

end Board

/-! ### Posts, reads and waits of any number of threads -/

/-- What was answered: a read's revision and text, or the revision a wait for one past `after` came to. -/
inductive Answer where
  | read (revision : Nat) (text : String)
  | waited (after revision : Nat)
  deriving DecidableEq

def Answer.revision : Answer → Nat
  | .read revision _ | .waited _ revision => revision

structure Desk where
  board : Board
  /-- A post has written its text and is about to raise the revision, the lock on the text held. -/
  raising : Bool
  /-- What each wait outstanding waits to be past. -/
  waits : List Nat
  posts : List String
  answered : List Answer
  deriving DecidableEq

def Desk.Begins (d : Desk) : Prop := d = ⟨.default, false, [], [], []⟩

inductive Desk.Action where
  | post (text : String)
  | raise
  | read
  | wait (after : Nat)
  /-- A wait answered, its revision there. -/
  | told (i : Nat)
  /-- A wait answered because its time passed or its listener stops. -/
  | passed (i : Nat)

namespace Desk

def step (d : Desk) : Action → Option Desk
  | .post text =>
    if d.raising then none
    else if d.board.same text then some { d with posts := d.posts ++ [text] }
    else some { d with board := { d.board with text }, raising := true, posts := d.posts ++ [text] }
  | .raise =>
    if d.raising then some { d with board := { d.board with revision := d.board.revision + 1 }, raising := false }
    else none
  | .read =>
    if d.raising then none else some { d with answered := d.answered ++ [.read d.board.revision d.board.text] }
  | .wait after => some { d with waits := d.waits ++ [after] }
  | .told i => do
    let (after, waits) ← pick d.waits i
    if after < d.board.revision then
      some { d with waits, answered := d.answered ++ [.waited after d.board.revision] }
    else none
  | .passed i => do
    let (after, waits) ← pick d.waits i
    some { d with waits, answered := d.answered ++ [.waited after d.board.revision] }

/-- The revision the text there is numbered by, raised or about to be. -/
def written (d : Desk) : Nat := d.board.revision + if d.raising then 1 else 0

/-- The texts posted that said something new, in order. -/
def texts (d : Desk) : List String := d.posts.destutter (· ≠ ·)

/-- The text there is the last of those that said something new; each read was answered one of them under its number;
and no answer goes back before another. -/
structure Kept (d : Desk) : Prop where
  current : Current "" d.texts d.written d.board.text
  named : ∀ r t, Answer.read r t ∈ d.answered → versionOf "" d.texts r = some t
  past : ∀ a ∈ d.answered, a.revision ≤ d.board.revision
  ordered : d.answered.Pairwise fun a b => a.revision ≤ b.revision

theorem Kept.same_iff {d : Desk} (h : d.Kept) (hlock : d.raising = false) (text : String) :
    d.board.same text = true ↔ d.posts.getLast? = some text := by
  have hcount : d.board.revision = d.texts.length := by
    have := h.current.count
    rwa [written, hlock, if_neg Bool.false_ne_true, Nat.add_zero] at this
  have hlast : d.board.text = d.texts.getLastD "" := h.current.eq_getLastD
  have hposts : d.texts.getLast? = d.posts.getLast? := getLast?_destutter d.posts
  rw [List.getLastD_eq_getLast?, hposts] at hlast
  simp only [Board.same, Bool.and_eq_true, decide_eq_true_eq]
  rw [hcount]
  cases hp : d.posts.getLast? with
  | none =>
    rw [hp, List.getLast?_eq_none_iff] at hposts
    simp [hposts]
  | some last =>
    have hne : d.texts ≠ [] := by
      intro hnil
      rw [hnil, List.getLast?_nil, hp] at hposts
      exact nomatch hposts
    rw [hp, Option.getD_some] at hlast
    simp [hne, hlast]

/-- An answer read off the board as it stands. -/
theorem Kept.answer {d : Desk} (h : d.Kept) (a : Answer) (waits : List Nat) (hrevision : a.revision = d.board.revision)
    (hnamed : ∀ r t, a = .read r t → versionOf "" d.texts r = some t) :
    Kept { d with waits, answered := d.answered ++ [a] } where
  current := h.current
  named r t hmem := by
    rcases List.mem_append.1 hmem with hmem | hmem
    · exact h.named r t hmem
    · exact hnamed r t (List.mem_singleton.1 hmem).symm
  past b hb := by
    rcases List.mem_append.1 hb with hb | hb
    · exact h.past b hb
    · rw [List.mem_singleton.1 hb, hrevision]
  ordered := by
    refine List.pairwise_append.2 ⟨h.ordered, List.pairwise_singleton _ _, ?_⟩
    intro b hb c hc
    rw [List.mem_singleton.1 hc, hrevision]
    exact h.past b hb

theorem Kept.step {d d' : Desk} {a : Action} (h : d.Kept) (hs : d.step a = some d') : d'.Kept := by
  cases a with
  | post text =>
    simp only [Desk.step] at hs
    split at hs
    · exact nomatch hs
    · rename_i hlock
      rw [Bool.not_eq_true] at hlock
      split at hs
      · rename_i hsame
        cases hs
        have htexts : (d.posts ++ [text]).destutter (· ≠ ·) = d.texts :=
          destutter_concat_of_eq ((h.same_iff hlock text).1 hsame)
        exact ⟨by rw [texts, htexts]; exact h.current, by rw [texts, htexts]; exact h.named, h.past, h.ordered⟩
      · rename_i hsame
        cases hs
        have htexts : (d.posts ++ [text]).destutter (· ≠ ·) = d.texts ++ [text] :=
          destutter_concat_of_ne fun hlast => hsame ((h.same_iff hlock text).2 hlast)
        have hwritten : d.written = d.board.revision := by rw [written, hlock]; rfl
        refine ⟨?_, ?_, h.past, h.ordered⟩
        · rw [texts, htexts, written, if_pos rfl, ← hwritten]
          exact h.current.put text
        · intro r t hmem
          rw [texts, htexts]
          exact versionOf_append (h.named r t hmem) _
  | raise =>
    simp only [Desk.step] at hs
    split at hs
    · rename_i hlock
      cases hs
      refine ⟨?_, h.named, ?_, h.ordered⟩
      · have hcurrent := h.current
        rw [written, hlock, if_pos rfl] at hcurrent
        exact hcurrent
      · intro b hb
        exact Nat.le_succ_of_le (h.past b hb)
    · exact nomatch hs
  | read =>
    simp only [Desk.step] at hs
    split at hs
    · exact nomatch hs
    · rename_i hlock
      rw [Bool.not_eq_true] at hlock
      cases hs
      refine h.answer _ _ rfl ?_
      intro r t heq
      cases heq
      have hnamed := h.current.named
      rwa [written, hlock, if_neg Bool.false_ne_true, Nat.add_zero] at hnamed
  | wait after =>
    cases hs
    exact ⟨h.current, h.named, h.past, h.ordered⟩
  | told i =>
    obtain ⟨⟨after, waits⟩, -, hs⟩ := Option.bind_eq_some_iff.1 hs
    dsimp only at hs
    split at hs
    · cases hs
      exact h.answer _ _ rfl fun r t heq => nomatch heq
    · exact nomatch hs
  | passed i =>
    obtain ⟨⟨after, waits⟩, -, hs⟩ := Option.bind_eq_some_iff.1 hs
    cases hs
    exact h.answer _ _ rfl fun r t heq => nomatch heq

theorem kept_of_reach {d : Desk} (h : Reach step Always Begins d) : d.Kept := by
  refine h.invariant ?_ fun d a d' hkept _ hs => hkept.step hs
  rintro d rfl
  have hnone : ∀ a : Answer, a ∉ [] := fun a ha => nomatch ha
  exact ⟨Current.start "", fun r t hmem => absurd hmem (hnone _), fun a ha => absurd ha (hnone a), List.Pairwise.nil⟩

/-- However any number of threads post, read and wait: a revision names one text, the texts posted that differ from the
one before each numbered in their order; no answer goes back before an earlier one; and with no post under way the
revision counts them. -/
theorem answers_name {d : Desk} (h : Reach step Always Begins d) :
    (∀ r t, Answer.read r t ∈ d.answered → versionOf "" d.texts r = some t) ∧
      (d.answered.Pairwise fun a b => a.revision ≤ b.revision) ∧
      (d.raising = false → d.board.revision = d.texts.length ∧ d.board.text = d.texts.getLastD "") := by
  have hkept := kept_of_reach h
  refine ⟨hkept.named, hkept.ordered, fun hlock => ⟨?_, hkept.current.eq_getLastD⟩⟩
  have hcount := hkept.current.count
  rwa [written, hlock, if_neg Bool.false_ne_true, Nat.add_zero] at hcount

/-- Two texts posted, the second twice, and read between. -/
theorem answers_name_posted : ∃ d, Reach step Always Begins d ∧ d.answered = [.read 1 "a", .waited 1 2, .read 2 "b"] ∧
    ∀ r t, Answer.read r t ∈ d.answered → versionOf "" d.texts r = some t := by
  obtain ⟨d, hreach, hd⟩ := Reach.exists_of_runWhere step Always (show Begins _ from rfl)
    [.post "a", .raise, .read, .wait 1, .post "b", .raise, .told 0, .post "b", .read]
    (fun d => decide (d.answered = [.read 1 "a", .waited 1 2, .read 2 "b"])) (by decide +kernel)
  exact ⟨d, hreach, of_decide_eq_true hd, (answers_name hreach).1⟩

end Desk

end Surface
