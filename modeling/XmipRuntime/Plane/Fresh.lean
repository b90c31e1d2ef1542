import XmipRuntime.Library.Run
import XmipRuntime.Plane.Relaying

/-!
# How many nonces a relay is given

`Fresh::issue` (`src/plane/fresh.rs`) under its lock: the count a relay asks for comes off the wire, is added to how many
are outstanding to see whether the stale are to go, and what room is left is drawn one by one.  The addition is a
`usize`'s: past its numbers it panics in a build that checks for it and wraps in one that does not, and then the stale
stay.  What is drawn comes from outside, a number at a time, and is drawn again where it is outstanding already.
-/

namespace Relaying

open Library

namespace Fresh

/-! ### Issuing -/

/-- Why nothing was given: the addition panicked, or what was drawn so far does not do and drawing goes on. -/
inductive Ends where
  | overflow
  | drawing
  deriving DecidableEq

/-- The sum of two numbers of a `usize`, and whether it went past them; a panic where that is checked for. -/
def add (trapping : Bool) (a b : Nat) : Except Ends (Nat × Bool) :=
  if a + b < usize then .ok (a + b, false)
  else if trapping then .error .overflow
  else .ok ((a + b) % usize, true)

/-- The first drawn that is not outstanding, and what is drawn after it. -/
def draw (held : Table Bytes Issued) : List Bytes → Except Ends (Bytes × List Bytes)
  | [] => .error .drawing
  | drawn :: draws => if (held.get drawn).isSome then draw held draws else .ok (drawn, draws)

/-- What was given, what is outstanding then, and whether an addition went past a `usize`'s numbers. -/
structure Given where
  nonces : List Bytes
  held : Table Bytes Issued
  overflowed : Bool

/-- `n` drawn one by one, each outstanding before the next is drawn. -/
def give (through : String) (listener : Bytes) (now : Nat) (overflowed : Bool) :
    Nat → Nat → List Bytes → Table Bytes Issued → Except Ends Given
  | 0, _, _, held => .ok ⟨[], held, overflowed⟩
  | n + 1, serial, draws, held => do
    let (nonce, draws) ← draw held draws
    let given ← give through listener now overflowed n (serial + 1) draws
      (held.put nonce ⟨serial, nonce, through, listener, now + within⟩)
    .ok { given with nonces := nonce :: given.nonces }

/-- Those of `held` still fresh at `now`. -/
def unexpired (held : Table Bytes Issued) (now : Nat) : Table Bytes Issued :=
  held.keep fun one => decide (now < one.freshUntil)

/-- `count` fresh nonces, at most `atOnce`, issued to `through` for `listener`. -/
def issue (trapping : Bool) (through : String) (listener : Bytes) (count now serial : Nat) (draws : List Bytes)
    (held : Table Bytes Issued) : Except Ends Given := do
  let (sum, overflowed) ← add trapping held.size count
  let held := if mostIssued ≤ sum then unexpired held now else held
  give through listener now overflowed (min (min count atOnce) (mostIssued - held.size)) serial draws held

/-- How many a request asks for: one, where it does not say. -/
def counted (count : Option UInt64) : Nat := (count.getD 1).toNat

/-- What is asked of the nonces outstanding. -/
inductive Action where
  | issue (trapping : Bool) (through : String) (listener : Bytes) (count : Option UInt64) (now serial : Nat)
    (draws : List Bytes)
  | spend (through : String) (now : Nat) (nonces : List Bytes)

/-- What is outstanding after it; a panic leaves what was there, as the lock is taken after one too. -/
def step (held : Table Bytes Issued) : Action → Option (Table Bytes Issued)
  | .issue trapping through listener count now serial draws =>
    match issue trapping through listener (counted count) now serial draws held with
    | .ok given => some given.held
    | .error .overflow => some held
    | .error .drawing => none
  | .spend through now nonces => some (spend through now nonces held).2.2

/-- Nothing outstanding yet. -/
def Starts (held : Table Bytes Issued) : Prop := held.entries = []

/-- What was given is exactly what there is room for beside those still fresh, all of it new and fresh, and no more than
the most is outstanding. -/
structure Bounds (held : Table Bytes Issued) (count now : Nat) (given : Given) : Prop where
  noOverflow : given.overflowed = false
  exactly : given.nonces.length = min (min count atOnce) (mostIssued - (unexpired held now).size)
  distinct : given.nonces.Nodup
  isNew : ∀ nonce ∈ given.nonces, (unexpired held now).get nonce = none
  outstanding : ∀ nonce ∈ given.nonces, ∃ one, given.held.get nonce = some one ∧ one.freshUntil = now + within
  most : given.held.size ≤ mostIssued

/-- What is drawn holds `n` numbers none of which is outstanding. -/
def Enough (n : Nat) (draws : List Bytes) (held : Table Bytes Issued) : Prop :=
  ∃ l : List Bytes, l.Nodup ∧ l.length = n ∧ l ⊆ draws ∧ ∀ d ∈ l, held.get d = none

/-! ### What is drawn -/

theorem draw_mem {held : Table Bytes Issued} {draws rest : List Bytes} {nonce : Bytes}
    (h : draw held draws = .ok (nonce, rest)) : nonce ∈ draws ∧ rest ⊆ draws := by
  induction draws with
  | nil => cases h
  | cons d draws ih =>
    unfold draw at h
    split at h
    · obtain ⟨hmem, hsub⟩ := ih h
      exact ⟨List.mem_cons_of_mem d hmem, fun _ hx => List.mem_cons_of_mem d (hsub hx)⟩
    · cases h
      exact ⟨List.mem_cons_self .., List.subset_cons_self ..⟩

theorem draw_none {held : Table Bytes Issued} {draws rest : List Bytes} {nonce : Bytes}
    (h : draw held draws = .ok (nonce, rest)) : held.get nonce = none := by
  induction draws with
  | nil => cases h
  | cons d draws ih =>
    unfold draw at h
    split at h
    · exact ih h
    · rename_i hd
      cases h
      simpa using hd

/-- Where enough are drawn, one is found, and what is drawn after it is enough for one less. -/
theorem draw_enough {n : Nat} {held : Table Bytes Issued} {draws : List Bytes} (h : Enough (n + 1) draws held)
    (one : Bytes → Issued) :
    ∃ nonce rest, draw held draws = .ok (nonce, rest) ∧ Enough n rest (held.put nonce (one nonce)) := by
  obtain ⟨l, hnd, hlen, hsub, hnew⟩ := h
  induction draws with
  | nil =>
    have : l = [] := List.subset_nil.1 hsub
    subst this
    simp at hlen
  | cons d draws ih =>
    unfold draw
    split
    · rename_i hd
      apply ih
      intro x hx
      rcases List.mem_cons.1 (hsub hx) with rfl | hx'
      · rw [hnew x hx] at hd
        cases hd
      · exact hx'
    · refine ⟨d, draws, rfl, ?_⟩
      -- Without `d`, or without any one of them where `d` is none of them, there is one less.
      have hsmall : ∃ l' : List Bytes, l'.Nodup ∧ l'.length = n ∧ l' ⊆ l ∧ d ∉ l' := by
        by_cases hdl : d ∈ l
        · refine ⟨l.erase d, hnd.erase d, ?_, List.erase_subset, hnd.not_mem_erase⟩
          rw [List.length_erase_of_mem hdl, hlen]
          omega
        · refine ⟨l.tail, hnd.sublist (List.tail_sublist l), ?_, (List.tail_sublist l).subset, ?_⟩
          · rw [List.length_tail, hlen]
            omega
          · intro hd'
            exact hdl ((List.tail_sublist l).subset hd')
      obtain ⟨l', hnd', hlen', hsub', hd'⟩ := hsmall
      refine ⟨l', hnd', hlen', ?_, ?_⟩
      · intro x hx
        rcases List.mem_cons.1 (hsub (hsub' hx)) with rfl | hx'
        · exact absurd hx hd'
        · exact hx'
      · intro x hx
        have hne : x ≠ d := fun e => hd' (e ▸ hx)
        rw [Table.get_put_of_ne _ hne]
        exact hnew x (hsub' hx)

/-! ### What is given -/

section Give

variable {through : String} {listener : Bytes} {now : Nat} {overflowed : Bool}

/-- Where enough are drawn, as many as asked are given. -/
theorem give_enough {n serial : Nat} {draws : List Bytes} {held : Table Bytes Issued} (h : Enough n draws held) :
    ∃ given, give through listener now overflowed n serial draws held = .ok given := by
  induction n generalizing serial draws held with
  | zero => exact ⟨_, rfl⟩
  | succ n ih =>
    obtain ⟨nonce, rest, hdraw, hrest⟩ := draw_enough h fun nonce => ⟨serial, nonce, through, listener, now + within⟩
    obtain ⟨given, hgiven⟩ : ∃ given, give through listener now overflowed n (serial + 1) rest
      (held.put nonce ⟨serial, nonce, through, listener, now + within⟩) = .ok given := ih hrest
    refine ⟨{ given with nonces := nonce :: given.nonces }, ?_⟩
    unfold give
    rw [hdraw]
    simp only [bind, Except.bind, hgiven]

/-- One more given is drawn first, and put beside what is outstanding before the rest is given. -/
theorem give_succ_cases {n serial : Nat} {draws : List Bytes} {held : Table Bytes Issued} {given : Given}
    (h : give through listener now overflowed (n + 1) serial draws held = .ok given) :
    ∃ nonce after rest, draw held draws = .ok (nonce, after) ∧
      give through listener now overflowed n (serial + 1) after
        (held.put nonce ⟨serial, nonce, through, listener, now + within⟩) = .ok rest ∧
      given = { rest with nonces := nonce :: rest.nonces } := by
  unfold give at h
  simp only [bind, Except.bind] at h
  split at h
  · cases h
  · rename_i drawn hdraw
    split at h
    · cases h
    · rename_i rest hrest
      cases h
      exact ⟨drawn.1, drawn.2, rest, hdraw, hrest, rfl⟩

/-- What is given: as many as asked, none twice and none of those outstanding, each outstanding and fresh after. -/
theorem give_spec {n serial : Nat} {draws : List Bytes} {held : Table Bytes Issued} {given : Given}
    (h : give through listener now overflowed n serial draws held = .ok given) :
    given.overflowed = overflowed ∧ given.nonces.length = n ∧ given.nonces.Nodup ∧
      (∀ nonce ∈ given.nonces, held.get nonce = none) ∧
      (∀ nonce ∈ given.nonces, ∃ one, given.held.get nonce = some one ∧ one.freshUntil = now + within) ∧
      (∀ k, k ∉ given.nonces → given.held.get k = held.get k) ∧ given.held.size = held.size + n := by
  induction n generalizing serial draws held given with
  | zero =>
    cases h
    refine ⟨rfl, rfl, List.nodup_nil, ?_, ?_, fun _ _ => rfl, rfl⟩
    · exact fun _ h => absurd h List.not_mem_nil
    · exact fun _ h => absurd h List.not_mem_nil
  | succ n ih =>
    obtain ⟨drawn, after, rest, hdraw, hrest, rfl⟩ := give_succ_cases h
    obtain ⟨hover, hlen, hnd, hnew, hout, hkept, hsize⟩ := ih hrest
    have hnone := draw_none hdraw
    have hnonce : drawn ∉ rest.nonces := by
      intro hmem
      have := hnew _ hmem
      rw [Table.get_put_self] at this
      cases this
    refine ⟨hover, by simp [hlen], List.nodup_cons.2 ⟨hnonce, hnd⟩, ?_, ?_, ?_, ?_⟩
    · intro nonce hmem
      rcases List.mem_cons.1 hmem with rfl | hmem
      · exact hnone
      · have hne : nonce ≠ drawn := fun e => hnonce (e ▸ hmem)
        rw [← hnew nonce hmem, Table.get_put_of_ne _ hne]
    · intro nonce hmem
      rcases List.mem_cons.1 hmem with rfl | hmem
      · exact ⟨_, (hkept _ hnonce).trans (Table.get_put_self ..), rfl⟩
      · exact hout nonce hmem
    · intro k hk
      obtain ⟨hne, hk'⟩ := not_or.1 (mt List.mem_cons.2 hk)
      rw [hkept k hk', Table.get_put_of_ne _ hne]
    · rw [hsize, Table.size_put_of_none hnone]
      omega

/-- What is given is of what was drawn, and is put beside what was outstanding in the order it was given. -/
theorem give_held {n serial : Nat} {draws : List Bytes} {held : Table Bytes Issued} {given : Given}
    (h : give through listener now overflowed n serial draws held = .ok given) :
    given.nonces ⊆ draws ∧ given.held =
      (issuedFrom through listener now serial given.nonces).foldl (fun held one => held.put one.nonce one) held := by
  induction n generalizing serial draws held given with
  | zero =>
    cases h
    exact ⟨List.nil_subset draws, rfl⟩
  | succ n ih =>
    obtain ⟨drawn, after, rest, hdraw, hrest, rfl⟩ := give_succ_cases h
    obtain ⟨hsub, hheld⟩ := ih hrest
    obtain ⟨hmem, hafter⟩ := draw_mem hdraw
    exact ⟨List.cons_subset.2 ⟨hmem, fun _ hx => hafter (hsub hx)⟩, hheld⟩

end Give

/-! ### What is issued -/

section Issue

variable {trapping : Bool} {through : String} {listener : Bytes} {count now serial : Nat} {draws : List Bytes}
  {held : Table Bytes Issued} {given : Given}

theorem size_unexpired_le (held : Table Bytes Issued) (now : Nat) : (unexpired held now).size ≤ held.size :=
  List.length_filter_le ..

/-- What is issued is drawn beside what `cleared` leaves, as many as `issuing` says; and the addition went past the
numbers of a `usize` exactly where the sum does. -/
theorem issue_cases (h : issue trapping through listener count now serial draws held = .ok given) :
    ∃ overflowed, (overflowed = true ↔ usize ≤ held.size + count) ∧
      give through listener now overflowed (issuing (cleared held count now) count) serial draws
        (cleared held count now) = .ok given := by
  unfold issue add at h
  by_cases hsum : held.size + count < usize
  · rw [if_pos hsum] at h
    refine ⟨false, by simpa using hsum, ?_⟩
    rw [← h]
    simp only [bind, Except.bind, cleared, issuing, unexpired, Nat.mod_eq_of_lt hsum]
  · rw [if_neg hsum] at h
    cases trapping with
    | true => cases h
    | false =>
      refine ⟨true, by simpa using hsum, ?_⟩
      rw [← h]
      simp only [bind, Except.bind, cleared, issuing, unexpired, Bool.false_eq_true, if_false]

/-- No more than the most is outstanding after one is issued, whatever the addition did. -/
theorem issue_size (hmost : held.size ≤ mostIssued)
    (h : issue trapping through listener count now serial draws held = .ok given) : given.held.size ≤ mostIssued := by
  obtain ⟨overflowed, -, hgive⟩ := issue_cases h
  have hsize := (give_spec hgive).2.2.2.2.2.2
  have hcleared : (cleared held count now).size ≤ mostIssued := by
    unfold cleared
    split
    · exact (size_unexpired_le held now).trans hmost
    · exact hmost
  unfold issuing at hsize
  omega

/-- Where the sum is a `usize`'s, as many are issued as there is room for beside those still fresh: the stale are let go
of unless all asked for fit beside them. -/
theorem issuing_cleared (hsum : held.size + count < usize) :
    issuing (cleared held count now) count = min (min count atOnce) (mostIssued - (unexpired held now).size) := by
  have hle := size_unexpired_le held now
  unfold cleared issuing
  rw [Nat.mod_eq_of_lt hsum]
  split
  · rfl
  · omega

theorem get_unexpired_of_cleared {nonce : Bytes} (h : (cleared held count now).get nonce = none) :
    (unexpired held now).get nonce = none := by
  unfold cleared at h
  split at h
  · exact h
  · unfold unexpired
    rw [Table.get_keep, h]
    rfl

theorem enough_cleared (h : Enough atOnce draws held) :
    Enough (issuing (cleared held count now) count) draws (cleared held count now) := by
  obtain ⟨l, hnd, hlen, hsub, hnew⟩ := h
  have hle : issuing (cleared held count now) count ≤ l.length := by
    unfold issuing
    omega
  refine ⟨l.take (issuing (cleared held count now) count), hnd.sublist (List.take_sublist ..), ?_, ?_, ?_⟩
  · rw [List.length_take]
    omega
  · exact fun x hx => hsub (List.mem_of_mem_take hx)
  · intro x hx
    have hnone := hnew x (List.mem_of_mem_take hx)
    unfold cleared
    split
    · rw [Table.get_keep, hnone]
      rfl
    · exact hnone

/-- Where the sum is a `usize`'s and enough is drawn, something is given. -/
theorem issue_ok (hsum : held.size + count < usize) (h : Enough atOnce draws held) :
    ∃ given, issue trapping through listener count now serial draws held = .ok given := by
  have henough : Enough (issuing (cleared held count now) count) draws (cleared held count now) := enough_cleared h
  obtain ⟨given, hgive⟩ : ∃ given, give through listener now false (issuing (cleared held count now) count) serial draws
    (cleared held count now) = .ok given := give_enough henough
  refine ⟨given, ?_⟩
  rw [← hgive]
  unfold issue add
  rw [if_pos hsum]
  simp only [bind, Except.bind, cleared, issuing, unexpired, Nat.mod_eq_of_lt hsum]

/-- What is issued is a step of the node that holds it: its `issue` of the nonces given. -/
theorem issue_refines {χ π : Type} {c : Settings χ π} {n : Node} {i : Nat} {rest : List Op}
    (hpick : pick n.ops i = some (.issuing through listener count now, rest))
    (hlength : ∀ d ∈ draws, d.length = nonceLength)
    (h : issue trapping through listener count now n.issued.length draws n.held = .ok given) :
    ∃ n', n.step c (.issue i given.nonces) = some n' ∧ n'.held = given.held := by
  obtain ⟨overflowed, -, hgive⟩ := issue_cases h
  obtain ⟨-, hlen, hnd, hnew, -, -, -⟩ := give_spec hgive
  obtain ⟨hsub, hheld⟩ := give_held hgive
  have hdrawn : drawnFor (cleared n.held count now) count given.nonces = true := by
    unfold drawnFor
    simp only [hlen, hnd, decide_true, Bool.true_and, List.all_eq_true, Bool.and_eq_true, decide_eq_true_eq]
    intro nonce hmem
    refine ⟨hlength nonce (hsub hmem), ?_⟩
    rw [hnew nonce hmem]
    rfl
  simp only [Node.step, Node.issues, hpick, hdrawn, if_true]
  exact ⟨_, rfl, hheld.symm⟩

/-- Past the numbers of a `usize` it panics or overflows. -/
theorem not_bounds_of_overflow (hsum : usize ≤ held.size + count) :
    ¬ ∃ given, issue trapping through listener count now serial draws held = .ok given ∧ Bounds held count now given := by
  rintro ⟨given, hgiven, hbounds⟩
  obtain ⟨overflowed, hover, hgive⟩ := issue_cases hgiven
  have hfalse : overflowed = false := (give_spec hgive).1.symm.trans hbounds.noOverflow
  have htrue := hover.2 hsum
  rw [hfalse] at htrue
  cases htrue

end Issue

/-! ### In every state -/

theorem size_spend_le (through : String) (now : Nat) (nonces : List Bytes) (held : Table Bytes Issued) :
    (spend through now nonces held).2.2.size ≤ held.size := by
  induction nonces generalizing held with
  | nil => exact Nat.le_refl _
  | cons nonce nonces ih =>
    unfold spend
    split
    · exact (ih _).trans (Table.size_drop_le held nonce)
    · exact ih held

theorem step_size {held held' : Table Bytes Issued} {a : Action} (hmost : held.size ≤ mostIssued)
    (hs : step held a = some held') : held'.size ≤ mostIssued := by
  cases a with
  | issue trapping through listener count now serial draws =>
    simp only [step] at hs
    split at hs
    · rename_i given hgiven
      cases hs
      exact issue_size hmost hgiven
    · cases hs
      exact hmost
    · cases hs
  | spend through now nonces =>
    cases hs
    exact (size_spend_le through now nonces held).trans hmost

/-- No more than the most is outstanding. -/
def AtMost (held : Table Bytes Issued) : Prop := held.size ≤ mostIssued

theorem atMost_of_reach {held : Table Bytes Issued} (h : Reach step Always Starts held) : AtMost held := by
  refine Reach.invariant ?_ ?_ h
  · intro held hstart
    have : held.size = 0 := by
      unfold Table.size
      rw [hstart]
      rfl
    unfold AtMost
    omega
  · exact fun _ _ _ hmost _ hs => step_size hmost hs

/-- However many a relay asks for, and whatever is outstanding: it is given exactly what there is room for, and nothing
panics or overflows, exactly where what it asks for and what is outstanding sum to a number of a `usize`. -/
theorem issue_bounds_iff (trapping : Bool) (through : String) (listener : Bytes) (count : Option UInt64)
    (now serial : Nat) {draws : List Bytes} {held : Table Bytes Issued} (hreach : Reach step Always Starts held)
    (hdraws : Enough atOnce draws held) :
    (∃ given, issue trapping through listener (counted count) now serial draws held = .ok given ∧
        Bounds held (counted count) now given) ↔
      held.size + counted count < usize := by
  constructor
  · intro h
    by_contra hsum
    exact not_bounds_of_overflow (Nat.le_of_not_lt hsum) h
  · intro hsum
    obtain ⟨given, hgiven⟩ : ∃ given, issue trapping through listener (counted count) now serial draws held = .ok given :=
      issue_ok hsum hdraws
    refine ⟨given, hgiven, ?_⟩
    obtain ⟨overflowed, hover, hgive⟩ := issue_cases hgiven
    obtain ⟨hflag, hlen, hnd, hnew, hout, -, -⟩ := give_spec hgive
    refine ⟨?_, hlen.trans (issuing_cleared hsum), hnd, ?_, hout, issue_size (atMost_of_reach hreach) hgiven⟩
    · rw [hflag, ← Bool.not_eq_true]
      exact fun h => absurd (hover.1 h) (Nat.not_le.2 hsum)
    · exact fun nonce hmem => get_unexpired_of_cleared (hnew nonce hmem)

/-- Nonces to draw: sixteen bytes that end in `k`. -/
def nonceOf (k : Nat) : Bytes := List.replicate 15 0 ++ [UInt8.ofNat k]

/-- Two asked for beside nothing outstanding are given. -/
theorem issue_bounds_two :
    (∃ given, issue true "HOST\\gui" [1] (counted (some 2)) 0 0 ((List.range 32).map nonceOf) Table.empty = .ok given ∧
      Bounds Table.empty (counted (some 2)) 0 given) ∧ 0 + counted (some 2) < usize := by
  have hreach : Reach step Always Starts Table.empty := .start (Eq.refl ([] : List (Bytes × Issued)))
  have hdraws : Enough atOnce ((List.range 32).map nonceOf) Table.empty :=
    ⟨(List.range 32).map nonceOf, by decide, by decide, fun _ h => h, fun _ _ => rfl⟩
  exact ⟨(issue_bounds_iff true "HOST\\gui" [1] (some 2) 0 0 hreach hdraws).2 (by decide), by decide⟩

/-- One nonce outstanding. -/
def oneHeld : Table Bytes Issued := Table.empty.put (nonceOf 32) ⟨0, nonceOf 32, "HOST\\gui", [1], 30000⟩

/-- One outstanding, and as many asked for as a `u64` may say: a build that checks panics, one that does not overflows. -/
theorem issue_overflows :
    Reach step Always Starts oneHeld ∧ Enough atOnce ((List.range 32).map nonceOf) oneHeld ∧
      (¬ ∃ given, issue true "HOST\\gui" [1] (counted (some 18446744073709551615)) 0 1 ((List.range 32).map nonceOf) oneHeld
        = .ok given ∧ Bounds oneHeld (counted (some 18446744073709551615)) 0 given) ∧
      ¬ ∃ given, issue false "HOST\\gui" [1] (counted (some 18446744073709551615)) 0 1 ((List.range 32).map nonceOf) oneHeld
        = .ok given ∧ Bounds oneHeld (counted (some 18446744073709551615)) 0 given := by
  have hsum : usize ≤ oneHeld.size + counted (some 18446744073709551615) := by decide
  refine ⟨?_, ?_, not_bounds_of_overflow hsum, not_bounds_of_overflow hsum⟩
  · have hstart : Reach step Always Starts Table.empty := .start (Eq.refl ([] : List (Bytes × Issued)))
    exact .next (a := .issue true "HOST\\gui" [1] none 0 0 [nonceOf 32]) hstart trivial rfl
  · exact ⟨(List.range 32).map nonceOf, by decide, by decide, fun _ h => h, by decide⟩

end Fresh

end Relaying
