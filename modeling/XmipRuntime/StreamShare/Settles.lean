import Mathlib.Algebra.BigOperators.Group.List.Basic
import Mathlib.Algebra.Ring.Nat
import Mathlib.Data.List.Nodup
import Mathlib.Tactic.Ring
import XmipRuntime.StreamShare.Reads

/-!
# Moving departures from read to read settles

Before its next chunk a departure moves to a read that more departures take from than from its own without it, or as many
and opened before it (`moved`).  Each move makes more of the squares of how many take from each read, or leaves their sum
and brings the departure to a read opened before: so the departures of a Stream that only move do so no more than so often
(`settles`).  A departure may come back to a read it left, but not before another one moved.
-/

namespace StreamShare

open Library

variable {ρ β ε : Type}

/-! ### One move -/

/-- A Stream's reads in the order they were opened, each with its number. -/
abbrev Reads (ρ β ε : Type) := List (Nat × OneRead ρ β ε)

/-- Departure `number` on the read `into` as well. -/
def joinAt (reads : Reads ρ β ε) (into number place now : Nat) : Reads ρ β ε :=
  reads.map fun p => if p.1 = into then (p.1, p.2.join number place now) else p

/-- Departure `number` gone from `read`, which is let go of once none takes from it. -/
def leave (reads : Reads ρ β ε) (read number : Nat) : Reads ρ β ε :=
  (reads.map fun p => if p.1 = read then (p.1, p.2.leave number) else p).filter fun p =>
    decide (p.1 ≠ read) || !p.2.readers.isEmpty

/-- The read departure `number` on `on` at `place` moves to, and the reads once it did: one that reaches it and that more
departures read than `on` would without it, or as many and opened before it.  A read whose lock is another's just now is
passed over. -/
def moved (reads : Reads ρ β ε) (busy : Nat → Bool) (on number place now : Nat) : Option (Nat × Reads ρ β ε) :=
  if reads.length < 2 then none
  else (reads.findIdx? fun p => decide (p.1 = on)).bind fun mine => reads[mine]?.bind fun own =>
    let others := own.2.readers.length - 1
    (reads.zipIdx.findSome? fun p =>
      if p.2 = mine then none
      else if busy p.1.1 then none
      else
        let readers := p.1.2.readers.length
        let more := decide (readers > others) || (decide (readers = others) && decide (p.2 < mine))
        if more && p.1.2.reaches place then some p.1.1 else none).map fun into =>
      (into, leave (joinAt reads into number place now) on number)

/-- Whether departure `number` takes from a read. -/
def takesFrom (number : Nat) (o : OneRead ρ β ε) : Bool := o.readers.any fun reader => decide (reader.number = number)

/-- The read departure `number` takes from. -/
def readOf (reads : Reads ρ β ε) (number : Nat) : Option Nat :=
  (reads.find? fun p => takesFrom number p.2).map Prod.fst

/-- A departure about to move, when, and the reads whose lock is another's then. -/
structure Mover where
  number : Nat
  now : Nat
  busy : Nat → Bool

/-- One move of a departure that is at its place; there is none where it stays. -/
def moves (place : Nat → Nat) (reads : Reads ρ β ε) (m : Mover) : Option (Reads ρ β ε) :=
  (readOf reads m.number).bind fun on => (moved reads m.busy on m.number (place m.number) m.now).map Prod.snd

/-- Reads are listed in the order of their numbers, and each departure takes from one of them, once. -/
structure Listed (reads : Reads ρ β ε) : Prop where
  order : (reads.map Prod.fst).Pairwise (· < ·)
  once : (reads.flatMap fun p => p.2.readers.map Reader.number).Nodup

instance (reads : Reads ρ β ε) : Decidable (Listed reads) :=
  decidable_of_iff ((reads.map Prod.fst).Pairwise (· < ·) ∧
    (reads.flatMap fun p => p.2.readers.map Reader.number).Nodup) ⟨fun h => ⟨h.1, h.2⟩, fun h => ⟨h.1, h.2⟩⟩

/-! ### What a move does -/

/-- The departures of a read. -/
def numbers (p : Nat × OneRead ρ β ε) : List Nat := p.2.readers.map Reader.number

/-- A read, where a departure takes from it still. -/
def stillRead (p : Nat × OneRead ρ β ε) : Reads ρ β ε := if p.2.readers.isEmpty then [] else [p]

/-- Departure `number` moved from the read `on`, that was `o`, to the read `into`, that was `t`; the others are `rest`. -/
structure Moving (reads : Reads ρ β ε) (number : Nat) (reads' : Reads ρ β ε) (on : Nat) (o : OneRead ρ β ε) (into : Nat)
    (t t' : OneRead ρ β ε) (rest : Reads ρ β ε) : Prop where
  before : reads.Perm ((on, o) :: (into, t) :: rest)
  after : reads'.Perm (stillRead (on, o.leave number) ++ (into, t') :: rest)
  ids : (reads'.map Prod.fst).Sublist (reads.map Prod.fst)
  joined : t'.readers.map Reader.number = t.readers.map Reader.number ++ [number]
  more : o.readers.length - 1 < t.readers.length ∨ t.readers.length = o.readers.length - 1 ∧ into < on

variable {reads reads' : Reads ρ β ε}

theorem map_fst_joinAt (into number place now : Nat) :
    (joinAt reads into number place now).map Prod.fst = reads.map Prod.fst := by
  unfold joinAt
  rw [List.map_map]
  refine List.map_congr_left fun p _ => ?_
  rw [Function.comp_apply]
  split <;> rfl

theorem map_fst_leave (read number : Nat) : ((leave reads read number).map Prod.fst).Sublist (reads.map Prod.fst) := by
  have hmap : (reads.map fun p => if p.1 = read then (p.1, p.2.leave number) else p).map Prod.fst = reads.map Prod.fst := by
    rw [List.map_map]
    refine List.map_congr_left fun p _ => ?_
    rw [Function.comp_apply]
    split <;> rfl
  rw [← hmap]
  exact List.filter_sublist.map Prod.fst

theorem joinAt_cons (p : Nat × OneRead ρ β ε) (into number place now : Nat) :
    joinAt (p :: reads) into number place now =
      (if p.1 = into then (p.1, p.2.join number place now) else p) :: joinAt reads into number place now := rfl

theorem leave_cons (p : Nat × OneRead ρ β ε) (read number : Nat) :
    leave (p :: reads) read number =
      (if p.1 = read then stillRead (p.1, p.2.leave number) else [p]) ++ leave reads read number := by
  unfold leave stillRead
  rw [List.map_cons, List.filter_cons]
  by_cases hread : p.1 = read
  · rw [if_pos hread, if_pos hread]
    cases hempty : (p.2.leave number).readers.isEmpty <;> simp [hread]
  · rw [if_neg hread, if_neg hread]
    simp [hread]

theorem joinAt_of_notMem {into number place now : Nat} (h : into ∉ reads.map Prod.fst) :
    joinAt reads into number place now = reads := by
  induction reads with
  | nil => rfl
  | cons p reads ih =>
    obtain ⟨hne, hrest⟩ := not_or.1 (fun hor => h (List.mem_cons.2 hor))
    rw [joinAt_cons, if_neg (Ne.symm hne), ih hrest]

theorem leave_of_notMem {read number : Nat} (h : read ∉ reads.map Prod.fst) : leave reads read number = reads := by
  induction reads with
  | nil => rfl
  | cons p reads ih =>
    obtain ⟨hne, hrest⟩ := not_or.1 (fun hor => h (List.mem_cons.2 hor))
    rw [leave_cons, if_neg (Ne.symm hne), ih hrest, List.singleton_append]

/-- One read joined and another left: the rest stay as they are. -/
theorem leave_joinAt_perm {on into number place now : Nat} {o t : OneRead ρ β ε} {rest : Reads ρ β ε}
    (hs : (reads.map Prod.fst).Nodup) (h : reads.Perm ((on, o) :: (into, t) :: rest)) :
    (leave (joinAt reads into number place now) on number).Perm
      (stillRead (on, o.leave number) ++ (into, t.join number place now) :: rest) := by
  have hids : (on :: into :: rest.map Prod.fst).Nodup := (h.map Prod.fst).nodup_iff.1 hs
  obtain ⟨hon, hinto⟩ := List.nodup_cons.1 hids
  obtain ⟨hrest, -⟩ := List.nodup_cons.1 hinto
  obtain ⟨hne, hon⟩ := not_or.1 (fun hor => hon (List.mem_cons.2 hor))
  have hperm : (leave (joinAt reads into number place now) on number).Perm
      (leave (joinAt ((on, o) :: (into, t) :: rest) into number place now) on number) :=
    ((h.map _).map _).filter _
  rwa [joinAt_cons, if_neg hne, joinAt_cons, if_pos rfl, joinAt_of_notMem hrest, leave_cons, if_pos rfl, leave_cons,
    if_neg (Ne.symm hne), leave_of_notMem hon, List.singleton_append] at hperm

/-- Two reads of a list, and the others. -/
theorem perm_of_getElem? {α : Type} {l : List α} {i j : Nat} {a b : α} (hne : a ≠ b) (hi : l[i]? = some a)
    (hj : l[j]? = some b) : ∃ rest, l.Perm (a :: b :: rest) := by
  obtain ⟨l₁, l₂, rfl⟩ := List.append_of_mem (List.mem_of_getElem? hi)
  have hb : b ∈ l₁ ++ l₂ := by
    rcases List.mem_append.1 (List.mem_of_getElem? hj) with hmem | hmem
    · exact List.mem_append_left _ hmem
    · exact List.mem_append_right _ ((List.mem_cons.1 hmem).resolve_left (Ne.symm hne))
  obtain ⟨k₁, k₂, hk⟩ := List.append_of_mem hb
  refine ⟨k₁ ++ k₂, List.perm_middle.trans (List.Perm.cons a ?_)⟩
  rw [hk]
  exact List.perm_middle

theorem moved_moving {busy : Nat → Bool} {on number place now into : Nat} (hs : (reads.map Prod.fst).Pairwise (· < ·))
    (h : moved reads busy on number place now = some (into, reads')) :
    ∃ o t rest, Moving reads number reads' on o into t (t.join number place now) rest := by
  unfold moved at h
  split at h
  · cases h
  obtain ⟨mine, hmine, h⟩ := Option.bind_eq_some_iff.1 h
  obtain ⟨⟨on', o⟩, hown, h⟩ := Option.bind_eq_some_iff.1 h
  obtain ⟨into', hfind, heq⟩ := Option.map_eq_some_iff.1 h
  cases heq
  have hon : on' = on := by
    obtain ⟨hlt, htrue, -⟩ := List.findIdx?_eq_some_iff_getElem.1 hmine
    rw [(List.getElem?_eq_some_iff.1 hown).2] at htrue
    exact of_decide_eq_true htrue
  subst hon
  obtain ⟨⟨⟨into'', t⟩, at'⟩, hmem, hfound⟩ := List.exists_of_findSome?_eq_some hfind
  have hat : reads[at']? = some (into'', t) := List.mem_zipIdx_iff_getElem?.1 hmem
  dsimp only at hfound
  by_cases hself : at' = mine
  · rw [if_pos hself] at hfound
    cases hfound
  rw [if_neg hself] at hfound
  split at hfound
  · cases hfound
  obtain ⟨hmore, heq⟩ := Option.ite_none_right_eq_some.1 hfound
  cases heq
  -- The reads are in the order of their numbers, so one before another has the smaller.
  have hless : ∀ {i j : Nat} {p q : Nat × OneRead ρ β ε}, reads[i]? = some p → reads[j]? = some q → i < j → p.1 < q.1 := by
    intro i j p q hp hq hij
    obtain ⟨hi, rfl⟩ := List.getElem?_eq_some_iff.1 hp
    obtain ⟨hj, rfl⟩ := List.getElem?_eq_some_iff.1 hq
    have hpair := List.pairwise_iff_getElem.1 hs i j (by simpa using hi) (by simpa using hj) hij
    simpa using hpair
  have hne : (on', o) ≠ (into, t) := by
    intro heq
    have hon : on' = into := congrArg Prod.fst heq
    rcases Nat.lt_or_gt_of_ne hself with hlt | hlt
    · exact absurd (hless hat hown hlt) (by simp [hon])
    · exact absurd (hless hown hat hlt) (by simp [hon])
  obtain ⟨rest, hperm⟩ := perm_of_getElem? hne hown hat
  have hnodup : (reads.map Prod.fst).Nodup := hs.imp fun hlt => Nat.ne_of_lt hlt
  refine ⟨o, t, rest, hperm, leave_joinAt_perm hnodup hperm, ?_, ?_, ?_⟩
  · have hsub : ((leave (joinAt reads into number place now) on' number).map Prod.fst).Sublist _ := map_fst_leave on' number
    rwa [map_fst_joinAt] at hsub
  · simp [OneRead.join]
  · obtain ⟨hmany, -⟩ := Bool.and_eq_true_iff.1 hmore
    rcases Bool.or_eq_true_iff.1 hmany with hlt | heq
    · exact .inl (of_decide_eq_true hlt)
    · obtain ⟨hsame, hfirst⟩ := Bool.and_eq_true_iff.1 heq
      exact .inr ⟨of_decide_eq_true hsame, hless hat hown (of_decide_eq_true hfirst)⟩

theorem numbers_leave (o : OneRead ρ β ε) (number : Nat) :
    (o.leave number).readers.map Reader.number = (o.readers.map Reader.number).filter (· != number) := by
  unfold OneRead.leave
  rw [List.filter_map]
  congr 1
  refine List.filter_congr fun reader _ => ?_
  rw [Bool.eq_iff_iff]
  simp

/-- The departures of a read are the one that leaves it and those on it then. -/
theorem numbers_perm {o : OneRead ρ β ε} {number : Nat} (hmem : number ∈ o.readers.map Reader.number)
    (hnodup : (o.readers.map Reader.number).Nodup) :
    (o.readers.map Reader.number).Perm (number :: (o.leave number).readers.map Reader.number) := by
  rw [numbers_leave, ← hnodup.erase_eq_filter]
  exact List.perm_cons_erase hmem

theorem takesFrom_iff {number : Nat} {o : OneRead ρ β ε} : takesFrom number o = true ↔ number ∈ o.readers.map Reader.number := by
  simp [takesFrom]

/-- A move is of a departure from the read it takes from. -/
theorem moves_moving {place : Nat → Nat} {m : Mover} (hs : Listed reads) (h : moves place reads m = some reads') :
    ∃ on o into t t' rest, Moving reads m.number reads' on o into t t' rest ∧ readOf reads m.number = some on ∧
      m.number ∈ o.readers.map Reader.number := by
  obtain ⟨on, hon, h⟩ := Option.bind_eq_some_iff.1 h
  obtain ⟨⟨into, reads''⟩, hmoved, heq⟩ := Option.map_eq_some_iff.1 h
  obtain rfl : reads'' = reads' := heq
  obtain ⟨o, t, rest, hmoving⟩ := moved_moving hs.order hmoved
  refine ⟨on, o, into, t, _, rest, hmoving, hon, ?_⟩
  obtain ⟨⟨on', o'⟩, hfind, heq⟩ := Option.map_eq_some_iff.1 hon
  obtain rfl : on' = on := heq
  have hnodup : (reads.map Prod.fst).Nodup := hs.order.imp fun hlt => Nat.ne_of_lt hlt
  have hsame : (on', o') = (on', o) := List.inj_on_of_nodup_map hnodup (List.mem_of_find?_eq_some hfind)
    (hmoving.before.mem_iff.2 List.mem_cons_self) rfl
  cases hsame
  exact takesFrom_iff.1 (by simpa using List.find?_some hfind)

namespace Moving

variable {number on into : Nat} {o t t' : OneRead ρ β ε} {rest : Reads ρ β ε}

/-- What is summed over the reads, nothing where none takes from one, is after a move what it was but for the two. -/
theorem sum_map (h : Moving reads number reads' on o into t t' rest) (f : Nat × OneRead ρ β ε → Nat)
    (hnone : ∀ p : Nat × OneRead ρ β ε, p.2.readers = [] → f p = 0) :
    (reads'.map f).sum + f (on, o) + f (into, t) = (reads.map f).sum + f (on, o.leave number) + f (into, t') := by
  have hbefore := (h.before.map f).sum_eq
  have hafter := (h.after.map f).sum_eq
  have hstill : ((stillRead (on, o.leave number)).map f).sum = f (on, o.leave number) := by
    unfold stillRead
    split
    · next hempty => rw [hnone _ (List.isEmpty_iff.1 hempty), List.map_nil, List.sum_nil]
    · rw [List.map_singleton, List.sum_singleton]
  rw [List.map_append, List.sum_append, List.map_cons, List.sum_cons, hstill] at hafter
  rw [List.map_cons, List.map_cons, List.sum_cons, List.sum_cons] at hbefore
  omega

theorem length_joined (h : Moving reads number reads' on o into t t' rest) : t'.readers.length = t.readers.length + 1 := by
  have hlength := congrArg List.length h.joined
  rwa [List.length_map, List.length_append, List.length_map, List.length_singleton] at hlength

theorem nodup_numbers (h : Moving reads number reads' on o into t t' rest) (hs : Listed reads) :
    (o.readers.map Reader.number).Nodup := by
  have hperm := (h.before.flatMap_right numbers).nodup_iff.1 hs.once
  rw [List.flatMap_cons] at hperm
  exact (List.nodup_append.1 hperm).1

theorem length_left (h : Moving reads number reads' on o into t t' rest) (hs : Listed reads)
    (hmem : number ∈ o.readers.map Reader.number) : o.readers.length = (o.leave number).readers.length + 1 := by
  have hlength := (numbers_perm hmem (h.nodup_numbers hs)).length_eq
  rwa [List.length_map, List.length_cons, List.length_map] at hlength

/-- The departures are the same after a move. -/
theorem numbers_perm (h : Moving reads number reads' on o into t t' rest) (hs : Listed reads)
    (hmem : number ∈ o.readers.map Reader.number) : (reads'.flatMap numbers).Perm (reads.flatMap numbers) := by
  have hstill : (stillRead (on, o.leave number)).flatMap numbers = (o.leave number).readers.map Reader.number := by
    unfold stillRead
    split
    · next hempty =>
      have hnil : (o.leave number).readers = [] := List.isEmpty_iff.1 hempty
      rw [List.flatMap_nil, hnil, List.map_nil]
    · exact List.flatMap_singleton _ _
  have hbefore := h.before.flatMap_right numbers
  have hafter := h.after.flatMap_right numbers
  have hown := StreamShare.numbers_perm hmem (h.nodup_numbers hs)
  have hjoined : numbers (into, t') = numbers (into, t) ++ [number] := h.joined
  have hmoved : (((o.leave number).readers.map Reader.number ++ numbers (into, t)) ++ number :: rest.flatMap numbers).Perm _ :=
    List.perm_middle
  rw [List.flatMap_append, List.flatMap_cons, hstill, hjoined] at hafter
  rw [List.flatMap_cons, List.flatMap_cons] at hbefore
  have hleft := (hown.append_right (numbers (into, t) ++ rest.flatMap numbers)).symm
  simp only [List.append_assoc, List.cons_append, List.nil_append] at hafter hmoved hleft
  exact hafter.trans (hmoved.trans (hleft.trans hbefore.symm))

theorem listed (h : Moving reads number reads' on o into t t' rest) (hs : Listed reads)
    (hmem : number ∈ o.readers.map Reader.number) : Listed reads' where
  order := hs.order.sublist h.ids
  once := (h.numbers_perm hs hmem).nodup_iff.2 hs.once

end Moving

/-! ### Every run of moves ends -/

/-- How many departures take from a read. -/
def readers (p : Nat × OneRead ρ β ε) : Nat := p.2.readers.length

def departures (reads : Reads ρ β ε) : Nat := (reads.map readers).sum

/-- The squares of how many departures take from each read. -/
def squares (reads : Reads ρ β ε) : Nat := (reads.map fun p => readers p * readers p).sum

/-- Where each departure's read is among the reads, by `place`. -/
def places (place : Nat → Nat) (reads : Reads ρ β ε) : Nat := (reads.map fun p => readers p * place p.1).sum

/-- What each move of `n` departures on reads at places up to `m` makes smaller. -/
def rank (place : Nat → Nat) (n m : Nat) (reads : Reads ρ β ε) : Nat :=
  (n * n - squares reads) * (n * m + 1) + places place reads

theorem squares_le (reads : Reads ρ β ε) : squares reads ≤ departures reads * departures reads := by
  induction reads with
  | nil => exact Nat.le_refl 0
  | cons p reads ih =>
    have hsquare : (readers p + departures reads) * (readers p + departures reads) =
        readers p * readers p + departures reads * departures reads + 2 * (readers p * departures reads) := by ring
    simp only [squares, departures, List.map_cons, List.sum_cons] at ih hsquare ⊢
    omega

theorem places_le {place : Nat → Nat} {m : Nat} (h : ∀ p ∈ reads, place p.1 ≤ m) :
    places place reads ≤ departures reads * m := by
  induction reads with
  | nil => exact Nat.zero_le _
  | cons p reads ih =>
    obtain ⟨hp, hreads⟩ := List.forall_mem_cons.1 h
    have hone : readers p * place p.1 ≤ readers p * m := Nat.mul_le_mul_left _ hp
    have hrest := ih hreads
    simp only [places, departures, List.map_cons, List.sum_cons, Nat.add_mul] at hrest ⊢
    omega

namespace Moving

variable {number on into : Nat} {o t t' : OneRead ρ β ε} {rest : Reads ρ β ε}

theorem departures_eq (h : Moving reads number reads' on o into t t' rest) (hs : Listed reads)
    (hmem : number ∈ o.readers.map Reader.number) : departures reads' = departures reads := by
  have hsum := h.sum_map readers fun p hp => by rw [readers, hp, List.length_nil]
  have hjoined := h.length_joined
  have hleft := h.length_left hs hmem
  simp only [departures, readers] at hsum ⊢
  omega

/-- A move makes more of the squares, or no less and brings the departure to a read opened before. -/
theorem squares_lt_or (h : Moving reads number reads' on o into t t' rest) (hs : Listed reads)
    (hmem : number ∈ o.readers.map Reader.number) :
    squares reads < squares reads' ∨ squares reads' = squares reads ∧ into < on := by
  have hsum := h.sum_map (fun p => readers p * readers p) fun p hp => by
    rw [readers, hp, List.length_nil]
  have hjoined := h.length_joined
  have hleft := h.length_left hs hmem
  have hmore := h.more
  generalize hk : (o.leave number).readers.length = k at hsum hleft
  simp only [readers, hjoined, hleft, hk] at hsum
  have hown : (k + 1) * (k + 1) = k * k + 2 * k + 1 := by ring
  have hother : (t.readers.length + 1) * (t.readers.length + 1) =
      t.readers.length * t.readers.length + 2 * t.readers.length + 1 := by ring
  simp only [squares, readers]
  rcases hmore with hlt | ⟨heq, hbefore⟩
  · left
    omega
  · right
    exact ⟨by omega, hbefore⟩

theorem places_lt (h : Moving reads number reads' on o into t t' rest) (hs : Listed reads)
    (hmem : number ∈ o.readers.map Reader.number) {place : Nat → Nat} (hplace : place into < place on) :
    places place reads' < places place reads := by
  have hsum := h.sum_map (fun p => readers p * place p.1) fun p hp => by
    rw [readers, hp, List.length_nil, Nat.zero_mul]
  have hjoined := h.length_joined
  have hleft := h.length_left hs hmem
  simp only [readers, hjoined, hleft, Nat.add_mul, Nat.one_mul] at hsum
  simp only [places, readers]
  omega

theorem rank_lt (h : Moving reads number reads' on o into t t' rest) (hs : Listed reads)
    (hmem : number ∈ o.readers.map Reader.number) {place : Nat → Nat} {m : Nat} (hm : ∀ p ∈ reads', place p.1 ≤ m)
    (hplace : into < on → place into < place on) :
    rank place (departures reads) m reads' < rank place (departures reads) m reads := by
  have hn := h.departures_eq hs hmem
  have hsquares := squares_le reads'
  have hbound := places_le hm
  rw [hn] at hsquares hbound
  unfold rank
  generalize departures reads = n at hsquares hbound ⊢
  rcases h.squares_lt_or hs hmem with hlt | ⟨heq, hbefore⟩
  · -- One square more outweighs whatever the places come to.
    have hdown : n * n - squares reads' + 1 ≤ n * n - squares reads := by omega
    have hweight := Nat.mul_le_mul_right (n * m + 1) hdown
    rw [Nat.add_mul, Nat.one_mul] at hweight
    omega
  · have hplaces := h.places_lt hs hmem (hplace hbefore)
    rw [heq]
    omega

end Moving

/-- How many of the reads numbered `ids` are before `id`. -/
def placeIn (ids : List Nat) (id : Nat) : Nat := ids.countP fun other => decide (other < id)

theorem placeIn_lt {ids : List Nat} {x y : Nat} (hx : x ∈ ids) (hlt : x < y) : placeIn ids x < placeIn ids y := by
  have hperm := List.perm_cons_erase hx
  have hmono : placeIn (ids.erase x) x ≤ placeIn (ids.erase x) y :=
    List.countP_mono_left fun other _ hother => decide_eq_true ((of_decide_eq_true hother).trans hlt)
  unfold placeIn at hmono ⊢
  rw [hperm.countP_eq, hperm.countP_eq, List.countP_cons_of_neg (by simp), List.countP_cons_of_pos (by simpa using hlt)]
  omega

/-- Departures that only move make no more moves than so many. -/
theorem length_moves_le {place : Nat → Nat} {ms : List Mover} (hs : Listed reads)
    (h : runWhere (moves place) Always reads ms = some reads') :
    ms.length ≤ departures reads * departures reads * (departures reads * reads.length + 1) +
      departures reads * reads.length := by
  have hplace : ∀ id, placeIn (reads.map Prod.fst) id ≤ reads.length := fun id => by
    have hcount : placeIn (reads.map Prod.fst) id ≤ (reads.map Prod.fst).length := List.countP_le_length
    rwa [List.length_map] at hcount
  have hstep : ∀ (s : Reads ρ β ε) (m : Mover) (s' : Reads ρ β ε),
      Listed s ∧ departures s = departures reads ∧ (s.map Prod.fst).Sublist (reads.map Prod.fst) →
      moves place s m = some s' →
      (Listed s' ∧ departures s' = departures reads ∧ (s'.map Prod.fst).Sublist (reads.map Prod.fst)) ∧
        rank (placeIn (reads.map Prod.fst)) (departures reads) reads.length s' <
          rank (placeIn (reads.map Prod.fst)) (departures reads) reads.length s := by
    rintro s m s' ⟨hlisted, hn, hids⟩ hmoves
    obtain ⟨on, o, into, t, t', rest, hmoving, -, hmem⟩ := moves_moving hlisted hmoves
    refine ⟨⟨hmoving.listed hlisted hmem, (hmoving.departures_eq hlisted hmem).trans hn, hmoving.ids.trans hids⟩, ?_⟩
    have hinto : into ∈ reads.map Prod.fst := by
      refine hids.subset ((hmoving.before.map Prod.fst).mem_iff.2 ?_)
      exact List.mem_cons_of_mem _ List.mem_cons_self
    have hlt := hmoving.rank_lt hlisted hmem (fun p _ => hplace p.1) (placeIn_lt hinto)
    rwa [hn] at hlt
  have hrun := length_le_of_runWhere _ hstep ⟨hs, rfl, List.Sublist.refl _⟩ h
  have hplaces : places (placeIn (reads.map Prod.fst)) reads ≤ departures reads * reads.length :=
    places_le fun p _ => hplace p.1
  have hleft : (departures reads * departures reads - squares reads) * (departures reads * reads.length + 1) ≤
      departures reads * departures reads * (departures reads * reads.length + 1) :=
    Nat.mul_le_mul_right _ (Nat.sub_le _ _)
  unfold rank at hrun
  omega

/-! ### A departure that alone moves does not come back -/

/-- How many departures beside `number` take from a read. -/
def others (number : Nat) (p : Nat × OneRead ρ β ε) : Nat := ((numbers p).filter (· != number)).length

/-- A departure takes from one read. -/
theorem Listed.eq_of_mem (hs : Listed reads) {number : Nat} {p q : Nat × OneRead ρ β ε} (hp : p ∈ reads) (hq : q ∈ reads)
    (hnp : number ∈ numbers p) (hnq : number ∈ numbers q) : p = q := by
  have hdisjoint := (List.nodup_flatMap.1 hs.once).2
  have hsame := List.Pairwise.forall_of_forall_of_flip (R := fun p q => number ∈ numbers p → number ∈ numbers q → p = q)
    (fun _ _ _ _ => rfl) (hdisjoint.imp fun hd hp hq => absurd hq (hd hp))
    (hdisjoint.imp fun {a b} hd => show number ∈ numbers b → number ∈ numbers a → b = a from
      fun hb ha => absurd hb (hd ha))
  exact hsame hp hq hnp hnq

theorem Listed.readOf_eq (hs : Listed reads) {number : Nat} {p : Nat × OneRead ρ β ε} (hp : p ∈ reads)
    (hnp : number ∈ numbers p) : readOf reads number = some p.1 := by
  have htakes : takesFrom number p.2 = true := takesFrom_iff.2 hnp
  unfold readOf
  cases hfind : reads.find? fun p => takesFrom number p.2 with
  | none => exact absurd htakes (by simpa using List.find?_eq_none.1 hfind p hp)
  | some q =>
    have hq : takesFrom number q.2 = true := by simpa using List.find?_some hfind
    rw [hs.eq_of_mem hp (List.mem_of_find?_eq_some hfind) hnp (takesFrom_iff.1 hq)]
    rfl

theorem Listed.eq_of_fst (hs : Listed reads) {p q : Nat × OneRead ρ β ε} (hp : p ∈ reads) (hq : q ∈ reads)
    (hfst : p.1 = q.1) : p = q :=
  List.inj_on_of_nodup_map (hs.order.imp fun hlt => Nat.ne_of_lt hlt) hp hq hfst

namespace Moving

variable {number on into : Nat} {o t t' : OneRead ρ β ε} {rest : Reads ρ β ε}

theorem mem_on (h : Moving reads number reads' on o into t t' rest) : (on, o) ∈ reads :=
  h.before.mem_iff.2 List.mem_cons_self

theorem mem_into (h : Moving reads number reads' on o into t t' rest) : (into, t) ∈ reads :=
  h.before.mem_iff.2 (List.mem_cons_of_mem _ List.mem_cons_self)

theorem mem_joined (h : Moving reads number reads' on o into t t' rest) :
    (into, t') ∈ reads' ∧ number ∈ numbers (into, t') := by
  have hjoined : numbers (into, t') = t.readers.map Reader.number ++ [number] := h.joined
  refine ⟨h.after.mem_iff.2 (List.mem_append_right _ List.mem_cons_self), ?_⟩
  rw [hjoined]
  exact List.mem_append_right _ List.mem_cons_self

/-- The departures beside the one that moves are on their reads still. -/
theorem others_eq (h : Moving reads number reads' on o into t t' rest) :
    ∀ p ∈ reads', ∃ q ∈ reads, q.1 = p.1 ∧ others number p = others number q := by
  intro p hp
  rcases List.mem_append.1 (h.after.mem_iff.1 hp) with hstill | hrest
  · have hp : p = (on, o.leave number) := by
      unfold stillRead at hstill
      split at hstill
      · cases hstill
      · exact List.mem_singleton.1 hstill
    refine ⟨(on, o), h.mem_on, by rw [hp], ?_⟩
    rw [hp, others, numbers, numbers_leave, List.filter_filter]
    simp only [Bool.and_self]
    rfl
  · rcases List.mem_cons.1 hrest with rfl | hrest
    · refine ⟨(into, t), h.mem_into, rfl, ?_⟩
      rw [others, numbers, h.joined, List.filter_append]
      simp only [bne_self_eq_false, List.filter_cons_of_neg, List.filter_nil, List.append_nil, Bool.false_eq_true,
        not_false_eq_true]
      rfl
    · exact ⟨p, h.before.mem_iff.2 (List.mem_cons_of_mem _ (List.mem_cons_of_mem _ hrest)), rfl, rfl⟩

/-- It moves where more departures beside it take from the read, or as many from one opened before. -/
theorem others_lt_or (h : Moving reads number reads' on o into t t' rest) (hs : Listed reads)
    (hmem : number ∈ o.readers.map Reader.number) :
    others number (on, o) < others number (into, t') ∨ others number (into, t') = others number (on, o) ∧ into < on := by
  have hne : (on, o) ≠ (into, t) := by
    intro heq
    have hids : (on :: into :: rest.map Prod.fst).Nodup :=
      (h.before.map Prod.fst).nodup_iff.1 (hs.order.imp fun hlt => Nat.ne_of_lt hlt)
    obtain rfl : on = into := congrArg Prod.fst heq
    exact (List.nodup_cons.1 hids).1 List.mem_cons_self
  have hnot : number ∉ t.readers.map Reader.number := fun hin => hne (hs.eq_of_mem h.mem_on h.mem_into hmem hin)
  have hown : others number (on, o) = o.readers.length - 1 := by
    have hleft := h.length_left hs hmem
    have hlength := congrArg List.length (numbers_leave o number)
    rw [List.length_map] at hlength
    rw [others, numbers, ← hlength]
    omega
  have hother : others number (into, t') = t.readers.length := by
    have hall : (t.readers.map Reader.number).filter (· != number) = t.readers.map Reader.number := by
      refine List.filter_eq_self.2 fun other hother => bne_iff_ne.2 ?_
      rintro rfl
      exact hnot hother
    rw [others, numbers, h.joined, List.filter_append, hall, List.length_append, List.length_map]
    simp
  rw [hown, hother]
  exact h.more

end Moving

/-- What a departure that alone moved since the reads were `start` is ahead of: its read then, `on`, where so many others
took from it. -/
structure Ahead (start : Reads ρ β ε) (number on alone : Nat) (reads : Reads ρ β ε) : Prop where
  listed : Listed reads
  kept : ∀ p ∈ reads, ∃ q ∈ start, q.1 = p.1 ∧ others number p = others number q
  ahead : ∃ p ∈ reads, number ∈ numbers p ∧ (alone < others number p ∨ others number p = alone ∧ p.1 < on)

theorem Ahead.moves {start : Reads ρ β ε} {number on alone : Nat} {place : Nat → Nat} {m : Mover}
    (h : Ahead start number on alone reads) (hm : m.number = number) (hmoves : moves place reads m = some reads') :
    Ahead start number on alone reads' := by
  obtain ⟨on', o, into, t, t', rest, hmoving, -, hmem⟩ := moves_moving h.listed hmoves
  rw [hm] at hmoving hmem
  obtain ⟨p, hp, hnp, hahead⟩ := h.ahead
  obtain rfl : p = (on', o) := h.listed.eq_of_mem hp hmoving.mem_on hnp hmem
  refine ⟨hmoving.listed h.listed hmem, fun q hq => ?_, (into, t'), hmoving.mem_joined.1, hmoving.mem_joined.2, ?_⟩
  · obtain ⟨q', hq', hfst, hothers⟩ := hmoving.others_eq q hq
    obtain ⟨q'', hq'', hfst', hothers'⟩ := h.kept q' hq'
    exact ⟨q'', hq'', hfst'.trans hfst, hothers.trans hothers'⟩
  · have hstep := hmoving.others_lt_or h.listed hmem
    dsimp only at hahead ⊢
    omega

theorem Ahead.run {start : Reads ρ β ε} {number on alone : Nat} {place : Nat → Nat} {ms : List Mover}
    (h : Ahead start number on alone reads) (hall : ∀ m ∈ ms, m.number = number)
    (hrun : runWhere (StreamShare.moves place) Always reads ms = some reads') : Ahead start number on alone reads' := by
  induction ms generalizing reads with
  | nil =>
    simp only [runWhere, Option.some.injEq] at hrun
    exact hrun ▸ h
  | cons m ms ih =>
    obtain ⟨hm, hms⟩ := List.forall_mem_cons.1 hall
    obtain ⟨-, reads₁, hmoves, hrun⟩ := runWhere_cons_iff.1 hrun
    exact ih (h.moves hm hmoves) hms hrun

/-- Where a departure alone moved, it is not on the read it was on. -/
theorem readOf_ne {place : Nat → Nat} {number : Nat} {ms : List Mover} (hs : Listed reads) (hne : ms ≠ [])
    (hall : ∀ m ∈ ms, m.number = number) (h : runWhere (moves place) Always reads ms = some reads') :
    readOf reads' number ≠ readOf reads number := by
  obtain ⟨m, ms, rfl⟩ := List.exists_cons_of_ne_nil hne
  obtain ⟨hm, hms⟩ := List.forall_mem_cons.1 hall
  obtain ⟨-, reads₁, hmoves, hrun⟩ := runWhere_cons_iff.1 h
  obtain ⟨on, o, into, t, t', rest, hmoving, hon, hmem⟩ := moves_moving hs hmoves
  rw [hm] at hmoving hon hmem
  have hfirst : Ahead reads number on (others number (on, o)) reads₁ :=
    ⟨hmoving.listed hs hmem, hmoving.others_eq, (into, t'), hmoving.mem_joined.1, hmoving.mem_joined.2,
      hmoving.others_lt_or hs hmem⟩
  have hlast := hfirst.run hms hrun
  obtain ⟨p, hp, hnp, hahead⟩ := hlast.ahead
  rw [hlast.listed.readOf_eq hp hnp, hon]
  intro heq
  have hback : p.1 = on := Option.some.inj heq
  obtain ⟨q, hq, hfst, hothers⟩ := hlast.kept p hp
  obtain rfl : q = (on, o) := hs.eq_of_fst hq hmoving.mem_on (hfst.trans hback)
  omega

/-- The departures of a Stream that only move do so no more than so often, each read's lock another's or not, and none comes
back to a read it left before another one moved. -/
theorem settles (place : Nat → Nat) {reads : Reads ρ β ε} (hs : Listed reads) :
    (∀ ms reads', runWhere (moves place) Always reads ms = some reads' →
      ms.length ≤ departures reads * departures reads * (departures reads * reads.length + 1) +
        departures reads * reads.length) ∧
    ∀ ms ms' number reads₁ reads₂, runWhere (moves place) Always reads ms = some reads₁ →
      runWhere (moves place) Always reads₁ ms' = some reads₂ → ms' ≠ [] → (∀ m ∈ ms', m.number = number) →
      readOf reads₂ number ≠ readOf reads₁ number := by
  refine ⟨fun ms reads' h => length_moves_le hs h, fun ms ms' number reads₁ reads₂ h h' hne hall => ?_⟩
  have hstep : ∀ (s : Reads ρ β ε) (m : Mover) (s' : Reads ρ β ε), Listed s → moves place s m = some s' → Listed s' := by
    intro s m s' hlisted hmoves
    obtain ⟨on, o, into, t, t', rest, hmoving, -, hmem⟩ := moves_moving hlisted hmoves
    exact hmoving.listed hlisted hmem
  exact readOf_ne (invariant_of_runWhere hstep hs h) hne hall h'

/-! ### A departure moved back -/

/-- A read at `first` of so many chunks, and the departures on it. -/
def readAt (first chunks : Nat) (numbers : List Nat) : OneRead Unit Unit Unit :=
  ⟨0, (), List.replicate chunks [()], first, false, none, numbers.map fun number => ⟨number, 0, 0⟩, none⟩

/-- Departures 0 and 1 are at the Stream's start, on a read of it; the others are five chunks on, two of them on a read that
keeps what is behind them and three on one that does not. -/
def threeReads : Reads Unit Unit Unit := [(0, readAt 5 0 [4, 5, 6]), (1, readAt 0 0 [0, 1]), (2, readAt 0 5 [2, 3])]

def fiveOn (number : Nat) : Nat := if number < 2 then 0 else 5

/-- Departure `number` looks at every read. -/
def mover (number : Nat) : Mover := ⟨number, 0, fun _ => false⟩

theorem settles_threeReads :
    [mover 0].length ≤ departures threeReads * departures threeReads * (departures threeReads * threeReads.length + 1) +
        departures threeReads * threeReads.length ∧
      readOf (leave (joinAt threeReads 2 0 0 0) 1 0) 0 ≠ readOf threeReads 0 :=
  have hs : Listed threeReads := by decide
  ⟨(settles fiveOn hs).1 [mover 0] (leave (joinAt threeReads 2 0 0 0) 1 0) rfl,
    (settles fiveOn hs).2 [] [mover 0] 0 threeReads (leave (joinAt threeReads 2 0 0 0) 1 0) rfl rfl (by decide)
      (by simp [mover])⟩

/-- Departure 0 moves from the read 1 to the read 2, the two it meets there move on, and it moves back. -/
theorem moved_back :
    Listed threeReads ∧ readOf threeReads 0 = some 1 ∧
      (runWhere (moves fiveOn) Always threeReads [mover 0]).bind (fun reads => readOf reads 0) = some 2 ∧
      (runWhere (moves fiveOn) Always threeReads [mover 0, mover 2, mover 3]).bind (fun reads => readOf reads 0) = some 2 ∧
      (runWhere (moves fiveOn) Always threeReads [mover 0, mover 2, mover 3, mover 0]).bind (fun reads => readOf reads 0) =
        some 1 := by
  decide

end StreamShare
