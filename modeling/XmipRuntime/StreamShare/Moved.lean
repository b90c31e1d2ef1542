import XmipRuntime.StreamShare.Settles

/-!
# A departure's steps of moving

A departure that moves takes the list's lock, looks at one read after the other and leaves its own, each in a step of its own
of the machine (`Sys.moves`).  Taken one after the other they come to what `moved` says of the reads its Stream lists:
where it stays, those reads are what they were, and where it moves, it takes from the read `moved` names and the reads are
as `moved` leaves them (`move_run`).
-/

namespace StreamShare

open Library

variable {ρ ω β ε : Type}

/-! ### The reads a Stream lists -/

/-- The reads numbered `ids`, each with its number. -/
def listing (reads : List (OneRead ρ β ε)) (ids : List Nat) : Reads ρ β ε :=
  ids.filterMap fun i => reads[i]?.map fun o => (i, o)

section Listing

variable {reads : List (OneRead ρ β ε)} {ids : List Nat} {i : Nat} {o : OneRead ρ β ε}

theorem mem_listing : (i, o) ∈ listing reads ids ↔ i ∈ ids ∧ reads[i]? = some o := by
  unfold listing
  rw [List.mem_filterMap]
  constructor
  · rintro ⟨j, hj, heq⟩
    obtain ⟨o', ho', heq⟩ := Option.map_eq_some_iff.1 heq
    cases heq
    exact ⟨hj, ho'⟩
  · rintro ⟨hi, ho⟩
    exact ⟨i, hi, by rw [ho]; rfl⟩

theorem listing_cons (ho : reads[i]? = some o) : listing reads (i :: ids) = (i, o) :: listing reads ids := by
  unfold listing
  rw [List.filterMap_cons, ho]
  rfl

theorem map_fst_listing (h : ∀ i ∈ ids, ∃ o, reads[i]? = some o) : (listing reads ids).map Prod.fst = ids := by
  induction ids with
  | nil => rfl
  | cons i ids ih =>
    obtain ⟨⟨o, ho⟩, hrest⟩ := List.forall_mem_cons.1 h
    rw [listing_cons ho, List.map_cons, ih hrest]

theorem listing_set (f : OneRead ρ β ε → OneRead ρ β ε) (ho : reads[i]? = some o) :
    listing (reads.set i (f o)) ids = (listing reads ids).map fun p => if p.1 = i then (p.1, f p.2) else p := by
  obtain ⟨hi, -⟩ := List.getElem?_eq_some_iff.1 ho
  unfold listing
  rw [List.map_filterMap]
  refine List.filterMap_congr fun j _ => ?_
  by_cases hj : j = i
  · subst hj
    rw [List.getElem?_set_self hi, ho]
    simp
  · rw [List.getElem?_set_ne (Ne.symm hj)]
    cases reads[j]? with
    | none => rfl
    | some o' => simp [hj]

theorem listing_filter (keep : Nat → Bool) :
    listing reads (ids.filter keep) = (listing reads ids).filter fun p => keep p.1 := by
  unfold listing
  rw [List.filterMap_filter, List.filter_filterMap]
  refine List.filterMap_congr fun j _ => ?_
  cases reads[j]? with
  | none => simp
  | some o => cases hkeep : keep j <;> simp [Option.filter, hkeep]

theorem listing_join {number place now : Nat} (ho : reads[i]? = some o) :
    listing (reads.set i (o.join number place now)) ids = joinAt (listing reads ids) i number place now :=
  listing_set (OneRead.join · number place now) ho

/-- A departure gone from its read is gone from it in the list, the read too where none takes from it any more. -/
theorem listing_leave {number : Nat} (ho : reads[i]? = some o) :
    listing (reads.set i (o.leave number))
        (if (o.leave number).readers.isEmpty then ids.filter fun j => decide (j ≠ i) else ids) =
      leave (listing reads ids) i number := by
  obtain ⟨hi, -⟩ := List.getElem?_eq_some_iff.1 ho
  unfold leave
  rw [← listing_set (OneRead.leave · number) ho]
  have hleft : ∀ p ∈ listing (reads.set i (o.leave number)) ids, p.1 = i → p.2 = o.leave number := by
    rintro ⟨j, o'⟩ hp rfl
    obtain ⟨-, ho'⟩ := mem_listing.1 hp
    rw [List.getElem?_set_self hi] at ho'
    exact (Option.some.inj ho').symm
  cases hempty : (o.leave number).readers.isEmpty with
  | true =>
    rw [if_pos rfl, listing_filter]
    refine List.filter_congr fun p hp => ?_
    by_cases hj : p.1 = i
    · rw [hleft p hp hj, hempty]
      simp
    · simp [hj]
  | false =>
    rw [if_neg Bool.false_ne_true]
    refine (List.filter_eq_self.2 fun p hp => ?_).symm
    by_cases hj : p.1 = i
    · rw [hleft p hp hj, hempty]
      simp
    · simp [hj]

/-- A read is at the same place among those listed as its number among the list's. -/
theorem findIdx?_listing (on : Nat) (h : ∀ i ∈ ids, ∃ o, reads[i]? = some o) :
    ((listing reads ids).findIdx? fun p => decide (p.1 = on)) = ids.idxOf? on := by
  have hfst := map_fst_listing h
  unfold List.idxOf?
  conv_rhs => rw [← hfst]
  rw [List.findIdx?_map]
  rfl

/-- The read of that number is at its place. -/
theorem getElem?_listing {on mine : Nat} (h : ∀ i ∈ ids, ∃ o, reads[i]? = some o) (hmine : ids.idxOf? on = some mine) :
    ∃ o, (listing reads ids)[mine]? = some (on, o) ∧ reads[on]? = some o := by
  obtain ⟨hlt, hon, -⟩ := List.findIdx?_eq_some_iff_getElem.1 ((findIdx?_listing on h).trans hmine)
  cases hget : (listing reads ids)[mine] with
  | mk j o =>
    rw [hget] at hon
    obtain rfl : j = on := of_decide_eq_true hon
    have hat : (listing reads ids)[mine]? = some (j, o) := List.getElem?_eq_some_iff.2 ⟨hlt, hget⟩
    exact ⟨o, hat, (mem_listing.1 (List.mem_of_getElem? hat)).2⟩

end Listing

/-! ### Looking at one read after the other -/

/-- The departure `k`, `l`, in `phase`. -/
def Sys.inPhase (s : Sys ρ β ε) (k : Nat) (l : Lent β ε) (phase : Phase) : Sys ρ β ε :=
  { s with lents := s.lents.set k { l with phase } }

/-- What `moved` finds of one read it looks at: its number, where the departure at `place` moves there from its own, which is
the read `mine` of the list and has `others` beside it. -/
def follows (busy : Nat → Bool) (mine others place : Nat) (p : (Nat × OneRead ρ β ε) × Nat) : Option Nat :=
  if p.2 = mine then none
  else if busy p.1.1 then none
  else
    let readers := p.1.2.readers.length
    let more := decide (readers > others) || (decide (readers = others) && decide (p.2 < mine))
    if more && p.1.2.reaches place then some p.1.1 else none

/-- Each of the reads `ids` is there, and one whose lock is not `busy` is held by none. -/
def Sys.Open (s : Sys ρ β ε) (busy : Nat → Bool) (ids : List Nat) : Prop :=
  ∀ i ∈ ids, ∃ o, s.reads[i]? = some o ∧ (busy i = false → o.holder = none)

variable {c : Settings ρ ω β ε} {s : Sys ρ β ε} {k : Nat} {l : Lent β ε} {shared : Shared} {busy : Nat → Bool}
  {out mine others now : Nat}

theorem get_inPhase (hl : s.lents[k]? = some l) (phase : Phase) :
    (s.inPhase k l phase).lents[k]? = some { l with phase } := by
  obtain ⟨hk, -⟩ := List.getElem?_eq_some_iff.1 hl
  exact List.getElem?_set_self hk

/-- A departure that moves takes its steps in its Stream's list. -/
theorem next_moves {a : Action ω} (hl : s.lents[k]? = some l) (hshared : s.shareds.get l.stream = some shared)
    (ha : a = .move k ∨ (∃ now b, a = .tryMove k now b) ∨ a = .leave k) : s.next c a = s.moves k l shared a := by
  rcases ha with rfl | ⟨now, b, rfl⟩ | rfl <;>
    simp only [Sys.next, Sys.departure, Option.bind_eq_bind, Option.bind_some, hl, hshared]

theorem next_tryMove {phase : Phase} (hl : s.lents[k]? = some l) (hshared : s.shareds.get l.stream = some shared) (b : Bool) :
    (s.inPhase k l phase).next c (.tryMove k now b) =
      (s.inPhase k l phase).moves k { l with phase } shared (.tryMove k now b : Action ω) :=
  next_moves (get_inPhase hl phase) hshared (.inr (.inl ⟨now, b, rfl⟩))

/-- Once every read was looked at the list is let go of. -/
theorem tryMove_nil (hl : s.lents[k]? = some l) (hshared : s.shareds.get l.stream = some shared) (b : Bool) :
    (s.inPhase k l (.moving out others mine [])).next c (.tryMove k now b) =
      some { s.inPhase k l (.asking out) with shareds := s.shareds.put l.stream { shared with holder := none } } := by
  rw [next_tryMove hl hshared]
  simp [Sys.moves, Sys.inPhase]

/-- A read that may be moved to is joined; another is passed over. -/
theorem tryMove_cons {i pos : Nat} {pending : List (Nat × Nat)} {o : OneRead ρ β ε} (hl : s.lents[k]? = some l)
    (hshared : s.shareds.get l.stream = some shared) (ho : s.reads[i]? = some o) (hfree : busy i = false → o.holder = none) :
    (s.inPhase k l (.moving out others mine ((i, pos) :: pending))).next c (.tryMove k now (busy i)) =
      some (if (follows busy mine others l.place ((i, o), pos)).isSome then
        { s.inPhase k l (.leaving out i) with reads := s.reads.set i (o.join l.number l.place now) }
      else s.inPhase k l (.moving out others mine pending)) := by
  rw [next_tryMove hl hshared]
  unfold follows
  by_cases hmine : pos = mine
  · simp [Sys.moves, Sys.inPhase, hmine]
  · cases hbusy : busy i with
    | true => simp [Sys.moves, Sys.inPhase, hmine]
    | false =>
      have hnone : o.holder = none := hfree hbusy
      simp only [Sys.moves, Sys.inPhase, hmine, ho, hnone, Option.isSome_none, false_or, if_false, Bool.false_eq_true,
        Option.bind_eq_bind, Option.bind_some, List.set_set]
      split
      · rfl
      · rfl

theorem eq_of_follows {place into : Nat} {p : (Nat × OneRead ρ β ε) × Nat}
    (h : follows busy mine others place p = some into) : into = p.1.1 := by
  unfold follows at h
  split at h
  · cases h
  split at h
  · cases h
  exact (Option.some.inj (Option.ite_none_right_eq_some.1 h).2).symm

/-- None of the reads may be moved to: each is passed over. -/
theorem tryMove_run_none (now : Nat) {ids : List Nat} {n : Nat} (hl : s.lents[k]? = some l)
    (hshared : s.shareds.get l.stream = some shared) (hopen : s.Open busy ids)
    (h : ((listing s.reads ids).zipIdx n).findSome? (follows busy mine others l.place) = none) :
    ∃ as, (∀ a ∈ as, Sys.departure a = some k) ∧
      runWhere (Sys.next c) Always (s.inPhase k l (.moving out others mine (ids.zipIdx n))) as =
        some { s.inPhase k l (.asking out) with shareds := s.shareds.put l.stream { shared with holder := none } } := by
  induction ids generalizing n with
  | nil =>
    refine ⟨[.tryMove k now false], List.forall_mem_singleton.2 rfl, ?_⟩
    exact runWhere_cons_iff.2 ⟨trivial, _, tryMove_nil hl hshared false, rfl⟩
  | cons i ids ih =>
    obtain ⟨⟨o, ho, hfree⟩, hrest⟩ := List.forall_mem_cons.1 hopen
    rw [listing_cons ho, List.zipIdx_cons, List.findSome?_cons] at h
    cases hfollows : follows busy mine others l.place ((i, o), n) with
    | some into => rw [hfollows] at h; cases h
    | none =>
      rw [hfollows] at h
      obtain ⟨as, hall, hrun⟩ := ih hrest h
      refine ⟨.tryMove k now (busy i) :: as, List.forall_mem_cons.2 ⟨rfl, hall⟩, ?_⟩
      refine runWhere_cons_iff.2 ⟨trivial, _, tryMove_cons hl hshared ho hfree, ?_⟩
      rw [hfollows]
      exact hrun

/-- The first read that may be moved to is joined. -/
theorem tryMove_run_some (out now : Nat) {ids : List Nat} {n into : Nat} (hl : s.lents[k]? = some l)
    (hshared : s.shareds.get l.stream = some shared) (hopen : s.Open busy ids)
    (h : ((listing s.reads ids).zipIdx n).findSome? (follows busy mine others l.place) = some into) :
    ∃ as o, (∀ a ∈ as, Sys.departure a = some k) ∧ s.reads[into]? = some o ∧
      runWhere (Sys.next c) Always (s.inPhase k l (.moving out others mine (ids.zipIdx n))) as =
        some { s.inPhase k l (.leaving out into) with reads := s.reads.set into (o.join l.number l.place now) } := by
  induction ids generalizing n with
  | nil => cases h
  | cons i ids ih =>
    obtain ⟨⟨o, ho, hfree⟩, hrest⟩ := List.forall_mem_cons.1 hopen
    rw [listing_cons ho, List.zipIdx_cons, List.findSome?_cons] at h
    cases hfollows : follows busy mine others l.place ((i, o), n) with
    | some into' =>
      rw [hfollows] at h
      cases h
      obtain rfl : i = into := (eq_of_follows hfollows).symm
      refine ⟨[.tryMove k now (busy i)], o, List.forall_mem_singleton.2 rfl, ho, ?_⟩
      refine runWhere_cons_iff.2 ⟨trivial, _, tryMove_cons hl hshared ho hfree, ?_⟩
      rw [hfollows]
      rfl
    | none =>
      rw [hfollows] at h
      obtain ⟨as, o', hall, ho', hrun⟩ := ih hrest h
      refine ⟨.tryMove k now (busy i) :: as, o', List.forall_mem_cons.2 ⟨rfl, hall⟩, ho', ?_⟩
      refine runWhere_cons_iff.2 ⟨trivial, _, tryMove_cons hl hshared ho hfree, ?_⟩
      rw [hfollows]
      exact hrun

/-! ### A whole move -/

/-- `s'` is `s` once the departure `k`, `l`, asks the read `x.1` for its next chunk, its Stream's list let go of and the reads
in it `x.2`. -/
structure MovedTo (s : Sys ρ β ε) (k : Nat) (l : Lent β ε) (out : Nat) (x : Nat × Reads ρ β ε) (s' : Sys ρ β ε) :
    Prop where
  lents : s'.lents = s.lents.set k { l with read := some x.1, phase := .asking out }
  listed : ∃ shared, s'.shareds.get l.stream = some shared ∧ shared.holder = none ∧ listing s'.reads shared.reads = x.2

variable {on : Nat}

theorem movedTo_stays {s' : Sys ρ β ε} {shared' : Shared} (hread : l.read = some on)
    (hlents : s'.lents = s.lents.set k { l with phase := .asking out }) (hreads : s'.reads = s.reads)
    (hshared : s'.shareds.get l.stream = some shared') (hholder : shared'.holder = none) (hids : shared'.reads = shared.reads) :
    MovedTo s k l out (on, listing s.reads shared.reads) s' where
  lents := by rw [hlents, ← hread]
  listed := ⟨shared', hshared, hholder, by rw [hreads, hids]⟩

/-- With no read beside its own it stays. -/
theorem move_stays (hl : s.lents[k]? = some l) (hphase : l.phase = .starting out) (hread : l.read = some on)
    (hshared : s.shareds.get l.stream = some shared) (hholder : shared.holder = none)
    (h : shared.reads.length < 2 ∨ shared.reads.idxOf? on = none) :
    s.next c (.move k) = some (s.inPhase k l (.asking out)) := by
  have hnext := next_moves (c := c) hl hshared (.inl rfl)
  rw [hnext]
  rcases h with hshort | hmine
  · simp [Sys.moves, Sys.inPhase, hphase, hholder, hshort]
  · simp [Sys.moves, Sys.inPhase, hphase, hholder, hread, hmine]

/-- It takes the list's lock to look at the others. -/
theorem move_looks {o : OneRead ρ β ε} (hl : s.lents[k]? = some l) (hphase : l.phase = .starting out)
    (hread : l.read = some on) (hshared : s.shareds.get l.stream = some shared) (hholder : shared.holder = none)
    (hlong : ¬ shared.reads.length < 2) (hmine : shared.reads.idxOf? on = some mine) (ho : s.reads[on]? = some o)
    (hfree : o.holder = none) :
    s.next c (.move k) = some ({ s with shareds := s.shareds.put l.stream { shared with holder := some k } }.inPhase k l
      (.moving out (o.readers.length - 1) mine shared.reads.zipIdx)) := by
  have hnext := next_moves (c := c) hl hshared (.inl rfl)
  rw [hnext]
  simp [Sys.moves, Sys.inPhase, hphase, hholder, hread, hmine, hlong, ho, hfree]

/-- It leaves the read it takes from for the one it joined, and lets go of the list. -/
theorem leave_step {into : Nat} {o : OneRead ρ β ε} (hl : s.lents[k]? = some l)
    (hshared : s.shareds.get l.stream = some shared) (hread : l.read = some on) (ho : s.reads[on]? = some o)
    (hfree : o.holder = none) :
    ∃ s', (s.inPhase k l (.leaving out into)).next c (.leave k) = some s' ∧
      MovedTo s k l out (into, leave (listing s.reads shared.reads) on l.number) s' := by
  have hnext := next_moves (c := c) (get_inPhase hl (.leaving out into)) hshared (.inr (.inr rfl))
  refine ⟨{ s with
      reads := s.reads.set on (o.leave l.number)
      shareds := s.shareds.put l.stream { shared with
        reads := if (o.leave l.number).readers.isEmpty then shared.reads.filter fun j => decide (j ≠ on) else shared.reads
        holder := none }
      lents := s.lents.set k { l with read := some into, phase := .asking out } }, ?_, rfl, _, Table.get_put_self _ _ _, rfl,
    listing_leave ho⟩
  rw [hnext]
  simp [Sys.moves, Sys.leaves, Sys.inPhase, hread, ho, hfree]

/-- Where a departure has a read of a list of two, it moves to the first it may. -/
theorem moved_eq {reads : Reads ρ β ε} {o : OneRead ρ β ε} {number place : Nat} (hlong : ¬ reads.length < 2)
    (hmine : (reads.findIdx? fun p => decide (p.1 = on)) = some mine) (hown : reads[mine]? = some (on, o)) :
    moved reads busy on number place now =
      (reads.zipIdx.findSome? (follows busy mine (o.readers.length - 1) place)).map fun into =>
        (into, leave (joinAt reads into number place now) on number) := by
  unfold moved
  rw [if_neg hlong, hmine, Option.bind_some, hown, Option.bind_some]
  rfl

/-- A read joined is held by whom it was. -/
theorem holder_of_join {reads : List (OneRead ρ β ε)} {into number place : Nat} {o t : OneRead ρ β ε}
    (ht : reads[into]? = some t) (ho : reads[on]? = some o) :
    ∃ o', (reads.set into (t.join number place now))[on]? = some o' ∧ o'.holder = o.holder := by
  obtain ⟨hinto, -⟩ := List.getElem?_eq_some_iff.1 ht
  by_cases heq : into = on
  · subst heq
    obtain rfl : t = o := Option.some.inj (ht.symm.trans ho)
    exact ⟨_, List.getElem?_set_self hinto, rfl⟩
  · exact ⟨o, (List.getElem?_set_ne heq).trans ho, rfl⟩

/-- Looking at the others, a departure moves to the first it may, or stays. -/
theorem looks_run (now : Nat) {o : OneRead ρ β ε} (hl : s.lents[k]? = some l) (hread : l.read = some on)
    (hshared : s.shareds.get l.stream = some shared) (hopen : s.Open busy shared.reads) (ho : s.reads[on]? = some o)
    (hfree : o.holder = none) :
    ∃ as s', (∀ a ∈ as, Sys.departure a = some k) ∧
      runWhere (Sys.next c) Always (s.inPhase k l (.moving out others mine shared.reads.zipIdx)) as = some s' ∧
      MovedTo s k l out ((((listing s.reads shared.reads).zipIdx.findSome? (follows busy mine others l.place)).map fun into =>
        (into, leave (joinAt (listing s.reads shared.reads) into l.number l.place now) on l.number)).getD
          (on, listing s.reads shared.reads)) s' := by
  cases hfound : (listing s.reads shared.reads).zipIdx.findSome? (follows busy mine others l.place) with
  | none =>
    obtain ⟨as, hall, hrun⟩ := tryMove_run_none (c := c) now hl hshared hopen hfound
    exact ⟨as, _, hall, hrun, movedTo_stays hread rfl rfl (Table.get_put_self _ _ _) rfl rfl⟩
  | some into =>
    obtain ⟨as, t, hall, ht, hrun⟩ := tryMove_run_some (c := c) out now hl hshared hopen hfound
    obtain ⟨o', ho', hholder⟩ := holder_of_join ht ho
    obtain ⟨s', hleave, hmoved⟩ := leave_step (c := c)
      (s := { s with reads := s.reads.set into (t.join l.number l.place now) }) hl hshared hread ho' (hholder.trans hfree)
    have hlast : runWhere (Sys.next c) Always
        { s.inPhase k l (.leaving out into) with reads := s.reads.set into (t.join l.number l.place now) } [.leave k] =
          some s' := runWhere_cons_iff.2 ⟨trivial, _, hleave, rfl⟩
    refine ⟨as ++ [.leave k], s', ?_, runWhere_append hrun hlast, hmoved.lents, ?_⟩
    · exact List.forall_mem_append.2 ⟨hall, List.forall_mem_singleton.2 rfl⟩
    · rw [Option.map_some, Option.getD_some, ← listing_join ht]
      exact hmoved.listed

/-- A departure about to take its next chunk moves, step after step, as `moved` says it does. -/
theorem move_run (now : Nat) (hl : s.lents[k]? = some l) (hphase : l.phase = .starting out)
    (hread : l.read = some on) (hshared : s.shareds.get l.stream = some shared) (hholder : shared.holder = none)
    (hopen : s.Open busy shared.reads) (hown : ∀ o, s.reads[on]? = some o → o.holder = none) :
    ∃ as s', (∀ a ∈ as, Sys.departure a = some k) ∧ runWhere (Sys.next c) Always s as = some s' ∧
      MovedTo s k l out ((moved (listing s.reads shared.reads) busy on l.number l.place now).getD
        (on, listing s.reads shared.reads)) s' := by
  have hthere : ∀ i ∈ shared.reads, ∃ o, s.reads[i]? = some o := by
    intro i hi
    obtain ⟨o, ho, -⟩ := hopen i hi
    exact ⟨o, ho⟩
  have hids := map_fst_listing hthere
  have hlength : (listing s.reads shared.reads).length = shared.reads.length := by
    rw [← List.length_map Prod.fst, hids]
  have hplace := findIdx?_listing on hthere
  have hstays (hmoved : moved (listing s.reads shared.reads) busy on l.number l.place now = none)
      (h : shared.reads.length < 2 ∨ shared.reads.idxOf? on = none) :
      ∃ as s', (∀ a ∈ as, Sys.departure a = some k) ∧ runWhere (Sys.next c) Always s as = some s' ∧
        MovedTo s k l out ((moved (listing s.reads shared.reads) busy on l.number l.place now).getD
          (on, listing s.reads shared.reads)) s' := by
    refine ⟨[.move k], s.inPhase k l (.asking out), List.forall_mem_singleton.2 rfl, ?_, ?_⟩
    · exact runWhere_cons_iff.2 ⟨trivial, _, move_stays hl hphase hread hshared hholder h, rfl⟩
    · rw [hmoved]
      exact movedTo_stays hread rfl rfl hshared hholder rfl
  by_cases hshort : shared.reads.length < 2
  · refine hstays ?_ (.inl hshort)
    unfold moved
    rw [if_pos (by rwa [hlength])]
  cases hmine : shared.reads.idxOf? on with
  | none =>
    refine hstays ?_ (.inr hmine)
    unfold moved
    rw [if_neg (by rwa [hlength]), hplace, hmine]
    rfl
  | some mine =>
    obtain ⟨o, hat, ho⟩ := getElem?_listing hthere hmine
    have hfree := hown o ho
    have hlook := move_looks (c := c) hl hphase hread hshared hholder hshort hmine ho hfree
    obtain ⟨as, s', hall, hrun, hmoved⟩ := looks_run (c := c)
      (s := { s with shareds := s.shareds.put l.stream { shared with holder := some k } }) now hl hread
      (Table.get_put_self _ _ _) hopen ho hfree
    rw [moved_eq (by rwa [hlength]) (hplace.trans hmine) hat]
    refine ⟨.move k :: as, s', List.forall_mem_cons.2 ⟨rfl, hall⟩, ?_, hmoved.lents, hmoved.listed⟩
    exact runWhere_cons_iff.2 ⟨trivial, _, hlook, hrun⟩

end StreamShare
