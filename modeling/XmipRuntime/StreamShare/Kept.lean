import XmipRuntime.StreamShare.Reads

/-!
# What a read keeps for its departures

A read keeps `kept` chunks for the departures taking from it, and lets the first kept go as it reads on.  How many it may
keep changes as departures join and leave; what it does keep changes only as one of them reads on.  So a read one departure
left may keep more than the departures still on it may have kept for them, until the next chunk is read, and then lets
go of several at once.

`Changed` says once what a step does to the reads: nothing, one opened, or one joined, left or asked for a chunk.
-/

namespace StreamShare

open Library

variable {ρ ω β ε : Type}

/-- The departure whose step leaves its read. -/
def Action.leaver : Action ω → Option Nat
  | .leave k | .fall k | .drop k => some k
  | _ => none

/-- The time a step is taken at, where it reads the clock. -/
def Action.time : Action ω → Option Nat
  | .tryMove _ now _ | .ask _ now _ | .choose _ now | .join _ now => some now
  | _ => none

theorem kept_mono {m n : Nat} (h : m ≤ n) : kept m ≤ kept n := by
  unfold kept
  have := Nat.mul_le_mul_left keptPerReader (Nat.sub_le_sub_right h 1)
  omega

/-! ### One read -/

namespace OneRead

/-- What one turn of the search for a chunk leaves of a read: what it keeps and its departures as they were, a departure
that took the chunk it was looking for, or one more chunk read where that was not among those kept. -/
inductive Asked (o : OneRead ρ β ε) (number place stall now : Nat) : OneRead ρ β ε → Prop
  | rests {o' : OneRead ρ β ε} : o'.window = o.window → o'.first = o.first → o'.readers = o.readers →
      Asked o number place stall now o'
  | took : o.first ≤ place → Asked o number place stall now (o.tookBy number (place + 1) now)
  | read {reader : ρ} {bytes : List β} : o.first + o.window.length ≤ place → o.waits stall now = none →
      Asked o number place stall now ({ o with reader }.push bytes)

variable (o : OneRead ρ β ε)

theorem chunk_asked (c : ChunkReaders ρ ω β ε) (number place stall now : Nat) (w : ω) :
    o.Asked number place stall now (o.chunk c number place stall now w).2 := by
  unfold chunk
  split
  · exact .rests rfl rfl rfl
  · split
    · exact .rests rfl rfl rfl
    · rename_i hfirst
      split
      · exact .took (Nat.le_of_not_lt hfirst)
      · rename_i hnone
        split
        · exact .rests rfl rfl rfl
        · split
          · exact .rests rfl rfl rfl
          · rename_i hwaits
            split
            · have hpast := List.getElem?_eq_none_iff.1 hnone
              exact .read (by omega) (by simpa using hwaits)
            · exact .rests rfl rfl rfl
            · exact .rests rfl rfl rfl

@[simp] theorem tookBy_window (number next now : Nat) : (o.tookBy number next now).window = o.window := by
  unfold tookBy
  split <;> rfl

@[simp] theorem tookBy_first (number next now : Nat) : (o.tookBy number next now).first = o.first := by
  unfold tookBy
  split <;> rfl

@[simp] theorem length_tookBy_readers (number next now : Nat) :
    (o.tookBy number next now).readers.length = o.readers.length := by
  unfold tookBy
  split
  · exact List.length_modify _ _ _
  · rfl

theorem mem_tookBy_readers {number next now : Nat} {r : Reader} (h : r ∈ (o.tookBy number next now).readers) :
    r ∈ o.readers ∨ r.next = next ∧ r.took = now := by
  unfold tookBy at h
  split at h
  · rename_i i _
    obtain ⟨j, hj⟩ := List.getElem?_of_mem h
    simp only [List.getElem?_modify, Option.map_eq_map, Option.map_eq_some_iff] at hj
    obtain ⟨q, hq, rfl⟩ := hj
    split
    · exact .inr ⟨rfl, rfl⟩
    · exact .inl (List.mem_of_getElem? hq)
  · exact .inl h

theorem length_push_window_le (bytes : List β) : (o.push bytes).window.length ≤ kept o.readers.length := by
  simp only [push, List.length_drop]
  omega

/-- It waits for none whose next is the first kept only where each of them took nothing for `stall`. -/
theorem stalled_of_waits_eq_none {stall now : Nat} (hfull : kept o.readers.length ≤ o.window.length)
    (h : o.waits stall now = none) {r : Reader} (hr : r ∈ o.readers) (hnext : r.next = o.first) :
    stall ≤ now - r.took := by
  by_contra hlt
  rw [waits, if_neg (Nat.not_lt.2 hfull)] at h
  dsimp only at h
  rw [List.min?_eq_none_iff, List.filter_eq_nil_iff] at h
  refine h (stall - (now - r.took)) ?_ (by simpa using by omega)
  refine List.mem_filterMap.2 ⟨r, List.mem_filter.2 ⟨hr, by simpa using hnext⟩, ?_⟩
  rw [if_pos (by omega)]

end OneRead

namespace Sys

/-- The read a departure leaves with its step, without it. -/
def leftBy (s : Sys ρ β ε) (a : Action ω) : Option (OneRead ρ β ε) := do
  let k ← a.leaver
  let l ← s.lents[k]?
  let i ← l.read
  let o ← s.reads[i]?
  some (o.leave l.number)

/-- The departure that asks its read for its next chunk with its step, and the read. -/
def askedBy (s : Sys ρ β ε) : Action ω → Option (Lent β ε × OneRead ρ β ε)
  | .ask k _ _ => do
    let l ← s.lents[k]?
    let i ← l.read
    let o ← s.reads[i]?
    some (l, o)
  | _ => none

/-- The departure that joins a read it found before with its step, and the read. -/
def joinedBy (s : Sys ρ β ε) : Action ω → Option (Lent β ε × OneRead ρ β ε)
  | .join k _ => do
    let l ← s.lents[k]?
    match l.phase with
    | .joining _ i => do
      let o ← s.reads[i]?
      some (l, o)
    | _ => none
  | _ => none

/-! ### What a step does to the reads -/

/-- What a step leaves of the reads: all as they were, one opened by the departure that takes from it, or one that a
departure joined, moved to, left or asked. -/
inductive Changed (c : Settings ρ ω β ε) (s : Sys ρ β ε) : Action ω → List (OneRead ρ β ε) → Prop
  | rests {a : Action ω} : s.leftBy a = none → Changed c s a s.reads
  | opened {k now : Nat} {l : Lent β ε} {reader : ρ} :
      Changed c s (.choose k now) (s.reads ++ [(OneRead.opened l.stream reader l.place).join l.number l.place now])
  | joined {k now i : Nat} {l : Lent β ε} {o : OneRead ρ β ε} : s.joinedBy (.join k now : Action ω) = some (l, o) →
      s.reads[i]? = some o → Changed c s (.join k now) (s.reads.set i (o.join l.number l.place now))
  | moved {k now i : Nat} {busy : Bool} {l : Lent β ε} {o : OneRead ρ β ε} : s.reads[i]? = some o →
      o.reaches l.place = true → Changed c s (.tryMove k now busy) (s.reads.set i (o.join l.number l.place now))
  | left {a : Action ω} {i : Nat} {l : Lent β ε} {o : OneRead ρ β ε} : s.leftBy a = some (o.leave l.number) →
      a.time = none → s.reads[i]? = some o → Changed c s a (s.reads.set i (o.leave l.number))
  | asked {k now i : Nat} {w : ω} {l : Lent β ε} {o : OneRead ρ β ε} {holder : Option Nat} :
      s.askedBy (.ask k now w) = some (l, o) → s.reads[i]? = some o →
      Changed c s (.ask k now w)
        (s.reads.set i { (o.chunk c.readers l.number l.place c.stall now w).2 with holder })

variable {c : Settings ρ ω β ε} {s s' : Sys ρ β ε} {k : Nat} {l : Lent β ε} {shared : Shared} {a : Action ω}

private theorem leaves_changed {i : Nat} {x : Sys ρ β ε × Shared} (h : s.leaves l shared i = some x) :
    ∃ o, s.reads[i]? = some o ∧ x.1.reads = s.reads.set i (o.leave l.number) := by
  obtain ⟨o, ho, h⟩ := Option.bind_eq_some_iff.1 h
  obtain ⟨-, h⟩ := Option.ite_none_right_eq_some.1 h
  cases h
  exact ⟨o, ho, rfl⟩

/-- A departure gone from its read. -/
private theorem changed_of_leaves {i : Nat} {x : Sys ρ β ε × Shared} (hl : s.lents[k]? = some l) (hi : l.read = some i)
    (hleaver : a.leaver = some k) (htime : a.time = none) (h : s.leaves l shared i = some x) :
    s.Changed c a x.1.reads := by
  obtain ⟨o, ho, hx⟩ := leaves_changed h
  rw [hx]
  refine .left ?_ htime ho
  simp only [leftBy, hleaver, hl, hi, ho, Option.bind_eq_bind, Option.bind_some]

private theorem moves_changed (hl : s.lents[k]? = some l) (ha : departure a = some k)
    (h : s.moves k l shared a = some s') : s.Changed c a s'.reads := by
  cases a with
  | move j =>
    have hmoved : s'.reads = s.reads := by
      unfold Sys.moves at h
      dsimp only at h
      split at h
      · split at h
        · cases h
        · split at h
          · cases h
            rfl
          · split at h
            · split at h
              · obtain ⟨on, -, h⟩ := Option.bind_eq_some_iff.1 h
                split at h
                · cases h
                · cases h
                  rfl
              · cases h
                rfl
            · cases h
              rfl
      · cases h
    rw [hmoved]
    exact .rests rfl
  | tryMove j now busy =>
    unfold Sys.moves at h
    dsimp only at h
    split at h
    · cases h
      exact .rests rfl
    · split at h
      · cases h
        exact .rests rfl
      · obtain ⟨o, ho, h⟩ := Option.bind_eq_some_iff.1 h
        split at h
        · cases h
        · split at h
          · rename_i hmore
            cases h
            simp only [Bool.and_eq_true] at hmore
            exact .moved ho hmore.2
          · cases h
            exact .rests rfl
    · cases h
  | leave j =>
    obtain rfl : j = k := Option.some.inj ha
    unfold Sys.moves at h
    dsimp only at h
    split at h
    · obtain ⟨i, hi, h⟩ := Option.bind_eq_some_iff.1 h
      obtain ⟨x, hx, h⟩ := Option.bind_eq_some_iff.1 h
      cases h
      exact changed_of_leaves hl hi rfl rfl hx
    · cases h
  | reader | read | ask | fall | look | choose | join | drop | dropped => cases h

private theorem joins_changed (hl : s.lents[k]? = some l) (ha : departure a = some k)
    (h : s.joins c k l shared a = some s') : s.Changed c a s'.reads := by
  cases a with
  | fall j =>
    obtain rfl : j = k := Option.some.inj ha
    unfold Sys.joins at h
    dsimp only at h
    split at h
    · split at h
      · cases h
      · obtain ⟨x, hx, h⟩ := Option.bind_eq_some_iff.1 h
        cases h
        unfold Sys.leavesOwn at hx
        split at hx
        · rename_i i hi
          exact changed_of_leaves hl hi rfl rfl hx
        · rename_i hread
          cases hx
          refine .rests ?_
          simp only [leftBy, Action.leaver, hl, hread, Option.bind_eq_bind, Option.bind_some, Option.bind_none]
    · cases h
  | look j =>
    unfold Sys.joins at h
    dsimp only at h
    split at h
    · obtain ⟨o, -, h⟩ := Option.bind_eq_some_iff.1 h
      split at h
      · cases h
      · cases h
        exact .rests rfl
    · cases h
  | choose j now =>
    unfold Sys.joins at h
    dsimp only at h
    split at h
    · cases h
      exact .rests rfl
    · cases h
      exact .opened
    · cases h
  | join j now =>
    obtain rfl : j = k := Option.some.inj ha
    unfold Sys.joins at h
    dsimp only at h
    split at h
    · rename_i out i hphase
      obtain ⟨o, ho, h⟩ := Option.bind_eq_some_iff.1 h
      split at h
      · cases h
      · cases h
        refine .joined ?_ ho
        simp only [joinedBy, hl, hphase, ho, Option.bind_eq_bind, Option.bind_some]
    · cases h
  | reader | read | ask | move | tryMove | leave | drop | dropped => cases h

private theorem asks_changed (hl : s.lents[k]? = some l) (ha : departure a = some k) (h : s.asks c k l a = some s') :
    s.Changed c a s'.reads := by
  cases a with
  | read j out =>
    unfold Sys.asks at h
    dsimp only at h
    split at h
    · cases h
      exact .rests rfl
    · cases h
  | ask j now w =>
    obtain rfl : j = k := Option.some.inj ha
    unfold Sys.asks at h
    dsimp only at h
    split at h
    · obtain ⟨i, hi, h⟩ := Option.bind_eq_some_iff.1 h
      obtain ⟨o, ho, h⟩ := Option.bind_eq_some_iff.1 h
      obtain ⟨-, h⟩ := Option.ite_none_right_eq_some.1 h
      cases h
      refine .asked ?_ ho
      simp only [askedBy, hl, hi, ho, Option.bind_eq_bind, Option.bind_some]
    · cases h
  | reader | move | tryMove | leave | fall | look | choose | join | drop | dropped => cases h

private theorem drops_changed (hl : s.lents[k]? = some l) (ha : departure a = some k)
    (h : s.drops k l shared a = some s') : s.Changed c a s'.reads := by
  cases a with
  | drop j =>
    obtain rfl : j = k := Option.some.inj ha
    unfold Sys.drops at h
    dsimp only at h
    split at h
    · split at h
      · cases h
      · obtain ⟨i, hi, h⟩ := Option.bind_eq_some_iff.1 h
        obtain ⟨x, hx, h⟩ := Option.bind_eq_some_iff.1 h
        cases h
        exact changed_of_leaves hl hi rfl rfl hx
    · cases h
  | dropped j =>
    unfold Sys.drops at h
    dsimp only at h
    split at h
    · cases h
      exact .rests rfl
    · cases h
  | reader | read | ask | move | tryMove | leave | fall | look | choose | join => cases h

theorem next_changed (h : s.next c a = some s') : s.Changed c a s'.reads := by
  cases a with
  | reader stream =>
    cases h
    exact .rests rfl
  | read k _ | ask k _ _ =>
    obtain ⟨l, hl, h⟩ := Option.bind_eq_some_iff.1 h
    exact asks_changed hl rfl h
  | move k | tryMove k _ _ | leave k =>
    obtain ⟨l, hl, h⟩ := Option.bind_eq_some_iff.1 h
    obtain ⟨shared, -, h⟩ := Option.bind_eq_some_iff.1 h
    exact moves_changed hl rfl h
  | fall k | look k | choose k _ | join k _ =>
    obtain ⟨l, hl, h⟩ := Option.bind_eq_some_iff.1 h
    obtain ⟨shared, -, h⟩ := Option.bind_eq_some_iff.1 h
    exact joins_changed hl rfl h
  | drop k | dropped k =>
    obtain ⟨l, hl, h⟩ := Option.bind_eq_some_iff.1 h
    obtain ⟨shared, -, h⟩ := Option.bind_eq_some_iff.1 h
    exact drops_changed hl rfl h

/-! ### How much a read keeps -/

/-- Each read keeps no more chunks than it may for the departures on it. -/
def Within (s : Sys ρ β ε) : Prop := ∀ o ∈ s.reads, o.window.length ≤ kept o.readers.length

/-- No departure leaves a read that keeps more chunks than it may for those still on it. -/
def LeavesWithin (s : Sys ρ β ε) (a : Action ω) : Prop :=
  ((s.leftBy a).all fun o => decide (o.window.length ≤ kept o.readers.length)) = true

instance (s : Sys ρ β ε) (a : Action ω) : Decidable (s.LeavesWithin a) := inferInstanceAs (Decidable (_ = _))

theorem starting_within {s : Sys ρ β ε} (h : Starts s) : s.Within := by
  rw [h]
  intro o ho
  cases ho

private theorem within_set {reads : List (OneRead ρ β ε)} (hreads : ∀ o ∈ reads, o.window.length ≤ kept o.readers.length)
    {i : Nat} {o' : OneRead ρ β ε} (ho' : o'.window.length ≤ kept o'.readers.length) :
    ∀ o ∈ reads.set i o', o.window.length ≤ kept o.readers.length := by
  intro o ho
  rcases List.mem_or_eq_of_mem_set ho with ho | rfl
  · exact hreads o ho
  · exact ho'

private theorem join_within {o : OneRead ρ β ε} (h : o.window.length ≤ kept o.readers.length) (number place now : Nat) :
    (o.join number place now).window.length ≤ kept (o.join number place now).readers.length := by
  simp only [OneRead.join, List.length_append, List.length_singleton]
  exact Nat.le_trans h (kept_mono (Nat.le_add_right _ 1))

private theorem asked_within {o o' : OneRead ρ β ε} {number place stall now : Nat}
    (h : o.window.length ≤ kept o.readers.length) (hasked : o.Asked number place stall now o') :
    o'.window.length ≤ kept o'.readers.length := by
  cases hasked with
  | rests hwindow _ hreaders =>
    rw [hwindow, hreaders]
    exact h
  | took =>
    rw [OneRead.tookBy_window, OneRead.length_tookBy_readers]
    exact h
  | read => exact OneRead.length_push_window_le _ _

/-- A step of a state whose reads are within what they may keep leaves them so just where no departure leaves a read
that keeps more than it may without it. -/
theorem next_within_iff (hs : s.Within) (h : s.next c a = some s') : s'.Within ↔ s.LeavesWithin a := by
  have hchanged := next_changed h
  unfold Within LeavesWithin
  generalize s'.reads = reads at hchanged
  cases hchanged with
  | rests hleft =>
    rw [hleft]
    exact iff_of_true hs rfl
  | opened =>
    refine iff_of_true ?_ rfl
    intro o ho
    rcases List.mem_append.1 ho with ho | ho
    · exact hs o ho
    · obtain rfl := List.mem_singleton.1 ho
      exact join_within (Nat.zero_le _) _ _ _
  | joined _ ho => exact iff_of_true (within_set hs (join_within (hs _ (List.mem_of_getElem? ho)) _ _ _)) rfl
  | moved ho => exact iff_of_true (within_set hs (join_within (hs _ (List.mem_of_getElem? ho)) _ _ _)) rfl
  | left hleft _ ho =>
    rw [hleft, Option.all_some, decide_eq_true_eq]
    constructor
    · intro hwithin
      obtain ⟨hlt, -⟩ := List.getElem?_eq_some_iff.1 ho
      exact hwithin _ (List.mem_of_getElem? (List.getElem?_set_self hlt))
    · exact within_set hs
  | @asked _ now _ w l o _ _ ho =>
    have hasked := asked_within (hs o (List.mem_of_getElem? ho)) (o.chunk_asked c.readers l.number l.place c.stall now w)
    exact iff_of_true (within_set hs hasked) rfl

end Sys

/-- In every run each read keeps no more than it may for the departures on it, as long as none of them leaves a read that
keeps more than it may without it; and the first step that is such a leave ends that. -/
theorem window_within_iff (c : Settings ρ ω β ε) :
    (∀ s : Sys ρ β ε, Reach (Sys.next c) Sys.LeavesWithin Starts s → s.Within) ∧
      ∀ (s : Sys ρ β ε) (a : Action ω) (s' : Sys ρ β ε), Reach (Sys.next c) Sys.LeavesWithin Starts s →
        s.next c a = some s' → (s'.Within ↔ s.LeavesWithin a) := by
  have hreach : ∀ s : Sys ρ β ε, Reach (Sys.next c) Sys.LeavesWithin Starts s → s.Within := fun s h =>
    Reach.invariant (fun _ => Sys.starting_within) (fun _ _ _ hs hok h => (Sys.next_within_iff hs h).2 hok) h
  exact ⟨hreach, fun s a s' h hnext => Sys.next_within_iff (hreach s h) hnext⟩

/-- Xmip Storage with a Stream that goes on, each of its chunks a byte. -/
def goesOn : Settings Nat Unit Nat Unit where
  readers := { sharedFrom := fun _ _ chunk _ => chunk, nextChunk := fun _ i => (.ok (some [i]), i + 1) }
  stall := 10
  length := fun _ => 100
  pastItsChunks := ()

/-- The departure `k` reads a chunk its read has yet to read. -/
def readsOn (k now : Nat) : List (Action Unit) := [.read k 1, .move k, .ask k now (), .ask k now ()]

/-- The departure `k` of a Stream others read is on the read `on` reaches it at. -/
def begins (k now : Nat) : List (Action Unit) := [.reader 9, .fall k, .look k, .choose k now, .join k now]

/-- Two departures on one read: the one is a chunk ahead as the other is done. -/
theorem window_within_two :
    ∃ s, Reach (Sys.next goesOn) Sys.LeavesWithin Starts s ∧ s.Within ∧
      s.reads.map (fun o => (o.window.length, o.readers.length)) = [(1, 1)] := by
  obtain ⟨s, hs, hp⟩ := Reach.exists_of_runWhere (Sys.next goesOn) Sys.LeavesWithin
    (show Starts (.starting : Sys Nat Nat Unit) from rfl)
    (List.flatten [[.reader 9, .fall 0, .choose 0 0], begins 1 0, readsOn 0 1, [.drop 1]])
    (fun s => decide (s.reads.map (fun o => (o.window.length, o.readers.length)) = [(1, 1)])) (by decide +kernel)
  exact ⟨s, hs, (window_within_iff goesOn).1 s hs, of_decide_eq_true hp⟩

/-- Two departures on one read, the one five chunks ahead as the other is done: the read keeps the five for it alone. -/
theorem window_not_within :
    ∃ s, Reach (Sys.next goesOn) Always Starts s ∧
      ∃ o ∈ s.reads, o.readers.length = 1 ∧ o.window.length = 5 ∧ ¬o.window.length ≤ kept o.readers.length := by
  obtain ⟨s, hs, hp⟩ := Reach.exists_of_runWhere (Sys.next goesOn) Always
    (show Starts (.starting : Sys Nat Nat Unit) from rfl)
    (List.flatten [[.reader 9, .fall 0, .choose 0 0], begins 1 0, readsOn 0 1, readsOn 0 2, readsOn 0 3, readsOn 0 4,
      readsOn 0 5, [.drop 1]])
    (fun s => s.reads.any fun o => decide (o.readers.length = 1 ∧ o.window.length = 5)) (by decide +kernel)
  obtain ⟨o, ho, hp⟩ := List.any_eq_true.1 hp
  obtain ⟨hone, hfive⟩ := of_decide_eq_true hp
  refine ⟨s, hs, o, ho, hone, hfive, ?_⟩
  rw [hone, hfive]
  decide

end StreamShare
