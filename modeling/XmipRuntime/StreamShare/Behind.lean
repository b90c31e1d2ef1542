import XmipRuntime.StreamShare.Kept

/-!
# Who is left behind

A departure about to let go of the first chunk kept waits for those that are to take it next, as long as each of them took
a chunk less than `stall` ago.  It looks at the first chunk kept only: so no one still taking is left behind as long as one
chunk goes for one read, that is as long as the read keeps no more than it may when it reads on, and as long as one that
joins is not behind already.

The steps are taken at times that never go back.
-/

namespace StreamShare

open Library

variable {ρ ω β ε : Type}

/-- The reads and the departures, and the time of the last step that read the clock. -/
structure Clocked (ρ β ε : Type) where
  sys : Sys ρ β ε
  clock : Nat

namespace Clocked

def Starts (t : Clocked ρ β ε) : Prop := t.sys = .starting

/-- One step, not before the last. -/
def next (c : Settings ρ ω β ε) (t : Clocked ρ β ε) (a : Action ω) : Option (Clocked ρ β ε) :=
  if (a.time.all fun now => decide (t.clock ≤ now)) = true then
    (t.sys.next c a).map fun sys => ⟨sys, a.time.getD t.clock⟩
  else none

/-- A chunk past those kept is asked only of a read that keeps no more than it may for its departures, and a read is
joined only at a chunk it has not let go of yet. -/
def InReach (t : Clocked ρ β ε) (a : Action ω) : Prop :=
  ((t.sys.askedBy a).all fun x => decide (x.2.first + x.2.window.length ≤ x.1.place →
    x.2.window.length ≤ kept x.2.readers.length)) = true ∧
  ((t.sys.joinedBy a).all fun x => decide (x.2.first ≤ x.1.place)) = true

instance (t : Clocked ρ β ε) (a : Action ω) : Decidable (t.InReach a) := inferInstanceAs (Decidable (_ ∧ _))

end Clocked

/-- Each departure of a read whose next chunk the read let go of took nothing for `stall`. -/
def OneRead.Waited (stall clock : Nat) (o : OneRead ρ β ε) : Prop :=
  ∀ r ∈ o.readers, r.next < o.first → stall ≤ clock - r.took

namespace OneRead

variable {o o' : OneRead ρ β ε} {stall clock now : Nat}

theorem Waited.later (h : o.Waited stall clock) (hnow : clock ≤ now) : o.Waited stall now := by
  intro r hr hnext
  have := h r hr hnext
  omega

theorem Waited.join (h : o.Waited stall clock) {number place : Nat} (hplace : o.first ≤ place) :
    (o.join number place now).Waited stall clock := by
  intro r hr hnext
  rcases List.mem_append.1 hr with hr | hr
  · exact h r hr hnext
  · obtain rfl := List.mem_singleton.1 hr
    exact absurd hnext (Nat.not_lt.2 hplace)

theorem Waited.leave (h : o.Waited stall clock) (number : Nat) : (o.leave number).Waited stall clock :=
  fun r hr hnext => h r (List.mem_of_mem_filter hr) hnext

/-- What one more chunk read lets go of where the read keeps no more than it may: nothing, or the first kept. -/
theorem push_first_le (hkept : o.window.length ≤ kept o.readers.length) (bytes : List β) :
    (o.push bytes).first = o.first ∨
      (o.push bytes).first = o.first + 1 ∧ kept o.readers.length ≤ o.window.length := by
  simp only [push, List.length_append, List.length_singleton]
  omega

/-- The departures a chunk read leaves behind took nothing for `stall`. -/
theorem Waited.push (h : o.Waited stall now) (hkept : o.window.length ≤ kept o.readers.length)
    (hwaits : o.waits stall now = none) (bytes : List β) : (o.push bytes).Waited stall now := by
  intro r hr hnext
  rcases push_first_le hkept bytes with hfirst | ⟨hfirst, hfull⟩
  · exact h r hr (hfirst ▸ hnext)
  · by_cases hat : r.next = o.first
    · exact o.stalled_of_waits_eq_none hfull hwaits hr hat
    · exact h r hr (by omega)

theorem Waited.asked (h : o.Waited stall now) {number place : Nat}
    (hkept : o.first + o.window.length ≤ place → o.window.length ≤ kept o.readers.length)
    (hasked : o.Asked number place stall now o') : o'.Waited stall now := by
  cases hasked with
  | rests _ hfirst hreaders =>
    intro r hr hnext
    exact h r (hreaders ▸ hr) (hfirst ▸ hnext)
  | took hplace =>
    intro r hr hnext
    rw [tookBy_first] at hnext
    rcases o.mem_tookBy_readers hr with hr | ⟨htook, -⟩
    · exact h r hr hnext
    · omega
  | @read reader bytes hpast hwaits =>
    have hread : ({ o with reader } : OneRead ρ β ε).Waited stall now := h
    exact hread.push (hkept hpast) hwaits bytes

end OneRead

namespace Clocked

variable {c : Settings ρ ω β ε} {t t' : Clocked ρ β ε} {a : Action ω}

/-- No departure that took a chunk less than `stall` ago is behind its read. -/
def KeepsUp (c : Settings ρ ω β ε) (t : Clocked ρ β ε) : Prop := ∀ o ∈ t.sys.reads, o.Waited c.stall t.clock

private theorem next_cases (h : t.next c a = some t') :
    t.sys.next c a = some t'.sys ∧ t.clock ≤ t'.clock ∧ ∀ now, a.time = some now → t'.clock = now := by
  obtain ⟨htime, h⟩ := Option.ite_none_right_eq_some.1 h
  obtain ⟨sys, hsys, rfl⟩ := Option.map_eq_some_iff.1 h
  refine ⟨hsys, ?_, ?_⟩
  · cases ha : a.time with
    | none => exact Nat.le_refl _
    | some now =>
      rw [ha] at htime
      exact of_decide_eq_true htime
  · intro now hnow
    rw [hnow]
    rfl

/-- One step leaves of each read what it was before, later, or a read opened at its departure's place. -/
theorem next_keepsUp (hs : t.KeepsUp c) (hok : t.InReach a) (h : t.next c a = some t') : t'.KeepsUp c := by
  obtain ⟨hnext, hclock, htime⟩ := next_cases h
  have hchanged := Sys.next_changed hnext
  have hlater : ∀ o ∈ t.sys.reads, o.Waited c.stall t'.clock := fun o ho => (hs o ho).later hclock
  have hset {i : Nat} {o' : OneRead ρ β ε} (ho' : o'.Waited c.stall t'.clock) :
      ∀ o ∈ t.sys.reads.set i o', o.Waited c.stall t'.clock := by
    intro o ho
    rcases List.mem_or_eq_of_mem_set ho with ho | rfl
    · exact hlater o ho
    · exact ho'
  unfold KeepsUp
  generalize t'.sys.reads = reads at hchanged
  cases hchanged with
  | rests => exact hlater
  | opened =>
    intro o ho
    rcases List.mem_append.1 ho with ho | ho
    · exact hlater o ho
    · obtain rfl := List.mem_singleton.1 ho
      have hempty {reader : ρ} {stream place : Nat} :
          (OneRead.opened stream reader place : OneRead ρ β ε).Waited c.stall t'.clock := fun r hr _ => by cases hr
      exact hempty.join (Nat.le_refl _)
  | @joined k now i l o hjoined ho =>
    have hplace : o.first ≤ l.place := by
      have := hok.2
      rw [hjoined] at this
      exact of_decide_eq_true this
    exact hset ((hlater o (List.mem_of_getElem? ho)).join hplace)
  | @moved k now i busy l o ho hreaches =>
    have hplace : o.first ≤ l.place := by
      simp only [OneRead.reaches, Bool.and_eq_true, decide_eq_true_eq] at hreaches
      exact hreaches.1.1
    exact hset ((hlater o (List.mem_of_getElem? ho)).join hplace)
  | @left a i l o _ _ ho => exact hset ((hlater o (List.mem_of_getElem? ho)).leave _)
  | @asked k now i w l o holder hasked ho =>
    have hkept : o.first + o.window.length ≤ l.place → o.window.length ≤ kept o.readers.length := by
      have := hok.1
      rw [hasked] at this
      exact of_decide_eq_true this
    have hwaited := hlater o (List.mem_of_getElem? ho)
    rw [htime now rfl] at hwaited hset ⊢
    have hturn := hwaited.asked hkept (o.chunk_asked c.readers l.number l.place c.stall now w)
    exact hset hturn

end Clocked

/-- A step that lets chunks of a read go leaves its departures as they are. -/
private theorem readers_of_letsGo {c : Settings ρ ω β ε} {s : Sys ρ β ε} {a : Action ω} {reads : List (OneRead ρ β ε)}
    (h : s.Changed c a reads) {i : Nat} {o o' : OneRead ρ β ε} (ho : s.reads[i]? = some o) (ho' : reads[i]? = some o')
    (hgone : o.first < o'.first) : o'.readers = o.readers := by
  -- All the reads but the one it is taken on are as they were.
  have hset {j : Nat} {p p' : OneRead ρ β ε} (hp : s.reads[j]? = some p) (hi : (s.reads.set j p')[i]? = some o')
      (hfirst : p.first < p'.first → p'.readers = p.readers) : o'.readers = o.readers := by
    rw [List.getElem?_set] at hi
    split at hi
    · rename_i hj
      subst hj
      obtain rfl : p = o := Option.some.inj (hp.symm.trans ho)
      obtain ⟨-, hi⟩ := Option.ite_none_right_eq_some.1 hi
      cases hi
      exact hfirst hgone
    · rw [ho] at hi
      cases hi
      rfl
  cases h with
  | rests =>
    rw [ho] at ho'
    cases ho'
    rfl
  | opened =>
    obtain ⟨hlt, -⟩ := List.getElem?_eq_some_iff.1 ho
    rw [List.getElem?_append_left hlt, ho] at ho'
    cases ho'
    rfl
  | joined _ hp => exact hset hp ho' fun hlt => absurd hlt (Nat.lt_irrefl _)
  | moved hp => exact hset hp ho' fun hlt => absurd hlt (Nat.lt_irrefl _)
  | left _ _ hp => exact hset hp ho' fun hlt => absurd hlt (Nat.lt_irrefl _)
  | @asked k now j w l p holder _ hp =>
    refine hset hp ho' fun hlt => ?_
    have hasked := p.chunk_asked c.readers l.number l.place c.stall now w
    dsimp only at hlt ⊢
    generalize (p.chunk c.readers l.number l.place c.stall now w).2 = p' at hasked hlt ⊢
    cases hasked with
    | rests _ _ hreaders => exact hreaders
    | took =>
      rw [OneRead.tookBy_first] at hlt
      exact absurd hlt (Nat.lt_irrefl _)
    | read => rfl

/-- In every run whose steps are each in reach, no departure that took a chunk less than `stall` ago is behind its read,
and a chunk one of a read's departures has yet to take is let go only where that one took nothing for `stall`. -/
theorem keepsUp_of_inReach (c : Settings ρ ω β ε) (t : Clocked ρ β ε)
    (h : Reach (Clocked.next c) Clocked.InReach Clocked.Starts t) :
    (∀ o ∈ t.sys.reads, ∀ r ∈ o.readers, t.clock - r.took < c.stall → o.first ≤ r.next) ∧
      ∀ (a : Action ω) (t' : Clocked ρ β ε), t.InReach a → t.next c a = some t' →
        ∀ (i : Nat) (o o' : OneRead ρ β ε), t.sys.reads[i]? = some o → t'.sys.reads[i]? = some o' →
          ∀ r ∈ o.readers, ∀ place, r.next ≤ place → o.first ≤ place → place < o'.first →
            c.stall ≤ t'.clock - r.took := by
  have hstarts : ∀ t : Clocked ρ β ε, t.Starts → t.KeepsUp c := by
    intro t ht o ho
    rw [Clocked.Starts] at ht
    rw [ht] at ho
    cases ho
  have hs : t.KeepsUp c := Reach.invariant hstarts (fun _ _ _ hs hok h => Clocked.next_keepsUp hs hok h) h
  constructor
  · intro o ho r hr htook
    by_contra hlt
    have := hs o ho r hr (Nat.lt_of_not_le hlt)
    omega
  · intro a t' hok hnext i o o' ho ho' r hr place hyet hkept hgone
    obtain ⟨hsys, -⟩ := Clocked.next_cases hnext
    have hreaders := readers_of_letsGo (Sys.next_changed hsys) ho ho' (Nat.lt_of_le_of_lt hkept hgone)
    have hs' := Clocked.next_keepsUp hs hok hnext
    exact hs' o' (List.mem_of_getElem? ho') r (hreaders ▸ hr) (Nat.lt_of_le_of_lt hyet hgone)

/-- The departure `k` takes a chunk its read keeps. -/
def takesKept (k now : Nat) : List (Action Unit) := [.read k 1, .move k, .ask k now ()]

/-- Two departures on one read, five chunks apart: the one behind has not taken its next for long, and it is let go. -/
theorem keepsUp_stalled :
    ∃ t t' : Clocked Nat Nat Unit, Reach (Clocked.next goesOn) Clocked.InReach Clocked.Starts t ∧
      t.next goesOn (.ask 0 20 ()) = some t' ∧
      ∃ o o' : OneRead Nat Nat Unit, t.sys.reads[0]? = some o ∧ t'.sys.reads[0]? = some o' ∧
        ∃ r ∈ o.readers, r.next < o'.first ∧ goesOn.stall ≤ t'.clock - r.took := by
  let last : Action Unit := .ask 0 20 ()
  obtain ⟨t, ht, hp⟩ := Reach.exists_of_runWhere (Clocked.next goesOn) Clocked.InReach
    (show Clocked.Starts (⟨.starting, 0⟩ : Clocked Nat Nat Unit) from rfl)
    (List.flatten [[.reader 9, .fall 0, .choose 0 0], begins 1 0, readsOn 0 1, readsOn 0 2, readsOn 0 3, readsOn 0 4,
      readsOn 0 5, [.read 0 1, .move 0]])
    (fun t => decide (t.InReach last) && (t.next goesOn last).any fun t' => t.sys.reads[0]?.any fun o =>
      t'.sys.reads[0]?.any fun o' => o.readers.any fun r => decide (r.next ≤ 0 ∧ o.first ≤ 0 ∧ 0 < o'.first))
    (by decide +kernel)
  simp only [Bool.and_eq_true, Option.any_eq_true, List.any_eq_true, decide_eq_true_eq] at hp
  obtain ⟨hok, t', hnext, o, ho, o', ho', r, hr, hyet, hkept, hgone⟩ := hp
  have hstall := (keepsUp_of_inReach goesOn t ht).2 last t' hok hnext 0 o o' ho ho' r hr 0 hyet hkept hgone
  exact ⟨t, t', ht, hnext, o, o', ho, ho', r, hr, Nat.lt_of_le_of_lt hyet hgone, hstall⟩

/-- Three departures on one read, the first six chunks ahead of the second, which takes its first; the third is done, and
the first reads on: two chunks go at once, and the second is behind a moment after it took one. -/
theorem keepsUp_not_left :
    ∃ t t' : Clocked Nat Nat Unit, Reach (Clocked.next goesOn) Always Clocked.Starts t ∧
      t.next goesOn (.ask 0 7 ()) = some t' ∧
      ∃ o o' : OneRead Nat Nat Unit, t.sys.reads[0]? = some o ∧ t'.sys.reads[0]? = some o' ∧
        ∃ r ∈ o.readers, r ∈ o'.readers ∧ o.first ≤ r.next ∧ r.next < o'.first ∧ t'.clock - r.took < goesOn.stall := by
  obtain ⟨t, ht, hp⟩ := Reach.exists_of_runWhere (Clocked.next goesOn) Always
    (show Clocked.Starts (⟨.starting, 0⟩ : Clocked Nat Nat Unit) from rfl)
    (List.flatten [[.reader 9, .fall 0, .choose 0 0], begins 1 0, begins 2 0, readsOn 0 1, readsOn 0 2, readsOn 0 3,
      readsOn 0 4, readsOn 0 5, readsOn 0 6, takesKept 1 6, [.drop 2, .read 0 1, .move 0]])
    (fun t => (t.next goesOn (.ask 0 7 ())).any fun t' => t.sys.reads[0]?.any fun o =>
      t'.sys.reads[0]?.any fun o' => o.readers.any fun r => decide (r ∈ o'.readers ∧ o.first ≤ r.next ∧
        r.next < o'.first ∧ t'.clock - r.took < goesOn.stall))
    (by decide +kernel)
  simp only [Option.any_eq_true, List.any_eq_true, decide_eq_true_eq] at hp
  obtain ⟨t', hnext, o, ho, o', ho', r, hr, hstays, hkept, hgone, htook⟩ := hp
  exact ⟨t, t', ht, hnext, o, o', ho, ho', r, hr, hstays, hkept, hgone, htook⟩

end StreamShare
