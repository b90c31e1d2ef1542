import XmipRuntime.Library.Run

/-!
# A queue threads wait at

A queue under a lock, with a condition its takers wait for: whoever hands over puts at the end and then, the lock let go,
wakes one that waits; a taker looks under the lock, takes the first, or waits where there is none; and whoever closes it
sets a flag, takes the lock and wakes all, after which nobody takes.  A step is one hold of the lock, one wake, or the
flag set.  A waiter may wake for nothing.

Whatever the order, what was taken and what is left are what was handed over, in its order (`Kept.order`); while the queue
is open no waiter sleeps by an item nobody is about to take (`Kept.awake`); and once it is closed every waiter is woken or
about to be (`Kept.closed`).
-/

namespace Library

structure Handing (α : Type) where
  items : List α
  closed : Bool
  /-- Those about to look, those that wait, those that put and are about to wake one, and those about to wake all. -/
  awake : Nat
  parked : Nat
  waking : Nat
  wakingAll : Nat
  /-- What was put and what was taken, in order. -/
  handed : List α
  taken : List α
  deriving DecidableEq

namespace Handing

variable {α : Type}

def empty : Handing α := ⟨[], false, 0, 0, 0, 0, [], []⟩

inductive Action (α : Type) where
  | put (a : α)
  | wake
  | enter
  | look
  /-- A waiter wakes for nothing. -/
  | stirs
  | close
  | wakeAll
  deriving DecidableEq

def put (q : Handing α) (a : α) : Handing α :=
  { q with items := q.items ++ [a], handed := q.handed ++ [a], waking := q.waking + 1 }

/-- One that waits woken, where one does. -/
def wake (q : Handing α) : Handing α :=
  { q with waking := q.waking - 1, parked := q.parked - 1, awake := if 0 < q.parked then q.awake + 1 else q.awake }

/-- A look under the lock: told that it is closed, the first taken, or waiting. -/
def look (q : Handing α) : Handing α :=
  if q.closed then { q with awake := q.awake - 1 }
  else
    match q.items with
    | [] => { q with awake := q.awake - 1, parked := q.parked + 1 }
    | a :: items => { q with awake := q.awake - 1, items, taken := q.taken ++ [a] }

def step (q : Handing α) : Action α → Option (Handing α)
  | .put a => some (q.put a)
  | .wake => if 0 < q.waking then some q.wake else none
  | .enter => some { q with awake := q.awake + 1 }
  | .look => if 0 < q.awake then some q.look else none
  | .stirs => if 0 < q.parked then some { q with parked := q.parked - 1, awake := q.awake + 1 } else none
  | .close => some { q with closed := true, wakingAll := q.wakingAll + 1 }
  | .wakeAll =>
    if 0 < q.wakingAll then
      some { q with wakingAll := q.wakingAll - 1, awake := q.awake + q.parked, parked := 0 }
    else none

/-- What holds of the queue in every order of steps. -/
structure Kept (q : Handing α) : Prop where
  order : q.taken ++ q.items = q.handed
  awake : q.closed = false → q.parked = 0 ∨ q.items.length ≤ q.waking + q.awake
  closed : q.closed = true → q.parked = 0 ∨ 0 < q.wakingAll

theorem Kept.empty : Kept (empty : Handing α) := ⟨rfl, fun _ => .inl rfl, fun _ => .inl rfl⟩

theorem Kept.put {q : Handing α} (h : q.Kept) (a : α) : (q.put a).Kept where
  order := by
    show q.taken ++ (q.items ++ [a]) = q.handed ++ [a]
    rw [← List.append_assoc, h.order]
  awake hopen := by
    refine (h.awake hopen).imp id fun hle => ?_
    show (q.items ++ [a]).length ≤ q.waking + 1 + q.awake
    rw [List.length_append, List.length_singleton]
    omega
  closed := h.closed

theorem Kept.wake {q : Handing α} (h : q.Kept) : q.wake.Kept where
  order := h.order
  awake hopen := by
    have hbefore := h.awake hopen
    show q.parked - 1 = 0 ∨ q.items.length ≤ q.waking - 1 + (if 0 < q.parked then q.awake + 1 else q.awake)
    split
    · omega
    · omega
  closed hclosed := by
    have hbefore := h.closed hclosed
    show q.parked - 1 = 0 ∨ 0 < q.wakingAll
    omega

theorem Kept.look {q : Handing α} (h : q.Kept) (hawake : 0 < q.awake) : q.look.Kept := by
  unfold Handing.look
  split
  · rename_i hclosed
    refine ⟨h.order, fun hopen => ?_, h.closed⟩
    rw [hclosed] at hopen
    exact nomatch hopen
  · rename_i hopen
    split
    · rename_i hnone
      refine ⟨h.order, fun _ => .inr ?_, fun hclosed => absurd hclosed hopen⟩
      rw [hnone]
      exact Nat.zero_le _
    · rename_i a items hitems
      refine ⟨?_, fun _ => ?_, fun hclosed => absurd hclosed hopen⟩
      · show q.taken ++ [a] ++ items = q.handed
        rw [← h.order, hitems, List.append_assoc, List.singleton_append]
      · have hbefore := h.awake (Bool.eq_false_iff.2 hopen)
        rw [hitems, List.length_cons] at hbefore
        show q.parked = 0 ∨ items.length ≤ q.waking + (q.awake - 1)
        omega

theorem Kept.step {q q' : Handing α} {a : Action α} (h : q.Kept) (hs : q.step a = some q') : q'.Kept := by
  cases a with
  | put a => cases hs; exact h.put a
  | wake =>
    simp only [Handing.step] at hs
    split at hs
    · cases hs
      exact h.wake
    · exact nomatch hs
  | enter =>
    cases hs
    refine ⟨h.order, fun hopen => (h.awake hopen).imp id fun hle => ?_, h.closed⟩
    show q.items.length ≤ q.waking + (q.awake + 1)
    omega
  | look =>
    simp only [Handing.step] at hs
    split at hs
    · rename_i hawake
      cases hs
      exact h.look hawake
    · exact nomatch hs
  | stirs =>
    simp only [Handing.step] at hs
    split at hs
    · cases hs
      refine ⟨h.order, fun hopen => ?_, fun hclosed => ?_⟩
      · have hbefore := h.awake hopen
        show q.parked - 1 = 0 ∨ q.items.length ≤ q.waking + (q.awake + 1)
        omega
      · have hbefore := h.closed hclosed
        show q.parked - 1 = 0 ∨ 0 < q.wakingAll
        omega
    · exact nomatch hs
  | close =>
    cases hs
    exact ⟨h.order, fun hopen => (nomatch hopen), fun _ => .inr (Nat.succ_pos _)⟩
  | wakeAll =>
    simp only [Handing.step] at hs
    split at hs
    · cases hs
      exact ⟨h.order, fun _ => .inl rfl, fun _ => .inl rfl⟩
    · exact nomatch hs

theorem kept_of_reach {q : Handing α} (h : Reach step Always (fun q => q = empty) q) : q.Kept :=
  h.invariant (fun _ hq => hq ▸ .empty) fun _ _ _ hkept _ hs => hkept.step hs

end Handing

end Library
