import Mathlib.Data.List.Basic

/-!
# A log a crash cuts

What is written goes to a log's end.  A durable write makes all before it durable with it; a crash keeps what is durable
and as much of what was written after it as it likes, but nothing out of order.  So an entry that is durable stays where it
is (`Durable`), and whatever was true of every entry and those before it stays true (`Caused`).
-/

namespace Library

/-- A log, and how much of it is durable. -/
structure Journaled (α : Type) where
  entries : List α
  synced : Nat
  within : synced ≤ entries.length
  deriving DecidableEq

namespace Journaled

variable {α : Type}

def empty : Journaled α := ⟨[], 0, Nat.le_refl _⟩

def write (q : Journaled α) (a : α) : Journaled α where
  entries := q.entries ++ [a]
  synced := q.synced
  within := Nat.le_trans q.within (by simp)

/-- The first `n` made durable. -/
def sync (q : Journaled α) (n : Nat) : Journaled α where
  entries := q.entries
  synced := max q.synced (min n q.entries.length)
  within := Nat.max_le.2 ⟨q.within, Nat.min_le_right _ _⟩

/-- Cut to the first `n`, and never below what is durable. -/
def crash (q : Journaled α) (n : Nat) : Journaled α where
  entries := q.entries.take (max n q.synced)
  synced := q.synced
  within := by
    have hle := q.within
    rw [List.length_take]
    omega

/-- The entry at `i` is `a` and durable. -/
def Durable (q : Journaled α) (i : Nat) (a : α) : Prop := i < q.synced ∧ q.entries[i]? = some a

variable {q : Journaled α} {i : Nat} {a : α}

theorem Durable.write (h : q.Durable i a) (b : α) : (q.write b).Durable i a := by
  refine ⟨h.1, ?_⟩
  show (q.entries ++ [b])[i]? = some a
  rw [List.getElem?_append_left (Nat.lt_of_lt_of_le h.1 q.within)]
  exact h.2

theorem Durable.sync (h : q.Durable i a) (n : Nat) : (q.sync n).Durable i a :=
  ⟨Nat.lt_of_lt_of_le h.1 (Nat.le_max_left _ _), h.2⟩

theorem Durable.crash (h : q.Durable i a) (n : Nat) : (q.crash n).Durable i a := by
  refine ⟨h.1, ?_⟩
  show (q.entries.take (max n q.synced))[i]? = some a
  rw [List.getElem?_take_of_lt (Nat.lt_of_lt_of_le h.1 (Nat.le_max_right _ _))]
  exact h.2

/-- Each entry is such as `cause` has it of those before it. -/
def Caused (cause : List α → α → Prop) (l : List α) : Prop := ∀ i a, l[i]? = some a → cause (l.take i) a

variable {cause : List α → α → Prop} {l : List α}

theorem Caused.imp {cause' : List α → α → Prop} (h : Caused cause l) (himp : ∀ before a, cause before a → cause' before a) :
    Caused cause' l :=
  fun i a ha => himp _ _ (h i a ha)

theorem Caused.concat (h : Caused cause l) (ha : cause l a) : Caused cause (l ++ [a]) := by
  intro i b hb
  rw [List.getElem?_append] at hb
  split at hb
  · rename_i hlt
    rw [List.take_append_of_le_length (Nat.le_of_lt hlt)]
    exact h i b hb
  · rename_i hge
    obtain ⟨hone, hget⟩ := List.getElem?_eq_some_iff.1 hb
    rw [List.length_singleton] at hone
    have heq : i = l.length := by omega
    rw [List.getElem_singleton] at hget
    rw [heq, List.take_left, ← hget]
    exact ha

theorem Caused.take (h : Caused cause l) (n : Nat) : Caused cause (l.take n) := by
  intro i a ha
  have hlt : i < n := by
    have hlength := (List.getElem?_eq_some_iff.1 ha).1
    rw [List.length_take] at hlength
    omega
  rw [List.getElem?_take_of_lt hlt] at ha
  rw [List.take_take, Nat.min_eq_left (Nat.le_of_lt hlt)]
  exact h i a ha

end Journaled

end Library
