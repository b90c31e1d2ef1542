import Mathlib.Data.List.Infix
import XmipRuntime.Library.Quoted

/-!
# Texts with characters left out

What is left of a text where some of its characters were left out and some of its backslashes made blanks (`Shortened`), as
lines are when they are joined.  A splitter that can be told by what it counts (`Counts`) reads words back from what is left of
them only where nothing was left out (`plain_of_command`).
-/

namespace Library

/-- `s` is `e` with characters left out, and blanks for some of its backslashes. -/
inductive Shortened : List Char → List Char → Prop
  | nil : Shortened [] []
  | kept {s e : List Char} (c : Char) : Shortened s e → Shortened (c :: s) (c :: e)
  | blanked {s e : List Char} : Shortened s e → Shortened (' ' :: s) ('\\' :: e)
  | left {s e : List Char} (c : Char) : Shortened s e → Shortened s (c :: e)

namespace Shortened

variable {s e u : List Char}

theorem of_sublist (h : List.Sublist s e) : Shortened s e := by
  induction h with
  | slnil => exact .nil
  | cons c _ ih => exact .left c ih
  | cons_cons c _ ih => exact .kept c ih

theorem refl (s : List Char) : Shortened s s := of_sublist (List.Sublist.refl s)

theorem trans (hs : Shortened s u) (hu : Shortened u e) : Shortened s e := by
  induction hu generalizing s with
  | nil => exact hs
  | kept c _ ih =>
    cases hs with
    | kept _ hs => exact .kept c (ih hs)
    | blanked hs => exact .blanked (ih hs)
    | left _ hs => exact .left c (ih hs)
  | blanked _ ih =>
    cases hs with
    | kept _ hs => exact .blanked (ih hs)
    | left _ hs => exact .left _ (ih hs)
  | left c _ ih => exact .left c (ih hs)

theorem append {a b : List Char} (ha : Shortened a b) (hs : Shortened s e) : Shortened (a ++ s) (b ++ e) := by
  induction ha with
  | nil => exact hs
  | kept c _ ih => exact .kept c ih
  | blanked _ ih => exact .blanked ih
  | left c _ ih => exact .left c ih

theorem length_le (h : Shortened s e) : s.length ≤ e.length := by
  induction h with
  | nil => exact Nat.le_refl 0
  | kept c _ ih => exact Nat.succ_le_succ ih
  | blanked _ ih => exact Nat.succ_le_succ ih
  | left c _ ih => exact Nat.le_succ_of_le ih

theorem of_append {a b : List Char} (h : Shortened (a ++ b) e) :
    ∃ a' b', e = a' ++ b' ∧ Shortened a a' ∧ Shortened b b' := by
  induction e generalizing a with
  | nil =>
    cases a with
    | nil => exact ⟨[], [], rfl, .nil, h⟩
    | cons c a => cases h
  | cons c e ih =>
    cases a with
    | nil => exact ⟨[], c :: e, rfl, .nil, h⟩
    | cons d a =>
      rw [List.cons_append] at h
      cases h with
      | kept _ h =>
        obtain ⟨a', b', rfl, ha, hb⟩ := ih h
        exact ⟨c :: a', b', rfl, .kept c ha, hb⟩
      | blanked h =>
        obtain ⟨a', b', rfl, ha, hb⟩ := ih h
        exact ⟨_ :: a', b', rfl, .blanked ha, hb⟩
      | left _ h =>
        obtain ⟨a', b', rfl, ha, hb⟩ := ih (a := d :: a) h
        exact ⟨c :: a', b', rfl, .left c ha, hb⟩

/-- What is left after a part no shorter than `a` is what is left of what follows `a`. -/
theorem drop {a c : List Char} (h : Shortened (c ++ s) (a ++ e)) (hlen : a.length ≤ c.length) : Shortened s e := by
  obtain ⟨a', b', heq, ha, hb⟩ := of_append h
  have hle := ha.length_le
  have hsuffix : b' <:+ e := by
    refine List.suffix_of_suffix_length_le ⟨a', heq.symm⟩ (List.suffix_append a e) ?_
    have := congrArg List.length heq
    simp only [List.length_append] at this
    omega
  exact hb.trans (of_sublist hsuffix.sublist)

/-- A blank at the end that is not left is left out. -/
theorem of_concat (h : Shortened s (e ++ [' '])) (hlast : s.getLast? ≠ some ' ') : Shortened s e := by
  induction e generalizing s with
  | nil =>
    cases h with
    | kept _ h =>
      cases h
      exact absurd rfl hlast
    | left _ h => exact h
  | cons c e ih =>
    have hrest : ∀ {d : Char} {s : List Char}, (d :: s).getLast? ≠ some ' ' → s.getLast? ≠ some ' ' := by
      intro d s hne heq
      rw [List.getLast?_cons, heq] at hne
      exact hne rfl
    cases h with
    | kept _ h => exact .kept c (ih h (hrest hlast))
    | blanked h => exact .blanked (ih h (hrest hlast))
    | left _ h => exact .left c (ih h hlast)

/-- So many of a character are left, of one that is no backslash. -/
theorem count_le {q : Char} (hq : q ≠ '\\') (h : Shortened s e) : e.count q + s.length ≤ s.count q + e.length := by
  induction h with
  | nil => exact Nat.le_refl _
  | kept c _ ih =>
    simp only [List.count_cons, List.length_cons]
    omega
  | blanked _ ih =>
    rw [List.count_cons_of_ne hq.symm, List.count_cons, List.length_cons, List.length_cons]
    omega
  | left c _ ih =>
    rw [List.count_cons, List.length_cons]
    split <;> omega

end Shortened

/-! ### Words read back from what is left of them -/

/-- What a splitter makes of any text: what it takes for a word is longer than the word, and the word is bare where it is one
longer only; and it has no more quotes than the word, or is three characters longer, and the word is plain between quotes where
it is no longer than that. -/
structure Counts (blank : Char → Bool) (Bare Inner : List Char → Prop)
    (next : List Char → Option (List Char × List Char)) : Prop extends Reads blank Bare Inner next where
  spaceless : ∀ t, Bare t → ' ' ∉ t
  counts : ∀ s t s', next s = some (t, s') → ∃ c, s = c ++ s' ∧ t.length + 1 ≤ c.length ∧ (t.length + 1 = c.length → Bare t) ∧
    (c.count '"' ≤ t.count '"' ∨ t.length + 3 ≤ c.length ∧ (t.length + 3 = c.length → Inner t))

variable {blank : Char → Bool} {Bare Inner : List Char → Prop} {next : List Char → Option (List Char × List Char)}
  {n : Nat} {s t rest s' : List Char} {ts : List (List Char)}

theorem length_wordOf_of_mem (h : ' ' ∈ t) : (wordOf t).length = t.length + 3 := by
  rw [wordOf_of_mem h]
  simp

/-- A word read from what is left of it and of what follows it: what is left to read is shorter than what follows it, or
nothing was left out and the word is plain. -/
theorem Counts.step (h : Counts blank Bare Inner next) (hs : Shortened s (wordOf t ++ rest)) (hnext : next s = some (t, s')) :
    Shortened s' rest ∧
      (s'.length < rest.length ∨ s.length = (wordOf t ++ rest).length ∧ PlainWord Bare Inner t) := by
  obtain ⟨c, rfl, hle, hbare, hquotes⟩ := h.counts s t s' hnext
  have hlength := hs.length_le
  simp only [List.length_append] at hlength ⊢
  by_cases hspace : ' ' ∈ t
  · rw [PlainWord, if_pos hspace]
    have hword := length_wordOf_of_mem hspace
    have hne : t.length + 1 ≠ c.length := fun heq => h.spaceless t (hbare heq) hspace
    obtain ⟨c', e, heq, hc, hs'⟩ := hs.of_append
    by_cases hlong : (wordOf t).length < c'.length
    · -- The word ends in what follows it.
      have hcut := congrArg List.length heq
      simp only [List.length_append] at hcut
      have hle' := hs'.length_le
      have hsuffix : e <:+ rest := List.suffix_of_suffix_length_le ⟨c', heq.symm⟩ (List.suffix_append _ _) (by omega)
      exact ⟨hs'.trans (.of_sublist hsuffix.sublist), .inl (by omega)⟩
    · have hprefix : c' <+: wordOf t := List.prefix_of_prefix_length_le ⟨e, heq.symm⟩ (List.prefix_append _ _) (by omega)
      have hcount := (hc.trans (.of_sublist hprefix.sublist)).count_le (q := '"') (by decide)
      have htwo : (wordOf t).count '"' = t.count '"' + 2 := by
        rw [wordOf_of_mem hspace]
        simp
      -- It has a quote more than the word at least.
      have hquotes : t.length + 3 ≤ c.length ∧ (t.length + 3 = c.length → Inner t) := hquotes.resolve_left (by omega)
      have hs' : Shortened s' rest := hs.drop (by omega)
      have hle' := hs'.length_le
      refine ⟨hs', ?_⟩
      by_cases hlt : s'.length < rest.length
      · exact .inl hlt
      · exact .inr ⟨by omega, hquotes.2 (by omega)⟩
  · rw [PlainWord, if_neg hspace]
    have hword : (wordOf t).length = t.length + 1 := by rw [wordOf_of_notMem hspace, List.length_cons]
    have hs' : Shortened s' rest := hs.drop (by omega)
    have hle' := hs'.length_le
    refine ⟨hs', ?_⟩
    by_cases hlt : s'.length < rest.length
    · exact .inl hlt
    · exact .inr ⟨by omega, hbare (by omega)⟩

theorem Counts.plain_of_items (h : Counts blank Bare Inner next) (hs : Shortened s (ts.flatMap wordOf))
    (hitems : items (fun s => s.all blank) next n s = some ts) :
    s.length = (ts.flatMap wordOf).length ∧ ∀ t ∈ ts, PlainWord Bare Inner t := by
  induction ts generalizing n s with
  | nil => exact ⟨Nat.le_zero.1 hs.length_le, fun _ hin => nomatch hin⟩
  | cons t ts ih =>
    obtain ⟨m, s', rfl, hnext, hitems⟩ := items_cons hitems
    rw [List.flatMap_cons] at hs ⊢
    obtain ⟨hs', hplain⟩ := h.step hs hnext
    obtain ⟨hlen, hts⟩ := ih hs' hitems
    obtain ⟨hlen', ht⟩ := hplain.resolve_left (by omega)
    exact ⟨hlen', List.forall_mem_cons.2 ⟨ht, hts⟩⟩

/-- A command line is read back from what is left of it only where nothing was left out and all of it is plain. -/
theorem plain_of_command {Bare' Inner' : List Char → Prop} {first : List Char → Option (List Char × List Char)}
    (hfirst : Counts blank Bare Inner first) (hnext : Counts blank Bare' Inner' next)
    (hs : Shortened s (wordOf t ++ ts.flatMap wordOf)) (h : command blank first next s = some (t, ts)) :
    s.length = (wordOf t ++ ts.flatMap wordOf).length ∧ PlainWord Bare Inner t ∧ ∀ t' ∈ ts, PlainWord Bare' Inner' t' := by
  obtain ⟨s', hread, hitems⟩ := command_eq_some.1 h
  obtain ⟨hs', hplain⟩ := hfirst.step hs hread
  obtain ⟨hlen, hts⟩ := hnext.plain_of_items hs' hitems
  obtain ⟨hlen', ht⟩ := hplain.resolve_left (by omega)
  exact ⟨hlen', ht, hts⟩

/-- A word in quotes, whether it has a blank or not, of which `t'` is left with all its quotes. -/
theorem Counts.plain_of_quoted (h : Counts blank Bare Inner next) {t' : List Char}
    (hs : Shortened s (' ' :: '"' :: (t' ++ ['"']))) (hle : t'.length ≤ t.length) (hcount : t'.count '"' = t.count '"')
    (hnext : next s = some (t, s')) : t'.length = t.length ∧ (Bare t ∨ Inner t) := by
  obtain ⟨c, rfl, hle', hbare, hquotes⟩ := h.counts s t s' hnext
  have hc : Shortened c (' ' :: '"' :: (t' ++ ['"'])) := (Shortened.of_sublist (List.sublist_append_left c s')).trans hs
  have hlen := hc.length_le
  have hquote := hc.count_le (q := '"') (by decide)
  simp only [List.count_cons, List.count_append, List.length_cons, List.length_append, List.length_nil, List.count_nil] at hlen hquote
  simp only [beq_self_eq_true, if_true, show (' ' == '"') = false from rfl, Bool.false_eq_true, if_false] at hquote
  rcases hquotes with hfew | ⟨hmore, hinner⟩
  · exact ⟨by omega, .inl (hbare (by omega))⟩
  · exact ⟨by omega, .inr (hinner (by omega))⟩

end Library
