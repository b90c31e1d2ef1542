import Mathlib.Data.List.Infix
import XmipRuntime.Library.Items

/-!
# Words of a command line

A command line whose words are put in double quotes where they have a blank, and a blank before each: what a splitter of
command lines is to do with words, bare and quoted, for these to be read back just where each is plain.
-/

namespace Library

/-- Whether each character of a text is so is found out by going through the text, not through all characters. -/
instance decidableAll (p : Char → Prop) [DecidablePred p] (t : List Char) : Decidable (∀ c ∈ t, p c) := List.decidableBAll p t

instance decidableFirst (p : Char → Prop) [DecidablePred p] (o : Option Char) : Decidable (∀ c ∈ o, p c) :=
  decidable_of_iff (∀ c ∈ o.toList, p c) (by simp)

/-- A word after its blank, in double quotes where it has a blank itself. -/
def wordOf (t : List Char) : List Char := if ' ' ∈ t then ' ' :: '"' :: (t ++ ['"']) else ' ' :: t

theorem wordOf_of_mem {t : List Char} (h : ' ' ∈ t) : wordOf t = ' ' :: '"' :: (t ++ ['"']) := if_pos h

theorem wordOf_of_notMem {t : List Char} (h : ' ' ∉ t) : wordOf t = ' ' :: t := if_neg h

/-- Nothing follows, or a blank does. -/
def BlankFirst (rest : List Char) : Prop := ∀ c ∈ rest.head?, c = ' '

/-- A bare word, and one between quotes, is read as it is. -/
structure Reads (blank : Char → Bool) (Bare Inner : List Char → Prop)
    (next : List Char → Option (List Char × List Char)) : Prop where
  quote : blank '"' = false
  some_of_bare : ∀ t, Bare t → (∃ c ∈ t, blank c = false) ∧ '"' ∉ t
  bare : ∀ t rest, Bare t → BlankFirst rest → next (' ' :: (t ++ rest)) = some (t, rest)
  inner : ∀ t rest, Inner t → BlankFirst rest → next (' ' :: '"' :: (t ++ '"' :: rest)) = some (t, rest)

/-- What a splitter makes of words: one read spans a gap and some text, no shorter than the word, and the word itself,
bare, where no longer. -/
structure Splits (blank : Char → Bool) (Bare Inner : List Char → Prop)
    (next : List Char → Option (List Char × List Char)) : Prop extends Reads blank Bare Inner next where
  spans : ∀ s t s', next s = some (t, s') → ∃ gap raw, s = gap ++ raw ++ s' ∧ gap ≠ [] ∧ (∀ c ∈ gap, blank c = true) ∧
    raw ≠ [] ∧ t.length ≤ raw.length ∧ (t.length = raw.length → raw = t ∧ Bare t)
  inner_of_next : ∀ t rest s', next (' ' :: '"' :: (t ++ '"' :: rest)) = some (t, s') → rest.length ≤ s'.length →
    Inner t ∧ s' = rest

variable {blank : Char → Bool} {Bare Inner : List Char → Prop} {next : List Char → Option (List Char × List Char)}

/-- Plain between quotes where it has a blank, and bare otherwise. -/
def PlainWord (Bare Inner : List Char → Prop) (t : List Char) : Prop := if ' ' ∈ t then Inner t else Bare t

instance [DecidablePred Bare] [DecidablePred Inner] (t : List Char) : Decidable (PlainWord Bare Inner t) :=
  inferInstanceAs (Decidable (if ' ' ∈ t then Inner t else Bare t))

theorem blankFirst_words (ts : List (List Char)) : BlankFirst (ts.flatMap wordOf) := by
  cases ts with
  | nil => exact fun _ hc => nomatch hc
  | cons t ts =>
    intro c hc
    rw [List.flatMap_cons] at hc
    unfold wordOf at hc
    split at hc <;> exact (Option.some.inj hc).symm

/-- A plain word is read, up to what follows it. -/
theorem Reads.first_of_plain (h : Reads blank Bare Inner next) {t rest : List Char} (hplain : PlainWord Bare Inner t)
    (hrest : BlankFirst rest) : next (wordOf t ++ rest) = some (t, rest) := by
  rw [PlainWord] at hplain
  by_cases hspace : ' ' ∈ t
  · rw [if_pos hspace] at hplain
    rw [wordOf_of_mem hspace]
    simpa using h.inner t rest hplain hrest
  · rw [if_neg hspace] at hplain
    rw [wordOf_of_notMem hspace]
    exact h.bare t rest hplain hrest

theorem Reads.keeps (h : Reads blank Bare Inner next) :
    Keeps id wordOf (PlainWord Bare Inner) (fun s => s.all blank) next where
  ends := rfl
  more t rest hplain := by
    rw [PlainWord] at hplain
    rw [Bool.eq_false_iff, Ne, List.all_eq_true]
    intro hall
    by_cases hspace : ' ' ∈ t
    · rw [wordOf_of_mem hspace] at hall
      have hquote := hall '"' (by simp)
      rw [h.quote] at hquote
      cases hquote
    · rw [if_neg hspace] at hplain
      obtain ⟨⟨c, hc, hblank⟩, -⟩ := h.some_of_bare t hplain
      rw [wordOf_of_notMem hspace] at hall
      have hc' := hall c (List.mem_append_left _ (List.mem_cons_of_mem _ hc))
      rw [hblank] at hc'
      cases hc'
  reads t ts hplain := h.first_of_plain hplain (blankFirst_words ts)

theorem Reads.words_of_plain (h : Reads blank Bare Inner next) {n : Nat} {ts : List (List Char)} (hn : ts.length < n)
    (hplain : ∀ t ∈ ts, PlainWord Bare Inner t) : items (fun s => s.all blank) next n (ts.flatMap wordOf) = some ts := by
  have hread := h.keeps.items_of_plain hn hplain
  rwa [List.map_id] at hread

/-- A word read up to what follows it, or short of that, is what was written there and is plain. -/
theorem Splits.plain_of_next (h : Splits blank Bare Inner next) {t rest x s s' y : List Char} (hs : x ++ s = wordOf t ++ rest)
    (hnext : next s = some (t, s')) (hs' : s' = y ++ rest) :
    x = [] ∧ PlainWord Bare Inner t ∧ s' = rest := by
  obtain ⟨gap, raw, rfl, hgap, hblank, hraw, hle, heq⟩ := h.spans s t s' hnext
  have hgap' := List.length_pos_iff.2 hgap
  have hcut : x ++ gap ++ raw ++ y = wordOf t := by
    rw [hs'] at hs
    refine List.append_cancel_right (Eq.trans ?_ hs)
    simp only [List.append_assoc]
  unfold PlainWord
  by_cases hspace : ' ' ∈ t
  · rw [if_pos hspace]
    rw [wordOf_of_mem hspace] at hcut hs
    have hlen := congrArg List.length hcut
    simp only [List.length_append, List.length_cons, List.length_nil] at hlen
    match x, hs with
    | [], hs =>
      rw [List.nil_append] at hs
      have hread : next (' ' :: '"' :: (t ++ '"' :: rest)) = some (t, s') := by
        rw [← hnext, hs]
        simp only [List.cons_append, List.append_assoc, List.nil_append]
      obtain ⟨hinner, hrest⟩ := h.inner_of_next t rest s' hread (by rw [hs', List.length_append]; omega)
      exact ⟨rfl, hinner, hrest⟩
    | [a], _ =>
      -- The gap would begin at the quote.
      obtain ⟨b, gap, rfl⟩ := List.exists_cons_of_ne_nil hgap
      have hb := (List.cons.inj (List.cons.inj hcut).2).1
      have hquote := hblank b List.mem_cons_self
      rw [hb, h.quote] at hquote
      cases hquote
    | a :: b :: x, _ =>
      -- The word would be bare and end with the quote.
      rw [List.length_cons, List.length_cons] at hlen
      obtain ⟨rfl, hbare⟩ := heq (by omega)
      obtain rfl := List.length_eq_zero_iff.1 (show x.length = 0 by omega)
      obtain rfl := List.length_eq_zero_iff.1 (show y.length = 0 by omega)
      have hend : gap ++ raw = raw ++ ['"'] := by
        simpa using (List.cons.inj (List.cons.inj hcut).2).2
      have hlast : (gap ++ raw).getLast? = some '"' := by rw [hend, List.getLast?_concat]
      rw [List.getLast?_append_of_ne_nil gap hraw] at hlast
      exact absurd (List.mem_of_getLast? hlast) (h.some_of_bare raw hbare).2
  · rw [if_neg hspace]
    rw [wordOf_of_notMem hspace] at hcut
    have hlen := congrArg List.length hcut
    simp only [List.length_append, List.length_cons] at hlen
    obtain rfl := List.length_eq_zero_iff.1 (show x.length = 0 by omega)
    obtain rfl := List.length_eq_zero_iff.1 (show y.length = 0 by omega)
    exact ⟨rfl, (heq (by omega)).2, hs'⟩

theorem Splits.readable (h : Splits blank Bare Inner next) :
    Readable id wordOf (PlainWord Bare Inner) (fun s => s.all blank) next where
  toKeeps := h.toReads.keeps
  behind t ts s s' hs hnext := by
    have hs' : s' <:+ s := by
      obtain ⟨gap, raw, rfl, -⟩ := h.spans s t s' hnext
      exact List.suffix_append _ _
    by_cases hlen : s'.length < (ts.flatMap wordOf).length
    · have hsuffix := List.suffix_of_suffix_length_le (hs'.trans hs) (List.suffix_append _ _) (Nat.le_of_lt hlen)
      exact .inr ⟨hsuffix, fun heq => Nat.lt_irrefl _ (heq ▸ hlen)⟩
    · obtain ⟨y, hy⟩ := List.suffix_of_suffix_length_le (List.suffix_append _ _) (hs'.trans hs) (Nat.le_of_not_lt hlen)
      obtain ⟨x, hx⟩ := hs
      obtain ⟨rfl, hplain, hrest⟩ := h.plain_of_next hx hnext hy.symm
      exact .inl ⟨hx, hplain, hrest⟩

/-- A command line: a program, read by `first`, and its arguments. -/
def command (blank : Char → Bool) (first next : List Char → Option (List Char × List Char)) (s : List Char) :
    Option (List Char × List (List Char)) :=
  (first s).bind fun p => (items (fun s => s.all blank) next (s.length + 1) p.2).map (p.1, ·)

theorem command_eq_some {first : List Char → Option (List Char × List Char)} {s t : List Char} {ts : List (List Char)} :
    command blank first next s = some (t, ts) ↔
      ∃ s', first s = some (t, s') ∧ items (fun s => s.all blank) next (s.length + 1) s' = some ts := by
  unfold command
  constructor
  · intro hread
    obtain ⟨⟨t', s'⟩, hfirst, hmap⟩ := Option.bind_eq_some_iff.1 hread
    obtain ⟨ts', hitems, heq⟩ := Option.map_eq_some_iff.1 hmap
    cases heq
    exact ⟨s', hfirst, hitems⟩
  · rintro ⟨s', hread, hitems⟩
    rw [hread]
    exact Option.map_eq_some_iff.2 ⟨ts, hitems, rfl⟩

theorem length_le_words (ts : List (List Char)) : ts.length ≤ (ts.flatMap wordOf).length := by
  induction ts with
  | nil => exact Nat.le_refl 0
  | cons t ts ih =>
    have hword : 1 ≤ (wordOf t).length := by
      unfold wordOf
      split <;> simp
    simp only [List.flatMap_cons, List.length_append, List.length_cons]
    omega

section Command
variable {Bare' Inner' : List Char → Prop} {first : List Char → Option (List Char × List Char)}

theorem command_of_plain (hfirst : Reads blank Bare Inner first) (hnext : Reads blank Bare' Inner' next) {t : List Char}
    {ts : List (List Char)} (ht : PlainWord Bare Inner t) (hts : ∀ t' ∈ ts, PlainWord Bare' Inner' t') :
    command blank first next (wordOf t ++ ts.flatMap wordOf) = some (t, ts) := by
  have hfuel : ts.length < (wordOf t ++ ts.flatMap wordOf).length + 1 := by
    have := length_le_words ts
    rw [List.length_append]
    omega
  exact command_eq_some.2 ⟨_, hfirst.first_of_plain ht (blankFirst_words ts), hnext.words_of_plain hfuel hts⟩

/-- A command line so written is read back just where the program and each argument is plain. -/
theorem command_iff (hfirst : Splits blank Bare Inner first) (hnext : Splits blank Bare' Inner' next) {t : List Char}
    {ts : List (List Char)} : command blank first next (wordOf t ++ ts.flatMap wordOf) = some (t, ts) ↔
      PlainWord Bare Inner t ∧ ∀ t' ∈ ts, PlainWord Bare' Inner' t' := by
  constructor
  · intro h
    obtain ⟨s', hread, hitems⟩ := command_eq_some.1 h
    have hs' : s' <:+ wordOf t ++ ts.flatMap wordOf := by
      obtain ⟨gap, raw, heq, -⟩ := hfirst.spans _ t s' hread
      exact ⟨gap ++ raw, heq.symm⟩
    have hmap : some ts = some (ts.map id) := by rw [List.map_id]
    rw [hmap] at hitems
    by_cases hlen : s'.length < (ts.flatMap wordOf).length
    · have hsuffix := List.suffix_of_suffix_length_le hs' (List.suffix_append _ _) (Nat.le_of_lt hlen)
      exact absurd hitems (hnext.readable.not_items hsuffix (fun heq => Nat.lt_irrefl _ (heq ▸ hlen)))
    · obtain ⟨y, hy⟩ := List.suffix_of_suffix_length_le (List.suffix_append _ _) hs' (Nat.le_of_not_lt hlen)
      obtain ⟨-, hplain, rfl⟩ := hfirst.plain_of_next (List.nil_append _) hread hy.symm
      exact ⟨hplain, hnext.readable.plain_of_items hitems⟩
  · exact fun h => command_of_plain hfirst.toReads hnext.toReads h.1 h.2

end Command

end Library
