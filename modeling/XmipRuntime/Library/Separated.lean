import Mathlib.Data.List.Infix

/-!
# Texts cut at a mark, and at a separator

A text cut at the first of a mark (`cut`), and a text cut wherever a separator of two characters is (`separated`).  What was
joined by the separator is what it is cut into just where no part has the separator in it.  Beside them what a list of texts
is where each was read (`mapM_iff`), and the value of a digit.
-/

namespace Library

variable {α : Type} [DecidableEq α]

/-! ### At the first mark -/

/-- What is before the first `mark` and what is after it. -/
def cut (mark : α) : List α → Option (List α × List α)
  | [] => none
  | c :: s => if c = mark then some ([], s) else (cut mark s).map fun p => (c :: p.1, p.2)

theorem cut_append {mark : α} {a b : List α} (h : mark ∉ a) : cut mark (a ++ mark :: b) = some (a, b) := by
  induction a with
  | nil =>
    rw [List.nil_append, cut, if_pos rfl]
  | cons c a ih =>
    obtain ⟨hc, ha⟩ := not_or.1 (fun hor => h (List.mem_cons.2 hor))
    rw [List.cons_append, cut, if_neg (Ne.symm hc), ih ha]
    rfl

theorem append_of_cut {mark : α} {s a b : List α} (h : cut mark s = some (a, b)) : s = a ++ mark :: b ∧ mark ∉ a := by
  induction s generalizing a with
  | nil => cases h
  | cons c s ih =>
    rw [cut] at h
    by_cases hc : c = mark
    · rw [if_pos hc] at h
      cases h
      exact ⟨by rw [hc, List.nil_append], List.not_mem_nil⟩
    · rw [if_neg hc] at h
      obtain ⟨⟨a', b'⟩, hcut, heq⟩ := Option.map_eq_some_iff.1 h
      cases heq
      obtain ⟨rfl, ha⟩ := ih hcut
      refine ⟨rfl, fun hmem => ?_⟩
      rcases List.mem_cons.1 hmem with rfl | hmem
      · exact hc rfl
      · exact ha hmem

theorem cut_iff {mark : α} {a b : List α} : cut mark (a ++ mark :: b) = some (a, b) ↔ mark ∉ a :=
  ⟨fun h => (append_of_cut h).2, cut_append⟩

/-! ### At a separator -/

/-- `c` before the first of the parts. -/
def before (c : α) : List (List α) → List (List α)
  | [] => [[c]]
  | p :: ps => (c :: p) :: ps

/-- The parts of a text between one separator, of `a` and `b`, and another. -/
def separated (a b : α) : List α → List (List α)
  | [] => [[]]
  | [c] => [[c]]
  | c :: d :: s => if c = a ∧ d = b then [] :: separated a b s else before c (separated a b (d :: s))

/-- The parts with the separator between them. -/
def joined (a b : α) : List (List α) → List α
  | [] => []
  | [p] => p
  | p :: ps => p ++ a :: b :: joined a b ps

variable {a b : α}

omit [DecidableEq α] in
theorem not_infix_tail {c : α} {p q : List α} (h : ¬ q <:+: c :: p) : ¬ q <:+: p :=
  fun hin => h (hin.trans (List.suffix_cons c p).isInfix)

theorem separated_self {p : List α} (h : ¬ [a, b] <:+: p) : separated a b p = [p] := by
  induction p with
  | nil => rfl
  | cons c p ih =>
    cases p with
    | nil => rfl
    | cons d p =>
      have hne : ¬ (c = a ∧ d = b) := by
        rintro ⟨rfl, rfl⟩
        exact h ⟨[], p, rfl⟩
      rw [separated, if_neg hne, ih (not_infix_tail h), before]

theorem separated_append (hab : a ≠ b) {p s : List α} (h : ¬ [a, b] <:+: p) :
    separated a b (p ++ a :: b :: s) = p :: separated a b s := by
  induction p with
  | nil => rw [List.nil_append, separated, if_pos ⟨rfl, rfl⟩]
  | cons c p ih =>
    have hrest := ih (not_infix_tail h)
    cases p with
    | nil =>
      have hne : ¬ (c = a ∧ a = b) := fun hor => hab hor.2
      rw [List.nil_append] at hrest
      rw [List.singleton_append, separated, if_neg hne, hrest, before]
    | cons d p =>
      have hne : ¬ (c = a ∧ d = b) := by
        rintro ⟨rfl, rfl⟩
        exact h ⟨[], p, rfl⟩
      rw [List.cons_append] at hrest
      rw [List.cons_append, List.cons_append, separated, if_neg hne, hrest, before]

theorem separated_joined (hab : a ≠ b) {ps : List (List α)} (hne : ps ≠ []) (h : ∀ p ∈ ps, ¬ [a, b] <:+: p) :
    separated a b (joined a b ps) = ps := by
  induction ps with
  | nil => exact absurd rfl hne
  | cons p ps ih =>
    obtain ⟨hp, hps⟩ := List.forall_mem_cons.1 h
    cases ps with
    | nil => exact separated_self hp
    | cons q ps =>
      have hrest := ih (List.cons_ne_nil q ps) hps
      rw [joined, separated_append hab hp, hrest]
      exact List.cons_ne_nil q ps

/-- The first part begins as the text does, or is empty. -/
theorem head_separated (d : α) (s : List α) : ∃ p ps, separated a b (d :: s) = p :: ps ∧ ∀ c ∈ p.head?, c = d := by
  cases s with
  | nil => exact ⟨[d], [], rfl, fun c hc => (Option.some.inj hc).symm⟩
  | cons e s =>
    unfold separated
    split
    · exact ⟨[], _, rfl, fun c hc => nomatch hc⟩
    · unfold before
      split <;> exact ⟨_, _, rfl, fun c hc => (Option.some.inj hc).symm⟩

/-- No part has the separator in it. -/
theorem not_infix_of_mem_separated {s p : List α} (h : p ∈ separated a b s) : ¬ [a, b] <:+: p := by
  induction s using separated.induct a b generalizing p with
  | case1 =>
    rw [List.mem_singleton.1 h]
    exact fun hin => absurd hin.length_le (by simp)
  | case2 c =>
    rw [List.mem_singleton.1 h]
    exact fun hin => absurd hin.length_le (by simp)
  | case3 c d s hcd ih =>
    rw [separated, if_pos hcd] at h
    rcases List.mem_cons.1 h with rfl | h
    · exact fun hin => absurd hin.length_le (by simp)
    · exact ih h
  | case4 c d s hcd ih =>
    obtain ⟨q, qs, hsep, hhead⟩ := head_separated (a := a) (b := b) d s
    rw [separated, if_neg hcd, hsep, before] at h
    rw [hsep] at ih
    rcases List.mem_cons.1 h with rfl | h
    · intro hin
      rcases List.infix_cons_iff.1 hin with hpre | hin
      · obtain ⟨hc, hpre⟩ := List.cons_prefix_cons.1 hpre
        cases q with
        | nil => exact absurd hpre.length_le (by simp)
        | cons e q =>
          have he : b = e := (List.cons_prefix_cons.1 hpre).1
          have hd : e = d := hhead e rfl
          exact hcd ⟨hc.symm, (he.trans hd).symm⟩
      · exact ih List.mem_cons_self hin
    · exact ih (List.mem_cons_of_mem _ h)

theorem separated_iff (hab : a ≠ b) {ps : List (List α)} (hne : ps ≠ []) :
    separated a b (joined a b ps) = ps ↔ ∀ p ∈ ps, ¬ [a, b] <:+: p := by
  constructor
  · intro h p hp
    rw [← h] at hp
    exact not_infix_of_mem_separated hp
  · exact separated_joined hab hne

/-! ### Each read -/

/-- The texts of which each was read are what was read, written again, and each is read so. -/
theorem mapM_iff {β γ : Type} {write : γ → β} {read : β → Option γ} (h : ∀ s t, read s = some t → s = write t) {l : List β}
    {ts : List γ} : l.mapM read = some ts ↔ l = ts.map write ∧ ∀ t ∈ ts, read (write t) = some t := by
  induction l generalizing ts with
  | nil =>
    rw [List.mapM_nil]
    constructor
    · intro hts
      obtain rfl : [] = ts := Option.some.inj hts
      exact ⟨rfl, fun _ hin => nomatch hin⟩
    · rintro ⟨hl, -⟩
      rw [List.map_eq_nil_iff.1 hl.symm]
      rfl
  | cons s l ih =>
    rw [List.mapM_cons]
    constructor
    · intro hts
      obtain ⟨t, hread, hts⟩ := Option.bind_eq_some_iff.1 hts
      obtain ⟨ts', hrest, hts⟩ := Option.bind_eq_some_iff.1 hts
      obtain rfl : t :: ts' = ts := Option.some.inj hts
      obtain ⟨rfl, hall⟩ := ih.1 hrest
      obtain rfl := h s t hread
      exact ⟨rfl, List.forall_mem_cons.2 ⟨hread, hall⟩⟩
    · rintro ⟨hl, hall⟩
      cases ts with
      | nil => cases hl
      | cons t ts =>
        obtain ⟨rfl, rfl⟩ := List.cons.inj hl
        obtain ⟨ht, hts⟩ := List.forall_mem_cons.1 hall
        have hrest := ih.2 ⟨rfl, hts⟩
        rw [ht, hrest]
        rfl

/-! ### Digits -/

def digit (base : Nat) (c : Char) : Option Nat :=
  let value :=
    if '0' ≤ c ∧ c ≤ '9' then c.toNat - '0'.toNat
    else if 'a' ≤ c ∧ c ≤ 'f' then c.toNat - 'a'.toNat + 10
    else if 'A' ≤ c ∧ c ≤ 'F' then c.toNat - 'A'.toNat + 10
    else base
  if value < base then some value else none

theorem digit_quote (base : Nat) : digit base '"' = none := if_neg (Nat.lt_irrefl base)

end Library
