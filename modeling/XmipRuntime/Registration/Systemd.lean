import XmipRuntime.Library.Separated
import XmipRuntime.Library.Shortened
import XmipRuntime.Registration.Definition

/-!
# What systemd reads of a command line

A command line is split by the rules of systemd's manual: at white space outside quotes, with escapes in its words, specifiers
after `%` and, in arguments, variables after `$`.  What the manual gives no meaning to is refused.
-/

namespace Registration.Systemd

open Library

/-! ### Words -/

def blank (c : Char) : Bool := c == ' ' || c == '\t' || c == '\n' || c == '\r'

def push (c : Char) : Option (List Char × List Char) → Option (List Char × List Char) :=
  Option.map fun p => (c :: p.1, p.2)

/-- The number that so many digits are. -/
def number (base : Nat) : Nat → Nat → List Char → Option Nat
  | 0, value, _ => some value
  | _ + 1, _, [] => none
  | n + 1, value, c :: s => (digit base c).bind fun d => number base n (value * base + d) s

def simpleEscapes : List (Char × Char) :=
  [('a', '\x07'), ('b', '\x08'), ('f', '\x0c'), ('n', '\n'), ('r', '\r'), ('t', '\t'), ('v', '\x0b'), ('\\', '\\'),
    ('"', '"'), ('\'', '\''), ('s', ' ')]

/-- The character a number stands for, where it is one below `limit`. -/
def coded (limit : Nat) (value : Option Nat) : Option Char :=
  value.bind fun value => if value ≠ 0 ∧ value < limit ∧ value.isValidChar then some (Char.ofNat value) else none

/-- The character an escape stands for, and how many characters it takes after the backslash. -/
def unescape : List Char → Option (Char × Nat)
  | [] => none
  | c :: s =>
    match simpleEscapes.find? fun p => p.1 = c with
    | some p => some (p.2, 1)
    | none =>
      if c = 'x' then (coded 128 (number 16 2 0 s)).map fun d => (d, 3)
      else if c = 'u' then (coded 0x110000 (number 16 4 0 s)).map fun d => (d, 5)
      else if c = 'U' then (coded 0x110000 (number 16 8 0 s)).map fun d => (d, 9)
      else (coded 128 (number 8 3 0 (c :: s))).map fun d => (d, 3)

/-- The rest of a word, so many characters on, and what follows it: up to the closing quote, or to a blank where there is no
quote.  A quote is at a word's beginning or end. -/
def scan (quote : Option Char) : Nat → List Char → Option (List Char × List Char)
  | 0, [] => if quote = none then some ([], []) else none
  | _ + 1, [] => none
  | n + 1, _ :: s => scan quote n s
  | 0, c :: s =>
    if quote = some c then if s.head?.all blank then some ([], s) else none
    else if c = '\\' then (unescape s).bind fun p => push p.1 (scan quote p.2 s)
    else if quote = none ∧ blank c then some ([], c :: s)
    else if quote = none ∧ (c = '"' ∨ c = '\'') then none
    else push c (scan quote 0 s)

/-- The word that `s` begins with; where there may be further commands, a semicolon alone begins one, which is refused. -/
def word (commands : Bool) : List Char → Option (List Char × List Char)
  | [] => none
  | c :: s =>
    if c = '"' ∨ c = '\'' then scan (some c) 0 s
    else if commands ∧ c = ';' ∧ s.head?.all blank then none
    else if commands ∧ c = '\\' ∧ s.head? = some ';' ∧ s.tail.head?.all blank then some ([';'], s.tail)
    else scan none 0 (c :: s)

/-- The word after a gap, with what its marks stand for. -/
def nextWord (commands : Bool) (decode : List Char → Option (List Char)) : List Char → Option (List Char × List Char)
  | [] => none
  | c :: s =>
    if blank c then (word commands (s.dropWhile blank)).bind fun p => (decode p.1).map fun t => (t, p.2) else none

/-- `t` with each two of a mark for one; what a single one stands for is not told by the text. -/
def doubled (mark : Char) : Bool → List Char → Option (List Char)
  | false, [] => some []
  | true, [] => none
  | false, c :: s => if c = mark then doubled mark true s else (doubled mark false s).map (c :: ·)
  | true, c :: s => if c = mark then (doubled mark false s).map (c :: ·) else none

/-- What before an executable's path says how it is to be run. -/
def modifiers : List Char := ['@', '-', ':', '+', '!', '|']

def decodeExecutable (t : List Char) : Option (List Char) :=
  if ∀ c ∈ t.head?, c ∉ modifiers then doubled '%' false t else none

def decodeArgument (t : List Char) : Option (List Char) := (doubled '%' false t).bind (doubled '$' false)

def readCommandLine (line : List Char) : Option (List Char × List (List Char)) :=
  command blank (nextWord false decodeExecutable) (nextWord true decodeArgument) (' ' :: line)

/-! ### A word -/

theorem of_push {c : Char} {p : Option (List Char × List Char)} {t s' : List Char} (h : push c p = some (t, s')) :
    ∃ u, p = some (u, s') ∧ t = c :: u := by
  obtain ⟨⟨u, s''⟩, hp, heq⟩ := Option.map_eq_some_iff.1 h
  cases heq
  exact ⟨u, hp, rfl⟩

/-- No digit of a number is a quote. -/
theorem number_quoteless {base n value v : Nat} {s : List Char} (h : number base n value s = some v) : '"' ∉ s.take n := by
  induction n generalizing value s with
  | zero => simp
  | succ n ih =>
    cases s with
    | nil => cases h
    | cons c s =>
      obtain ⟨d, hd, h⟩ := Option.bind_eq_some_iff.1 h
      have hrest := ih h
      intro hmem
      rcases List.mem_cons.1 hmem with rfl | hmem
      · rw [digit_quote] at hd
        cases hd
      · exact hrest hmem

theorem of_coded {limit n : Nat} {value : Option Nat} {p : Char × Nat} (h : (coded limit value).map (fun d => (d, n)) = some p) :
    p.2 = n ∧ ∃ v, value = some v := by
  obtain ⟨d, hd, rfl⟩ := Option.map_eq_some_iff.1 h
  obtain ⟨v, hv, -⟩ := Option.bind_eq_some_iff.1 hd
  exact ⟨rfl, v, hv⟩

/-- An escape takes one character at least, and no more quotes than it stands for. -/
theorem unescape_spans {s : List Char} {p : Char × Nat} (h : unescape s = some p) :
    1 ≤ p.2 ∧ (s.take p.2).count '"' ≤ [p.1].count '"' := by
  cases s with
  | nil => cases h
  | cons c s =>
    -- A letter and the digits after it.
    have hletter : ∀ {base n limit : Nat}, c ≠ '"' →
        (coded limit (number base n 0 s)).map (fun d => (d, n + 1)) = some p →
        1 ≤ p.2 ∧ ((c :: s).take p.2).count '"' ≤ [p.1].count '"' := by
      intro base n limit hc hcoded
      obtain ⟨hp, v, hv⟩ := of_coded hcoded
      have hquote := List.count_eq_zero.2 (number_quoteless hv)
      rw [hp, List.take_succ_cons, List.count_cons_of_ne hc, hquote]
      exact ⟨Nat.le_add_left 1 n, Nat.zero_le _⟩
    rw [unescape] at h
    split at h
    · next q hfind =>
      have hq : q.1 = c := by simpa using List.find?_some hfind
      have hsimple : ∀ q ∈ simpleEscapes, [q.1].count '"' ≤ [q.2].count '"' := by decide
      have hcount := hsimple q (List.mem_of_find?_eq_some hfind)
      obtain rfl := Option.some.inj h
      exact ⟨Nat.le_refl 1, by rwa [hq] at hcount⟩
    · by_cases hx : c = 'x'
      · rw [if_pos hx] at h
        exact hletter (hx ▸ by decide) h
      rw [if_neg hx] at h
      by_cases hu : c = 'u'
      · rw [if_pos hu] at h
        exact hletter (hu ▸ by decide) h
      rw [if_neg hu] at h
      by_cases hU : c = 'U'
      · rw [if_pos hU] at h
        exact hletter (hU ▸ by decide) h
      rw [if_neg hU] at h
      obtain ⟨hp, v, hv⟩ := of_coded h
      have hquote := List.count_eq_zero.2 (number_quoteless hv)
      rw [hp, hquote]
      exact ⟨by decide, Nat.zero_le _⟩

/-- What one character does to the rest of a word: it is skipped; it ends the word; it is a backslash that begins an escape; or
it is part of the word. -/
theorem scan_cons {quote : Option Char} {n : Nat} {c : Char} {s t s' : List Char} (h : scan quote n (c :: s) = some (t, s')) :
    (∃ m, n = m + 1 ∧ scan quote m s = some (t, s')) ∨
    (n = 0 ∧ t = [] ∧ (quote = some c ∧ s' = s ∧ s.head?.all blank = true ∨
      quote = none ∧ s' = c :: s ∧ blank c = true)) ∨
    (∃ p u, n = 0 ∧ c = '\\' ∧ unescape s = some p ∧ scan quote p.2 s = some (u, s') ∧ t = p.1 :: u) ∨
    ∃ u, n = 0 ∧ quote ≠ some c ∧ c ≠ '\\' ∧ (quote = none → blank c = false ∧ c ≠ '"' ∧ c ≠ '\'') ∧
      scan quote 0 s = some (u, s') ∧ t = c :: u := by
  cases n with
  | succ m => exact .inl ⟨m, rfl, h⟩
  | zero =>
    right
    rw [scan] at h
    by_cases hquote : quote = some c
    · rw [if_pos hquote] at h
      obtain ⟨hblank, heq⟩ := Option.ite_none_right_eq_some.1 h
      cases heq
      exact .inl ⟨rfl, rfl, .inl ⟨hquote, rfl, hblank⟩⟩
    rw [if_neg hquote] at h
    by_cases hback : c = '\\'
    · rw [if_pos hback] at h
      obtain ⟨p, hp, h⟩ := Option.bind_eq_some_iff.1 h
      obtain ⟨u, hu, rfl⟩ := of_push h
      exact .inr (.inl ⟨p, u, rfl, hback, hp, hu, rfl⟩)
    rw [if_neg hback] at h
    by_cases hblank : quote = none ∧ blank c = true
    · rw [if_pos hblank] at h
      cases h
      exact .inl ⟨rfl, rfl, .inr ⟨hblank.1, rfl, hblank.2⟩⟩
    rw [if_neg hblank] at h
    by_cases hquotes : quote = none ∧ (c = '"' ∨ c = '\'')
    · rw [if_pos hquotes] at h
      cases h
    rw [if_neg hquotes] at h
    obtain ⟨u, hu, rfl⟩ := of_push h
    refine .inr (.inr ⟨u, rfl, hquote, hback, fun hnone => ⟨?_, ?_, ?_⟩, hu, rfl⟩)
    · exact Bool.eq_false_iff.2 fun hb => hblank ⟨hnone, hb⟩
    · exact fun hc => hquotes ⟨hnone, .inl hc⟩
    · exact fun hc => hquotes ⟨hnone, .inr hc⟩

/-- A character that is read as it is in a word, up to `quote` where there is one. -/
def Kept (quote : Option Char) (c : Char) : Prop :=
  quote ≠ some c ∧ c ≠ '\\' ∧ (quote = none → blank c = false ∧ c ≠ '"' ∧ c ≠ '\'')

instance (quote : Option Char) (c : Char) : Decidable (Kept quote c) := inferInstanceAs (Decidable (_ ∧ _ ∧ (_ → _)))

/-- What is read of a word is no longer than what is written, its closing quote apart; where it is no shorter nothing in it is
read otherwise than it is written. -/
theorem scan_spans {quote : Option Char} {n : Nat} {s t s' : List Char} (h : scan quote n s = some (t, s')) :
    ∃ raw, s = raw ++ s' ∧ t.length + n + quote.toList.length ≤ raw.length ∧ (∀ c ∈ s'.head?, blank c = true) ∧
      (n = 0 → t.length + quote.toList.length = raw.length → raw = t ++ quote.toList ∧ ∀ c ∈ t, Kept quote c) ∧
      (quote ≠ some '"' → raw.count '"' ≤ t.count '"' + (s.take n).count '"') := by
  induction s generalizing n t with
  | nil =>
    cases n with
    | zero =>
      obtain ⟨rfl, heq⟩ := Option.ite_none_right_eq_some.1 h
      cases heq
      exact ⟨[], rfl, Nat.le_refl 0, nofun, fun _ _ => ⟨rfl, nofun⟩, fun _ => Nat.zero_le _⟩
    | succ n => cases h
  | cons c s ih =>
    rcases scan_cons h with ⟨m, rfl, hrest⟩ | ⟨rfl, rfl, ⟨rfl, rfl, hblank⟩ | ⟨rfl, rfl, hblank⟩⟩ |
      ⟨p, u, rfl, rfl, hp, hrest, rfl⟩ | ⟨u, rfl, hquote, hback, hnone, hrest, rfl⟩
    · obtain ⟨raw, hraw, hle, hend, -, hcount⟩ := ih hrest
      refine ⟨c :: raw, by rw [hraw, List.cons_append], by rw [List.length_cons]; omega, hend, nofun, fun hne => ?_⟩
      have hcount' := hcount hne
      rw [List.take_succ_cons, List.count_cons, List.count_cons]
      omega
    · refine ⟨[c], rfl, Nat.le_refl 1, fun d hd => ?_, fun _ _ => ⟨rfl, nofun⟩, fun hne => ?_⟩
      · rw [hd] at hblank
        exact hblank
      · rw [List.count_singleton, if_neg]
        · exact Nat.zero_le _
        · exact fun heq => hne (congrArg some (beq_iff_eq.1 heq))
    · exact ⟨[], rfl, Nat.le_refl 0, fun d hd => by rwa [← Option.some.inj hd], fun _ _ => ⟨rfl, nofun⟩, fun _ => Nat.zero_le _⟩
    · obtain ⟨raw, hraw, hle, hend, -, hcount⟩ := ih hrest
      obtain ⟨hpos, hquotes⟩ := unescape_spans hp
      refine ⟨'\\' :: raw, by rw [hraw, List.cons_append], by simp only [List.length_cons]; omega, hend, fun _ hlen => ?_,
        fun hne => ?_⟩
      · simp only [List.length_cons] at hlen
        omega
      · have hcount' := hcount hne
        rw [List.count_singleton] at hquotes
        rw [List.count_cons_of_ne (by decide), List.count_cons]
        omega
    · obtain ⟨raw, hraw, hle, hend, hsame, hcount⟩ := ih hrest
      refine ⟨c :: raw, by rw [hraw, List.cons_append], by simp only [List.length_cons]; omega, hend, fun _ hlen => ?_,
        fun hne => ?_⟩
      · simp only [List.length_cons] at hlen
        obtain ⟨rfl, hkept⟩ := hsame rfl (by omega)
        exact ⟨rfl, List.forall_mem_cons.2 ⟨⟨hquote, hback, hnone⟩, hkept⟩⟩
      · have hcount' := hcount hne
        rw [List.take_zero, List.count_nil] at hcount' ⊢
        rw [List.count_cons, List.count_cons]
        omega

/-- A text with nothing in it to be read otherwise is read up to its closing quote, or up to a blank. -/
theorem scan_of_kept {quote : Option Char} {t rest : List Char} (h : ∀ c ∈ t, Kept quote c)
    (hrest : ∀ c ∈ rest.head?, blank c = true) : scan quote 0 (t ++ (quote.toList ++ rest)) = some (t, rest) := by
  induction t with
  | nil =>
    cases quote with
    | none =>
      cases rest with
      | nil => rfl
      | cons c rest =>
        have hblank := hrest c rfl
        have hback : c ≠ '\\' := by
          rintro rfl
          cases hblank
        change scan none 0 (c :: rest) = _
        rw [scan, if_neg nofun, if_neg hback, if_pos ⟨rfl, hblank⟩]
    | some q =>
      have hall : rest.head?.all blank = true := by
        cases rest with
        | nil => rfl
        | cons c rest => exact hrest c rfl
      change scan (some q) 0 (q :: rest) = _
      rw [scan, if_pos rfl, if_pos hall]
  | cons c t ih =>
    obtain ⟨⟨hquote, hback, hnone⟩, hkept⟩ := List.forall_mem_cons.1 h
    have hrest' := ih hkept
    have hblank : ¬ (quote = none ∧ blank c = true) := fun hand => by
      have := (hnone hand.1).1
      rw [hand.2] at this
      cases this
    have hquotes : ¬ (quote = none ∧ (c = '"' ∨ c = '\'')) := fun hand =>
      hand.2.elim (hnone hand.1).2.1 (hnone hand.1).2.2
    rw [List.cons_append, scan, if_neg hquote, if_neg hback, if_neg hblank, if_neg hquotes, hrest']
    rfl

/-- A word that is read as it is without quotes. -/
def BareWord (commands : Bool) (t : List Char) : Prop :=
  t ≠ [] ∧ (∀ c ∈ t, Kept none c) ∧ (commands = true → t ≠ [';'])

instance (commands : Bool) (t : List Char) : Decidable (BareWord commands t) := inferInstanceAs (Decidable (_ ∧ _ ∧ (_ → _)))

variable {commands : Bool}

/-- What is read of a word is no longer than what is written, and is a bare word where it is no shorter; and what is written
has no more quotes, or two characters more and is as it is between quotes where it is no longer than that. -/
theorem word_spans {s t s' : List Char} (hhead : ∀ c ∈ s.head?, blank c = false) (h : word commands s = some (t, s')) :
    ∃ raw, s = raw ++ s' ∧ t.length ≤ raw.length ∧ (t.length = raw.length → BareWord commands t) ∧
      (raw.count '"' ≤ t.count '"' ∨
        t.length + 2 ≤ raw.length ∧ (t.length + 2 = raw.length → ∀ c ∈ t, Kept (some '"') c)) := by
  cases s with
  | nil => cases h
  | cons c s =>
    rw [word] at h
    by_cases hquote : c = '"' ∨ c = '\''
    · rw [if_pos hquote] at h
      obtain ⟨raw, rfl, hle, -, hsame, hcount⟩ := scan_spans h
      have hkept : t.length + 1 = raw.length → ∀ d ∈ t, Kept (some c) d := fun hlen => (hsame rfl hlen).2
      simp only [Option.toList_some, List.length_singleton] at hle
      refine ⟨c :: raw, rfl, by rw [List.length_cons]; omega, fun hlen => ?_, ?_⟩
      · rw [List.length_cons] at hlen
        omega
      rw [List.length_cons]
      obtain rfl | rfl := hquote
      · exact .inr ⟨by omega, fun hlen => hkept (by omega)⟩
      · have hcount' := hcount (by decide)
        rw [List.take_zero, List.count_nil] at hcount'
        rw [List.count_cons_of_ne (by decide)]
        exact .inl hcount'
    rw [if_neg hquote] at h
    by_cases halone : commands = true ∧ c = ';' ∧ s.head?.all blank = true
    · rw [if_pos halone] at h
      cases h
    rw [if_neg halone] at h
    by_cases hsemicolon : commands = true ∧ c = '\\' ∧ s.head? = some ';' ∧ s.tail.head?.all blank = true
    · rw [if_pos hsemicolon] at h
      cases h
      obtain ⟨-, rfl, hhead', -⟩ := hsemicolon
      cases s with
      | nil => cases hhead'
      | cons d s =>
        obtain rfl := Option.some.inj hhead'
        exact ⟨['\\', ';'], rfl, by simp, by simp, .inl (by simp)⟩
    rw [if_neg hsemicolon] at h
    obtain ⟨raw, hraw, hle, hend, hsame, hcount⟩ := scan_spans h
    have hne : raw ≠ [] := by
      rintro rfl
      have hs : c :: s = s' := hraw
      have hblank := hend c (by rw [← hs]; rfl)
      rw [hhead c rfl] at hblank
      cases hblank
    refine ⟨raw, hraw, by simpa using hle, fun hlen => ?_, .inl (by simpa using hcount nofun)⟩
    obtain ⟨heq, hkept⟩ := hsame rfl (by simpa using hlen)
    rw [Option.toList_none, List.append_nil] at heq
    subst heq
    refine ⟨hne, hkept, fun hcommands heq => ?_⟩
    -- A semicolon alone.
    subst heq
    obtain ⟨rfl, hs⟩ := List.cons.inj hraw
    have hs : s = s' := hs
    refine halone ⟨hcommands, rfl, ?_⟩
    cases hd : s.head? with
    | none => rfl
    | some d => exact hend d (hs ▸ hd)

theorem word_of_bare {t rest : List Char} (h : BareWord commands t) (hrest : BlankFirst rest) :
    word commands (t ++ rest) = some (t, rest) := by
  obtain ⟨hne, hkept, hsemicolon⟩ := h
  have hblank : ∀ c ∈ rest.head?, blank c = true := fun c hc => by rw [hrest c hc]; rfl
  have hscan := scan_of_kept hkept hblank
  obtain ⟨c, t, rfl⟩ := List.exists_cons_of_ne_nil hne
  obtain ⟨⟨-, hback, hnone⟩, -⟩ := List.forall_mem_cons.1 hkept
  have halone : ¬ (commands = true ∧ c = ';' ∧ (t ++ rest).head?.all blank = true) := by
    rintro ⟨hcommands, rfl, hall⟩
    refine hsemicolon hcommands ?_
    cases t with
    | nil => rfl
    | cons d t =>
      have hd := (hkept d (List.mem_cons_of_mem _ List.mem_cons_self)).2.2 rfl
      have hall : blank d = true := hall
      rw [hd.1] at hall
      cases hall
  rw [List.cons_append, word, if_neg (fun hor => hor.elim (hnone rfl).2.1 (hnone rfl).2.2), if_neg halone,
    if_neg (fun hand => hback hand.2.1)]
  exact hscan

/-! ### Marks -/

/-- What a decoder makes of a word: it drops characters at most, and no quotes; a word it drops none of is as it was and good,
and a good word is kept. -/
structure Decodes (decode : List Char → Option (List Char)) (Good : List Char → Prop) : Prop where
  drops : ∀ w t, decode w = some t → t.length ≤ w.length ∧ w.count '"' ≤ t.count '"' ∧ (t.length = w.length → t = w ∧ Good t)
  keeps : ∀ t, Good t → decode t = some t

theorem doubled_drops {mark : Char} (hmark : mark ≠ '"') {b : Bool} {w t : List Char} (h : doubled mark b w = some t) :
    t.length ≤ w.length ∧ w.count '"' ≤ t.count '"' ∧ (b = false → t.length = w.length → t = w ∧ mark ∉ t) := by
  induction w generalizing b t with
  | nil =>
    cases b with
    | false =>
      cases h
      exact ⟨Nat.le_refl 0, Nat.le_refl 0, fun _ _ => ⟨rfl, List.not_mem_nil⟩⟩
    | true => cases h
  | cons c w ih =>
    -- A character kept.
    have hkept : ∀ {u : List Char}, doubled mark false w = some u →
        (c :: u).length ≤ (c :: w).length ∧ (c :: w).count '"' ≤ (c :: u).count '"' := by
      intro u hu
      obtain ⟨hle, hcount, -⟩ := ih hu
      rw [List.count_cons, List.count_cons]
      exact ⟨Nat.succ_le_succ hle, Nat.add_le_add_right hcount _⟩
    cases b with
    | false =>
      rw [doubled] at h
      by_cases hc : c = mark
      · rw [if_pos hc] at h
        obtain ⟨hle, hcount, -⟩ := ih h
        rw [List.count_cons_of_ne (by rw [hc]; exact hmark), List.length_cons]
        exact ⟨Nat.le_succ_of_le hle, hcount, fun _ hlen => by omega⟩
      · rw [if_neg hc] at h
        obtain ⟨u, hu, rfl⟩ := Option.map_eq_some_iff.1 h
        obtain ⟨hle, hcount⟩ := hkept hu
        refine ⟨hle, hcount, fun _ hlen => ?_⟩
        obtain ⟨rfl, hnot⟩ := (ih hu).2.2 rfl (Nat.succ.inj hlen)
        exact ⟨rfl, fun hmem => (List.mem_cons.1 hmem).elim (fun heq => hc heq.symm) hnot⟩
    | true =>
      rw [doubled] at h
      obtain ⟨-, h⟩ := Option.ite_none_right_eq_some.1 h
      obtain ⟨u, hu, rfl⟩ := Option.map_eq_some_iff.1 h
      exact ⟨(hkept hu).1, (hkept hu).2, nofun⟩

theorem doubled_of_notMem {mark : Char} {t : List Char} (h : mark ∉ t) : doubled mark false t = some t := by
  induction t with
  | nil => rfl
  | cons c t ih =>
    obtain ⟨hc, ht⟩ := not_or.1 (fun hor => h (List.mem_cons.2 hor))
    rw [doubled, if_neg (Ne.symm hc), ih ht]
    rfl

theorem decodes_percent : Decodes (doubled '%' false) (fun t => '%' ∉ t) where
  drops w t h := by
    obtain ⟨hle, hcount, hsame⟩ := doubled_drops (by decide) h
    exact ⟨hle, hcount, hsame rfl⟩
  keeps _ := doubled_of_notMem

theorem decodes_executable : Decodes decodeExecutable (fun t => '%' ∉ t ∧ ∀ c ∈ t.head?, c ∉ modifiers) where
  drops w t h := by
    obtain ⟨hmodifier, h⟩ := Option.ite_none_right_eq_some.1 h
    obtain ⟨hle, hcount, hsame⟩ := doubled_drops (by decide) h
    refine ⟨hle, hcount, fun hlen => ?_⟩
    obtain ⟨rfl, hpercent⟩ := hsame rfl hlen
    exact ⟨rfl, hpercent, hmodifier⟩
  keeps t h := by rw [decodeExecutable, if_pos h.2, doubled_of_notMem h.1]

theorem decodes_argument : Decodes decodeArgument (fun t => '%' ∉ t ∧ '$' ∉ t) where
  drops w t h := by
    obtain ⟨u, hu, ht⟩ := Option.bind_eq_some_iff.1 h
    obtain ⟨hle, hcount, hsame⟩ := doubled_drops (by decide) hu
    obtain ⟨hle', hcount', hsame'⟩ := doubled_drops (by decide) ht
    refine ⟨Nat.le_trans hle' hle, Nat.le_trans hcount hcount', fun hlen => ?_⟩
    obtain ⟨rfl, hdollar⟩ := hsame' rfl (by omega)
    obtain ⟨rfl, hpercent⟩ := hsame rfl hlen
    exact ⟨rfl, hpercent, hdollar⟩
  keeps t h := by
    rw [decodeArgument, doubled_of_notMem h.1]
    exact doubled_of_notMem h.2

/-! ### A command line -/

section Command
variable {commands : Bool} {decode : List Char → Option (List Char)} {Good : List Char → Prop}

theorem of_nextWord {s t s' : List Char} (h : nextWord commands decode s = some (t, s')) :
    ∃ gap rest w, s = gap ++ rest ∧ gap ≠ [] ∧ '"' ∉ gap ∧ (∀ c ∈ rest.head?, blank c = false) ∧ word commands rest = some (w, s') ∧
      decode w = some t := by
  cases s with
  | nil => cases h
  | cons c s =>
    obtain ⟨hc, h⟩ := Option.ite_none_right_eq_some.1 h
    obtain ⟨⟨w, s''⟩, hword, hdecode⟩ := Option.bind_eq_some_iff.1 h
    obtain ⟨t', ht, heq⟩ := Option.map_eq_some_iff.1 hdecode
    cases heq
    refine ⟨c :: s.takeWhile blank, s.dropWhile blank, w, ?_, List.cons_ne_nil c _, ?_, fun d hd => ?_, hword, ht⟩
    · rw [List.cons_append, List.takeWhile_append_dropWhile]
    · have hall : ∀ d ∈ c :: s.takeWhile blank, blank d = true :=
        List.forall_mem_cons.2 ⟨hc, List.all_eq_true.1 List.all_takeWhile⟩
      intro hmem
      cases hall _ hmem
    · have hnot := List.head?_dropWhile_not blank s
      rw [hd] at hnot
      simpa using hnot

theorem nextWord_of_word {c : Char} {s t s' : List Char} (hc : blank c = false) (hword : word commands (c :: s) = some (t, s'))
    (hdecode : decode t = some t) : nextWord commands decode (' ' :: c :: s) = some (t, s') := by
  rw [nextWord, if_pos (show blank ' ' = true from rfl), List.dropWhile_cons_of_neg (by rw [hc]; decide), hword]
  exact Option.map_eq_some_iff.2 ⟨t, hdecode, rfl⟩

/-- What a splitter by these rules makes of words, given what their marks stand for. -/
theorem counts (hdecode : Decodes decode Good) : Counts blank (fun t => BareWord commands t ∧ Good t)
    (fun t => (∀ c ∈ t, Kept (some '"') c) ∧ Good t) (nextWord commands decode) where
  quote := rfl
  some_of_bare t h := by
    obtain ⟨c, hc⟩ := List.exists_mem_of_ne_nil t h.1.1
    exact ⟨⟨c, hc, ((h.1.2.1 c hc).2.2 rfl).1⟩, fun hmem => ((h.1.2.1 _ hmem).2.2 rfl).2.1 rfl⟩
  bare t rest h hrest := by
    have hword := word_of_bare h.1 hrest
    obtain ⟨c, t, rfl⟩ := List.exists_cons_of_ne_nil h.1.1
    exact nextWord_of_word ((h.1.2.1 c List.mem_cons_self).2.2 rfl).1 hword (hdecode.keeps _ h.2)
  inner t rest h hrest := by
    have hblank : ∀ c ∈ rest.head?, blank c = true := fun c hc => by rw [hrest c hc]; rfl
    exact nextWord_of_word rfl (scan_of_kept h.1 hblank) (hdecode.keeps t h.2)
  spaceless t h hmem := by
    have hblank := ((h.1.2.1 _ hmem).2.2 rfl).1
    cases hblank
  counts s t s' h := by
    obtain ⟨gap, rest, w, rfl, hgap, hquote, hhead, hword, hdrops⟩ := of_nextWord h
    obtain ⟨raw, rfl, hle, hbare, hquotes⟩ := word_spans hhead hword
    obtain ⟨hle', hcount, hsame⟩ := hdecode.drops w t hdrops
    have hpos := List.length_pos_iff.2 hgap
    refine ⟨gap ++ raw, by rw [List.append_assoc], ?_, fun hlen => ?_, ?_⟩
    · rw [List.length_append]
      omega
    · rw [List.length_append] at hlen
      obtain ⟨rfl, hgood⟩ := hsame (by omega)
      exact ⟨hbare (by omega), hgood⟩
    · rw [List.count_append, List.count_eq_zero.2 hquote, List.length_append]
      rcases hquotes with hfew | ⟨hmore, hkept⟩
      · exact .inl (by omega)
      · refine .inr ⟨by omega, fun hlen => ?_⟩
        obtain ⟨rfl, hgood⟩ := hsame (by omega)
        exact ⟨hkept (by omega), hgood⟩

end Command

example : readCommandLine "/opt/xmip \"a b\" 50%% c\\x41".toList =
    some ("/opt/xmip".toList, ["a b".toList, "50%".toList, "cA".toList]) := by decide +kernel

end Registration.Systemd
