import Mathlib.Data.List.Forall2
import Mathlib.Data.List.Infix
import XmipRuntime.Library.Items
import XmipRuntime.Library.Separated
import XmipRuntime.Registration.Definition

/-!
# What launchd reads of a property list

A property list is read by the rules of XML: tags with white space, comments and processing instructions between them, and
text in which a reference stands for its character, a comment for nothing and a `CDATA` section for what is in it.  A text that
was written without an escape is read back just where it has nothing in it that these rules give a meaning to.
-/

namespace Registration.Launchd

open Library

/-! ### Text -/

/-- A character that XML text may have. -/
def xmlChar (c : Char) : Bool :=
  c == '\t' || c == '\n' || c == '\r' || decide (' ' ≤ c) && c != '\uFFFE' && c != '\uFFFF'

def white (c : Char) : Bool := c == ' ' || c == '\t' || c == '\n' || c == '\r'

def namedReferences : List (List Char × Char) :=
  [("lt;".toList, '<'), ("gt;".toList, '>'), ("amp;".toList, '&'), ("quot;".toList, '"'), ("apos;".toList, '\'')]

/-- The character of the number up to the semicolon, and how many characters that took. -/
def numberReference (base : Nat) : Nat → Nat → List Char → Option (Char × Nat)
  | _, _, [] => none
  | number, n, c :: s =>
    if c = ';' then if number.isValidChar ∧ xmlChar (Char.ofNat number) then some (Char.ofNat number, n + 1) else none
    else (digit base c).bind fun value => numberReference base (number * base + value) (n + 1) s

/-- The character a reference stands for, and how many characters it takes after the ampersand. -/
def reference (s : List Char) : Option (Char × Nat) :=
  match namedReferences.find? fun p => p.1.isPrefixOf s with
  | some p => some (p.2, p.1.length)
  | none =>
    match s with
    | '#' :: 'x' :: s => numberReference 16 0 2 s
    | '#' :: s => numberReference 10 0 1 s
    | _ => none

/-- Where in text a reader is: in text, or in what is dropped or kept up to a mark. -/
inductive Mode where
  | text
  | dropping (mark : List Char)
  | keeping (mark : List Char)

def push (c : Char) : Option (List Char × List Char) → Option (List Char × List Char) :=
  Option.map fun p => (c :: p.1, p.2)

/-- Each end of a line is read as a line feed. -/
def lineEnd (c : Char) : Char := if c = '\r' then '\n' else c

/-- The rest of a text, so many characters on, and what follows it: a tag, or nothing. -/
def content : Mode → Nat → List Char → Option (List Char × List Char)
  | .text, 0, [] => some ([], [])
  | _, _, [] => none
  | mode, n + 1, _ :: s => content mode n s
  | .dropping mark, 0, c :: s =>
    if mark <+: c :: s then content .text (mark.length - 1) s else content (.dropping mark) 0 s
  | .keeping mark, 0, c :: s =>
    if mark <+: c :: s then content .text (mark.length - 1) s
    else push (lineEnd c) (content (.keeping mark) (if c = '\r' ∧ ['\n'] <+: s then 1 else 0) s)
  | .text, 0, c :: s =>
    if c = '<' then
      if ['!', '-', '-'] <+: s then content (.dropping ['-', '-', '>']) 3 s
      else if ['!', '[', 'C', 'D', 'A', 'T', 'A', '['] <+: s then content (.keeping [']', ']', '>']) 8 s
      else if ['?'] <+: s then content (.dropping ['?', '>']) 1 s
      else some ([], c :: s)
    else if c = '&' then (reference s).bind fun p => push p.1 (content .text p.2 s)
    else if [']', ']', '>'] <+: c :: s then none
    else push (lineEnd c) (content .text (if c = '\r' ∧ ['\n'] <+: s then 1 else 0) s)

/-! ### The elements of a property list -/

/-- A tag of a property list, or an element that is a text. -/
inductive Element where
  | plist | plistEnd | dict | dictEnd | array | arrayEnd | yes | no
  | key (text : List Char)
  | string (text : List Char)
  deriving DecidableEq

def Element.text : Element → List Char
  | .plist => "<plist version=\"1.0\">".toList
  | .plistEnd => "</plist>".toList
  | .dict => "<dict>".toList
  | .dictEnd => "</dict>".toList
  | .array => "<array>".toList
  | .arrayEnd => "</array>".toList
  | .yes => "<true/>".toList
  | .no => "<false/>".toList
  | .key text => "<key>".toList ++ text ++ "</key>".toList
  | .string text => "<string>".toList ++ text ++ "</string>".toList

def tags : List Element := [.plist, .plistEnd, .dict, .dictEnd, .array, .arrayEnd, .yes, .no]

/-- `s` without the tag it begins with. -/
def after (tag s : List Char) : Option (List Char) := if tag <+: s then some (s.drop tag.length) else none

/-- A text between two tags. -/
def between (first last s : List Char) : Option (List Char × List Char) :=
  (after first s).bind fun s => (content .text 0 s).bind fun p => (after last p.2).map fun s => (p.1, s)

/-- The element `s` begins with, and what follows it. -/
def readElement (s : List Char) : Option (Element × List Char) :=
  match tags.find? fun tag => tag.text.isPrefixOf s with
  | some tag => some (tag, s.drop tag.text.length)
  | none =>
    ((between "<key>".toList "</key>".toList s).map fun p => (.key p.1, p.2)).or
      ((between "<string>".toList "</string>".toList s).map fun p => (.string p.1, p.2))

/-- What follows the white space between tags. -/
def skipped (s : List Char) : Option (List Char) :=
  (content .text 0 s).bind fun p => if p.1.all white then some p.2 else none

def nextElement (s : List Char) : Option (Element × List Char) :=
  (readElement s).bind fun p => (skipped p.2).map fun s => (p.1, s)

/-- The elements of a property list, in order. -/
def readPlist (text : List Char) : Option (List Element) :=
  if text.all xmlChar then (skipped text).bind fun s => items List.isEmpty nextElement (text.length + 1) s else none

/-! ### Text read back -/

/-- Text that has nothing to be read otherwise in it. -/
def PlainText (t : List Char) : Prop := (∀ c ∈ t, c ≠ '<' ∧ c ≠ '&' ∧ c ≠ '\r') ∧ ¬ [']', ']', '>'] <:+: t

instance (t : List Char) : Decidable (PlainText t) := inferInstanceAs (Decidable (_ ∧ _))

theorem of_push {c : Char} {p : Option (List Char × List Char)} {t s' : List Char} (h : push c p = some (t, s')) :
    ∃ u, p = some (u, s') ∧ t = c :: u := by
  obtain ⟨⟨u, s''⟩, hp, heq⟩ := Option.map_eq_some_iff.1 h
  cases heq
  exact ⟨u, hp, rfl⟩

theorem pos_of_numberReference {base number n : Nat} {s : List Char} {p : Char × Nat}
    (h : numberReference base number n s = some p) : 1 ≤ p.2 := by
  induction s generalizing number n with
  | nil => cases h
  | cons c s ih =>
    unfold numberReference at h
    split at h
    · obtain ⟨-, heq⟩ := Option.ite_none_right_eq_some.1 h
      rw [← Option.some.inj heq]
      exact Nat.le_add_left 1 n
    · obtain ⟨value, -, h⟩ := Option.bind_eq_some_iff.1 h
      exact ih h

theorem pos_of_reference {s : List Char} {p : Char × Nat} (h : reference s = some p) : 1 ≤ p.2 := by
  unfold reference at h
  split at h
  · next q hfind =>
    have hlong : ∀ q ∈ namedReferences, 1 ≤ q.1.length := by decide
    rw [← Option.some.inj h]
    exact hlong q (List.mem_of_find?_eq_some hfind)
  · split at h
    · exact pos_of_numberReference h
    · exact pos_of_numberReference h
    · cases h

/-- What one character of a text is read as: it ends the text; it is dropped, one that begins something in text with others
after it; or another is read for it, in text its own or one that others after it stand for too. -/
theorem content_cons {mode : Mode} {n : Nat} {c : Char} {s t s' : List Char} (h : content mode n (c :: s) = some (t, s')) :
    t = [] ∧ s' = c :: s ∧ n = 0 ∧ c = '<' ∨
    (∃ mode' n', content mode' n' s = some (t, s') ∧ n ≤ n' + 1 ∧ (mode = .text → n = 0 → 1 ≤ n')) ∨
    ∃ d u mode' n', content mode' n' s = some (u, s') ∧ t = d :: u ∧ n = 0 ∧ (mode = .text → mode' = .text ∧
      (n' = 0 → d = lineEnd c ∧ c ≠ '<' ∧ c ≠ '&' ∧ ¬ [']', ']', '>'] <+: c :: s)) := by
  cases n with
  | succ n => exact .inr (.inl ⟨mode, n, by rwa [content] at h, Nat.le_refl _, nofun⟩)
  | zero =>
    cases mode with
    | dropping mark =>
      rw [content] at h
      split at h
      · exact .inr (.inl ⟨_, _, h, Nat.zero_le _, nofun⟩)
      · exact .inr (.inl ⟨_, _, h, Nat.zero_le _, nofun⟩)
    | keeping mark =>
      rw [content] at h
      split at h
      · exact .inr (.inl ⟨_, _, h, Nat.zero_le _, nofun⟩)
      · obtain ⟨u, hu, rfl⟩ := of_push h
        exact .inr (.inr ⟨_, u, _, _, hu, rfl, rfl, nofun⟩)
    | text =>
      rw [content] at h
      by_cases hless : c = '<'
      · rw [if_pos hless] at h
        split at h
        · exact .inr (.inl ⟨_, _, h, Nat.zero_le _, fun _ _ => by decide⟩)
        split at h
        · exact .inr (.inl ⟨_, _, h, Nat.zero_le _, fun _ _ => by decide⟩)
        split at h
        · exact .inr (.inl ⟨_, _, h, Nat.zero_le _, fun _ _ => by decide⟩)
        · cases h
          exact .inl ⟨rfl, rfl, rfl, hless⟩
      rw [if_neg hless] at h
      by_cases hamp : c = '&'
      · rw [if_pos hamp] at h
        obtain ⟨p, hp, h⟩ := Option.bind_eq_some_iff.1 h
        obtain ⟨u, hu, rfl⟩ := of_push h
        have hpos := pos_of_reference hp
        exact .inr (.inr ⟨_, u, _, _, hu, rfl, rfl, fun _ => ⟨rfl, fun hzero => by omega⟩⟩)
      rw [if_neg hamp] at h
      split at h
      · cases h
      · next hmark =>
        obtain ⟨u, hu, rfl⟩ := of_push h
        exact .inr (.inr ⟨_, u, _, _, hu, rfl, rfl, fun _ => ⟨rfl, fun _ => ⟨rfl, hless, hamp, hmark⟩⟩⟩)

/-- What is read of a text is no longer than what is written; where it is no shorter nothing was read otherwise but the ends
of lines. -/
theorem content_spans {mode : Mode} {n : Nat} {s t s' : List Char} (h : content mode n s = some (t, s')) :
    ∃ raw, s = raw ++ s' ∧ t.length + n ≤ raw.length ∧ (∀ c ∈ s'.head?, c = '<') ∧
      (mode = .text → n = 0 → t.length = raw.length → t = raw.map lineEnd ∧ (∀ c ∈ raw, c ≠ '<' ∧ c ≠ '&') ∧
        ¬ [']', ']', '>'] <:+: raw) := by
  induction s generalizing mode n t with
  | nil =>
    cases mode <;> cases n <;> cases h
    exact ⟨[], rfl, Nat.le_refl _, nofun, fun _ _ _ => ⟨rfl, nofun, fun hin => absurd hin.length_le (by decide)⟩⟩
  | cons c s ih =>
    rcases content_cons h with ⟨rfl, rfl, rfl, rfl⟩ | ⟨mode', n', hrest, hn, hpos⟩ |
      ⟨d, u, mode', n', hrest, rfl, rfl, htext⟩
    · refine ⟨[], rfl, Nat.le_refl _, fun c hc => (Option.some.inj hc).symm, fun _ _ _ => ⟨rfl, nofun, fun hin => ?_⟩⟩
      exact absurd hin.length_le (by decide)
    · obtain ⟨raw, rfl, hle, hend, -⟩ := ih hrest
      refine ⟨c :: raw, rfl, by rw [List.length_cons]; omega, hend, fun hmode hn hlen => ?_⟩
      have := hpos hmode hn
      rw [List.length_cons] at hlen
      omega
    · obtain ⟨raw, rfl, hle, hend, hsame⟩ := ih hrest
      refine ⟨c :: raw, rfl, by simp only [List.length_cons]; omega, hend, fun hmode _ hlen => ?_⟩
      simp only [List.length_cons] at hlen
      obtain ⟨hmode', hplain⟩ := htext hmode
      have hn' : n' = 0 := by omega
      obtain ⟨rfl, hless, hamp, hmark⟩ := hplain hn'
      obtain ⟨rfl, hraw, hin⟩ := hsame hmode' hn' (by omega)
      refine ⟨rfl, List.forall_mem_cons.2 ⟨⟨hless, hamp⟩, hraw⟩, fun hinfix => ?_⟩
      rcases List.infix_cons_iff.1 hinfix with hpre | hinfix
      · exact hmark (hpre.trans (List.prefix_append (c :: raw) s'))
      · exact hin hinfix

/-- What was read of a text as it is written was plain. -/
theorem plain_of_content {t s' : List Char} (h : content .text 0 (t ++ s') = some (t, s')) : PlainText t := by
  obtain ⟨raw, hraw, -, -, hsame⟩ := content_spans h
  obtain rfl := List.append_cancel_right hraw
  obtain ⟨hends, hmeans, hmark⟩ := hsame rfl rfl rfl
  refine ⟨fun c hc => ⟨(hmeans c hc).1, (hmeans c hc).2, ?_⟩, hmark⟩
  rintro rfl
  rw [hends] at hc
  obtain ⟨d, -, hd⟩ := List.mem_map.1 hc
  unfold lineEnd at hd
  split at hd
  · cases hd
  · next hne => exact hne hd

/-- The mark that text may not have is in what is written where it is there before a tag, or before nothing. -/
theorem prefix_of_prefix_append {t s : List Char} (hs : ∀ c ∈ s.head?, c = '<') (h : [']', ']', '>'] <+: t ++ s) :
    [']', ']', '>'] <+: t := by
  cases s with
  | nil => rwa [List.append_nil] at h
  | cons c s =>
    obtain rfl : c = '<' := hs c rfl
    by_cases hlen : 3 ≤ t.length
    · exact List.prefix_of_prefix_length_le h (List.prefix_append _ _) hlen
    · have hcut : t ++ ['<'] <+: [']', ']', '>'] := by
        have hlong : t ++ ['<'] <+: t ++ '<' :: s := ⟨s, by simp⟩
        refine List.prefix_of_prefix_length_le hlong h ?_
        simp only [List.length_append, List.length_cons, List.length_nil]
        omega
      have hmem := hcut.subset (List.mem_append_right t List.mem_cons_self)
      simp at hmem

/-- Plain text is read as it is written, up to a tag or the end. -/
theorem content_of_plain {t s : List Char} (h : PlainText t) (hs : content .text 0 s = some ([], s)) :
    content .text 0 (t ++ s) = some (t, s) := by
  obtain ⟨hplain, hmark⟩ := h
  obtain ⟨-, -, -, hhead, -⟩ := content_spans hs
  induction t with
  | nil => exact hs
  | cons c t ih =>
    obtain ⟨⟨hless, hamp, hreturn⟩, hplain⟩ := List.forall_mem_cons.1 hplain
    have hrest := ih hplain (fun hin => hmark (List.infix_cons_iff.2 (.inr hin)))
    have hnone : ¬ [']', ']', '>'] <+: (c :: t) ++ s := fun hpre => hmark (prefix_of_prefix_append hhead hpre).isInfix
    rw [List.cons_append] at hnone ⊢
    rw [content, if_neg hless, if_neg hamp, if_neg hnone, if_neg (fun hand => hreturn hand.1), hrest, lineEnd,
      if_neg hreturn]
    rfl

/-! ### Elements read back -/

def Element.Plain : Element → Prop
  | .key text => PlainText text
  | .string text => PlainText text
  | _ => True

theorem after_iff {tag s s' : List Char} : after tag s = some s' ↔ s = tag ++ s' := by
  unfold after
  constructor
  · intro h
    obtain ⟨⟨r, rfl⟩, hdrop⟩ := Option.ite_none_right_eq_some.1 h
    rw [List.drop_left] at hdrop
    rw [Option.some.inj hdrop]
  · rintro rfl
    rw [if_pos (List.prefix_append tag s'), List.drop_left]

/-- A text between two tags is no longer read than written, and plain where they are all that is written. -/
theorem between_spans {first last s t s' : List Char} {c : Char} (hlast : last.getLast? = some c)
    (h : between first last s = some (t, s')) :
    ∃ raw, s = raw ++ s' ∧ raw.getLast? = some c ∧ (first ++ t ++ last).length ≤ raw.length ∧
      (raw = first ++ t ++ last → PlainText t) := by
  obtain ⟨s₁, hfirst, h⟩ := Option.bind_eq_some_iff.1 h
  obtain ⟨⟨t', s₂⟩, htext, h⟩ := Option.bind_eq_some_iff.1 h
  obtain ⟨s₃, hafter, heq⟩ := Option.map_eq_some_iff.1 h
  cases heq
  obtain rfl := after_iff.1 hfirst
  obtain rfl : s₂ = last ++ s' := after_iff.1 hafter
  obtain ⟨raw, rfl, hle, -⟩ := content_spans htext
  refine ⟨first ++ raw ++ last, by simp only [List.append_assoc], ?_, ?_, fun heq => ?_⟩
  · rw [List.getLast?_append, hlast, Option.some_or]
  · simp only [List.length_append]
    omega
  · obtain rfl := List.append_cancel_left (List.append_cancel_right heq)
    exact plain_of_content htext

theorem between_of_plain {first t last s : List Char} (h : PlainText t)
    (hlast : ∃ r, last = '<' :: r ∧ ∀ s, content .text 0 (last ++ s) = some ([], last ++ s)) :
    between first last (first ++ t ++ last ++ s) = some (t, s) := by
  obtain ⟨r, rfl, hends⟩ := hlast
  have hfirst : after first (first ++ t ++ '<' :: r ++ s) = some (t ++ '<' :: (r ++ s)) :=
    after_iff.2 (by simp only [List.append_assoc, List.cons_append])
  have htext : content .text 0 (t ++ '<' :: (r ++ s)) = some (t, '<' :: (r ++ s)) := content_of_plain h (hends s)
  have hafter : after ('<' :: r) ('<' :: (r ++ s)) = some s := after_iff.2 rfl
  unfold between
  rw [hfirst, Option.bind_some, htext, Option.bind_some, hafter]
  rfl

theorem getLast_tags : ∀ tag ∈ tags, tag.text.getLast? = some '>' := by decide

theorem plain_tags : ∀ tag ∈ tags, tag.Plain := by
  simp [tags, Element.Plain]

/-- One element read ends in a tag and is no longer than what is written. -/
theorem readElement_spans {s s' : List Char} {e : Element} (h : readElement s = some (e, s')) :
    ∃ raw, s = raw ++ s' ∧ raw.getLast? = some '>' ∧ e.text.length ≤ raw.length ∧ (raw = e.text → e.Plain) := by
  unfold readElement at h
  split at h
  · next tag hfind =>
    have htag := List.mem_of_find?_eq_some hfind
    have hprefix : tag.text.isPrefixOf s = true := by simpa using List.find?_some hfind
    obtain ⟨r, rfl⟩ := List.isPrefixOf_iff_prefix.1 hprefix
    rw [List.drop_left] at h
    cases h
    exact ⟨e.text, rfl, getLast_tags e htag, Nat.le_refl _, fun _ => plain_tags e htag⟩
  · rcases Option.or_eq_some_iff.1 h with h | ⟨-, h⟩
    · obtain ⟨⟨t, s''⟩, hread, heq⟩ := Option.map_eq_some_iff.1 h
      cases heq
      exact between_spans rfl hread
    · obtain ⟨⟨t, s''⟩, hread, heq⟩ := Option.map_eq_some_iff.1 h
      cases heq
      exact between_spans rfl hread

/-- A plain element is read, up to what follows it. -/
theorem readElement_of_plain {e : Element} (s : List Char) (h : e.Plain) : readElement (e.text ++ s) = some (e, s) := by
  cases e with
  | key t =>
    have hread : between "<key>".toList "</key>".toList ((Element.key t).text ++ s) = some (t, s) :=
      between_of_plain h ⟨_, rfl, fun _ => rfl⟩
    have htags : tags.find? (fun tag => tag.text.isPrefixOf ((Element.key t).text ++ s)) = none := rfl
    rw [readElement, htags, hread]
    rfl
  | string t =>
    have hread : between "<string>".toList "</string>".toList ((Element.string t).text ++ s) = some (t, s) :=
      between_of_plain h ⟨_, rfl, fun _ => rfl⟩
    have htags : tags.find? (fun tag => tag.text.isPrefixOf ((Element.string t).text ++ s)) = none := rfl
    have hkey : between "<key>".toList "</key>".toList ((Element.string t).text ++ s) = none := rfl
    rw [readElement, htags, hread, hkey]
    rfl
  | _ => rfl

theorem skipped_spans {s s' : List Char} (h : skipped s = some s') :
    ∃ gap, s = gap ++ s' ∧ (∀ c ∈ s'.head?, c = '<') := by
  obtain ⟨⟨t, s''⟩, hread, h⟩ := Option.bind_eq_some_iff.1 h
  obtain ⟨-, heq⟩ := Option.ite_none_right_eq_some.1 h
  cases heq
  obtain ⟨raw, rfl, -, hend, -⟩ := content_spans hread
  exact ⟨raw, rfl, hend⟩

/-! ### A property list read back -/

/-- An element and the line ends and tabs after it. -/
structure Written where
  element : Element
  gap : List Char
  white : ∀ c ∈ gap, c = '\n' ∨ c = '\t'

def Written.text (written : Written) : List Char := written.element.text ++ written.gap

theorem content_text (e : Element) (s : List Char) : content .text 0 (e.text ++ s) = some ([], e.text ++ s) := by
  cases e <;> rfl

theorem content_written (ts : List Written) :
    content .text 0 (ts.flatMap Written.text) = some ([], ts.flatMap Written.text) := by
  cases ts with
  | nil => rfl
  | cons t ts =>
    rw [List.flatMap_cons, Written.text, List.append_assoc]
    exact content_text _ _

theorem plainText_of_white {gap : List Char} (h : ∀ c ∈ gap, c = '\n' ∨ c = '\t') : PlainText gap := by
  refine ⟨fun c hc => ?_, fun hin => ?_⟩
  · obtain rfl | rfl := h c hc <;> decide
  · have hmark := h '>' (hin.subset (by decide))
    simp at hmark

/-- White space is skipped, up to the next element. -/
theorem skipped_gap {gap s : List Char} (h : ∀ c ∈ gap, c = '\n' ∨ c = '\t') (hs : content .text 0 s = some ([], s)) :
    skipped (gap ++ s) = some s := by
  have hwhite : gap.all white = true := by
    refine List.all_eq_true.2 fun c hc => ?_
    obtain rfl | rfl := h c hc <;> rfl
  unfold skipped
  rw [content_of_plain (plainText_of_white h) hs, Option.bind_some, if_pos hwhite]

theorem readable :
    Readable Written.element Written.text (fun t => t.element.Plain) List.isEmpty nextElement where
  ends := rfl
  more t rest _ := by
    rw [Written.text, List.append_assoc]
    cases t.element <;> rfl
  reads t ts hplain := by
    have hread := readElement_of_plain (t.gap ++ ts.flatMap Written.text) hplain
    have hskip := skipped_gap t.white (content_written ts)
    rw [Written.text, List.append_assoc, nextElement, hread, Option.bind_some, hskip]
    rfl
  behind t ts s s' hs hnext := by
    obtain ⟨⟨e, s₁⟩, hread, hnext⟩ := Option.bind_eq_some_iff.1 hnext
    obtain ⟨s₂, hskip, heq⟩ := Option.map_eq_some_iff.1 hnext
    cases heq
    obtain ⟨raw, rfl, hlast, hle, hplain⟩ := readElement_spans hread
    have hle : t.element.text.length ≤ raw.length := hle
    obtain ⟨gap, rfl, hhead⟩ := skipped_spans hskip
    by_cases hlen : s'.length < (ts.flatMap Written.text).length
    · have hs' : s' <:+ t.text ++ ts.flatMap Written.text :=
        ((List.suffix_append gap s').trans (List.suffix_append raw _)).trans hs
      have hsuffix := List.suffix_of_suffix_length_le hs' (List.suffix_append _ _) (Nat.le_of_lt hlen)
      exact .inr ⟨hsuffix, fun heq => Nat.lt_irrefl _ (heq ▸ hlen)⟩
    · left
      obtain ⟨x, hx⟩ := hs
      obtain ⟨y, rfl⟩ := List.suffix_of_suffix_length_le (List.suffix_append _ _)
        ⟨x ++ raw ++ gap, by simpa only [List.append_assoc] using hx⟩ (Nat.le_of_not_lt hlen)
      have hcut : (x ++ raw) ++ (gap ++ y) = t.element.text ++ t.gap := by
        have hsame : (x ++ raw) ++ (gap ++ y) ++ ts.flatMap Written.text =
            t.element.text ++ t.gap ++ ts.flatMap Written.text := by
          simpa only [Written.text, List.append_assoc] using hx
        exact List.append_cancel_right hsame
      have hend : (x ++ raw).getLast? = some '>' := by
        rw [List.getLast?_append, hlast, Option.some_or]
      -- The element ends where the tag does, for no tag ends in white space.
      have hwhole : x ++ raw = t.element.text ∧ gap ++ y = t.gap := by
        rcases List.append_eq_append_iff.1 hcut with ⟨z, htext, hgap⟩ | ⟨z, hraw, hgap⟩
        · have hsum := congrArg List.length htext
          simp only [List.length_append] at hsum
          obtain rfl := List.length_eq_zero_iff.1 (show z.length = 0 by omega)
          exact ⟨by rw [htext, List.append_nil], hgap⟩
        · cases hz : z.getLast? with
          | none =>
            rw [List.getLast?_eq_none_iff.1 hz] at hraw hgap
            exact ⟨by rw [hraw, List.append_nil], hgap.symm⟩
          | some c =>
            rw [hraw, List.getLast?_append, hz, Option.some_or] at hend
            have hwhite := t.white c (hgap ▸ List.mem_append_left _ (List.mem_of_getLast? hz))
            rw [Option.some.inj hend] at hwhite
            simp at hwhite
      obtain ⟨hraw, hgap⟩ := hwhole
      have hsum := congrArg List.length hraw
      rw [List.length_append] at hsum
      obtain rfl := List.length_eq_zero_iff.1 (show x.length = 0 by omega)
      have hy : y = [] := by
        cases y with
        | nil => rfl
        | cons c y =>
          have hwhite := t.white c (hgap ▸ List.mem_append_right gap List.mem_cons_self)
          rw [hhead c rfl] at hwhite
          simp at hwhite
      subst hy
      exact ⟨hx, hplain hraw, rfl⟩

/-! ### The property list of a definition -/

/-- The elements of the property list a definition stands for, each with its indentation. -/
def lines (definition : ServiceDefinition) : List (Nat × Element) :=
  ([(0, .plist), (0, .dict), (1, .key "Label".toList), (1, .string definition.name.toList),
    (1, .key "ProgramArguments".toList), (1, .array)] : List (Nat × Element)) ++
  (((definition.executable :: definition.arguments).map fun argument => ((2, .string argument.toList) : Nat × Element)) ++
  (([(1, .arrayEnd), (1, .key "WorkingDirectory".toList), (1, .string definition.workingDirectory.toList)] :
    List (Nat × Element)) ++
  ((match definition.serviceIdentity with
    | some user => ([(1, .key "UserName".toList), (1, .string user.toList)] : List (Nat × Element))
    | none => []) ++
  ((if definition.environment.isEmpty then [] else
    ([(1, .key "EnvironmentVariables".toList), (1, .dict)] : List (Nat × Element)) ++
    ((definition.environment.flatMap fun variable_ =>
      ([(2, .key variable_.1.toList), (2, .string variable_.2.toList)] : List (Nat × Element))) ++
    ([(1, .dictEnd)] : List (Nat × Element)))) ++
  ([(1, .key "RunAtLoad".toList), (1, .yes), (1, .key "KeepAlive".toList), (1, .dict), (2, .key "SuccessfulExit".toList),
    (2, .no), (1, .dictEnd), (0, .dictEnd), (0, .plistEnd)] : List (Nat × Element))))))

def elements (definition : ServiceDefinition) : List Element := (lines definition).map Prod.snd

def lineText (line : Nat × Element) : List Char := List.replicate line.1 '\t' ++ line.2.text ++ ['\n']

/-- The line `text` is the line an element with its indentation makes. -/
def Makes (text : String) (line : Nat × Element) : Prop := text.toList ++ ['\n'] = lineText line

theorem toList_unlines {texts : List String} (lines : List (Nat × Element)) (h : List.Forall₂ Makes texts lines) :
    (unlines texts).toList = lines.flatMap lineText := by
  induction h with
  | nil => rfl
  | @cons text line texts lines hmakes _ ih =>
    have hcons : unlines (text :: texts) = text ++ "\n" ++ unlines texts := rfl
    rw [hcons, String.toList_append, String.toList_append, ih, List.flatMap_cons, ← hmakes]
    rfl

theorem makes_append {texts texts' : List String} {lines lines' : List (Nat × Element)} (h : List.Forall₂ Makes texts lines)
    (h' : List.Forall₂ Makes texts' lines') : List.Forall₂ Makes (texts ++ texts') (lines ++ lines') :=
  List.rel_append h h'

theorem makes_string (t : String) : Makes ("\t<string>" ++ t ++ "</string>") (1, .string t.toList) := by
  unfold Makes lineText Element.text
  rw [String.toList_append, String.toList_append]
  rfl

theorem makes_inner_string (t : String) : Makes ("\t\t<string>" ++ t ++ "</string>") (2, .string t.toList) := by
  unfold Makes lineText Element.text
  rw [String.toList_append, String.toList_append]
  rfl

theorem makes_inner_key (t : String) : Makes ("\t\t<key>" ++ t ++ "</key>") (2, .key t.toList) := by
  unfold Makes lineText Element.text
  rw [String.toList_append, String.toList_append]
  rfl

theorem makes_environment (environment : List (String × String)) :
    List.Forall₂ Makes
      (environment.flatMap fun variable_ =>
        ["\t\t<key>" ++ variable_.1 ++ "</key>", "\t\t<string>" ++ variable_.2 ++ "</string>"])
      (environment.flatMap fun variable_ => [(2, .key variable_.1.toList), (2, .string variable_.2.toList)]) := by
  induction environment with
  | nil => exact .nil
  | cons variable_ environment ih =>
    exact .cons (makes_inner_key variable_.1) (.cons (makes_inner_string variable_.2) ih)

theorem makes_arguments (arguments : List String) :
    List.Forall₂ Makes (arguments.map fun argument => "\t\t<string>" ++ argument ++ "</string>")
      (arguments.map fun argument => (2, .string argument.toList)) := by
  induction arguments with
  | nil => exact .nil
  | cons argument arguments ih => exact .cons (makes_inner_string argument) ih

/-- The property list is its declaration and the lines of its elements. -/
theorem toList_launchdPlist (definition : ServiceDefinition) :
    (launchdPlist definition).toList =
      "<?xml version=\"1.0\" encoding=\"UTF-8\"?>\n".toList ++ (lines definition).flatMap lineText := by
  have hcons : launchdPlist definition = "<?xml version=\"1.0\" encoding=\"UTF-8\"?>" ++ "\n" ++ unlines _ := rfl
  rw [hcons, String.toList_append, toList_unlines (lines definition)]
  · rfl
  unfold lines
  refine makes_append (.cons rfl (.cons rfl (.cons rfl (.cons (makes_string _) (.cons rfl (.cons rfl .nil)))))) ?_
  refine makes_append (makes_arguments _) ?_
  refine makes_append (.cons rfl (.cons rfl (.cons (makes_string _) .nil))) ?_
  refine makes_append ?_ (makes_append ?_ ?_)
  · cases definition.serviceIdentity with
    | none => exact .nil
    | some user => exact .cons rfl (.cons (makes_string user) .nil)
  · by_cases hempty : definition.environment.isEmpty
    · rw [if_pos hempty, if_pos hempty]
      exact .nil
    · rw [if_neg hempty, if_neg hempty]
      exact makes_append (.cons rfl (.cons rfl .nil)) (makes_append (makes_environment _) (.cons rfl .nil))
  · exact .cons rfl (.cons rfl (.cons rfl (.cons rfl (.cons rfl (.cons rfl (.cons rfl (.cons rfl (.cons rfl .nil))))))))

/-- The indentation of the first of the lines. -/
def indentation : List (Nat × Element) → Nat
  | [] => 0
  | line :: _ => line.1

/-- The elements of the lines, each with its line's end and the next one's indentation after it. -/
def written : List (Nat × Element) → List Written
  | [] => []
  | (_, e) :: lines => ⟨e, '\n' :: List.replicate (indentation lines) '\t', by simp +contextual⟩ :: written lines

theorem flatMap_written (lines : List (Nat × Element)) :
    List.replicate (indentation lines) '\t' ++ (written lines).flatMap Written.text = lines.flatMap lineText := by
  induction lines with
  | nil => rfl
  | cons line lines ih =>
    obtain ⟨indent, e⟩ := line
    rw [written, List.flatMap_cons, List.flatMap_cons, ← ih]
    simp only [indentation, Written.text, lineText, List.append_assoc, List.cons_append, List.nil_append]

theorem map_written (lines : List (Nat × Element)) : (written lines).map Written.element = lines.map Prod.snd := by
  induction lines with
  | nil => rfl
  | cons line lines ih => rw [written, List.map_cons, List.map_cons, ih]

theorem length_written (lines : List (Nat × Element)) : (written lines).length ≤ (lines.flatMap lineText).length := by
  induction lines with
  | nil => exact Nat.le_refl 0
  | cons line lines ih =>
    rw [written, List.flatMap_cons, List.length_cons, List.length_append, lineText, List.length_append, List.length_singleton]
    omega

/-- What is in a definition, as it is put in the property list. -/
def texts (definition : ServiceDefinition) : List String :=
  definition.name :: definition.executable :: definition.arguments ++
  (definition.workingDirectory :: definition.serviceIdentity.toList ++
  definition.environment.flatMap fun variable_ => [variable_.1, variable_.2])

/-- What a property list keeps as it is given. -/
def Plain (definition : ServiceDefinition) : Prop :=
  ∀ text ∈ texts definition, PlainText text.toList ∧ text.toList.all xmlChar = true

instance (definition : ServiceDefinition) : Decidable (Plain definition) :=
  List.decidableBAll (fun text : String => PlainText text.toList ∧ text.toList.all xmlChar = true) (texts definition)

/-- An element that is read as it is written and has only characters that XML may have. -/
def Kept (e : Element) : Prop := e.Plain ∧ e.text.all xmlChar = true

theorem kept_string (t : String) : Kept (.string t.toList) ↔ PlainText t.toList ∧ t.toList.all xmlChar = true := by
  unfold Kept Element.Plain Element.text
  rw [List.all_append, List.all_append]
  simp only [Bool.and_eq_true]
  constructor
  · rintro ⟨hplain, ⟨-, hall⟩, -⟩
    exact ⟨hplain, hall⟩
  · rintro ⟨hplain, hall⟩
    exact ⟨hplain, ⟨rfl, hall⟩, rfl⟩

theorem kept_key (t : String) : Kept (.key t.toList) ↔ PlainText t.toList ∧ t.toList.all xmlChar = true := by
  unfold Kept Element.Plain Element.text
  rw [List.all_append, List.all_append]
  simp only [Bool.and_eq_true]
  constructor
  · rintro ⟨hplain, ⟨-, hall⟩, -⟩
    exact ⟨hplain, hall⟩
  · rintro ⟨hplain, hall⟩
    exact ⟨hplain, ⟨rfl, hall⟩, rfl⟩

theorem kept_tags : ∀ tag ∈ tags, Kept tag := by
  have hxml : ∀ tag ∈ tags, tag.text.all xmlChar = true := by decide
  exact fun tag htag => ⟨plain_tags tag htag, hxml tag htag⟩

theorem kept_names : ∀ name ∈ ["Label", "ProgramArguments", "WorkingDirectory", "UserName", "EnvironmentVariables",
    "RunAtLoad", "KeepAlive", "SuccessfulExit"], Kept (.key name.toList) := by
  simp only [kept_key]
  decide

theorem kept_environment (environment : List (String × String)) :
    (∀ e ∈ (environment.flatMap fun variable_ =>
      [((2 : Nat), Element.key variable_.1.toList), (2, .string variable_.2.toList)]).map Prod.snd, Kept e) ↔
    ∀ text ∈ environment.flatMap fun variable_ => [variable_.1, variable_.2],
      PlainText text.toList ∧ text.toList.all xmlChar = true := by
  induction environment with
  | nil => simp only [List.flatMap_nil, List.map_nil, List.not_mem_nil, false_imp_iff, implies_true]
  | cons variable_ environment ih =>
    rw [List.flatMap_cons, List.flatMap_cons, List.map_append, List.forall_mem_append, List.forall_mem_append, ih]
    simp only [List.map_cons, List.map_nil, List.forall_mem_cons, kept_key, kept_string, List.not_mem_nil, false_imp_iff,
      implies_true, and_true]

theorem kept_elements_iff (definition : ServiceDefinition) : (∀ e ∈ elements definition, Kept e) ↔ Plain definition := by
  have htags := kept_tags
  have hnames := kept_names
  simp only [tags, List.forall_mem_cons] at htags hnames
  have hvariables : (∀ e ∈ (if definition.environment.isEmpty then [] else
      [((1 : Nat), Element.key "EnvironmentVariables".toList), (1, .dict)] ++
      ((definition.environment.flatMap fun variable_ =>
        [(2, .key variable_.1.toList), (2, .string variable_.2.toList)]) ++
      [(1, .dictEnd)])).map Prod.snd, Kept e) ↔
      ∀ text ∈ definition.environment.flatMap fun variable_ => [variable_.1, variable_.2],
        PlainText text.toList ∧ text.toList.all xmlChar = true := by
    by_cases hempty : definition.environment.isEmpty
    · rw [if_pos hempty, List.isEmpty_iff.1 hempty]
      simp only [List.flatMap_nil, List.map_nil, List.not_mem_nil, false_imp_iff, implies_true]
    · rw [if_neg hempty, ← kept_environment]
      simp only [List.map_append, List.map_cons, List.map_nil, List.forall_mem_append, List.forall_mem_cons, hnames,
        htags, List.not_mem_nil, false_imp_iff, implies_true, and_true, true_and]
  unfold elements lines Plain texts
  rw [List.map_append, List.map_append, List.map_append, List.map_append, List.map_append]
  simp only [List.forall_mem_append, hvariables]
  cases definition.serviceIdentity with
  | none =>
    simp only [List.map_cons, List.map_nil, List.map_map, List.forall_mem_cons, List.forall_mem_map, Function.comp,
      kept_string, htags, hnames, Option.toList_none, List.not_mem_nil, false_imp_iff, implies_true, and_true, true_and,
      and_assoc]
  | some user =>
    simp only [List.map_cons, List.map_nil, List.map_map, List.forall_mem_cons, List.forall_mem_map, Function.comp,
      kept_string, htags, hnames, Option.toList_some, List.not_mem_nil, false_imp_iff, implies_true, and_true, true_and,
      and_assoc]

/-- Each character of a line is one that XML may have where the element's text is. -/
theorem all_lineText (lines : List (Nat × Element)) :
    (lines.flatMap lineText).all xmlChar = true ↔ ∀ e ∈ lines.map Prod.snd, e.text.all xmlChar = true := by
  rw [List.all_flatMap, List.all_eq_true, List.forall_mem_map]
  refine forall₂_congr fun line _ => ?_
  rw [lineText, List.all_append, List.all_append, Bool.and_eq_true_iff, Bool.and_eq_true_iff, List.all_replicate]
  constructor
  · exact fun hand => hand.1.2
  · intro htext
    refine ⟨⟨?_, htext⟩, rfl⟩
    split <;> rfl

/-- A property list is read back just where the definition is plain. -/
theorem readPlist_iff (definition : ServiceDefinition) :
    readPlist (launchdPlist definition).toList = some (elements definition) ↔ Plain definition := by
  have hindent : indentation (lines definition) = 0 := rfl
  have hflat := flatMap_written (lines definition)
  rw [hindent, List.replicate_zero, List.nil_append] at hflat
  have hskip : skipped ("<?xml version=\"1.0\" encoding=\"UTF-8\"?>\n".toList ++
      (written (lines definition)).flatMap Written.text) = some ((written (lines definition)).flatMap Written.text) := by
    have hcontent : ∀ s, content .text 0 ("<?xml version=\"1.0\" encoding=\"UTF-8\"?>\n".toList ++ s) =
        push '\n' (content .text 0 s) := fun s => rfl
    rw [skipped, hcontent, content_written]
    rfl
  have hfuel : (written (lines definition)).length < ("<?xml version=\"1.0\" encoding=\"UTF-8\"?>\n".toList ++
      (written (lines definition)).flatMap Written.text).length + 1 := by
    have hlength := length_written (lines definition)
    rw [← hflat] at hlength
    rw [List.length_append]
    omega
  have hitems := readable.items_iff hfuel
  rw [map_written] at hitems
  have hall : ("<?xml version=\"1.0\" encoding=\"UTF-8\"?>\n".toList ++
      (written (lines definition)).flatMap Written.text).all xmlChar = true ↔
      ∀ e ∈ elements definition, e.text.all xmlChar = true := by
    rw [hflat, elements, ← all_lineText, List.all_append, Bool.and_eq_true_iff]
    exact ⟨And.right, fun hall => ⟨rfl, hall⟩⟩
  have hplain : (∀ t ∈ written (lines definition), t.element.Plain) ↔ ∀ e ∈ elements definition, e.Plain := by
    rw [elements, ← map_written, List.forall_mem_map]
  rw [← kept_elements_iff, toList_launchdPlist, ← hflat, readPlist]
  constructor
  · intro hread
    obtain ⟨htext, hread⟩ := Option.ite_none_right_eq_some.1 hread
    rw [hskip, Option.bind_some] at hread
    exact fun e he => ⟨hplain.1 (hitems.1 hread) e he, hall.1 htext e he⟩
  · intro hkept
    rw [if_pos (hall.2 fun e he => (hkept e he).2), hskip, Option.bind_some]
    exact hitems.2 (hplain.2 fun e he => (hkept e he).1)

end Registration.Launchd
