import Mathlib.Data.List.DropRight
import XmipRuntime.Registration.Systemd

/-!
# What systemd reads of lines

A unit is lines: the name of a section, or a setting of the section before.  A line that ends in a backslash goes on in the next
one, and a line that is neither sets nothing.  Lines are read as settings from their beginning and up to what follows them, or the
reading ends too late, and then every later setting is read from too late on (`Exact`).
-/

namespace Registration.Systemd

open Library

/-! ### Settings -/

inductive Setting where
  | directive (part key value : List Char)
  | exec (executable : List Char) (arguments : List (List Char))
  | environment (assignments : List (List Char × List Char))
  | user (name : List Char)
  deriving DecidableEq

def strip (s : List Char) : List Char := (s.dropWhile blank).rdropWhile blank

/-- Letters, digits and underscores, the first no digit. -/
def validName (name : List Char) : Bool :=
  name.all (fun c => c.isAlphanum || c == '_') && name.head?.any fun c => !c.isDigit

/-- No control characters but tabs and line feeds. -/
def validValue (value : List Char) : Bool :=
  value.all fun c => c == '\t' || c == '\n' || decide (' ' ≤ c) && c != '\x7f'

def readVariable (t : List Char) : Option (List Char × List Char) :=
  (cut '=' t).filter fun variable_ => validName variable_.1 && validValue variable_.2

/-- The setting that `value` makes for `key` in a part of the unit. -/
def readSetting (part key value : List Char) : Option Setting :=
  if part = "Service".toList ∧ key = "ExecStart".toList then
    (readCommandLine value).map fun p => .exec p.1 p.2
  else if part = "Service".toList ∧ key = "Environment".toList then
    (items (fun s => s.all blank) (nextWord false (doubled '%' false)) (value.length + 2) (' ' :: value)).bind fun words =>
      (words.mapM readVariable).map .environment
  else if part = "Service".toList ∧ key = "User".toList then
    (doubled '%' false value).bind fun name => if name = [] then none else some (.user name)
  else some (.directive part key value)

/-! ### Lines -/

/-- Whether a line goes on in the next one: its last backslash is not escaped by another. -/
def ends (line : List Char) : Bool := line.foldl (fun escaped c => !escaped && c == '\\') false

/-- The lines, each with those that it goes on in; comments are left out. -/
def logical : Option (List Char) → List (List Char) → List (List Char)
  | before, [] => before.toList
  | before, line :: lines =>
    let line := line.dropWhile blank
    if line.head? = some '#' ∨ line.head? = some ';' then logical before lines
    else
      let whole := before.getD [] ++ line
      if ends whole then logical (some (whole.dropLast ++ [' '])) lines else whole :: logical none lines

/-- The settings of the lines, from inside a section or before the first; a line that sets nothing is left out. -/
def readLines : Option (List Char) → List (List Char) → Option (List Setting)
  | _, [] => some []
  | part, line :: lines =>
    if strip line = [] then readLines part lines
    else if line.head? = some '[' then
      if (strip line).getLast? = some ']' then readLines (some (strip line).tail.dropLast) lines else none
    else
      match part, cut '=' line with
      | some part, some p =>
        (readSetting part (strip p.1) (strip p.2)).bind fun setting => (readLines (some part) lines).map (setting :: ·)
      | _, _ => readLines part lines

def lines (text : List Char) : List (List Char) := text.splitOn '\n'

def readUnit (text : List Char) : Option (List Setting) := readLines none (logical none (lines text))

/-! ### Characters that are no blanks -/

/-- How many characters are no blanks. -/
def ink (s : List Char) : Nat := s.countP fun c => !blank c

theorem ink_append (s s' : List Char) : ink (s ++ s') = ink s + ink s' := List.countP_append

theorem ink_cons (c : Char) (s : List Char) : ink (c :: s) = ink s + if blank c then 0 else 1 := by
  rw [ink, List.countP_cons]
  cases blank c <;> rfl

theorem ink_dropWhile (s : List Char) : ink (s.dropWhile blank) = ink s := by
  induction s with
  | nil => rfl
  | cons c s ih =>
    rw [List.dropWhile_cons]
    split
    · next hc => rw [ih, ink_cons, if_pos hc, Nat.add_zero]
    · rfl

theorem ink_reverse (s : List Char) : ink s.reverse = ink s := List.countP_reverse

theorem ink_strip (s : List Char) : ink (strip s) = ink s := by
  rw [strip, List.rdropWhile, ink_reverse, ink_dropWhile, ink_reverse, ink_dropWhile]

theorem ink_filter (s : List Char) : ink (s.filter (· ≠ '\n')) = ink s := by
  induction s with
  | nil => rfl
  | cons c s ih =>
    rw [List.filter_cons]
    split
    · rw [ink_cons, ink_cons, ih]
    · next hc =>
      obtain rfl : c = '\n' := by simpa using hc
      exact ih

theorem ink_le {s e : List Char} (h : Shortened s e) : ink s ≤ ink e := by
  induction h with
  | nil => exact Nat.le_refl 0
  | kept c _ ih =>
    rw [ink_cons, ink_cons]
    exact Nat.add_le_add_right ih _
  | blanked _ ih =>
    rw [ink_cons, ink_cons]
    exact Nat.le_trans ih (Nat.le_add_right _ _)
  | left c _ ih =>
    rw [ink_cons]
    exact Nat.le_trans ih (Nat.le_add_right _ _)

theorem strip_eq_nil_iff {s : List Char} : strip s = [] ↔ ink s = 0 := by
  rw [← ink_strip s]
  constructor
  · intro h
    rw [h]
    rfl
  · intro h
    by_contra hne
    -- The last character left is no blank.
    have hlast := List.rdropWhile_last_not blank (s.dropWhile blank) hne
    have hmem : (strip s).getLast hne ∈ strip s := List.getLast_mem hne
    have hblank : blank ((strip s).getLast hne) = true := by simpa using List.countP_eq_zero.1 h _ hmem
    exact hlast hblank

/-! ### Lines that go on -/

theorem ends_concat (s : List Char) (c : Char) : ends (s ++ [c]) = (!ends s && c == '\\') := by
  rw [ends, List.foldl_append]
  rfl

/-- A line that goes on ends in a backslash. -/
theorem of_ends {s : List Char} (h : ends s = true) : ∃ u, s = u ++ ['\\'] := by
  rcases List.eq_nil_or_concat s with rfl | ⟨u, c, rfl⟩
  · cases h
  · rw [List.concat_eq_append, ends_concat] at h
    obtain ⟨-, hc⟩ := Bool.and_eq_true_iff.1 h
    exact ⟨u, by rw [List.concat_eq_append, beq_iff_eq.1 hc]⟩

theorem ends_of_notMem {s : List Char} (h : '\\' ∉ s) : ends s = false := by
  by_contra hne
  obtain ⟨u, rfl⟩ := of_ends (Bool.eq_true_of_not_eq_false hne)
  exact h (by simp)

/-- What is before the backslashes of a line says nothing of whether it goes on. -/
theorem ends_append {a : List Char} (h : '\\' ∉ a) (s : List Char) : ends (a ++ s) = ends s := by
  rw [ends, List.foldl_append]
  change List.foldl _ (ends a) s = _
  rw [ends_of_notMem h, ends]

/-- The lines of which the first whole line is made: they are there, with some of their characters left out; where no character
but blanks is, it is one line. -/
theorem of_logical {before : Option (List Char)} {lines : List (List Char)} {whole : List Char} {wholes : List (List Char)}
    (hbefore : ∀ b ∈ before, ends b = false) (h : logical before lines = whole :: wholes) :
    ∃ c s', lines = c ++ s' ∧ logical none s' = wholes ∧ (before = none → c ≠ []) ∧ ends whole = false ∧
      Shortened whole (before.getD [] ++ c.flatten) ∧
      (ink whole = ink (before.getD [] ++ c.flatten) →
        c.length ≤ 1 ∧ whole = before.getD [] ++ c.flatten.dropWhile blank) := by
  induction lines generalizing before with
  | nil =>
    cases before with
    | none => cases h
    | some b =>
      cases h
      exact ⟨[], [], rfl, rfl, nofun, hbefore whole rfl, by simpa using Shortened.refl whole, fun _ => ⟨Nat.zero_le 1, by simp⟩⟩
  | cons line lines ih =>
    rw [logical] at h
    dsimp only at h
    have hline : (line.dropWhile blank).Sublist line := (List.dropWhile_suffix blank).sublist
    by_cases hcomment : (line.dropWhile blank).head? = some '#' ∨ (line.dropWhile blank).head? = some ';'
    · rw [if_pos hcomment] at h
      obtain ⟨c, s', rfl, hs', hne, hends, hshort, hink⟩ := ih hbefore h
      have hsub : (before.getD [] ++ c.flatten).Sublist (before.getD [] ++ (line :: c).flatten) := by
        rw [List.flatten_cons]
        exact (List.Sublist.refl _).append (List.sublist_append_right line _)
      refine ⟨line :: c, s', rfl, hs', fun _ => List.cons_ne_nil line c, hends, hshort.trans (.of_sublist hsub), fun heq => ?_⟩
      -- A comment is no blank line.
      have hpos : 0 < ink line := by
        rw [← ink_dropWhile]
        cases hword : line.dropWhile blank with
        | nil => simp [hword] at hcomment
        | cons d w =>
          have hd : blank d = false := by
            rw [hword] at hcomment
            rcases hcomment with hd | hd <;> rw [Option.some.inj hd] <;> rfl
          rw [ink_cons, hd]
          exact Nat.succ_pos _
      have hle := ink_le hshort
      rw [heq, List.flatten_cons, ink_append, ink_append, ink_append] at hle
      omega
    rw [if_neg hcomment] at h
    by_cases hgoes : ends (before.getD [] ++ line.dropWhile blank) = true
    · rw [if_pos hgoes] at h
      obtain ⟨u, hu⟩ := of_ends hgoes
      rw [hu, List.dropLast_concat] at h
      obtain ⟨c, s', rfl, hs', -, hends, hshort, -⟩ := ih (fun b hb => by rw [← Option.some.inj hb, ends_concat]; simp) h
      have hblanked : Shortened (u ++ [' ']) (before.getD [] ++ line) :=
        ((Shortened.refl u).append (.blanked .nil)).trans (hu ▸ .of_sublist ((List.Sublist.refl _).append hline))
      refine ⟨line :: c, s', rfl, hs', fun _ => List.cons_ne_nil line c, hends, ?_, fun heq => ?_⟩
      · rw [List.flatten_cons, ← List.append_assoc]
        exact hshort.trans (hblanked.append (.refl _))
      · -- The backslash is left out.
        have hle := ink_le hshort
        have hlen := congrArg ink hu
        rw [ink_append, ink_dropWhile, ink_append] at hlen
        rw [heq, List.flatten_cons, Option.getD_some, ink_append, ink_append, ink_append, ink_append] at hle
        have hback : ink ['\\'] = 1 := rfl
        have hspace : ink [' '] = 0 := rfl
        omega
    · rw [if_neg hgoes] at h
      obtain ⟨rfl, rfl⟩ := List.cons.inj h
      refine ⟨[line], lines, rfl, rfl, fun _ => List.cons_ne_nil line [], Bool.eq_false_iff.2 hgoes, ?_, fun _ => ?_⟩
      · rw [List.flatten_singleton]
        exact (Shortened.refl _).append (.of_sublist hline)
      · exact ⟨Nat.le_refl 1, by rw [List.flatten_singleton]⟩

/-! ### The first setting -/

/-- A line made of these: they are there, with some of their characters left out; where no character but blanks is, it is the
last of them, and the others are blank. -/
structure Whole (c : List (List Char)) (whole : List Char) : Prop where
  ne_nil : c ≠ []
  ends : ends whole = false
  shortened : Shortened whole c.flatten
  one : ink whole = ink c.flatten → ∃ j l, c = j ++ [l] ∧ (∀ m ∈ j, ink m = 0) ∧ whole = l.dropWhile blank

/-- The setting `v` is read of the first of these lines, the others go on with `vs`. -/
def Begins (s : List (List Char)) (v : Setting) (vs : List Setting) : Prop :=
  ∃ c s' part key value, s = c ++ s' ∧ Whole c (key ++ '=' :: value) ∧
    readSetting part (strip key) (strip value) = some v ∧ readLines (some part) (logical none s') = some vs

theorem ink_eq_zero_of_flatten {z : List (List Char)} (h : ink z.flatten = 0) : ∀ m ∈ z, ink m = 0 := by
  intro m hm
  have hle := ink_le (.of_sublist (List.sublist_flatten_of_mem hm))
  omega

theorem Whole.append {c : List (List Char)} {whole : List Char} (h : Whole c whole) (b : List (List Char)) :
    Whole (b ++ c) whole where
  ne_nil := fun hnil => h.ne_nil (List.append_eq_nil_iff.1 hnil).2
  ends := h.ends
  shortened := by
    rw [List.flatten_append]
    exact h.shortened.trans (.of_sublist (List.sublist_append_right _ _))
  one heq := by
    have hle := ink_le h.shortened
    rw [List.flatten_append, ink_append] at heq
    obtain ⟨j, l, rfl, hj, hl⟩ := h.one (by omega)
    have hb := ink_eq_zero_of_flatten (show ink b.flatten = 0 by omega)
    exact ⟨b ++ j, l, by rw [List.append_assoc], List.forall_mem_append.2 ⟨hb, hj⟩, hl⟩

/-- Of lines the first of which is not blank, a line with no character less than they have is the first; the others are blank. -/
theorem Whole.eq_first {c y ys : List (List Char)} {l whole : List Char} (h : Whole c whole) (hc : c ++ y <:+ l :: ys)
    (hl : 0 < ink l) (hink : ink (l :: ys).flatten ≤ ink whole) :
    c = [l] ∧ y = ys ∧ whole = l.dropWhile blank ∧ ∀ m ∈ ys, ink m = 0 := by
  obtain ⟨x, hx⟩ := hc
  have hle := ink_le h.shortened
  rw [← hx, List.flatten_append, List.flatten_append, ink_append, ink_append] at hink
  obtain ⟨j, l', rfl, hj, hwhole⟩ := h.one (by omega)
  have hblank := ink_eq_zero_of_flatten (show ink x.flatten = 0 by omega)
  have hy := ink_eq_zero_of_flatten (show ink y.flatten = 0 by omega)
  have hcut : (x ++ j) ++ (l' :: y) = l :: ys := by simpa using hx
  cases hbefore : x ++ j with
  | nil =>
    obtain ⟨rfl, rfl⟩ := List.append_eq_nil_iff.1 hbefore
    obtain ⟨rfl, rfl⟩ := List.cons.inj hcut
    exact ⟨rfl, rfl, hwhole, hy⟩
  | cons m z =>
    -- The first line would be blank.
    have hall : ∀ m ∈ x ++ j, ink m = 0 := List.forall_mem_append.2 ⟨hblank, hj⟩
    rw [hbefore] at hcut hall
    have hm := hall m List.mem_cons_self
    rw [(List.cons.inj hcut).1] at hm
    omega

theorem begins_append {s : List (List Char)} {v : Setting} {vs : List Setting} (b : List (List Char)) (h : Begins s v vs) :
    Begins (b ++ s) v vs := by
  obtain ⟨c, s', part, key, value, rfl, hwhole, hsetting, hrest⟩ := h
  exact ⟨b ++ c, s', part, key, value, by rw [List.append_assoc], hwhole.append b, hsetting, hrest⟩

theorem begins_of_readLines {part : Option (List Char)} {s : List (List Char)} {v : Setting} {vs : List Setting}
    (h : readLines part (logical none s) = some (v :: vs)) : Begins s v vs := by
  generalize hwholes : logical none s = wholes at h
  induction wholes generalizing part s with
  | nil => cases h
  | cons whole wholes ih =>
    obtain ⟨c, s', rfl, hs', hne, hends, hshort, hink⟩ := of_logical (by simp) hwholes
    rw [Option.getD_none, List.nil_append] at hshort hink
    -- A line that sets nothing.
    have hskip : ∀ {part : Option (List Char)}, readLines part wholes = some (v :: vs) → Begins (c ++ s') v vs :=
      fun hrest => begins_append c (ih hs' hrest)
    unfold readLines at h
    by_cases hblank : strip whole = []
    · rw [if_pos hblank] at h
      exact hskip h
    rw [if_neg hblank] at h
    by_cases hhead : whole.head? = some '['
    · rw [if_pos hhead] at h
      exact hskip (Option.ite_none_right_eq_some.1 h).2
    rw [if_neg hhead] at h
    cases part with
    | none => exact hskip h
    | some part =>
      cases hcut : cut '=' whole with
      | none =>
        rw [hcut] at h
        exact hskip h
      | some p =>
        rw [hcut] at h
        obtain ⟨v', hsetting, h⟩ := Option.bind_eq_some_iff.1 h
        obtain ⟨vs', hrest, heq⟩ := Option.map_eq_some_iff.1 h
        obtain ⟨rfl, rfl⟩ := List.cons.inj heq
        obtain ⟨rfl, -⟩ := append_of_cut hcut
        refine ⟨c, s', part, p.1, p.2, rfl, ⟨hne rfl, hends, hshort, fun heq => ?_⟩, hsetting, hs' ▸ hrest⟩
        obtain ⟨hle, hwhole⟩ := hink heq
        cases c with
        | nil => exact absurd rfl (hne rfl)
        | cons l c =>
          obtain rfl : c = [] := List.length_eq_zero_iff.1 (Nat.le_zero.1 (Nat.le_of_succ_le_succ hle))
          exact ⟨[], l, rfl, nofun, by simpa using hwhole⟩

/-- What is left to read after a setting is later on. -/
theorem later_of_readLines {part : Option (List Char)} {s : List (List Char)} {v : Setting} {vs : List Setting}
    (h : readLines part (logical none s) = some (v :: vs)) :
    ∃ part' s', s' <:+ s ∧ s' ≠ s ∧ readLines (some part') (logical none s') = some vs := by
  obtain ⟨c, s', part', key, value, rfl, hwhole, -, hrest⟩ := begins_of_readLines h
  exact ⟨part', s', List.suffix_append c s', fun heq => hwhole.ne_nil (List.append_left_eq_self.1 heq.symm), hrest⟩

/-! ### A line read -/

theorem ink_eq_zero_iff {s : List Char} : ink s = 0 ↔ s.dropWhile blank = [] := by
  rw [ink, List.countP_eq_zero, List.dropWhile_eq_nil_iff]
  simp

theorem readLines_blank {part : Option (List Char)} {y : List (List Char)} (h : ∀ m ∈ y, ink m = 0) (rest : List (List Char)) :
    readLines part (logical none (y ++ rest)) = readLines part (logical none rest) := by
  induction y with
  | nil => rfl
  | cons m y ih =>
    obtain ⟨hm, hy⟩ := List.forall_mem_cons.1 h
    rw [List.cons_append, logical, ink_eq_zero_iff.1 hm]
    exact ih hy

theorem strip_of_ends {s : List Char} (hhead : ∀ c ∈ s.head?, blank c = false) (hlast : ∀ c ∈ s.getLast?, blank c = false) :
    strip s = s := by
  have hdrop : s.dropWhile blank = s := by
    cases s with
    | nil => rfl
    | cons c s => exact List.dropWhile_cons_of_neg (by rw [hhead c rfl]; decide)
  rw [strip, hdrop, List.rdropWhile_eq_self_iff]
  intro hne hblank
  rw [hlast _ (List.getLast?_eq_some_getLast hne)] at hblank
  cases hblank

theorem strip_sublist (s : List Char) : (strip s).Sublist s :=
  (List.rdropWhile_prefix blank _).sublist.trans (List.dropWhile_suffix blank).sublist

theorem getLast?_strip (s : List Char) : ∀ c ∈ (strip s).getLast?, blank c = false := by
  intro c hc
  have hne : strip s ≠ [] := by
    intro heq
    rw [heq] at hc
    cases hc
  have hlast := List.rdropWhile_last_not blank (s.dropWhile blank) hne
  rw [List.getLast?_eq_some_getLast hne] at hc
  rw [← Option.some.inj hc]
  exact Bool.eq_false_iff.2 hlast

/-- Letters only. -/
def IsKey (key : List Char) : Prop := key ≠ [] ∧ ∀ c ∈ key, c.isAlpha = true

instance (key : List Char) : Decidable (IsKey key) := inferInstanceAs (Decidable (_ ∧ _))

theorem IsKey.ne {key : List Char} (h : IsKey key) {d : Char} (hd : d.isAlpha = false) : d ∉ key := by
  intro hmem
  rw [h.2 d hmem] at hd
  cases hd

theorem IsKey.blank {key : List Char} (h : IsKey key) : ∀ c ∈ key, blank c = false := by
  intro c hc
  have hne : ∀ d : Char, d.isAlpha = false → (c == d) = false := by
    intro d hd
    rw [beq_eq_false_iff_ne]
    rintro rfl
    exact h.ne hd hc
  rw [Systemd.blank, hne ' ' rfl, hne '\t' rfl, hne '\n' rfl, hne '\r' rfl]
  rfl

theorem IsKey.strip {key : List Char} (h : IsKey key) : strip key = key :=
  strip_of_ends (fun c hc => h.blank c (List.mem_of_mem_head? hc)) (fun c hc => h.blank c (List.mem_of_getLast? hc))

theorem ends_setting {key : List Char} (h : IsKey key) (text : List Char) : ends (key ++ '=' :: text) = ends text := by
  rw [List.append_cons]
  exact ends_append (by simpa using h.ne rfl) text

theorem dropWhile_setting {key : List Char} (h : IsKey key) (text : List Char) :
    (key ++ '=' :: text).dropWhile Systemd.blank = key ++ '=' :: text := by
  obtain ⟨c, k, rfl⟩ := List.exists_cons_of_ne_nil h.1
  exact List.dropWhile_cons_of_neg (by rw [h.blank c List.mem_cons_self]; decide)

/-- A line that sets something, and does not go on. -/
theorem readLines_setting {key text : List Char} (hkey : IsKey key) (hends : ends text = false) (part : List Char)
    (rest : List (List Char)) :
    readLines (some part) (logical none ((key ++ '=' :: text) :: rest)) =
      (readSetting part key (strip text)).bind fun v => (readLines (some part) (logical none rest)).map (v :: ·) := by
  obtain ⟨c, k, rfl⟩ := List.exists_cons_of_ne_nil hkey.1
  have hc : ∀ d : Char, d.isAlpha = false → c ≠ d := fun d hd heq => hkey.ne hd (heq ▸ List.mem_cons_self)
  have hline : logical none ((c :: k ++ '=' :: text) :: rest) = (c :: k ++ '=' :: text) :: logical none rest := by
    rw [logical, dropWhile_setting hkey]
    dsimp only
    rw [if_neg, if_neg]
    · rfl
    · rw [Option.getD_none, List.nil_append, ends_setting hkey, hends]
      decide
    · rintro (heq | heq)
      · exact hc '#' rfl (Option.some.inj heq)
      · exact hc ';' rfl (Option.some.inj heq)
  have hne : Systemd.strip (c :: k ++ '=' :: text) ≠ [] := by
    rw [Ne, strip_eq_nil_iff, List.cons_append, ink_cons, hkey.blank c List.mem_cons_self]
    exact Nat.succ_ne_zero _
  have hhead : (c :: k ++ '=' :: text).head? ≠ some '[' := fun heq => hc '[' rfl (Option.some.inj heq)
  rw [hline]
  conv_lhs => unfold readLines
  rw [if_neg hne, if_neg hhead, cut_append (hkey.ne rfl)]
  dsimp only
  rw [hkey.strip]

/-- The name of a section. -/
theorem readLines_section (name : List Char) (part : Option (List Char)) (rest : List (List Char)) :
    readLines part (logical none (('[' :: (name ++ [']'])) :: rest)) = readLines (some name) (logical none rest) := by
  have hdrop : ('[' :: (name ++ [']'])).dropWhile blank = '[' :: (name ++ [']']) := rfl
  have hends : ends ('[' :: (name ++ [']'])) = false := by
    rw [← List.cons_append, ends_concat]
    simp
  have hlast : ('[' :: (name ++ [']'])).getLast? = some ']' := by rw [← List.cons_append, List.getLast?_concat]
  have hstrip : strip ('[' :: (name ++ [']'])) = '[' :: (name ++ [']']) := by
    refine strip_of_ends (fun c hc => ?_) (fun c hc => ?_)
    · rw [← Option.some.inj hc]
      rfl
    · rw [hlast] at hc
      rw [← Option.some.inj hc]
      rfl
  have hline : logical none (('[' :: (name ++ [']'])) :: rest) = ('[' :: (name ++ [']'])) :: logical none rest := by
    rw [logical, hdrop]
    dsimp only
    rw [if_neg (by simp), Option.getD_none, List.nil_append, hends]
    rfl
  rw [hline]
  conv_lhs => unfold readLines
  rw [hstrip, if_neg (List.cons_ne_nil _ _), if_pos List.head?_cons, if_pos hlast, List.tail_cons, List.dropLast_concat]

/-! ### Lines read together -/

/-- From one part of a unit into another, the lines are read as these settings. -/
def Gives (part part' : List Char) (block : List (List Char)) (vs : List Setting) : Prop :=
  ∀ rest, readLines (some part) (logical none (block ++ rest)) = (readLines (some part') (logical none rest)).map (vs ++ ·)

/-- Where these settings are read from the beginning of the lines or from later on, they are read from the beginning of lines
that are `Plain` up to what follows them, or the reading ends later than that. -/
def Exact (block : List (List Char)) (vs : List Setting) (Plain : Prop) : Prop :=
  ∀ part s rest us, s <:+ block ++ rest → readLines (some part) (logical none s) = some (vs ++ us) →
    (s = block ++ rest ∧ Plain ∧ ∃ part', readLines (some part') (logical none rest) = some us) ∨
    ∃ part' s', s' <:+ rest ∧ s' ≠ rest ∧ readLines (some part') (logical none s') = some us

section
variable {part part' part'' : List Char} {block block' : List (List Char)} {vs vs' : List Setting} {Plain Plain' : Prop}

theorem Gives.append (h : Gives part part' block vs) (h' : Gives part' part'' block' vs') :
    Gives part part'' (block ++ block') (vs ++ vs') := by
  intro rest
  rw [List.append_assoc, h, h', Option.map_map]
  congr 1
  funext us
  exact (List.append_assoc vs vs' us).symm

theorem Exact.append (h : Exact block vs Plain) (h' : Exact block' vs' Plain') :
    Exact (block ++ block') (vs ++ vs') (Plain ∧ Plain') := by
  intro part s rest us hs hread
  rw [List.append_assoc] at hs hread
  rcases h part s (block' ++ rest) (vs' ++ us) hs hread with ⟨rfl, hplain, part₁, hrest⟩ | ⟨part₁, s₁, hs₁, hne, hrest⟩
  · rcases h' part₁ _ rest us (List.suffix_refl _) hrest with ⟨-, hplain', hrest'⟩ | hlate
    · exact .inl ⟨(List.append_assoc ..).symm, ⟨hplain, hplain'⟩, hrest'⟩
    · exact .inr hlate
  · rcases h' part₁ s₁ rest us hs₁ hrest with ⟨heq, -⟩ | hlate
    · exact absurd heq hne
    · exact .inr hlate

theorem gives_nil : Gives part part [] [] := by
  intro rest
  exact Option.map_id'.symm

theorem exact_nil : Exact [] [] True := by
  intro part s rest us hs hread
  by_cases heq : s = rest
  · exact .inl ⟨heq, trivial, part, heq ▸ hread⟩
  · exact .inr ⟨part, s, hs, heq, hread⟩

/-- What is read from later than the lines' beginning on. -/
theorem Exact.mono (h : Exact block vs Plain) (hplain : Plain → Plain') : Exact block vs Plain' := by
  intro part s rest us hs hread
  rcases h part s rest us hs hread with ⟨heq, hp, hrest⟩ | hlate
  · exact .inl ⟨heq, hplain hp, hrest⟩
  · exact .inr hlate

theorem gives_flatMap {α : Type} {l : List α} {write : α → List (List Char)} {value : α → Setting}
    (h : ∀ a ∈ l, Gives part part (write a) [value a]) : Gives part part (l.flatMap write) (l.map value) := by
  induction l with
  | nil => exact gives_nil
  | cons a l ih =>
    obtain ⟨ha, hl⟩ := List.forall_mem_cons.1 h
    exact ha.append (ih hl)

theorem exact_flatMap {α : Type} {write : α → List (List Char)} {value : α → Setting} {Good : α → Prop}
    {l : List α} (h : ∀ a ∈ l, Exact (write a) [value a] (Good a)) : Exact (l.flatMap write) (l.map value) (∀ a ∈ l, Good a) := by
  induction l with
  | nil => exact exact_nil.mono fun _ _ hin => nomatch hin
  | cons a l ih =>
    obtain ⟨ha, hl⟩ := List.forall_mem_cons.1 h
    exact (ha.append (ih hl)).mono fun hp => List.forall_mem_cons.2 hp

/-- A line that is never read otherwise, and lines after it that set nothing. -/
theorem exact_fixed (key text : List Char) (v : Setting) {quiet : List (List Char)} (hkey : IsKey key)
    (hends : ends text = false) (hquiet : ∀ q, q <:+ quiet → ∀ part rest, ∃ part',
      readLines (some part) (logical none (q ++ rest)) = readLines (some part') (logical none rest)) :
    Exact ((key ++ '=' :: text) :: quiet) [v] True := by
  intro part s rest us hs hread
  rw [List.cons_append] at hs
  rcases List.suffix_cons_iff.1 hs with rfl | hs
  · rw [readLines_setting hkey hends] at hread
    obtain ⟨v', -, hread⟩ := Option.bind_eq_some_iff.1 hread
    obtain ⟨us', hrest, heq⟩ := Option.map_eq_some_iff.1 hread
    obtain rfl : us' = us := (List.cons.inj heq).2
    obtain ⟨part', hpart⟩ := hquiet quiet (List.suffix_refl _) part rest
    exact .inl ⟨rfl, trivial, part', hpart ▸ hrest⟩
  -- The line was missed: the setting is one of what follows.
  right
  by_cases hlen : s.length ≤ rest.length
  · obtain ⟨part', s', hs', hne, hrest⟩ := later_of_readLines hread
    have hsuffix := List.suffix_of_suffix_length_le hs (List.suffix_append quiet rest) hlen
    refine ⟨part', s', hs'.trans hsuffix, fun heq => ?_, hrest⟩
    have hle := hsuffix.length_le
    have hle' := hs'.length_le
    exact hne (hs'.eq_of_length (by rw [heq] at hle' ⊢; omega))
  · obtain ⟨q, rfl⟩ := List.suffix_of_suffix_length_le (List.suffix_append quiet rest) hs (by omega)
    have hq : q <:+ quiet := by
      obtain ⟨x, hx⟩ := hs
      rw [← List.append_assoc] at hx
      exact ⟨x, List.append_cancel_right hx⟩
    obtain ⟨part₁, hpart⟩ := hquiet q hq part rest
    rw [hpart] at hread
    obtain ⟨part', s', hs', hne, hrest⟩ := later_of_readLines hread
    exact ⟨part', s', hs', hne, hrest⟩

end

/-! ### The lines of a text -/

theorem lines_of_notMem {text : List Char} (h : '\n' ∉ text) : lines text = [text] := List.splitOn_eq_singleton h

/-- No line feed is in a text of which as much is left without them. -/
theorem notMem_of_filter {s : List Char} (h : s.length ≤ (s.filter (· ≠ '\n')).length) : '\n' ∉ s := by
  intro hmem
  have hkept := List.length_filter_eq_length_iff.1 (Nat.le_antisymm (List.length_filter_le _ _) h) _ hmem
  cases of_decide_eq_true hkept rfl

theorem flatten_lines (text : List Char) : (lines text).flatten = text.filter (· ≠ '\n') := by
  induction text with
  | nil => rfl
  | cons c text ih =>
    rw [lines, List.splitOn_cons_eq_if_modifyHead, List.filter_cons]
    change (if (c == '\n') = true then [] :: lines text else (lines text).modifyHead (List.cons c)).flatten = _
    by_cases hc : c = '\n'
    · rw [if_pos (by simpa using hc), if_neg (by simpa using hc), List.flatten_cons, ih, List.nil_append]
    · rw [if_neg (by simpa using hc), if_pos (by simpa using hc), ← ih]
      obtain ⟨l, y, hlines⟩ := List.exists_cons_of_ne_nil (List.splitOn_ne_nil '\n' text)
      rw [lines, hlines, List.modifyHead_cons, List.flatten_cons, List.flatten_cons, List.cons_append]

/-- The lines of a setting are those of its text, the first after the key. -/
theorem lines_setting {key text l : List Char} {y : List (List Char)} (hkey : '\n' ∉ key) (hlines : lines text = l :: y) :
    lines (key ++ '=' :: text) = (key ++ '=' :: l) :: y := by
  have hcons : ∀ {c : Char} {s l : List Char}, c ≠ '\n' → lines s = l :: y → lines (c :: s) = (c :: l) :: y := by
    intro c s l hc hs
    rw [lines, List.splitOn_cons_eq_if_modifyHead, if_neg (by simpa using hc)]
    change (lines s).modifyHead _ = _
    rw [hs, List.modifyHead_cons]
  induction key with
  | nil => exact hcons (by decide) hlines
  | cons c key ih =>
    obtain ⟨hc, hkey⟩ := not_or.1 (fun hor => hkey (List.mem_cons.2 hor))
    exact hcons (Ne.symm hc) (ih hkey)

theorem flatten_setting {key : List Char} (hkey : '\n' ∉ key) (text : List Char) :
    (lines (key ++ '=' :: text)).flatten = key ++ '=' :: text.filter (· ≠ '\n') := by
  have hfilter : key.filter (· ≠ '\n') = key := by
    rw [List.filter_eq_self]
    intro c hc
    rw [decide_eq_true_iff]
    rintro rfl
    exact hkey hc
  rw [flatten_lines, List.filter_append, hfilter, List.filter_cons_of_pos (by decide)]

/-! ### The lines of a setting -/

/-- A setting read from lines or from later on: it is read of these, or the reading ends later. -/
theorem of_begins {block s rest : List (List Char)} {v : Setting} {us : List Setting} (hs : s <:+ block ++ rest)
    (h : Begins s v us) :
    (∃ c y part key value, s = c ++ (y ++ rest) ∧ c ++ y <:+ block ∧ Whole c (key ++ '=' :: value) ∧
      readSetting part (strip key) (strip value) = some v ∧ readLines (some part) (logical none (y ++ rest)) = some us) ∨
    ∃ part s', s' <:+ rest ∧ s' ≠ rest ∧ readLines (some part) (logical none s') = some us := by
  obtain ⟨c, s', part, key, value, rfl, hwhole, hsetting, hrest⟩ := h
  have hs' : s' <:+ block ++ rest := (List.suffix_append c s').trans hs
  by_cases hlen : s'.length < rest.length
  · have hsuffix := List.suffix_of_suffix_length_le hs' (List.suffix_append block rest) (Nat.le_of_lt hlen)
    exact .inr ⟨part, s', hsuffix, fun heq => Nat.lt_irrefl _ (heq ▸ hlen), hrest⟩
  · obtain ⟨y, rfl⟩ := List.suffix_of_suffix_length_le (List.suffix_append block rest) hs' (Nat.le_of_not_lt hlen)
    obtain ⟨x, hx⟩ := hs
    refine .inl ⟨c, y, part, key, value, rfl, ⟨x, ?_⟩, hwhole, hsetting, hrest⟩
    rw [← List.append_assoc c, ← List.append_assoc x] at hx
    exact List.append_cancel_right hx

theorem flatten_sublist {c y block : List (List Char)} (h : c ++ y <:+ block) : c.flatten.Sublist block.flatten := by
  obtain ⟨x, rfl⟩ := h
  rw [List.flatten_append, List.flatten_append]
  exact (List.sublist_append_left _ _).trans (List.sublist_append_right _ _)

/-- The lines of a setting are exact where what is read of what is left of its text says that the text is plain and one line. -/
theorem exact_line {key text : List Char} {v : Setting} {Plain : Prop} (hkey : IsKey key)
    (hv : ∀ part key' value, readSetting part key' value = some v → key' = key)
    (h : ∀ part key' value, strip key' = key → ends (key' ++ '=' :: value) = false →
      Shortened (key' ++ '=' :: value) (key ++ '=' :: text.filter (· ≠ '\n')) →
      readSetting part key (strip value) = some v → Plain ∧ '\n' ∉ text) :
    Exact (lines (key ++ '=' :: text)) [v] Plain := by
  intro part s rest us hs hread
  have hline : '\n' ∉ key := hkey.ne rfl
  rcases of_begins hs (begins_of_readLines hread) with
    ⟨c, y, part', key', value, rfl, hcy, hwhole, hsetting, hrest⟩ | hlate
  · left
    have hkey' := hv part' _ _ hsetting
    rw [hkey'] at hsetting
    have hsub : c.flatten.Sublist (key ++ '=' :: text.filter (· ≠ '\n')) := by
      rw [← flatten_setting hline]
      exact flatten_sublist hcy
    obtain ⟨hplain, htext⟩ := h part' key' value hkey' hwhole.ends (hwhole.shortened.trans (.of_sublist hsub)) hsetting
    have hone : lines (key ++ '=' :: text) = [key ++ '=' :: text] :=
      lines_of_notMem (by simpa using ⟨hline, htext⟩)
    rw [hone] at hcy ⊢
    obtain ⟨l, c, rfl⟩ := List.exists_cons_of_ne_nil hwhole.ne_nil
    have hlen := hcy.length_le
    simp only [List.length_append, List.length_cons, List.length_nil] at hlen
    obtain rfl := List.length_eq_zero_iff.1 (show c.length = 0 by omega)
    obtain rfl := List.length_eq_zero_iff.1 (show y.length = 0 by omega)
    obtain rfl : l = key ++ '=' :: text := (List.cons.inj (hcy.eq_of_length rfl)).1
    exact ⟨rfl, hplain, part', hrest⟩
  · exact .inr hlate

/-- What is left of a setting's line has no more after its key than what is left of the text. -/
theorem shortened_value {key key' value e : List Char} (hkey : strip key' = key)
    (h : Shortened (key' ++ '=' :: value) (key ++ '=' :: e)) : Shortened value e := by
  rw [List.append_cons key', List.append_cons key] at h
  refine h.drop ?_
  have hle := (strip_sublist key').length_le
  rw [hkey] at hle
  rw [List.length_append, List.length_append]
  exact Nat.add_le_add_right hle _

/-- One line but for blank ones after it, which does not go on. -/
def OneLine (text : List Char) : Prop := (∀ l ∈ (lines text).head?, ends l = false) ∧ ∀ m ∈ (lines text).tail, strip m = []

instance (text : List Char) : Decidable (OneLine text) :=
  inferInstanceAs (Decidable ((∀ l ∈ (lines text).head?, ends l = false) ∧ ∀ m ∈ (lines text).tail, strip m = []))

/-! ### The settings of a definition -/

/-- A setting is what its key says, by the rules of the key, or is given as it is. -/
theorem of_readSetting {part key value : List Char} {v : Setting} (h : readSetting part key value = some v) :
    (key = "ExecStart".toList ∧ ∃ p, readCommandLine value = some p ∧ v = .exec p.1 p.2) ∨
    (key = "Environment".toList ∧ ∃ words assignments,
      items (fun s => s.all blank) (nextWord false (doubled '%' false)) (value.length + 2) (' ' :: value) = some words ∧
      words.mapM readVariable = some assignments ∧ v = .environment assignments) ∨
    (key = "User".toList ∧ ∃ name, doubled '%' false value = some name ∧ name ≠ [] ∧ v = .user name) ∨
    v = .directive part key value := by
  unfold readSetting at h
  by_cases hexec : part = "Service".toList ∧ key = "ExecStart".toList
  · rw [if_pos hexec] at h
    obtain ⟨p, hp, rfl⟩ := Option.map_eq_some_iff.1 h
    exact .inl ⟨hexec.2, p, hp, rfl⟩
  rw [if_neg hexec] at h
  by_cases henv : part = "Service".toList ∧ key = "Environment".toList
  · rw [if_pos henv] at h
    obtain ⟨words, hwords, h⟩ := Option.bind_eq_some_iff.1 h
    obtain ⟨assignments, hassignments, rfl⟩ := Option.map_eq_some_iff.1 h
    exact .inr (.inl ⟨henv.2, words, assignments, hwords, hassignments, rfl⟩)
  rw [if_neg henv] at h
  by_cases huser : part = "Service".toList ∧ key = "User".toList
  · rw [if_pos huser] at h
    obtain ⟨name, hname, h⟩ := Option.bind_eq_some_iff.1 h
    obtain ⟨hne, heq⟩ := Option.ite_none_left_eq_some.1 h
    exact .inr (.inr (.inl ⟨huser.2, name, hname, hne, (Option.some.inj heq).symm⟩))
  · rw [if_neg huser] at h
    exact .inr (.inr (.inr (Option.some.inj h).symm))

theorem of_readSetting_directive {part key value p k w : List Char} (h : readSetting part key value = some (.directive p k w)) :
    key = k ∧ value = w := by
  rcases of_readSetting h with ⟨-, p, -, heq⟩ | ⟨-, words, assignments, -, -, heq⟩ | ⟨-, name, -, -, heq⟩ | heq
  · cases heq
  · cases heq
  · cases heq
  · cases heq
    exact ⟨rfl, rfl⟩

theorem of_readSetting_exec {part key value t : List Char} {ts : List (List Char)}
    (h : readSetting part key value = some (.exec t ts)) : key = "ExecStart".toList ∧ readCommandLine value = some (t, ts) := by
  rcases of_readSetting h with ⟨hkey, p, hp, heq⟩ | ⟨-, words, assignments, -, -, heq⟩ | ⟨-, name, -, -, heq⟩ | heq
  · cases heq
    exact ⟨hkey, hp⟩
  all_goals cases heq

theorem of_readSetting_environment {part key value : List Char} {assignments : List (List Char × List Char)}
    (h : readSetting part key value = some (.environment assignments)) :
    key = "Environment".toList ∧ ∃ words,
      items (fun s => s.all blank) (nextWord false (doubled '%' false)) (value.length + 2) (' ' :: value) = some words ∧
      words.mapM readVariable = some assignments := by
  rcases of_readSetting h with ⟨-, p, -, heq⟩ | ⟨hkey, words, assignments', hwords, hread, heq⟩ | ⟨-, name, -, -, heq⟩ | heq
  · cases heq
  · cases heq
    exact ⟨hkey, words, hwords, hread⟩
  all_goals cases heq

theorem of_readSetting_user {part key value name : List Char} (h : readSetting part key value = some (.user name)) :
    key = "User".toList ∧ doubled '%' false value = some name ∧ name ≠ [] := by
  rcases of_readSetting h with ⟨-, p, -, heq⟩ | ⟨-, words, assignments, -, -, heq⟩ | ⟨hkey, name', hname, hne, heq⟩ | heq
  · cases heq
  · cases heq
  · cases heq
    exact ⟨hkey, hname, hne⟩
  · cases heq

theorem exact_directive {key : List Char} (hkey : IsKey key) (part₀ text : List Char) :
    Exact (lines (key ++ '=' :: text)) [.directive part₀ key (strip text)] (OneLine text) := by
  intro part s rest us hs hread
  obtain ⟨l, ys, hlines⟩ := List.exists_cons_of_ne_nil (List.splitOn_ne_nil '\n' text)
  have hblock := lines_setting (hkey.ne rfl) hlines
  rcases of_begins hs (begins_of_readLines hread) with ⟨c, y, part', key', value, rfl, hcy, hwhole, hsetting, hrest⟩ | hlate
  · left
    obtain ⟨hkey', hvalue⟩ := of_readSetting_directive hsetting
    have hfirst : 0 < ink (key ++ '=' :: l) := by
      rw [ink_append, ink_cons]
      exact Nat.lt_of_lt_of_le (Nat.succ_pos _) (Nat.le_add_left _ _)
    -- All that is no blank is in what is read.
    have hink : ink ((key ++ '=' :: l) :: ys).flatten ≤ ink (key' ++ '=' :: value) := by
      rw [← hblock, flatten_setting (hkey.ne rfl), ink_append, ink_cons, ink_filter, ink_append, ink_cons, ← ink_strip key',
        ← ink_strip value, hkey', hvalue, ink_strip]
    rw [hblock] at hcy
    obtain ⟨rfl, rfl, hline, hy⟩ := hwhole.eq_first hcy hfirst hink
    have hends := hwhole.ends
    rw [hline, dropWhile_setting hkey, ends_setting hkey] at hends
    rw [readLines_blank hy] at hrest
    refine ⟨by rw [hblock]; rfl, ⟨fun m hm => ?_, fun m hm => ?_⟩, part', hrest⟩
    · rw [lines, hlines] at hm
      rwa [← Option.some.inj hm]
    · rw [lines, hlines] at hm
      exact strip_eq_nil_iff.2 (hy m hm)
  · exact .inr hlate

theorem blank_of_ink {s : List Char} (h : ink s = 0) : ∀ c ∈ s, blank c = true := by
  intro c hc
  simpa using List.countP_eq_zero.1 h c hc

theorem strip_append_blanks (s : List Char) {b : List Char} (h : ∀ c ∈ b, blank c = true) : strip (s ++ b) = strip s := by
  have hright : ∀ u : List Char, (u ++ b).rdropWhile blank = u.rdropWhile blank := by
    intro u
    rw [List.rdropWhile, List.reverse_append, List.dropWhile_append_of_pos (by simpa using h), List.rdropWhile]
  rw [strip, List.dropWhile_append]
  split
  · next hempty =>
    rw [strip, List.isEmpty_iff.1 hempty, List.dropWhile_eq_nil_iff.2 h]
  · exact hright _

/-- A text that is one line is that line and blanks. -/
theorem strip_line {text l : List Char} {y : List (List Char)} (hlines : lines text = l :: y) (hy : ∀ m ∈ y, ink m = 0) :
    strip text = strip l := by
  have hcat : ∀ (y : List (List Char)) (l : List Char), (∀ m ∈ y, ink m = 0) →
      ∃ b, ['\n'].intercalate (l :: y) = l ++ b ∧ ∀ c ∈ b, blank c = true := by
    intro y
    induction y with
    | nil => exact fun l _ => ⟨[], by simp, nofun⟩
    | cons m y ih =>
      intro l hy
      obtain ⟨hm, hy⟩ := List.forall_mem_cons.1 hy
      obtain ⟨b, hb, hblank⟩ := ih m hy
      refine ⟨'\n' :: (m ++ b), by rw [List.intercalate_cons_cons, hb]; simp, ?_⟩
      rw [List.forall_mem_cons, List.forall_mem_append]
      exact ⟨rfl, blank_of_ink hm, hblank⟩
  obtain ⟨b, hb, hblank⟩ := hcat y l hy
  have htext : text = l ++ b := by rw [← hb, ← hlines, lines, List.intercalate_splitOn]
  rw [htext, strip_append_blanks l hblank]

theorem gives_line {part key text : List Char} {v : Setting} (hkey : IsKey key) (hone : OneLine text)
    (hv : readSetting part key (strip text) = some v) : Gives part part (lines (key ++ '=' :: text)) [v] := by
  intro rest
  obtain ⟨l, y, hlines⟩ := List.exists_cons_of_ne_nil (List.splitOn_ne_nil '\n' text)
  obtain ⟨hends, hblank⟩ := hone
  rw [show lines text = l :: y from hlines] at hends hblank
  have hy : ∀ m ∈ y, ink m = 0 := fun m hm => strip_eq_nil_iff.1 (hblank m hm)
  rw [lines_setting (hkey.ne rfl) hlines, List.cons_append, readLines_setting hkey (hends l rfl), ← strip_line hlines hy, hv,
    readLines_blank hy]
  rfl

theorem oneLine_of_notMem {text : List Char} (h : '\n' ∉ text) (hends : ends text = false) : OneLine text := by
  rw [OneLine, lines_of_notMem h]
  exact ⟨fun l hl => by rw [← Option.some.inj hl]; exact hends, nofun⟩

end Registration.Systemd
