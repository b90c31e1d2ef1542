import XmipRuntime.Library.Quoted
import XmipRuntime.Library.Separated
import XmipRuntime.Registration.Definition

/-!
# What Windows reads of a registration

A command line is split by the rules of `CommandLineToArgvW`: the program's name ends at a blank outside double quotes and has
no escapes; an argument does too, and backslashes before a double quote stand for half as many, the quote being one of its own
where their number is odd.  The texts of a `REG_MULTI_SZ` value are separated by `\0`.
-/

namespace Registration.Windows

open Library

/-! ### Splitting a command line -/

def blank (c : Char) : Bool := c == ' ' || c == '\t'

/-- `t` before what was read. -/
def onto (t : List Char) (p : List Char × List Char) : List Char × List Char := (t ++ p.1, p.2)

/-- The rest of a word and what follows it, from inside quotes or outside, after so many backslashes that may escape. -/
def scan (escapes : Bool) : Bool → Nat → List Char → List Char × List Char
  | _, n, [] => (List.replicate n '\\', [])
  | inside, n, c :: s =>
    if escapes ∧ c = '\\' then scan escapes inside (n + 1) s
    else if c = '"' then
      if n % 2 = 1 then onto (List.replicate (n / 2) '\\' ++ ['"']) (scan escapes inside 0 s)
      else onto (List.replicate (n / 2) '\\') (scan escapes (!inside) 0 s)
    else if blank c ∧ inside = false then (List.replicate n '\\', c :: s)
    else onto (List.replicate n '\\' ++ [c]) (scan escapes inside 0 s)

/-- The word after a blank: an argument, with escapes and after any further blanks, or the program's name, with neither. -/
def nextWord (escapes : Bool) : List Char → Option (List Char × List Char)
  | [] => none
  | c :: s =>
    let s := if escapes then s.dropWhile blank else s
    if blank c && s.head?.any fun d => !blank d then some (scan escapes false 0 s) else none

/-- The program and its arguments; a line that is empty or begins with a blank names no program. -/
def readCommandLine (line : List Char) : Option (List Char × List (List Char)) :=
  command blank (nextWord false) (nextWord true) (' ' :: line)

/-! ### One word -/

def Bare (t : List Char) : Prop := t ≠ [] ∧ ∀ c ∈ t, blank c = false ∧ c ≠ '"'

/-- Between quotes an argument's last backslashes would be taken for the closing quote's. -/
def Inner (escapes : Bool) (t : List Char) : Prop := '"' ∉ t ∧ (escapes = true → t.getLast? ≠ some '\\')

instance (t : List Char) : Decidable (Bare t) := inferInstanceAs (Decidable (_ ∧ _))

instance (escapes : Bool) (t : List Char) : Decidable (Inner escapes t) := inferInstanceAs (Decidable (_ ∧ _))

theorem onto_nil (p : List Char × List Char) : onto [] p = p := rfl

theorem onto_onto (t u : List Char) (p : List Char × List Char) : onto t (onto u p) = onto (t ++ u) p := by
  unfold onto
  rw [List.append_assoc]

theorem of_onto {t w s' : List Char} {p : List Char × List Char} (h : onto t p = (w, s')) :
    ∃ u, p = (u, s') ∧ w = t ++ u := by
  obtain ⟨rfl, rfl⟩ := Prod.mk.inj h
  exact ⟨p.1, rfl, rfl⟩

variable {escapes : Bool}

/-- What one character does to the rest of a word: it is a backslash more, or part of the word after the backslashes, or a
quote that is part of it or not and takes some with it, or the blank that ends it. -/
theorem scan_cons (escapes inside : Bool) (n : Nat) (c : Char) (s : List Char) :
    escapes = true ∧ c = '\\' ∧ scan escapes inside n (c :: s) = scan escapes inside (n + 1) s ∨
    c = '"' ∧ (∃ t inside', scan escapes inside n (c :: s) = onto t (scan escapes inside' 0 s) ∧ t.length ≤ n) ∨
    c ≠ '"' ∧ blank c = true ∧ inside = false ∧ scan escapes inside n (c :: s) = (List.replicate n '\\', c :: s) ∨
    (escapes = true → c ≠ '\\') ∧ c ≠ '"' ∧ (inside = false → blank c = false) ∧
      scan escapes inside n (c :: s) = onto (List.replicate n '\\' ++ [c]) (scan escapes inside 0 s) := by
  rw [scan]
  by_cases hback : escapes = true ∧ c = '\\'
  · rw [if_pos hback]
    exact .inl ⟨hback.1, hback.2, rfl⟩
  rw [if_neg hback]
  by_cases hquote : c = '"'
  · rw [if_pos hquote]
    refine .inr (.inl ⟨hquote, ?_⟩)
    by_cases hodd : n % 2 = 1
    · rw [if_pos hodd]
      refine ⟨_, inside, rfl, ?_⟩
      simp only [List.length_append, List.length_replicate, List.length_singleton]
      omega
    · rw [if_neg hodd]
      refine ⟨_, !inside, rfl, ?_⟩
      rw [List.length_replicate]
      omega
  rw [if_neg hquote]
  by_cases hblank : blank c = true ∧ inside = false
  · rw [if_pos hblank]
    exact .inr (.inr (.inl ⟨hquote, hblank.1, hblank.2, rfl⟩))
  · rw [if_neg hblank]
    refine .inr (.inr (.inr ⟨fun hesc hc => hback ⟨hesc, hc⟩, hquote, fun hout => ?_, rfl⟩))
    cases hc : blank c with
    | true => exact absurd ⟨hc, hout⟩ hblank
    | false => rfl

/-- What is read of a word is no longer than what is written, by one at least for each quote there; where it is no shorter
it is what is written. -/
theorem scan_spans {inside : Bool} {n : Nat} {s t s' : List Char} (h : scan escapes inside n s = (t, s')) :
    ∃ raw, s = raw ++ s' ∧ t.length + raw.count '"' ≤ n + raw.length ∧
      (t.length = n + raw.length → t = List.replicate n '\\' ++ raw) ∧
      (t.length = n + raw.length → inside = false → ∀ c ∈ raw, blank c = false) ∧ (∀ c ∈ s'.head?, blank c = true) := by
  induction s generalizing inside n t with
  | nil =>
    cases h
    exact ⟨[], rfl, by simp, by simp, by simp, by simp⟩
  | cons c s ih =>
    rcases scan_cons escapes inside n c s with ⟨-, rfl, heq⟩ | ⟨rfl, t', inside', heq, ht'⟩ | ⟨-, hblank, -, heq⟩ |
      ⟨-, hquote, hc, heq⟩
    · rw [heq] at h
      obtain ⟨raw, rfl, hle, hsame, hbare, hend⟩ := ih h
      refine ⟨'\\' :: raw, rfl, ?_, fun hlen => ?_, fun hlen hout => ?_, hend⟩
      · rw [List.count_cons_of_ne (by decide), List.length_cons]
        omega
      · rw [hsame (by rw [hlen, List.length_cons]; omega), List.replicate_succ']
        simp
      · exact List.forall_mem_cons.2 ⟨by decide, hbare (by rw [hlen, List.length_cons]; omega) hout⟩
    · obtain ⟨u, hu, rfl⟩ := of_onto (heq.symm.trans h)
      obtain ⟨raw, rfl, hle, -, -, hend⟩ := ih hu
      have hcount : ('"' :: raw).count '"' = raw.count '"' + 1 := List.count_cons_self
      refine ⟨'"' :: raw, rfl, ?_, fun hlen => ?_, fun hlen => ?_, hend⟩
      · rw [hcount, List.length_append, List.length_cons]
        omega
      all_goals
        rw [List.length_append, List.length_cons] at hlen
        omega
    · rw [heq] at h
      cases h
      exact ⟨[], rfl, by simp, by simp, by simp, fun d hd => by rwa [← Option.some.inj hd]⟩
    · obtain ⟨u, hu, rfl⟩ := of_onto (heq.symm.trans h)
      obtain ⟨raw, rfl, hle, hsame, hbare, hend⟩ := ih hu
      have hlength : (List.replicate n '\\' ++ [c] ++ u).length = n + 1 + u.length := by
        simp only [List.length_append, List.length_replicate, List.length_singleton]
      refine ⟨c :: raw, rfl, ?_, fun hlen => ?_, fun hlen hout => ?_, hend⟩
      · rw [hlength, List.count_cons_of_ne hquote, List.length_cons]
        omega
      all_goals rw [hlength, List.length_cons] at hlen
      · rw [hsame (by omega)]
        simp
      · exact List.forall_mem_cons.2 ⟨hc hout, hbare (by omega) hout⟩

/-- A text with no quotes in it, and outside quotes no blanks, is read up to its last backslashes. -/
theorem scan_quoteless (escapes inside : Bool) (n : Nat) {t : List Char} (s : List Char) (hquote : '"' ∉ t)
    (hblank : inside = false → ∀ c ∈ t, blank c = false) :
    ∃ p j, List.replicate n '\\' ++ t = p ++ List.replicate j '\\' ∧ (escapes = true → p.getLast? ≠ some '\\') ∧
      (escapes = false → n = 0 → j = 0) ∧ scan escapes inside n (t ++ s) = onto p (scan escapes inside j s) := by
  induction t generalizing n with
  | nil => exact ⟨[], n, by simp, by simp, fun _ hn => hn, rfl⟩
  | cons c t ih =>
    obtain ⟨hc, ht⟩ := not_or.1 (fun hor => hquote (List.mem_cons.2 hor))
    have hrest := fun {n : Nat} => ih n ht (fun hout d hd => hblank hout d (List.mem_cons_of_mem c hd))
    rcases scan_cons escapes inside n c (t ++ s) with ⟨hesc, rfl, heq⟩ | ⟨rfl, -⟩ | ⟨-, hc', hout, -⟩ | ⟨hback, -, -, heq⟩
    · obtain ⟨p, j, happ, hlast, -, hscan⟩ := hrest (n := n + 1)
      refine ⟨p, j, ?_, hlast, fun hno => absurd (hesc.symm.trans hno) (by decide), ?_⟩
      · rw [← happ, List.replicate_succ']
        simp
      · rw [List.cons_append, heq, hscan]
    · exact absurd rfl hc
    · rw [hblank hout c List.mem_cons_self] at hc'
      cases hc'
    · obtain ⟨p, j, happ, hlast, hj, hscan⟩ := hrest (n := 0)
      refine ⟨List.replicate n '\\' ++ [c] ++ p, j, ?_, fun hesc => ?_, fun hno _ => hj hno rfl, ?_⟩
      · have ht' : t = p ++ List.replicate j '\\' := happ
        rw [ht']
        simp
      · cases p with
        | nil =>
          rw [List.append_nil, List.getLast?_concat]
          exact fun hsome => hback hesc (Option.some.inj hsome)
        | cons d p =>
          rw [List.getLast?_append_of_ne_nil _ (List.cons_ne_nil d p)]
          exact hlast hesc
      · rw [List.cons_append, heq, hscan, onto_onto]

theorem scan_quote (inside : Bool) (s : List Char) : scan escapes inside 0 ('"' :: s) = scan escapes (!inside) 0 s := by
  rw [scan, if_neg (by simp), if_pos rfl, if_neg (by decide), Nat.zero_div, List.replicate_zero, onto_nil]

/-- A word outside quotes ends where a blank follows it, or nothing. -/
theorem scan_blankFirst {n : Nat} {rest : List Char} (h : BlankFirst rest) :
    scan escapes false n rest = (List.replicate n '\\', rest) := by
  cases rest with
  | nil => rfl
  | cons c rest =>
    obtain rfl : c = ' ' := h c rfl
    rw [scan, if_neg (by simp), if_neg (by decide), if_pos ⟨rfl, rfl⟩]

theorem scan_inner {t rest : List Char} (h : Inner escapes t) (hrest : BlankFirst rest) :
    scan escapes true 0 (t ++ '"' :: rest) = (t, rest) := by
  obtain ⟨p, j, happ, -, hnone, hscan⟩ := scan_quoteless escapes true 0 ('"' :: rest) h.1 nofun
  have ht : t = p ++ List.replicate j '\\' := happ
  have hj : j = 0 := by
    cases hesc : escapes with
    | false => exact hnone hesc rfl
    | true =>
      by_contra hpos
      obtain ⟨k, rfl⟩ := Nat.exists_eq_succ_of_ne_zero hpos
      refine h.2 hesc ?_
      rw [ht, List.replicate_succ', ← List.append_assoc, List.getLast?_concat]
  subst hj
  rw [hscan, scan_quote, Bool.not_true, scan_blankFirst hrest, ht]
  rfl

/-- What is read up to the closing quote or beyond it is what is between the quotes, which is plain there. -/
theorem inner_of_scan {t rest s' : List Char} (h : scan escapes true 0 (t ++ '"' :: rest) = (t, s'))
    (hlen : rest.length ≤ s'.length) : Inner escapes t ∧ s' = rest := by
  obtain ⟨raw, hraw, hle, hsame, -, hend⟩ := scan_spans h
  have hsum := congrArg List.length hraw
  simp only [List.length_append, List.length_cons] at hsum
  have hraw' : raw.length ≠ t.length := by
    -- The word would end at the closing quote.
    intro heq
    have hs' : '"' :: rest = s' := (List.append_inj hraw heq.symm).2
    have hquote := hend '"' (by rw [← hs']; rfl)
    cases hquote
  have hpast : raw = t ++ ['"'] ∧ s' = rest := by
    have hcut : (t ++ ['"']) ++ rest = raw ++ s' := by
      rw [List.append_assoc]
      exact hraw
    have hinj := List.append_inj hcut (by rw [List.length_append, List.length_singleton]; omega)
    exact ⟨hinj.1.symm, hinj.2.symm⟩
  obtain ⟨rfl, rfl⟩ := hpast
  have hquote : '"' ∉ t := by
    rw [List.count_append, List.length_append, List.count_singleton_self, List.length_singleton] at hle
    exact List.count_eq_zero.1 (by omega)
  refine ⟨⟨hquote, fun hesc hlast => ?_⟩, rfl⟩
  obtain ⟨p, j, happ, hp, -, hscan⟩ := scan_quoteless escapes true 0 ('"' :: s') hquote nofun
  have ht : t = p ++ List.replicate j '\\' := happ
  rw [h, scan, if_neg (by simp), if_pos rfl] at hscan
  by_cases hodd : j % 2 = 1
  · -- The quote would be part of the word.
    rw [if_pos hodd, onto_onto] at hscan
    obtain ⟨u, -, hu⟩ := of_onto hscan.symm
    exact hquote (hu ▸ by simp)
  · rw [if_neg hodd, onto_onto] at hscan
    obtain ⟨u, hu, hsplit⟩ := of_onto hscan.symm
    have hj : j = 0 := by
      have hcount := congrArg List.length (ht.symm.trans hsplit)
      obtain ⟨raw, hraw, hle, -⟩ := scan_spans hu
      have hnil : raw = [] := List.append_left_eq_self.1 hraw.symm
      rw [hnil] at hle
      simp only [List.length_append, List.length_replicate, List.count_nil, List.length_nil] at hcount hle
      omega
    rw [ht, hj, List.replicate_zero, List.append_nil] at hlast
    exact hp hesc hlast

/-! ### A command line -/

theorem of_nextWord {s t s' : List Char} (h : nextWord escapes s = some (t, s')) :
    ∃ gap word, s = gap ++ word ∧ gap ≠ [] ∧ (∀ c ∈ gap, blank c = true) ∧ (∃ c ∈ word.head?, blank c = false) ∧
      scan escapes false 0 word = (t, s') := by
  cases s with
  | nil => cases h
  | cons c s =>
    unfold nextWord at h
    dsimp only at h
    obtain ⟨hcond, heq⟩ := (Option.ite_none_right_eq_some).1 h
    obtain ⟨hc, hhead⟩ := Bool.and_eq_true_iff.1 hcond
    have hword : ∃ gap, s = gap ++ (if escapes = true then s.dropWhile blank else s) ∧ ∀ d ∈ gap, blank d = true := by
      cases escapes with
      | false => exact ⟨[], rfl, nofun⟩
      | true => exact ⟨s.takeWhile blank, List.takeWhile_append_dropWhile.symm, List.all_eq_true.1 List.all_takeWhile⟩
    obtain ⟨gap, hs, hgap⟩ := hword
    refine ⟨c :: gap, _, by rw [List.cons_append, ← hs], List.cons_ne_nil c gap, List.forall_mem_cons.2 ⟨hc, hgap⟩, ?_,
      Option.some.inj heq⟩
    obtain ⟨d, hd, hnot⟩ := (Option.any_eq_true _ _).1 hhead
    exact ⟨d, hd, by simpa using hnot⟩

theorem nextWord_of_head {d : Char} {s : List Char} (hd : blank d = false) :
    nextWord escapes (' ' :: d :: s) = some (scan escapes false 0 (d :: s)) := by
  unfold nextWord
  cases escapes with
  | false => simp [hd, show blank ' ' = true from rfl]
  | true => simp [hd, show blank ' ' = true from rfl]

theorem splits (escapes : Bool) : Splits blank Bare (Inner escapes) (nextWord escapes) where
  quote := rfl
  spans s t s' h := by
    obtain ⟨gap, word, rfl, hgap, hblank, ⟨d, hd, hword⟩, hscan⟩ := of_nextWord h
    obtain ⟨raw, rfl, hle, hsame, hbare, hend⟩ := scan_spans hscan
    have hraw : raw ≠ [] := by
      rintro rfl
      have := hend d hd
      rw [hword] at this
      cases this
    refine ⟨gap, raw, by rw [List.append_assoc], hgap, hblank, hraw, by omega, fun heq => ?_⟩
    have hcount : raw.count '"' = 0 := by omega
    have ht : t = raw := hsame (by omega)
    rw [ht]
    refine ⟨rfl, hraw, fun c hc => ⟨hbare (by omega) rfl c hc, ?_⟩⟩
    rintro rfl
    exact List.count_eq_zero.1 hcount hc
  some_of_bare t h := by
    obtain ⟨c, hc⟩ := List.exists_mem_of_ne_nil t h.1
    exact ⟨⟨c, hc, (h.2 c hc).1⟩, fun hmem => (h.2 _ hmem).2 rfl⟩
  bare t rest h hrest := by
    obtain ⟨d, t', rfl⟩ := List.exists_cons_of_ne_nil h.1
    have hquote : '"' ∉ d :: t' := fun hmem => (h.2 _ hmem).2 rfl
    obtain ⟨p, j, happ, -, -, hscan⟩ :=
      scan_quoteless escapes false 0 rest hquote (fun _ c hc => (h.2 c hc).1)
    have ht : d :: t' = p ++ List.replicate j '\\' := happ
    rw [List.cons_append, nextWord_of_head (h.2 d List.mem_cons_self).1, ← List.cons_append, hscan, scan_blankFirst hrest, ht]
    rfl
  inner t rest h hrest := by
    rw [nextWord_of_head rfl, scan_quote, Bool.not_false, scan_inner h hrest]
  inner_of_next t rest s' h hlen := by
    rw [nextWord_of_head rfl, scan_quote] at h
    exact inner_of_scan (Option.some.inj h) hlen

/-- A program and its arguments, each quoted where it has a space, are read back just where each is plain. -/
theorem readCommandLine_iff (definition : ServiceDefinition) :
    readCommandLine ((quoted definition.executable ++
      join "" (definition.arguments.map fun argument => " " ++ quoted argument)).toList) =
        some (definition.told.executable, definition.told.arguments) ↔
      PlainWord Bare (Inner false) definition.told.executable ∧
        ∀ argument ∈ definition.told.arguments, PlainWord Bare (Inner true) argument := by
  have hwords : (join "" (definition.arguments.map fun argument => " " ++ quoted argument)).toList =
      definition.told.arguments.flatMap wordOf := by
    unfold ServiceDefinition.told
    dsimp only
    cases definition.arguments with
    | nil => rfl
    | cons argument rest =>
      rw [List.map_cons, toList_join, List.flatMap_map, List.map_cons, List.flatMap_cons, List.flatMap_map]
      simp only [String.toList_append, ← word_quoted]
      rfl
  unfold readCommandLine
  rw [String.toList_append, hwords, ← List.cons_append, word_quoted]
  exact command_iff (splits false) (splits true)

/-! ### The registration -/

/-- What `option` is given in `text`. -/
def valueOf (option text : String) : Option (List Char) :=
  if option.toList <+: text.toList then some (text.toList.drop option.toList.length) else none

/-- The command line and the account that `sc.exe` is to create the service with. -/
def readArguments (arguments : List String) : Option (List Char × Option (List Char)) :=
  match arguments with
  | ["create", _, binary, _, "start= auto"] => (valueOf "binPath= " binary).map fun line => (line, none)
  | ["create", _, binary, _, "start= auto", user] =>
    (valueOf "binPath= " binary).bind fun line => (valueOf "obj= " user).map fun user => (line, some user)
  | _ => none

def readVariable (text : List Char) : Option (List Char × List Char) := (cut '=' text).filter fun variable_ => variable_.1 ≠ []

/-- The environment the settings give the service. -/
def readSettings (settings : List (String × List String)) : Option (List (List Char × List Char)) :=
  match settings with
  | [("sc.exe", ["description", _, _])] => some []
  | [("sc.exe", ["description", _, _]),
      ("reg.exe", ["add", _, "/v", "Environment", "/t", "REG_MULTI_SZ", "/d", texts, "/f"])] =>
    (separated '\\' '0' texts.toList).mapM readVariable
  | _ => none

/-- What the registration says the service is started with. -/
def read (arguments : List String) (settings : List (String × List String)) : Option Told :=
  (readArguments arguments).bind fun p =>
  (readCommandLine p.1).bind fun line =>
  (readSettings settings).map fun environment => ⟨line.1, line.2, environment, p.2⟩

/-- What a registration with Windows keeps as it is given. -/
structure Plain (told : Told) : Prop where
  executable : PlainWord Bare (Inner false) told.executable
  arguments : ∀ argument ∈ told.arguments, PlainWord Bare (Inner true) argument
  environment : ∀ variable_ ∈ told.environment,
    variable_.1 ≠ [] ∧ '=' ∉ variable_.1 ∧ ¬ ['\\', '0'] <:+: assigned variable_

theorem valueOf_append (option text : String) : valueOf option (option ++ text) = some text.toList := by
  unfold valueOf
  rw [String.toList_append, if_pos (List.prefix_append _ _), List.drop_left]

theorem readVariable_iff {variable_ : List Char × List Char} :
    readVariable (assigned variable_) = some variable_ ↔ variable_.1 ≠ [] ∧ '=' ∉ variable_.1 := by
  unfold readVariable assigned
  rw [Option.filter_eq_some_iff, cut_iff, decide_eq_true_iff, and_comm]

theorem assigned_of_readVariable {text : List Char} {variable_ : List Char × List Char}
    (h : readVariable text = some variable_) : text = assigned variable_ :=
  (append_of_cut (Option.filter_eq_some_iff.1 h).1).1

theorem toList_join_nul (texts : List String) : (join "\\0" texts).toList = joined '\\' '0' (texts.map String.toList) := by
  induction texts with
  | nil => rfl
  | cons text texts ih =>
    cases texts with
    | nil => rfl
    | cons next texts =>
      rw [join, String.toList_append, String.toList_append, ih, List.append_assoc]
      · rfl
      · exact List.cons_ne_nil next texts

theorem readTexts_iff {environment : List (List Char × List Char)} (hne : environment ≠ []) :
    (separated '\\' '0' (joined '\\' '0' (environment.map assigned))).mapM readVariable = some environment ↔
      ∀ variable_ ∈ environment, variable_.1 ≠ [] ∧ '=' ∉ variable_.1 ∧ ¬ ['\\', '0'] <:+: assigned variable_ := by
  rw [mapM_iff (fun _ _ h => assigned_of_readVariable h), separated_iff (by decide) (by simpa using hne), List.forall_mem_map]
  simp only [readVariable_iff]
  constructor
  · rintro ⟨hnul, hread⟩ variable_ hin
    exact ⟨(hread variable_ hin).1, (hread variable_ hin).2, hnul variable_ hin⟩
  · intro hall
    exact ⟨fun variable_ hin => (hall variable_ hin).2.2, fun variable_ hin => ⟨(hall variable_ hin).1, (hall variable_ hin).2.1⟩⟩

theorem readSettings_iff (definition : ServiceDefinition) :
    readSettings (windowsServiceSettings definition) = some definition.told.environment ↔
      ∀ variable_ ∈ definition.told.environment,
        variable_.1 ≠ [] ∧ '=' ∉ variable_.1 ∧ ¬ ['\\', '0'] <:+: assigned variable_ := by
  unfold windowsServiceSettings
  cases henv : definition.environment with
  | nil =>
    have htold : definition.told.environment = [] := by
      unfold ServiceDefinition.told
      rw [henv]
      rfl
    rw [htold]
    exact ⟨fun _ _ hin => (nomatch hin), fun _ => rfl⟩
  | cons variable_ rest =>
    have htexts : (variable_ :: rest).map (String.toList ∘ fun variable_ => variable_.1 ++ "=" ++ variable_.2) =
        definition.told.environment.map assigned := by
      unfold ServiceDefinition.told
      rw [henv, List.map_map]
      refine List.map_congr_left fun pair _ => ?_
      simp [assigned]
    have hne : definition.told.environment ≠ [] := by
      unfold ServiceDefinition.told
      rw [henv]
      exact List.cons_ne_nil _ _
    rw [← readTexts_iff hne, ← htexts, ← List.map_map, ← toList_join_nul]
    rfl

theorem readArguments_eq (definition : ServiceDefinition) :
    readArguments (windowsServiceArguments definition) =
      some ((quoted definition.executable ++
        join "" (definition.arguments.map fun argument => " " ++ quoted argument)).toList, definition.told.identity) := by
  unfold windowsServiceArguments ServiceDefinition.told
  cases definition.serviceIdentity with
  | none => simp [readArguments, valueOf_append]
  | some user => simp [readArguments, valueOf_append]

/-- A registration with Windows is read back just where the definition is plain. -/
theorem read_iff (definition : ServiceDefinition) :
    read (windowsServiceArguments definition) (windowsServiceSettings definition) = some definition.told ↔
      Plain definition.told := by
  have hsome : read (windowsServiceArguments definition) (windowsServiceSettings definition) = some definition.told ↔
      readCommandLine ((quoted definition.executable ++
        join "" (definition.arguments.map fun argument => " " ++ quoted argument)).toList) =
          some (definition.told.executable, definition.told.arguments) ∧
      readSettings (windowsServiceSettings definition) = some definition.told.environment := by
    unfold read
    rw [readArguments_eq, Option.bind_some]
    constructor
    · intro h
      obtain ⟨line, hline, h⟩ := Option.bind_eq_some_iff.1 h
      obtain ⟨environment, henvironment, heq⟩ := Option.map_eq_some_iff.1 h
      rw [← heq]
      exact ⟨hline, henvironment⟩
    · rintro ⟨hline, henvironment⟩
      rw [hline, henvironment]
      rfl
  rw [hsome, readCommandLine_iff, readSettings_iff]
  constructor
  · rintro ⟨⟨hexecutable, harguments⟩, henvironment⟩
    exact ⟨hexecutable, harguments, henvironment⟩
  · rintro ⟨hexecutable, harguments, henvironment⟩
    exact ⟨⟨hexecutable, harguments⟩, henvironment⟩

end Registration.Windows
