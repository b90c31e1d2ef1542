import XmipRuntime.Registration.Settings

/-!
# What systemd reads of a unit made from a definition

A unit is read back, setting by setting, just where the definition is plain (`readUnit_iff`).
-/

namespace Registration.Systemd

open Library

/-- The settings a definition stands for. -/
def settings (definition : ServiceDefinition) : List Setting :=
  ([.directive "Unit".toList "Description".toList (strip definition.description.toList),
    .directive "Unit".toList "After".toList "network-online.target".toList,
    .directive "Unit".toList "Wants".toList "network-online.target".toList,
    .directive "Service".toList "Type".toList "notify".toList,
    .exec definition.told.executable definition.told.arguments,
    .directive "Service".toList "WorkingDirectory".toList (strip definition.workingDirectory.toList)] : List Setting) ++
  ((definition.told.identity.toList.map Setting.user) ++
  ((definition.told.environment.map fun variable_ => Setting.environment [variable_]) ++
  ([.directive "Service".toList "RuntimeDirectory".toList runtimeDirectory.toList,
    .directive "Service".toList "RuntimeDirectoryMode".toList "0755".toList,
    .directive "Service".toList "RuntimeDirectoryPreserve".toList "yes".toList,
    .directive "Service".toList "Restart".toList "on-failure".toList,
    .directive "Service".toList "RestartPreventExitStatus".toList refused.toList,
    .directive "Service".toList "RestartSec".toList "5".toList,
    .directive "Install".toList "WantedBy".toList "multi-user.target".toList] : List Setting)))

/-! ### The command line -/

/-- Plain by the rules of a command line, given what its marks leave as it is. -/
def PlainText (commands : Bool) (Good : List Char → Prop) (t : List Char) : Prop :=
  PlainWord (fun t => BareWord commands t ∧ Good t) (fun t => (∀ c ∈ t, Kept (some '"') c) ∧ Good t) t

instance (commands : Bool) (Good : List Char → Prop) [DecidablePred Good] (t : List Char) :
    Decidable (PlainText commands Good t) := inferInstanceAs (Decidable (PlainWord _ _ t))

def GoodExecutable (t : List Char) : Prop := '%' ∉ t ∧ ∀ c ∈ t.head?, c ∉ modifiers

def GoodArgument (t : List Char) : Prop := '%' ∉ t ∧ '$' ∉ t

instance (t : List Char) : Decidable (GoodExecutable t) := inferInstanceAs (Decidable (_ ∧ ∀ c ∈ t.head?, _))

instance (t : List Char) : Decidable (GoodArgument t) := inferInstanceAs (Decidable (_ ∧ _))

theorem mem_wordOf {c : Char} (hspace : c ≠ ' ') (hquote : c ≠ '"') {t : List Char} : c ∈ wordOf t ↔ c ∈ t := by
  unfold wordOf
  split <;> simp [hspace, hquote]

theorem mem_words {c : Char} (hspace : c ≠ ' ') (hquote : c ≠ '"') {ts : List (List Char)} :
    c ∈ ts.flatMap wordOf ↔ ∃ t ∈ ts, c ∈ t := by
  simp only [List.mem_flatMap, mem_wordOf hspace hquote]

/-- A plain text has no backslashes, and its word neither begins nor ends in a blank. -/
theorem PlainText.word {commands : Bool} {Good : List Char → Prop} {t : List Char} (h : PlainText commands Good t) :
    '\\' ∉ t ∧ ∃ u, wordOf t = ' ' :: u ∧ u ≠ [] ∧ (∀ c ∈ u.head?, blank c = false) ∧ ∀ c ∈ u.getLast?, blank c = false := by
  rw [PlainText, PlainWord] at h
  by_cases hspace : ' ' ∈ t
  · rw [if_pos hspace] at h
    refine ⟨fun hmem => (h.1 _ hmem).2.1 rfl, '"' :: (t ++ ['"']), wordOf_of_mem hspace, List.cons_ne_nil _ _,
      fun c hc => ?_, fun c hc => ?_⟩
    · rw [← Option.some.inj hc]
      rfl
    · rw [← List.cons_append, List.getLast?_concat] at hc
      rw [← Option.some.inj hc]
      rfl
  · rw [if_neg hspace] at h
    obtain ⟨⟨hne, hkept, -⟩, -⟩ := h
    exact ⟨fun hmem => (hkept _ hmem).2.1 rfl, t, wordOf_of_notMem hspace, hne,
      fun c hc => ((hkept c (List.mem_of_mem_head? hc)).2.2 rfl).1, fun c hc => ((hkept c (List.mem_of_getLast? hc)).2.2 rfl).1⟩

/-- A program and its arguments on one line, each plain. -/
structure PlainCommand (t : List Char) (ts : List (List Char)) : Prop where
  executable : PlainText false GoodExecutable t
  arguments : ∀ t' ∈ ts, PlainText true GoodArgument t'
  line : ∀ t' ∈ t :: ts, '\n' ∉ t'

section
variable {executable : List Char} {arguments : List (List Char)} {line z : List Char}

theorem exact_exec (hline : ' ' :: line = wordOf executable ++ arguments.flatMap wordOf) (hz : z = [] ∨ z = [' ']) :
    Exact (lines ("ExecStart".toList ++ '=' :: (line ++ z))) [.exec executable arguments]
      (PlainCommand executable arguments) := by
  refine exact_line (by decide) (fun part key value h => (of_readSetting_exec h).1) (fun part key value hkey _ hshort hsetting => ?_)
  obtain ⟨-, hread⟩ := of_readSetting_exec hsetting
  have hvalue : Shortened (strip value) (line.filter (· ≠ '\n')) := by
    have hs := (Shortened.of_sublist (strip_sublist value)).trans (shortened_value hkey hshort)
    rw [List.filter_append] at hs
    rcases hz with rfl | rfl
    · simpa using hs
    · refine Shortened.of_concat (by simpa using hs) (fun heq => ?_)
      cases getLast?_strip value ' ' heq
  have hwords : Shortened (' ' :: strip value) ((wordOf executable ++ arguments.flatMap wordOf).filter (· ≠ '\n')) := by
    rw [← hline, List.filter_cons_of_pos (by decide)]
    exact hvalue.kept ' '
  obtain ⟨hlen, hexecutable, harguments⟩ :=
    plain_of_command (counts decodes_executable) (counts decodes_argument) (hwords.trans (.of_sublist List.filter_sublist)) hread
  have hnot : '\n' ∉ wordOf executable ++ arguments.flatMap wordOf := notMem_of_filter (hlen ▸ hwords.length_le)
  refine ⟨⟨hexecutable, harguments, ?_⟩, ?_⟩
  · rw [← List.flatMap_cons, mem_words (by decide) (by decide)] at hnot
    exact fun t ht hmem => hnot ⟨t, ht, hmem⟩
  · rw [← hline] at hnot
    intro hmem
    rcases List.mem_append.1 hmem with hmem | hmem
    · exact hnot (List.mem_cons_of_mem _ hmem)
    · rcases hz with rfl | rfl <;> simp at hmem

/-- Words go on to end in no blank. -/
theorem getLast?_words {ts : List (List Char)} (h : ∀ t ∈ ts, PlainText true GoodArgument t) {u : List Char} (hne : u ≠ [])
    (hu : ∀ c ∈ u.getLast?, blank c = false) : ∀ c ∈ (u ++ ts.flatMap wordOf).getLast?, blank c = false := by
  induction ts generalizing u with
  | nil => simpa using hu
  | cons t ts ih =>
    obtain ⟨ht, hts⟩ := List.forall_mem_cons.1 h
    obtain ⟨-, u', hword, hne', -, hu'⟩ := ht.word
    rw [List.flatMap_cons, hword, ← List.append_assoc]
    refine ih hts (by simp) ?_
    rwa [List.getLast?_append_of_ne_nil u (List.cons_ne_nil _ _), List.getLast?_cons_of_ne_nil hne']

theorem gives_exec (hline : ' ' :: line = wordOf executable ++ arguments.flatMap wordOf) (hz : z = [] ∨ z = [' '])
    (h : PlainCommand executable arguments) :
    Gives "Service".toList "Service".toList (lines ("ExecStart".toList ++ '=' :: (line ++ z))) [.exec executable arguments] := by
  have hnot : ∀ c : Char, c ≠ ' ' → c ≠ '"' → (∀ t ∈ executable :: arguments, c ∉ t) → c ∉ line ++ z := by
    intro c hspace hquote hall hmem
    rcases List.mem_append.1 hmem with hmem | hmem
    · have hwords : c ∈ (executable :: arguments).flatMap wordOf := by
        rw [List.flatMap_cons, ← hline]
        exact List.mem_cons_of_mem _ hmem
      obtain ⟨t, ht, hmem⟩ := (mem_words hspace hquote).1 hwords
      exact hall t ht hmem
    · rcases hz with rfl | rfl
      · cases hmem
      · exact hspace (List.mem_singleton.1 hmem)
  have hback : '\\' ∉ line ++ z := hnot '\\' (by decide) (by decide)
    (List.forall_mem_cons.2 ⟨h.executable.word.1, fun t ht => (h.arguments t ht).word.1⟩)
  have hstrip : strip (line ++ z) = line := by
    obtain ⟨-, u, hword, hne, hhead, hlast⟩ := h.executable.word
    obtain rfl : line = u ++ arguments.flatMap wordOf := by
      rw [hword] at hline
      exact (List.cons.inj hline).2
    rw [strip_append_blanks _ (by rcases hz with rfl | rfl <;> decide)]
    refine strip_of_ends (fun c hc => ?_) (getLast?_words h.arguments hne hlast)
    rw [List.head?_append_of_ne_nil u hne] at hc
    exact hhead c hc
  refine gives_line (by decide) (oneLine_of_notMem (hnot '\n' (by decide) (by decide) h.line) (ends_of_notMem hback)) ?_
  rw [hstrip, readSetting, if_pos ⟨rfl, rfl⟩, readCommandLine, hline,
    command_of_plain (counts decodes_executable).toReads (counts decodes_argument).toReads h.executable h.arguments]
  rfl

end

/-! ### The environment and the user -/

/-- A variable that is read as it is between quotes. -/
structure PlainVariable (variable_ : List Char × List Char) : Prop where
  name : validName variable_.1 = true
  value : validValue variable_.2 = true
  text : ∀ c ∈ assigned variable_, Kept (some '"') c
  percent : '%' ∉ assigned variable_
  line : '\n' ∉ assigned variable_

theorem assigned_of_readVariable {t : List Char} {variable_ : List Char × List Char} (h : readVariable t = some variable_) :
    t = assigned variable_ := (append_of_cut (Option.filter_eq_some_iff.1 h).1).1

theorem readVariable_iff {variable_ : List Char × List Char} :
    readVariable (assigned variable_) = some variable_ ↔ validName variable_.1 = true ∧ validValue variable_.2 = true := by
  rw [readVariable, Option.filter_eq_some_iff, assigned, cut_iff, Bool.and_eq_true_iff]
  refine ⟨fun h => h.2, fun h => ⟨fun hmem => ?_, h⟩⟩
  have hall := List.all_eq_true.1 (Bool.and_eq_true_iff.1 h.1).1 _ hmem
  cases hall

theorem exact_environment (variable_ : List Char × List Char) :
    Exact (lines ("Environment".toList ++ '=' :: ('"' :: (assigned variable_ ++ ['"'])))) [.environment [variable_]]
      (PlainVariable variable_) := by
  refine exact_line (by decide) (fun part key value h => (of_readSetting_environment h).1)
    (fun part key value hkey _ hshort hsetting => ?_)
  obtain ⟨-, words, hitems, hread⟩ := of_readSetting_environment hsetting
  obtain ⟨rfl, hall⟩ := (mapM_iff (fun _ _ h => assigned_of_readVariable h)).1 hread
  obtain ⟨m, s', -, hnext, -⟩ := items_cons hitems
  have hvalue := (Shortened.of_sublist (strip_sublist value)).trans (shortened_value hkey hshort)
  rw [List.filter_cons_of_pos (by decide), List.filter_append] at hvalue
  have hle : ((assigned variable_).filter (· ≠ '\n')).length ≤ (assigned variable_).length := List.length_filter_le _ _
  obtain ⟨hlen, hplain⟩ := (counts decodes_percent).plain_of_quoted (hvalue.kept ' ') hle (List.count_filter (by decide)) hnext
  have hline : '\n' ∉ assigned variable_ := notMem_of_filter (Nat.le_of_eq hlen.symm)
  obtain ⟨hname, hval⟩ := readVariable_iff.1 (hall variable_ List.mem_cons_self)
  refine ⟨?_, by simpa using hline⟩
  rcases hplain with ⟨hbare, hpercent⟩ | ⟨hkept, hpercent⟩
  · refine ⟨hname, hval, fun c hc => ?_, hpercent, hline⟩
    obtain ⟨-, hback, hnone⟩ := hbare.2.1 c hc
    exact ⟨fun heq => (hnone rfl).2.1 (Option.some.inj heq).symm, hback, nofun⟩
  · exact ⟨hname, hval, hkept, hpercent, hline⟩

theorem gives_environment {variable_ : List Char × List Char} (h : PlainVariable variable_) :
    Gives "Service".toList "Service".toList (lines ("Environment".toList ++ '=' :: ('"' :: (assigned variable_ ++ ['"']))))
      [.environment [variable_]] := by
  have hends : ends ('"' :: (assigned variable_ ++ ['"'])) = false := by
    rw [← List.cons_append, ends_concat]
    simp
  have hstrip : strip ('"' :: (assigned variable_ ++ ['"'])) = '"' :: (assigned variable_ ++ ['"']) := by
    refine strip_of_ends (fun c hc => ?_) (fun c hc => ?_)
    · rw [← Option.some.inj hc]
      rfl
    · rw [← List.cons_append, List.getLast?_concat] at hc
      rw [← Option.some.inj hc]
      rfl
  refine gives_line (by decide) (oneLine_of_notMem (by simpa using h.line) hends) ?_
  rw [hstrip, readSetting, if_neg (by decide), if_pos (by decide)]
  have hnext : nextWord false (doubled '%' false) (' ' :: '"' :: (assigned variable_ ++ ['"'])) = some (assigned variable_, []) :=
    (counts decodes_percent).inner (assigned variable_) [] ⟨h.text, h.percent⟩ nofun
  have hread : readVariable (assigned variable_) = some variable_ := readVariable_iff.2 ⟨h.name, h.value⟩
  rw [items, if_neg (by simp [blank]), hnext, Option.bind_some, items, if_pos (List.all_nil)]
  simp [hread]

/-- A name that is read as it is. -/
structure PlainUser (name : List Char) : Prop where
  ne_nil : name ≠ []
  percent : '%' ∉ name
  line : '\n' ∉ name
  strip : strip name = name
  ends : ends name = false

theorem exact_user (name : List Char) :
    Exact (lines ("User".toList ++ '=' :: name)) [.user name] (PlainUser name) := by
  refine exact_line (by decide) (fun part key value h => (of_readSetting_user h).1)
    (fun part key value hkey hends hshort hsetting => ?_)
  obtain ⟨-, hname, hne⟩ := of_readSetting_user hsetting
  obtain ⟨hle, -, hsame⟩ := doubled_drops (by decide) hname
  have hstrip := (strip_sublist value).length_le
  have hvalue := (shortened_value hkey hshort).length_le
  have hfilter : (name.filter (· ≠ '\n')).length ≤ name.length := List.length_filter_le _ _
  obtain ⟨hname', hpercent⟩ := hsame rfl (by omega)
  -- Nothing was left out of the line.
  have hvalue' : strip value = value := (strip_sublist value).eq_of_length (by omega)
  have hkey' : strip key = key := by
    have hlen := hshort.length_le
    have hlen' := (strip_sublist key).length_le
    rw [hkey] at hlen'
    simp only [List.length_append, List.length_cons] at hlen
    exact (strip_sublist key).eq_of_length (by rw [hkey]; omega)
  rw [hvalue'] at hname'
  rw [← hkey', hkey, ← hname', ends_setting (by decide)] at hends
  have hline : '\n' ∉ name := notMem_of_filter (by omega)
  exact ⟨⟨hne, hpercent, hline, by rw [hname', hvalue'], hends⟩, hline⟩

theorem gives_user {name : List Char} (h : PlainUser name) :
    Gives "Service".toList "Service".toList (lines ("User".toList ++ '=' :: name)) [.user name] := by
  refine gives_line (by decide) (oneLine_of_notMem h.line h.ends) ?_
  rw [h.strip, readSetting, if_neg (by decide), if_neg (by decide), if_pos (by decide), doubled_of_notMem h.percent]
  exact if_neg h.ne_nil

/-! ### The unit -/

theorem lines_unlines (texts : List String) :
    lines (unlines texts).toList = texts.flatMap (fun text => lines text.toList) ++ [[]] := by
  induction texts with
  | nil => rfl
  | cons text texts ih =>
    have hcons : (unlines (text :: texts)).toList = text.toList ++ '\n' :: (unlines texts).toList := by
      change (text ++ "\n" ++ unlines texts).toList = _
      simp
    rw [hcons, lines, List.splitOn_append_cons_self, List.flatMap_cons, List.append_assoc, ← ih]
    rfl

/-- The program and its arguments on one line; a program given none has a blank after it. -/
theorem exists_line (definition : ServiceDefinition) :
    ∃ line z, (quoted definition.executable ++ " " ++ join " " (definition.arguments.map quoted)).toList = line ++ z ∧
      ' ' :: line = wordOf definition.told.executable ++ definition.told.arguments.flatMap wordOf ∧ (z = [] ∨ z = [' ']) := by
  unfold ServiceDefinition.told
  dsimp only
  cases definition.arguments with
  | nil =>
    refine ⟨(quoted definition.executable).toList, [' '], by simp [join], ?_, .inr rfl⟩
    rw [word_quoted, List.map_nil, List.flatMap_nil, List.append_nil]
  | cons argument rest =>
    refine ⟨_, [], (List.append_nil _).symm, ?_, .inl rfl⟩
    rw [List.map_cons, String.toList_append, String.toList_append, toList_join, List.map_cons, List.flatMap_cons, List.flatMap_map,
      List.flatMap_map, ← word_quoted, ← word_quoted]
    simp [← word_quoted]

/-- The lines of a setting. -/
def setting (p : String × List Char) : List (List Char) := lines (p.1.toList ++ '=' :: p.2)

/-- What systemd reads of a definition as it is given. -/
structure Plain (definition : ServiceDefinition) : Prop where
  description : OneLine definition.description.toList
  command : PlainCommand definition.told.executable definition.told.arguments
  workingDirectory : OneLine definition.workingDirectory.toList
  identity : ∀ user ∈ definition.told.identity, PlainUser user
  environment : ∀ variable_ ∈ definition.told.environment, PlainVariable variable_

/-- What says how the service is run and restarted. -/
def runtime : List (String × List Char) :=
  [("RuntimeDirectory", runtimeDirectory.toList), ("RuntimeDirectoryMode", "0755".toList),
    ("RuntimeDirectoryPreserve", "yes".toList), ("Restart", "on-failure".toList),
    ("RestartPreventExitStatus", refused.toList)]

/-- The lines after the first, the command line being `text`. -/
def unitLines (definition : ServiceDefinition) (text : List Char) : List (List Char) :=
  [("Description", definition.description.toList), ("After", "network-online.target".toList)].flatMap setting ++
  (["Wants=network-online.target".toList, [], "[Service]".toList] ++
  ([("Type", "notify".toList)].flatMap setting ++
  (setting ("ExecStart", text) ++
  ([("WorkingDirectory", definition.workingDirectory.toList)].flatMap setting ++
  (definition.told.identity.toList.flatMap (fun user => setting ("User", user)) ++
  (definition.told.environment.flatMap (fun variable_ => setting ("Environment", '"' :: (assigned variable_ ++ ['"']))) ++
  (runtime.flatMap setting ++
  (["RestartSec=5".toList, [], "[Install]".toList] ++
  ["WantedBy=multi-user.target".toList, []]))))))))

theorem lines_start {start key : String} (text : String) (h : start.toList = key.toList ++ ['=']) :
    lines (start ++ text).toList = setting (key, text.toList) := by
  rw [String.toList_append, h, List.append_assoc]
  rfl

/-- The lines up to the working directory. -/
theorem lines_before (description executable directory : String) :
    ["[Unit]", "Description=" ++ description, "After=network-online.target", "Wants=network-online.target", "", "[Service]",
      "Type=notify", "ExecStart=" ++ executable, "WorkingDirectory=" ++ directory].flatMap (fun text => lines text.toList) =
    "[Unit]".toList :: (setting ("Description", description.toList) ++ (setting ("After", "network-online.target".toList) ++
      (["Wants=network-online.target".toList, [], "[Service]".toList] ++ (setting ("Type", "notify".toList) ++
      (setting ("ExecStart", executable.toList) ++ setting ("WorkingDirectory", directory.toList)))))) := by
  have hunit : lines "[Unit]".toList = ["[Unit]".toList] := by decide +kernel
  have hdescription : lines ("Description=" ++ description).toList = setting ("Description", _) :=
    lines_start description (by decide +kernel)
  have hafter : lines "After=network-online.target".toList = setting ("After", "network-online.target".toList) := by
    decide +kernel
  have hsection : lines "Wants=network-online.target".toList ++ (lines "".toList ++ lines "[Service]".toList) =
      ["Wants=network-online.target".toList, [], "[Service]".toList] := by decide +kernel
  have htype : lines "Type=notify".toList = setting ("Type", "notify".toList) := by decide +kernel
  have hexec : lines ("ExecStart=" ++ executable).toList = setting ("ExecStart", _) := lines_start executable (by decide +kernel)
  have hdirectory : lines ("WorkingDirectory=" ++ directory).toList = setting ("WorkingDirectory", _) :=
    lines_start directory (by decide +kernel)
  simp only [List.flatMap_cons, List.flatMap_nil, List.append_nil]
  rw [hunit, hdescription, hafter, htype, hexec, hdirectory, ← hsection]
  simp only [List.append_assoc, List.cons_append, List.nil_append]

/-- The lines after the environment, and the end of the last. -/
theorem lines_after :
    ["RuntimeDirectory=" ++ runtimeDirectory, "RuntimeDirectoryMode=0755", "RuntimeDirectoryPreserve=yes", "Restart=on-failure",
      "RestartPreventExitStatus=" ++ refused, "RestartSec=5", "", "[Install]", "WantedBy=multi-user.target"].flatMap
        (fun text => lines text.toList) ++ [[]] =
    runtime.flatMap setting ++
      (["RestartSec=5".toList, [], "[Install]".toList] ++ ["WantedBy=multi-user.target".toList, []]) := by
  decide +kernel

theorem lines_systemdUnit (definition : ServiceDefinition) {text : List Char}
    (htext : (quoted definition.executable ++ " " ++ join " " (definition.arguments.map quoted)).toList = text) :
    lines (systemdUnit definition).toList = "[Unit]".toList :: unitLines definition text := by
  subst htext
  have hidentity : definition.told.identity = definition.serviceIdentity.map String.toList := rfl
  have henvironment : (definition.environment.map fun variable_ =>
      "Environment=\"" ++ (variable_.1 ++ "=" ++ variable_.2) ++ "\"").flatMap (fun text => lines text.toList) =
        definition.told.environment.flatMap (fun variable_ => setting ("Environment", '"' :: (assigned variable_ ++ ['"']))) := by
    unfold ServiceDefinition.told
    rw [List.flatMap_map, List.flatMap_map]
    congr 1
    funext variable_
    simp [setting, assigned]
  rw [systemdUnit, lines_unlines, unitLines, List.flatMap_append, List.flatMap_append, List.flatMap_append, lines_before,
    henvironment, List.append_assoc, List.append_assoc, List.append_assoc, lines_after, hidentity]
  cases definition.serviceIdentity with
  | none =>
    simp only [Option.map_none, Option.toList_none, List.flatMap_cons, List.flatMap_nil, List.append_nil, List.append_assoc,
      List.cons_append, List.nil_append]
  | some user =>
    have huser : lines ("User=" ++ user).toList = setting ("User", _) := lines_start user (by decide +kernel)
    simp only [Option.map_some, Option.toList_some, huser, List.flatMap_cons, List.flatMap_nil, List.append_nil,
      List.append_assoc, List.cons_append, List.nil_append]

/-- Settings of a part of the unit that are given as they are. -/
theorem exact_directives (part : List Char) (ps : List (String × List Char)) (h : ∀ key ∈ ps.map Prod.fst, IsKey key.toList) :
    Exact (ps.flatMap setting) (ps.map fun p => .directive part p.1.toList (strip p.2)) (∀ p ∈ ps, OneLine p.2) :=
  exact_flatMap fun p hp => exact_directive (h p.1 (List.mem_map_of_mem hp)) part p.2

/-- A key whose value is given as it is. -/
def IsGiven (key : List Char) : Prop :=
  IsKey key ∧ key ≠ "ExecStart".toList ∧ key ≠ "Environment".toList ∧ key ≠ "User".toList

instance (key : List Char) : Decidable (IsGiven key) := instDecidableAnd

theorem readSetting_directive {key : List Char} (hkey : IsGiven key) (part value : List Char) :
    readSetting part key value = some (.directive part key value) := by
  obtain ⟨-, hexec, henvironment, huser⟩ := hkey
  rw [readSetting, if_neg (fun hand => hexec hand.2), if_neg (fun hand => henvironment hand.2),
    if_neg (fun hand => huser hand.2)]

theorem gives_directives (part : List Char) (ps : List (String × List Char)) (h : ∀ key ∈ ps.map Prod.fst, IsGiven key.toList)
    (hline : ∀ p ∈ ps, OneLine p.2) :
    Gives part part (ps.flatMap setting) (ps.map fun p => .directive part p.1.toList (strip p.2)) := by
  refine gives_flatMap fun p hp => ?_
  have hkey := List.mem_map_of_mem (f := Prod.fst) hp
  exact gives_line (h p.1 hkey).1 (hline p hp) (readSetting_directive (h p.1 hkey) part _)

/-- What separates a section from the next sets nothing. -/
theorem quiet_section (name : List Char) : ∀ q, q <:+ [[], '[' :: (name ++ [']'])] → ∀ (part : List Char) (rest : List (List Char)),
    ∃ part', readLines (some part) (logical none (q ++ rest)) = readLines (some part') (logical none rest) := by
  intro q hq part rest
  rcases List.suffix_cons_iff.1 hq with rfl | hq
  · exact ⟨name, readLines_section name _ rest⟩
  rcases List.suffix_cons_iff.1 hq with rfl | hq
  · exact ⟨name, readLines_section name _ rest⟩
  · exact ⟨part, by rw [List.suffix_nil.1 hq, List.nil_append]⟩

theorem quiet_end : ∀ q, q <:+ [([] : List Char)] → ∀ (part : List Char) (rest : List (List Char)),
    ∃ part', readLines (some part) (logical none (q ++ rest)) = readLines (some part') (logical none rest) := by
  intro q hq part rest
  rcases List.suffix_cons_iff.1 hq with rfl | hq
  · exact ⟨part, rfl⟩
  · exact ⟨part, by rw [List.suffix_nil.1 hq, List.nil_append]⟩

theorem gives_section (part key text : List Char) {v : Setting} (hkey : IsKey key) (hends : ends text = false)
    (hv : readSetting part key (strip text) = some v) (name : List Char) :
    Gives part name [key ++ '=' :: text, [], '[' :: (name ++ [']'])] [v] := by
  intro rest
  rw [List.cons_append, readLines_setting hkey hends, hv, Option.bind_some]
  exact congrArg _ (readLines_section name _ rest)

section
variable {definition : ServiceDefinition} {line z : List Char}

theorem exact_unit (hline : ' ' :: line = wordOf definition.told.executable ++ definition.told.arguments.flatMap wordOf)
    (hz : z = [] ∨ z = [' ']) : Exact (unitLines definition (line ++ z)) (settings definition) (Plain definition) := by
  have hdescription := exact_directives "Unit".toList
    [("Description", definition.description.toList), ("After", "network-online.target".toList)]
    (show ∀ key ∈ ["Description", "After"], IsKey key.toList by decide)
  have hwants := exact_fixed "Wants".toList "network-online.target".toList
    (.directive "Unit".toList "Wants".toList "network-online.target".toList) (by decide) (by decide) (quiet_section "Service".toList)
  have htype := exact_directives "Service".toList [("Type", "notify".toList)] (by decide)
  have hexec := exact_exec hline hz
  have hdirectory := exact_directives "Service".toList [("WorkingDirectory", definition.workingDirectory.toList)]
    (show ∀ key ∈ ["WorkingDirectory"], IsKey key.toList by decide)
  have huser : Exact _ _ _ := exact_flatMap (l := definition.told.identity.toList) fun user _ => exact_user user
  have henvironment := exact_flatMap (l := definition.told.environment) fun variable_ _ => exact_environment variable_
  have hruntime := exact_directives "Service".toList runtime (by decide)
  have hrestart := exact_fixed "RestartSec".toList "5".toList (.directive "Service".toList "RestartSec".toList "5".toList)
    (by decide) (by decide) (quiet_section "Install".toList)
  have hinstall := exact_fixed "WantedBy".toList "multi-user.target".toList
    (.directive "Install".toList "WantedBy".toList "multi-user.target".toList) (by decide) (by decide) quiet_end
  have hall := hdescription.append (hwants.append (htype.append (hexec.append (hdirectory.append (huser.append
    (henvironment.append (hruntime.append (hrestart.append hinstall))))))))
  refine hall.mono ?_
  rintro ⟨hdescription, -, -, hexec, hdirectory, huser, henvironment, -⟩
  exact ⟨hdescription _ List.mem_cons_self, hexec, hdirectory _ List.mem_cons_self, by simpa using huser, henvironment⟩

theorem gives_unit (hline : ' ' :: line = wordOf definition.told.executable ++ definition.told.arguments.flatMap wordOf)
    (hz : z = [] ∨ z = [' ']) (h : Plain definition) :
    Gives "Unit".toList "Install".toList (unitLines definition (line ++ z)) (settings definition) := by
  have hdescription := gives_directives "Unit".toList
    [("Description", definition.description.toList), ("After", "network-online.target".toList)]
    (show ∀ key ∈ ["Description", "After"], IsGiven key.toList by decide)
    (List.forall_mem_cons.2 ⟨h.description, by decide⟩)
  have hwants := gives_section "Unit".toList "Wants".toList "network-online.target".toList
    (by decide) (by decide) (readSetting_directive (by decide) _ _) "Service".toList
  have htype := gives_directives "Service".toList [("Type", "notify".toList)] (by decide) (by decide)
  have hexec := gives_exec hline hz h.command
  have hdirectory := gives_directives "Service".toList [("WorkingDirectory", definition.workingDirectory.toList)]
    (show ∀ key ∈ ["WorkingDirectory"], IsGiven key.toList by decide) (List.forall_mem_singleton.2 h.workingDirectory)
  have huser : Gives _ _ _ _ := gives_flatMap (l := definition.told.identity.toList) fun user hin =>
    gives_user (h.identity user (by simpa using hin))
  have henvironment := gives_flatMap (l := definition.told.environment) fun variable_ hin =>
    gives_environment (h.environment variable_ hin)
  have hruntime := gives_directives "Service".toList runtime (by decide) (by decide)
  have hrestart := gives_section "Service".toList "RestartSec".toList "5".toList
    (by decide) (by decide) (readSetting_directive (by decide) _ _) "Install".toList
  have hinstall : Gives "Install".toList "Install".toList ["WantedBy=multi-user.target".toList, []]
      [.directive "Install".toList "WantedBy".toList "multi-user.target".toList] := by
    intro rest
    have hsetting : readLines _ (logical none (("WantedBy".toList ++ '=' :: "multi-user.target".toList) :: [] :: rest)) = _ :=
      readLines_setting (by decide) (by decide) "Install".toList ([] :: rest)
    exact hsetting.trans rfl
  exact hdescription.append (hwants.append (htype.append (hexec.append (hdirectory.append (huser.append
    (henvironment.append (hruntime.append (hrestart.append hinstall))))))))

end

/-- A unit made from a definition is read back just where the definition is plain. -/
theorem readUnit_iff (definition : ServiceDefinition) :
    readUnit (systemdUnit definition).toList = some (settings definition) ↔ Plain definition := by
  obtain ⟨line, z, htext, hline, hz⟩ := exists_line definition
  rw [readUnit, lines_systemdUnit definition htext]
  change readLines none (logical none (('[' :: ("Unit".toList ++ [']'])) :: _)) = _ ↔ _
  rw [readLines_section]
  constructor
  · intro h
    rw [← List.append_nil (unitLines _ _), ← List.append_nil (settings _)] at h
    rcases exact_unit hline hz _ _ _ _ (List.suffix_refl _) h with ⟨-, hplain, -⟩ | ⟨-, s', hs', hne, -⟩
    · exact hplain
    · exact absurd (List.suffix_nil.1 hs') hne
  · intro h
    rw [← List.append_nil (unitLines _ _), gives_unit hline hz h]
    exact congrArg some (List.append_nil _)

end Registration.Systemd
