import XmipRuntime.Library.Framed
import XmipRuntime.Sequence.Points

/-!
# The names of sequences and of correlations

A sequence is kept by the name of its cluster, its point, its Correlation and its key, with slashes between them
(`Point::queue`, `src/sequence.rs`), and an Instance by that of its Work Process, its Correlation and its key
(`correlation`, `src/work_step/turning.rs`).  A key's values are each written with their length before them, so that two
keys are never written alike; the names before them are written as they are.  A name that holds a slash can then be read
as two, and the slash of a value as the end of a name: this module says exactly which names are no other's.
-/

namespace Sequence

open Library WorkStep

/-! ### Names -/

/-- A key's values written out in full. -/
def keyText (values : List String) : String := values.foldr (fun v text => framed v ++ text) ""

/-- Two texts with a slash between them. -/
def slash (a b : String) : String := a ++ "/" ++ b

/-- What a sequence is named by. -/
structure Named where
  kind : PointKind
  name : String
  set : String
  values : List String
  deriving DecidableEq

/-- The name of the sequence in the cluster at `cluster`. -/
def Named.sequence (cluster : String) (t : Named) : String :=
  cluster ++ "/sequence/" ++ t.kind.word ++ "/" ++ t.name ++ "/" ++ t.set ++ "/" ++ keyText t.values

/-- What a correlation is named by. -/
structure Correlated where
  workProcess : String
  set : String
  values : List String
  deriving DecidableEq

/-- The name of the correlation in the cluster at `cluster`. -/
def Correlated.text (cluster : String) (r : Correlated) : String :=
  cluster ++ "/work-process/" ++ r.workProcess ++ "/correlation/" ++ r.set ++ "/" ++ keyText r.values

/-- A text without a slash. -/
def Plain (a : String) : Prop := '/' ∉ a.toList

instance (a : String) : Decidable (Plain a) := inferInstanceAs (Decidable (¬ _))

/-- No slash in either name, nor one in the key that another key follows. -/
structure Named.Clear (t : Named) : Prop where
  name : Plain t.name
  set : Plain t.set
  key : ∀ a values, keyText t.values ≠ slash a (keyText values)

/-- `correlation` is no part of the Work Process's name but the first, nor of the set's but the last; and no slash in the
set's name or in the key, but the one before the key, is followed by a key. -/
structure Correlated.Clear (r : Correlated) : Prop where
  processEnd : ∀ a, r.workProcess ≠ slash a "correlation"
  processIn : ∀ a b, r.workProcess ≠ slash a (slash "correlation" b)
  setStart : ∀ b, r.set ≠ slash "correlation" b
  setIn : ∀ a b, r.set ≠ slash a (slash "correlation" b)
  set : ∀ a b values, r.set = slash a b → slash b (keyText r.values) ≠ keyText values
  key : ∀ a values, keyText r.values ≠ slash a (keyText values)

/-! ### What the source names -/

/-- The text of a key is that of the values its words read. -/
theorem textOf_eq_keyText {value : KeyWord → Option String} {keys : List KeyWord} {key : String}
    (h : textOf value keys = some key) : key = keyText (keys.filterMap value) := by
  induction keys generalizing key with
  | nil =>
    cases h
    rfl
  | cons word keys ih =>
    simp only [textOf] at h
    split at h
    · rename_i v rest hv hrest
      rw [List.filterMap_cons_some hv, ← Option.some.inj h, ih hrest]
      rfl
    · cases h

/-- A place is taken under the name of its point, its set and the values its key reads. -/
theorem place_name {c : Cluster} {p : Point} {member : Nat} {j : Journey} {promoted : Promoted} {h : Hold}
    (hplace : p.place c member j promoted = .ok h) :
    h.name = Named.sequence c.at_ ⟨p.kind, p.name, p.set.name, p.set.keys.filterMap (j.value promoted (p.at_ j))⟩ ∧
      h.queue = c.named h.name := by
  unfold Point.place at hplace
  obtain ⟨key, hkey, rfl⟩ := map_answers_iff.1 hplace
  have htext := textOf_eq_keyText (Cluster.text_ok_iff.1 hkey)
  rw [htext]
  exact ⟨rfl, rfl⟩

/-- An Instance is found by the name of its Work Process, its set and the values of the key. -/
theorem correlation_name {σ μ β : Type} (c : Setup σ μ β) (running : Running σ) {number : Nat} {set : ResolvedSet}
    {m : WorkStep.Message} {promoted : List (String × String)} {key : String} (hset : running.sets[number]? = some set)
    (hkey : set.text m promoted running.name = some key) :
    c.correlation running (number, key) = c.named (Correlated.text c.cluster
      ⟨running.name, set.name, set.keys.filterMap (m.value promoted running.name)⟩) := by
  have htext := textOf_eq_keyText hkey
  unfold Setup.correlation Correlated.text
  rw [hset, htext]
  rfl

/-! ### Slashes -/

theorem slash_assoc (a b c : String) : slash (slash a b) c = slash a (slash b c) := by
  simp only [slash, String.append_assoc]

theorem toList_slash (a b : String) : (slash a b).toList = a.toList ++ '/' :: b.toList := by
  simp [slash]

theorem not_plain_slash (a b : String) : ¬ Plain (slash a b) := by
  simp [Plain, toList_slash]

/-- A text with a slash in it is two with a slash between them. -/
theorem exists_slash {a : String} (h : ¬ Plain a) : ∃ b c, a = slash b c := by
  obtain ⟨x, y, hxy⟩ := List.append_of_mem (not_not.1 h)
  refine ⟨String.ofList x, String.ofList y, ?_⟩
  rw [← String.toList_inj, toList_slash]
  simpa using hxy

/-- A text cut at two slashes. -/
theorem slash_cases {a b x y : String} (h : slash a x = slash b y) :
    (a = b ∧ x = y) ∨ (∃ z, b = slash a z ∧ x = slash z y) ∨ ∃ z, a = slash b z ∧ y = slash z x := by
  rw [← String.toList_inj, toList_slash, toList_slash] at h
  rcases cut_cases h with ⟨hab, hxy⟩ | ⟨z, hb, hx⟩ | ⟨z, ha, hy⟩
  · exact .inl ⟨String.toList_inj.1 hab, String.toList_inj.1 hxy⟩
  · refine .inr (.inl ⟨String.ofList z, ?_, ?_⟩)
    · rw [← String.toList_inj, toList_slash, hb, String.toList_ofList]
    · rw [← String.toList_inj, toList_slash, hx, String.toList_ofList]
  · refine .inr (.inr ⟨String.ofList z, ?_, ?_⟩)
    · rw [← String.toList_inj, toList_slash, ha, String.toList_ofList]
    · rw [← String.toList_inj, toList_slash, hy, String.toList_ofList]

/-- The first of its slashes is behind what has none. -/
theorem slash_cases_of_plain {a b x y : String} (ha : Plain a) (h : slash a x = slash b y) :
    (a = b ∧ x = y) ∨ ∃ z, b = slash a z ∧ x = slash z y := by
  rcases slash_cases h with heq | hbehind | ⟨z, rfl, -⟩
  · exact .inl heq
  · exact .inr hbehind
  · exact absurd ha (not_plain_slash b z)

/-- Where neither has a slash, both end at the first. -/
theorem slash_inj_of_plain {a b x y : String} (ha : Plain a) (hb : Plain b) (h : slash a x = slash b y) :
    a = b ∧ x = y := by
  rcases slash_cases_of_plain ha h with heq | ⟨z, rfl, -⟩
  · exact heq
  · exact absurd hb (not_plain_slash a z)

/-- A text is not itself with more behind it. -/
theorem slash_ne_left (a b : String) : slash a b ≠ a := by
  intro h
  have := congrArg (fun s => s.toList.length) h
  simp only [toList_slash, List.length_append, List.length_cons] at this
  omega

/-! ### Keys -/

theorem keyText_inj {values values' : List String} (h : keyText values = keyText values') : values = values' := by
  induction values generalizing values' with
  | nil =>
    cases values' with
    | nil => rfl
    | cons w values' =>
      have := congrArg String.toList h
      simp [keyText, framed] at this
  | cons v values ih =>
    cases values' with
    | nil =>
      have := congrArg String.toList h
      simp [keyText, framed] at this
    | cons w values' =>
      obtain ⟨rfl, hrest⟩ := framed_inj (h : framed v ++ keyText values = framed w ++ keyText values')
      rw [ih hrest]

/-! ### Sequences -/

theorem plain_word (kind : PointKind) : Plain kind.word := by
  cases kind <;> decide

theorem word_inj {kind kind' : PointKind} (h : kind.word = kind'.word) : kind = kind' := by
  cases kind <;> cases kind' <;> first | rfl | exact absurd h (by decide)

theorem Named.sequence_eq (cluster : String) (t : Named) :
    t.sequence cluster =
      cluster ++ "/sequence/" ++ slash t.kind.word (slash t.name (slash t.set (keyText t.values))) := by
  simp only [Named.sequence, slash, String.append_assoc]

/-- Sequences of one name are of one kind, and go on alike. -/
theorem Named.sequence_eq_iff {cluster : String} {t t' : Named} :
    t.sequence cluster = t'.sequence cluster ↔ t.kind = t'.kind ∧
      slash t.name (slash t.set (keyText t.values)) = slash t'.name (slash t'.set (keyText t'.values)) := by
  rw [Named.sequence_eq, Named.sequence_eq, String.append_right_inj]
  constructor
  · intro h
    rcases slash_cases_of_plain (plain_word t.kind) h with ⟨hkind, hrest⟩ | ⟨z, hword, -⟩
    · exact ⟨word_inj hkind, hrest⟩
    · exact absurd (plain_word t'.kind) (hword ▸ not_plain_slash _ z)
  · rintro ⟨hkind, hrest⟩
    rw [hkind, hrest]

/-- A clear name is no other's: another cut of it would leave a key behind a slash of this one's key. -/
theorem Named.Clear.only {cluster : String} {t t' : Named} (h : t.Clear) (heq : t.sequence cluster = t'.sequence cluster) :
    t = t' := by
  obtain ⟨hkind, hrest⟩ := Named.sequence_eq_iff.1 heq
  have hbehind : ∀ z, keyText t.values ≠ slash z (slash t'.set (keyText t'.values)) := by
    intro z hkey
    rw [← slash_assoc] at hkey
    exact h.key _ _ hkey
  rcases slash_cases_of_plain h.name hrest with ⟨hname, hset⟩ | ⟨y, -, hset⟩
  · rcases slash_cases_of_plain h.set hset with ⟨hset, hkey⟩ | ⟨z, -, hkey⟩
    · cases t
      cases t'
      simp only [Named.mk.injEq]
      exact ⟨hkind, hname, hset, keyText_inj hkey⟩
    · exact absurd hkey (h.key z _)
  · rcases slash_cases_of_plain h.set hset with ⟨-, hkey⟩ | ⟨z, -, hkey⟩
    · exact absurd hkey (h.key _ _)
    · exact absurd hkey (hbehind z)

/-- A name that is not clear is read as another's. -/
theorem Named.exists_other {t : Named} (h : ¬ t.Clear) (cluster : String) :
    ∃ t', t' ≠ t ∧ t.sequence cluster = t'.sequence cluster := by
  by_cases hname : Plain t.name
  · by_cases hset : Plain t.set
    · have hkey : ∃ a values, keyText t.values = slash a (keyText values) := by
        by_contra hnot
        push Not at hnot
        exact h ⟨hname, hset, hnot⟩
      obtain ⟨a, values, hkey⟩ := hkey
      refine ⟨⟨t.kind, t.name, slash t.set a, values⟩, ?_, Named.sequence_eq_iff.2 ⟨rfl, ?_⟩⟩
      · exact fun heq => slash_ne_left t.set a (congrArg Named.set heq)
      · rw [hkey, slash_assoc]
    · obtain ⟨a, b, hab⟩ := exists_slash hset
      refine ⟨⟨t.kind, slash t.name a, b, t.values⟩, ?_, Named.sequence_eq_iff.2 ⟨rfl, ?_⟩⟩
      · exact fun heq => slash_ne_left t.name a (congrArg Named.name heq)
      · rw [hab, slash_assoc, slash_assoc]
  · obtain ⟨a, b, hab⟩ := exists_slash hname
    refine ⟨⟨t.kind, a, slash b t.set, t.values⟩, ?_, Named.sequence_eq_iff.2 ⟨rfl, ?_⟩⟩
    · exact fun heq => slash_ne_left a b (hab ▸ (congrArg Named.name heq).symm)
    · rw [hab, slash_assoc, slash_assoc]

/-! ### Correlations -/

theorem Correlated.text_eq_iff {cluster : String} {r r' : Correlated} :
    r.text cluster = r'.text cluster ↔
      slash r.workProcess (slash "correlation" (slash r.set (keyText r.values))) =
        slash r'.workProcess (slash "correlation" (slash r'.set (keyText r'.values))) := by
  have htext : ∀ r : Correlated, r.text cluster = cluster ++ "/work-process/" ++
      slash r.workProcess (slash "correlation" (slash r.set (keyText r.values))) := by
    intro r
    have hword : "/correlation/" = "/" ++ ("correlation" ++ "/") := by decide
    simp only [Correlated.text, slash, hword, String.append_assoc]
  rw [htext, htext, String.append_right_inj]

theorem plain_correlation : Plain "correlation" := by decide

/-- A clear name is no other's: `correlation` stands in it once where a set and a key may follow. -/
theorem Correlated.Clear.only {cluster : String} {r r' : Correlated} (h : r.Clear)
    (heq : r.text cluster = r'.text cluster) : r = r' := by
  rw [Correlated.text_eq_iff] at heq
  -- No cut of the set and the key leaves `correlation`, a set and a key behind it.
  have hset : ∀ z, slash r.set (keyText r.values) ≠
      slash z (slash "correlation" (slash r'.set (keyText r'.values))) := by
    intro z hz
    rcases slash_cases hz with ⟨-, hkey⟩ | ⟨y, -, hkey⟩ | ⟨y, hy, hkey⟩
    · rw [← slash_assoc] at hkey
      exact h.key _ _ hkey
    · rw [← slash_assoc, ← slash_assoc] at hkey
      exact h.key _ _ hkey
    · rcases slash_cases_of_plain plain_correlation hkey with ⟨-, hkey⟩ | ⟨x, rfl, -⟩
      · exact h.key _ _ hkey.symm
      · exact h.setIn z x hy
  have hfront : slash r.set (keyText r.values) ≠ slash "correlation" (slash r'.set (keyText r'.values)) := by
    intro hfront
    rcases slash_cases_of_plain plain_correlation hfront.symm with ⟨-, hkey⟩ | ⟨x, hx, -⟩
    · exact h.key _ _ hkey.symm
    · exact h.setStart x hx
  rcases slash_cases heq with ⟨hprocess, hrest⟩ | ⟨z, -, hrest⟩ | ⟨z, hz, hrest⟩
  · obtain ⟨-, hrest⟩ | ⟨x, hx, -⟩ := slash_cases_of_plain plain_correlation hrest
    · rcases slash_cases hrest with ⟨hset, hkey⟩ | ⟨y, -, hkey⟩ | ⟨y, hy, hkey⟩
      · cases r
        cases r'
        simp only [Correlated.mk.injEq]
        exact ⟨hprocess, hset, keyText_inj hkey⟩
      · exact absurd hkey (h.key y _)
      · exact absurd hkey.symm (h.set _ y _ hy)
    · exact absurd plain_correlation (hx ▸ not_plain_slash _ x)
  · rcases slash_cases_of_plain plain_correlation hrest with ⟨-, hrest⟩ | ⟨x, -, hrest⟩
    · exact absurd hrest hfront
    · exact absurd hrest (hset x)
  · rcases slash_cases_of_plain plain_correlation hrest with ⟨rfl, -⟩ | ⟨x, rfl, -⟩
    · exact absurd hz (h.processEnd _)
    · exact absurd hz (h.processIn _ x)

/-- A name that is not clear is read as another's. -/
theorem Correlated.exists_other {r : Correlated} (h : ¬ r.Clear) (cluster : String) :
    ∃ r', r' ≠ r ∧ r.text cluster = r'.text cluster := by
  have hlonger : ∀ {r' : Correlated} {z : String}, r.workProcess = slash r'.workProcess z → r' ≠ r := by
    intro r' z hz heq
    exact slash_ne_left _ z (heq ▸ hz.symm)
  have hshorter : ∀ {r' : Correlated} {z : String}, r'.workProcess = slash r.workProcess z → r' ≠ r := by
    intro r' z hz heq
    exact slash_ne_left _ z (heq ▸ hz).symm
  by_contra hnone
  push Not at hnone
  refine h ⟨?_, ?_, ?_, ?_, ?_, ?_⟩
  · intro a ha
    refine hnone ⟨a, slash "correlation" r.set, r.values⟩ (hlonger ha) (Correlated.text_eq_iff.2 ?_)
    simp only [ha, slash_assoc]
  · intro a b hab
    refine hnone ⟨a, slash b (slash "correlation" r.set), r.values⟩ (hlonger hab) (Correlated.text_eq_iff.2 ?_)
    simp only [hab, slash_assoc]
  · intro b hb
    refine hnone ⟨slash r.workProcess "correlation", b, r.values⟩ (hshorter rfl) (Correlated.text_eq_iff.2 ?_)
    simp only [hb, slash_assoc]
  · intro a b hab
    refine hnone ⟨slash r.workProcess (slash "correlation" a), b, r.values⟩ (hshorter rfl) (Correlated.text_eq_iff.2 ?_)
    simp only [hab, slash_assoc]
  · intro a b values hab hkey
    refine hnone ⟨r.workProcess, a, values⟩ ?_ (Correlated.text_eq_iff.2 ?_)
    · exact fun heq => slash_ne_left a b (hab ▸ (congrArg Correlated.set heq).symm)
    · simp only [hab, slash_assoc, hkey]
  · intro a values hkey
    refine hnone ⟨r.workProcess, slash r.set a, values⟩ ?_ (Correlated.text_eq_iff.2 ?_)
    · exact fun heq => slash_ne_left r.set a (congrArg Correlated.set heq)
    · simp only [hkey, slash_assoc]

/-! ### Names without a slash -/

theorem Named.sequence_inj_of_plain {cluster : String} {t t' : Named} (hname : Plain t.name) (hset : Plain t.set)
    (hname' : Plain t'.name) (hset' : Plain t'.set) (h : t.sequence cluster = t'.sequence cluster) : t = t' := by
  obtain ⟨hkind, hrest⟩ := Named.sequence_eq_iff.1 h
  obtain ⟨heq, hrest⟩ := slash_inj_of_plain hname hname' hrest
  obtain ⟨heq', hkey⟩ := slash_inj_of_plain hset hset' hrest
  cases t
  cases t'
  simp only [Named.mk.injEq]
  exact ⟨hkind, heq, heq', keyText_inj hkey⟩

theorem Correlated.text_inj_of_plain {cluster : String} {r r' : Correlated} (hprocess : Plain r.workProcess)
    (hset : Plain r.set) (hprocess' : Plain r'.workProcess) (hset' : Plain r'.set)
    (h : r.text cluster = r'.text cluster) : r = r' := by
  obtain ⟨heq, hrest⟩ := slash_inj_of_plain hprocess hprocess' (Correlated.text_eq_iff.1 h)
  obtain ⟨-, hrest⟩ := slash_inj_of_plain plain_correlation plain_correlation hrest
  obtain ⟨heq', hkey⟩ := slash_inj_of_plain hset hset' hrest
  cases r
  cases r'
  simp only [Correlated.mk.injEq]
  exact ⟨heq, heq', keyText_inj hkey⟩

/-- A sequence's name, and a correlation's, is no other's exactly where it is clear; and where no name holds a slash, no
two are the same, whatever the keys hold. -/
theorem names_told_apart_iff (cluster : String) :
    (∀ t : Named, (∀ t', t' ≠ t → t.sequence cluster ≠ t'.sequence cluster) ↔ t.Clear) ∧
      (∀ r : Correlated, (∀ r', r' ≠ r → r.text cluster ≠ r'.text cluster) ↔ r.Clear) ∧
      (∀ t t' : Named, Plain t.name ∧ Plain t.set → Plain t'.name ∧ Plain t'.set → t ≠ t' →
        t.sequence cluster ≠ t'.sequence cluster) ∧
      ∀ r r' : Correlated, Plain r.workProcess ∧ Plain r.set → Plain r'.workProcess ∧ Plain r'.set → r ≠ r' →
        r.text cluster ≠ r'.text cluster := by
  refine ⟨?_, ?_, ?_, ?_⟩
  · intro t
    constructor
    · intro honly
      by_contra hclear
      obtain ⟨t', hne, heq⟩ := Named.exists_other hclear cluster
      exact honly t' hne heq
    · exact fun hclear t' hne heq => hne (hclear.only heq).symm
  · intro r
    constructor
    · intro honly
      by_contra hclear
      obtain ⟨r', hne, heq⟩ := Correlated.exists_other hclear cluster
      exact honly r' hne heq
    · exact fun hclear r' hne heq => hne (hclear.only heq).symm
  · exact fun t t' h h' hne heq => hne (Named.sequence_inj_of_plain h.1 h.2 h'.1 h'.2 heq)
  · exact fun r r' h h' hne heq => hne (Correlated.text_inj_of_plain h.1 h.2 h'.1 h'.2 heq)

/-- A slash in a name: two Send Ports' sequences of one name, and two Work Processes' correlations; and a slash in a
value, read as the end of another set's name. -/
theorem names_not_told_apart :
    ((⟨.sendPort, "a/b", "s", ["1"]⟩ : Named) ≠ ⟨.sendPort, "a", "b/s", ["1"]⟩ ∧
        (⟨.sendPort, "a/b", "s", ["1"]⟩ : Named).sequence "c" = (⟨.sendPort, "a", "b/s", ["1"]⟩ : Named).sequence "c") ∧
      ((⟨"a", "b/correlation/s", ["1"]⟩ : Correlated) ≠ ⟨"a/correlation/b", "s", ["1"]⟩ ∧
        (⟨"a", "b/correlation/s", ["1"]⟩ : Correlated).text "c" = (⟨"a/correlation/b", "s", ["1"]⟩ : Correlated).text "c") ∧
      (⟨.sendPort, "p", "s", ["q/1:z"]⟩ : Named) ≠ ⟨.sendPort, "p", "s/5:q", ["z"]⟩ ∧
        (⟨.sendPort, "p", "s", ["q/1:z"]⟩ : Named).sequence "c" = (⟨.sendPort, "p", "s/5:q", ["z"]⟩ : Named).sequence "c" := by
  refine ⟨⟨by decide, by decide +kernel⟩, ⟨by decide, by decide +kernel⟩, by decide, by decide +kernel⟩

end Sequence
