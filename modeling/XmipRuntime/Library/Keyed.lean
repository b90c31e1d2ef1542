import Mathlib.Data.List.Induction
import Mathlib.Data.List.Perm.Basic
import Mathlib.Order.Lattice

/-!
# Records kept in the order of their keys

A list of records, one for each key and in the keys' order: the ordered map of a program, read through its values.  What is
entered changes the record of its key, or is put in its place where there is none (`entered`).  The key facts: the keys stay
in order (`sorted_entered`), what a record is once items are entered one after the other is its own items' doing alone
(`mem_gathered_iff`), and each item is in one record (`perm_gathered`).
-/

namespace Library

variable {κ ρ α : Type} [LinearOrder κ] {key : ρ → κ}

/-- The record of `fresh`'s key changed; `fresh` changed, in its place, where there is none. -/
def entered (key : ρ → κ) (change : ρ → ρ) (fresh : ρ) : List ρ → List ρ
  | [] => [change fresh]
  | r :: rs =>
    if key fresh < key r then change fresh :: r :: rs
    else if key r = key fresh then change r :: rs
    else r :: entered key change fresh rs

/-- One record for each key, in the keys' order. -/
def Keyed (key : ρ → κ) (rs : List ρ) : Prop := rs.Pairwise fun a b => key a < key b

variable {change : ρ → ρ} {fresh r : ρ} {rs : List ρ}

theorem key_of_mem_entered (hkey : ∀ r, key (change r) = key r) (h : r ∈ entered key change fresh rs) :
    key r = key fresh ∨ r ∈ rs := by
  induction rs with
  | nil =>
    rw [entered, List.mem_singleton] at h
    rw [h, hkey]
    exact .inl rfl
  | cons a rs ih =>
    unfold entered at h
    split at h
    · rcases List.mem_cons.1 h with rfl | h
      · exact .inl (hkey _)
      · exact .inr h
    · split at h
      · rename_i heq
        rcases List.mem_cons.1 h with rfl | h
        · exact .inl ((hkey _).trans heq)
        · exact .inr (List.mem_cons_of_mem _ h)
      · rcases List.mem_cons.1 h with rfl | h
        · exact .inr List.mem_cons_self
        · exact (ih h).imp_right (List.mem_cons_of_mem _)

/-- The keys stay in order. -/
theorem sorted_entered (hkey : ∀ r, key (change r) = key r) (h : Keyed key rs) :
    Keyed key (entered key change fresh rs) := by
  unfold Keyed at h ⊢
  induction rs with
  | nil => exact List.pairwise_singleton ..
  | cons a rs ih =>
    obtain ⟨ha, hrs⟩ := List.pairwise_cons.1 h
    unfold entered
    split
    · rename_i hlt
      refine List.pairwise_cons.2 ⟨fun b hb => ?_, h⟩
      rw [hkey]
      rcases List.mem_cons.1 hb with rfl | hb
      · exact hlt
      · exact lt_trans hlt (ha b hb)
    · rename_i hlt
      split
      · refine List.pairwise_cons.2 ⟨fun b hb => ?_, hrs⟩
        rw [hkey]
        exact ha b hb
      · rename_i hne
        refine List.pairwise_cons.2 ⟨fun b hb => ?_, ih hrs⟩
        rcases key_of_mem_entered hkey hb with heq | hb
        · rw [heq]
          exact lt_of_le_of_ne (not_lt.1 hlt) hne
        · exact ha b hb

/-- A record of another key is left as it is. -/
theorem mem_entered_iff_of_ne (hkey : ∀ r, key (change r) = key r) (hne : key r ≠ key fresh) :
    r ∈ entered key change fresh rs ↔ r ∈ rs := by
  refine ⟨fun h => (key_of_mem_entered hkey h).resolve_left hne, fun h => ?_⟩
  induction rs with
  | nil => cases h
  | cons a rs ih =>
    unfold entered
    split
    · exact List.mem_cons_of_mem _ h
    · split
      · rename_i heq
        rcases List.mem_cons.1 h with rfl | h
        · exact absurd heq hne
        · exact List.mem_cons_of_mem _ h
      · rcases List.mem_cons.1 h with rfl | h
        · exact List.mem_cons_self
        · exact List.mem_cons_of_mem _ (ih h)

/-- The record of the key entered is what was there, changed. -/
theorem mem_entered_iff_of_eq (h : Keyed key rs) (heq : key r = key fresh) :
    r ∈ entered key change fresh rs ↔
      (∃ a ∈ rs, key a = key fresh ∧ r = change a) ∨ ((∀ a ∈ rs, key a ≠ key fresh) ∧ r = change fresh) := by
  induction rs with
  | nil => simp [entered]
  | cons a rs ih =>
    obtain ⟨ha, hrs⟩ := List.pairwise_cons.1 h
    unfold entered
    split
    · rename_i hlt
      have hnone : ∀ b ∈ a :: rs, key b ≠ key fresh := by
        intro b hb
        rcases List.mem_cons.1 hb with rfl | hb
        · exact ne_of_gt hlt
        · exact ne_of_gt (lt_trans hlt (ha b hb))
      constructor
      · intro hmem
        rcases List.mem_cons.1 hmem with rfl | hmem
        · exact .inr ⟨hnone, rfl⟩
        · exact absurd heq (hnone r hmem)
      · rintro (⟨b, hb, hbkey, -⟩ | ⟨-, rfl⟩)
        · exact absurd hbkey (hnone b hb)
        · exact List.mem_cons_self
    · split
      · rename_i hakey
        constructor
        · intro hmem
          rcases List.mem_cons.1 hmem with rfl | hmem
          · exact .inl ⟨a, List.mem_cons_self, hakey, rfl⟩
          · exact absurd ((hakey.trans heq.symm).symm ▸ ha r hmem) (lt_irrefl _)
        · rintro (⟨b, hb, hbkey, rfl⟩ | ⟨hnone, -⟩)
          · rcases List.mem_cons.1 hb with rfl | hb
            · exact List.mem_cons_self
            · exact absurd ((hakey.trans hbkey.symm) ▸ ha b hb) (lt_irrefl _)
          · exact absurd hakey (hnone a List.mem_cons_self)
      · rename_i hakey
        rw [List.mem_cons, ih hrs]
        constructor
        · rintro (rfl | ⟨b, hb, hbkey, hr⟩ | ⟨hnone, hr⟩)
          · exact absurd heq hakey
          · exact .inl ⟨b, List.mem_cons_of_mem _ hb, hbkey, hr⟩
          · exact .inr ⟨List.forall_mem_cons.2 ⟨hakey, hnone⟩, hr⟩
        · rintro (⟨b, hb, hbkey, hr⟩ | ⟨hnone, hr⟩)
          · rcases List.mem_cons.1 hb with rfl | hb
            · exact absurd hbkey hakey
            · exact .inr (.inl ⟨b, hb, hbkey, hr⟩)
          · exact .inr (.inr ⟨(List.forall_mem_cons.1 hnone).2, hr⟩)

/-- What is entered is in one record. -/
theorem perm_entered {contents : ρ → List α} {a : α} (hchange : ∀ r, (contents (change r)).Perm (contents r ++ [a]))
    (hfresh : contents fresh = []) :
    ((entered key change fresh rs).flatMap contents).Perm (rs.flatMap contents ++ [a]) := by
  induction rs with
  | nil =>
    have hnew := hchange fresh
    rw [hfresh] at hnew
    simpa [entered] using hnew
  | cons b rs ih =>
    unfold entered
    split
    · have hnew := hchange fresh
      rw [hfresh, List.nil_append] at hnew
      rw [List.flatMap_cons]
      exact (hnew.append_right _).trans List.perm_append_comm
    · split
      · rw [List.flatMap_cons, List.flatMap_cons, List.append_assoc]
        refine ((hchange b).append_right _).trans ?_
        rw [List.append_assoc]
        exact List.perm_append_comm.append_left _
      · rw [List.flatMap_cons, List.flatMap_cons, List.append_assoc]
        exact ih.append_left _

/-! ### Items entered one after the other -/

section Gathered

variable (key) (keyOf : α → κ) (bare : κ → ρ) (take : α → ρ → ρ)

/-- A record for each key of the items, each item taken into its own in their order. -/
def gathered (items : List α) : List ρ :=
  items.foldl (fun rs a => entered key (take a) (bare (keyOf a)) rs) []

/-- The record of `k`, where some item has that key. -/
def recordOf (items : List α) (k : κ) : ρ :=
  (items.filter fun a => decide (keyOf a = k)).foldl (fun r a => take a r) (bare k)

variable {key keyOf bare take} {items : List α}

theorem gathered_concat (a : α) :
    gathered key keyOf bare take (items ++ [a]) =
      entered key (take a) (bare (keyOf a)) (gathered key keyOf bare take items) := by
  unfold gathered
  rw [List.foldl_concat]

theorem recordOf_concat_of_eq (a : α) :
    recordOf keyOf bare take (items ++ [a]) (keyOf a) = take a (recordOf keyOf bare take items (keyOf a)) := by
  unfold recordOf
  have hown : [a].filter (fun b => decide (keyOf b = keyOf a)) = [a] := by simp
  rw [List.filter_append, hown, List.foldl_concat]

theorem recordOf_concat_of_ne {a : α} {k : κ} (hne : keyOf a ≠ k) :
    recordOf keyOf bare take (items ++ [a]) k = recordOf keyOf bare take items k := by
  unfold recordOf
  rw [List.filter_append, List.filter_cons_of_neg (by simpa using hne), List.filter_nil, List.append_nil]

theorem recordOf_of_none {k : κ} (hnone : ∀ a ∈ items, keyOf a ≠ k) : recordOf keyOf bare take items k = bare k := by
  unfold recordOf
  rw [List.filter_eq_nil_iff.2 (by simpa using hnone), List.foldl_nil]

theorem key_recordOf (htake : ∀ a r, key (take a r) = key r) (hbare : ∀ k, key (bare k) = k) (items : List α) (k : κ) :
    key (recordOf keyOf bare take items k) = k := by
  unfold recordOf
  generalize items.filter _ = own
  induction own using List.reverseRecOn with
  | nil => exact hbare k
  | append_singleton own b ih =>
    rw [List.foldl_concat, htake]
    exact ih

theorem sorted_gathered (htake : ∀ a r, key (take a r) = key r) : Keyed key (gathered key keyOf bare take items) := by
  induction items using List.reverseRecOn with
  | nil => exact List.Pairwise.nil
  | append_singleton items a ih =>
    rw [gathered_concat]
    exact sorted_entered (htake a) ih

/-- A record is there exactly for each key some item has, and its own items alone are in it. -/
theorem mem_gathered_iff (htake : ∀ a r, key (take a r) = key r) (hbare : ∀ k, key (bare k) = k) {r : ρ} :
    r ∈ gathered key keyOf bare take items ↔ ∃ a ∈ items, r = recordOf keyOf bare take items (keyOf a) := by
  induction items using List.reverseRecOn generalizing r with
  | nil => simp [gathered]
  | append_singleton items a ih =>
    have hrecord : ∀ k, key (recordOf keyOf bare take items k) = k := key_recordOf htake hbare items
    rw [gathered_concat]
    by_cases hkey : key r = keyOf a
    · rw [mem_entered_iff_of_eq (sorted_gathered htake) (hkey.trans (hbare _).symm), hbare]
      constructor
      · rintro (⟨b, hb, hbkey, rfl⟩ | ⟨hnone, rfl⟩)
        · obtain ⟨d, -, rfl⟩ := ih.1 hb
          refine ⟨a, by simp, ?_⟩
          rw [hrecord] at hbkey
          rw [recordOf_concat_of_eq, hbkey]
        · refine ⟨a, by simp, ?_⟩
          rw [recordOf_concat_of_eq, recordOf_of_none]
          intro b hb heq
          refine hnone _ (ih.2 ⟨b, hb, rfl⟩) ?_
          rw [hrecord, heq]
      · rintro ⟨b, -, hr⟩
        have hb : keyOf b = keyOf a := by rw [← hkey, hr, key_recordOf htake hbare]
        rw [hb, recordOf_concat_of_eq] at hr
        by_cases hsome : ∃ d ∈ items, keyOf d = keyOf a
        · obtain ⟨d, hd, hdkey⟩ := hsome
          exact .inl ⟨_, ih.2 ⟨d, hd, rfl⟩, by rw [hrecord, hdkey], by rw [hr, hdkey]⟩
        · refine .inr ⟨?_, ?_⟩
          · intro d hd heq
            obtain ⟨e, he, rfl⟩ := ih.1 hd
            rw [hrecord] at heq
            exact hsome ⟨e, he, heq⟩
          · rw [hr, recordOf_of_none fun d hd heq => hsome ⟨d, hd, heq⟩]
    · rw [mem_entered_iff_of_ne (htake a) (by rw [hbare]; exact hkey), ih]
      constructor
      · rintro ⟨b, hb, rfl⟩
        refine ⟨b, List.mem_append_left _ hb, ?_⟩
        rw [recordOf_concat_of_ne]
        rw [hrecord] at hkey
        exact Ne.symm hkey
      · rintro ⟨b, hb, hr⟩
        have hne : keyOf a ≠ keyOf b := by
          intro heq
          rw [hr, ← heq, recordOf_concat_of_eq, htake, hrecord] at hkey
          exact hkey rfl
        rcases List.mem_append.1 hb with hb | hb
        · exact ⟨b, hb, by rw [hr, recordOf_concat_of_ne hne]⟩
        · rw [List.mem_singleton] at hb
          rw [hb] at hne
          exact absurd rfl hne

/-- Each item is in one record. -/
theorem perm_gathered {contents : ρ → List α} (htake : ∀ a r, (contents (take a r)).Perm (contents r ++ [a]))
    (hbare : ∀ k, contents (bare k) = []) : ((gathered key keyOf bare take items).flatMap contents).Perm items := by
  induction items using List.reverseRecOn with
  | nil => exact List.Perm.nil
  | append_singleton items a ih =>
    rw [gathered_concat]
    exact (perm_entered (htake a) (hbare _)).trans (ih.append_right _)

end Gathered

end Library
