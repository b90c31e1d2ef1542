import Mathlib.Data.List.Nodup

/-!
# Records merged by their keys

Items merged one after the other into a list of records: each changes the first record of its key, or is added as a record
of its own where there is none.  The key facts: a record of each key is what was there, changed by the item of that key
(`find?_foldl_merged`), and merging makes no key stand twice that stood once (`nodup_foldl_merged`).
-/

namespace Library

variable {κ ρ α : Type} [DecidableEq κ] (key : ρ → κ)

/-- The first record of `added`'s key changed; `added` at the end where there is none. -/
def merged (change : ρ → ρ) (added : ρ) : List ρ → List ρ
  | [] => [added]
  | r :: rs => if key r = key added then change r :: rs else r :: merged change added rs

variable {key} {change : ρ → ρ} {added : ρ} {rs : List ρ} {k : κ}

theorem keys_merged (hkey : ∀ r, key (change r) = key r) :
    (merged key change added rs).map key =
      if key added ∈ rs.map key then rs.map key else rs.map key ++ [key added] := by
  induction rs with
  | nil => rfl
  | cons r rs ih =>
    unfold merged
    by_cases h : key r = key added
    · rw [if_pos h, if_pos (h ▸ List.mem_cons_self), List.map_cons, List.map_cons, hkey]
    · rw [if_neg h, List.map_cons, ih, List.map_cons]
      by_cases hmem : key added ∈ rs.map key
      · rw [if_pos hmem, if_pos (List.mem_cons_of_mem _ hmem)]
      · rw [if_neg hmem, if_neg (by rw [List.mem_cons, not_or]; exact ⟨Ne.symm h, hmem⟩), List.cons_append]

theorem find?_merged (hkey : ∀ r, key (change r) = key r) :
    (merged key change added rs).find? (fun r => key r = k) =
      if key added = k then some ((rs.find? fun r => key r = k).elim added change) else rs.find? fun r => key r = k := by
  induction rs with
  | nil =>
    unfold merged
    by_cases h : key added = k
    · rw [if_pos h, List.find?_cons_of_pos (by simpa using h)]
      rfl
    · rw [if_neg h, List.find?_cons_of_neg (by simpa using h)]
  | cons r rs ih =>
    unfold merged
    by_cases hr : key r = key added
    · rw [if_pos hr]
      by_cases h : key added = k
      · have hrk : key r = k := hr.trans h
        rw [if_pos h, List.find?_cons_of_pos (by simpa [hkey] using hrk), List.find?_cons_of_pos (by simpa using hrk)]
        rfl
      · have hrk : key r ≠ k := hr ▸ h
        rw [if_neg h, List.find?_cons_of_neg (by simpa [hkey] using hrk), List.find?_cons_of_neg (by simpa using hrk)]
    · rw [if_neg hr]
      by_cases hrk : key r = k
      · have h : key added ≠ k := fun h => hr (hrk.trans h.symm)
        rw [if_neg h, List.find?_cons_of_pos (by simpa using hrk), List.find?_cons_of_pos (by simpa using hrk)]
      · rw [List.find?_cons_of_neg (by simpa using hrk), List.find?_cons_of_neg (by simpa using hrk), ih]

/-! ### One after the other -/

variable {changes : α → ρ → ρ} {adds : α → ρ} {items : List α}

theorem mem_keys_foldl_merged (hkey : ∀ a r, key (changes a r) = key r) :
    k ∈ (items.foldl (fun rs a => merged key (changes a) (adds a) rs) rs).map key ↔
      k ∈ rs.map key ∨ ∃ a ∈ items, key (adds a) = k := by
  induction items generalizing rs with
  | nil => simp
  | cons a items ih =>
    rw [List.foldl_cons, ih, keys_merged (hkey a)]
    split
    · rename_i hmem
      constructor
      · rintro (h | ⟨b, hb, h⟩)
        · exact .inl h
        · exact .inr ⟨b, List.mem_cons_of_mem _ hb, h⟩
      · rintro (h | ⟨b, hb, h⟩)
        · exact .inl h
        · rcases List.mem_cons.1 hb with rfl | hb
          · exact .inl (h ▸ hmem)
          · exact .inr ⟨b, hb, h⟩
    · rw [List.mem_append, List.mem_singleton, or_assoc]
      refine or_congr_right ?_
      constructor
      · rintro (rfl | ⟨b, hb, h⟩)
        · exact ⟨a, List.mem_cons_self, rfl⟩
        · exact ⟨b, List.mem_cons_of_mem _ hb, h⟩
      · rintro ⟨b, hb, h⟩
        rcases List.mem_cons.1 hb with rfl | hb
        · exact .inl h.symm
        · exact .inr ⟨b, hb, h⟩

theorem nodup_foldl_merged (hkey : ∀ a r, key (changes a r) = key r) :
    ((items.foldl (fun rs a => merged key (changes a) (adds a) rs) rs).map key).Nodup ↔ (rs.map key).Nodup := by
  induction items generalizing rs with
  | nil => exact Iff.rfl
  | cons a items ih =>
    rw [List.foldl_cons, ih, keys_merged (hkey a)]
    split
    · exact Iff.rfl
    · rename_i hmem
      rw [List.nodup_append]
      refine ⟨fun h => h.1, fun h => ⟨h, List.nodup_singleton _, ?_⟩⟩
      intro x hx y hy hxy
      rw [List.mem_singleton] at hy
      exact hmem (hy ▸ hxy ▸ hx)

/-- No item of the key leaves the record that was there. -/
theorem find?_foldl_merged_of_not (hkey : ∀ a r, key (changes a r) = key r) (hnot : ∀ a ∈ items, key (adds a) ≠ k) :
    (items.foldl (fun rs a => merged key (changes a) (adds a) rs) rs).find? (fun r => key r = k) =
      rs.find? fun r => key r = k := by
  induction items generalizing rs with
  | nil => rfl
  | cons a items ih =>
    rw [List.foldl_cons, ih fun b hb => hnot b (List.mem_cons_of_mem _ hb), find?_merged (hkey a),
      if_neg (hnot a List.mem_cons_self)]

/-- The one item of a key changes the record that was there, or is one. -/
theorem find?_foldl_merged (hkey : ∀ a r, key (changes a r) = key r) (honce : (items.map fun a => key (adds a)).Nodup)
    {a : α} (ha : a ∈ items) :
    (items.foldl (fun rs a => merged key (changes a) (adds a) rs) rs).find? (fun r => key r = key (adds a)) =
      some ((rs.find? fun r => key r = key (adds a)).elim (adds a) (changes a)) := by
  induction items generalizing rs with
  | nil => cases ha
  | cons b items ih =>
    rw [List.map_cons, List.nodup_cons] at honce
    rw [List.foldl_cons]
    rcases List.mem_cons.1 ha with rfl | ha
    · have hnot : ∀ b ∈ items, key (adds b) ≠ key (adds a) := by
        intro b hb h
        exact honce.1 (List.mem_map.2 ⟨b, hb, h⟩)
      rw [find?_foldl_merged_of_not hkey hnot, find?_merged (hkey a), if_pos rfl]
    · have hne : key (adds b) ≠ key (adds a) := by
        intro h
        exact honce.1 (List.mem_map.2 ⟨a, ha, h.symm⟩)
      rw [ih honce.2 ha, find?_merged (hkey b), if_neg hne]

/-- Where no key stands twice, the records are the ones found by their keys. -/
theorem mem_iff_find?_key (h : (rs.map key).Nodup) {r : ρ} : r ∈ rs ↔ rs.find? (fun s => key s = key r) = some r := by
  refine ⟨fun hr => ?_, List.mem_of_find?_eq_some⟩
  induction rs with
  | nil => cases hr
  | cons s rs ih =>
    rw [List.map_cons, List.nodup_cons] at h
    rcases List.mem_cons.1 hr with rfl | hr
    · exact List.find?_cons_of_pos (by simp)
    · have hne : key s ≠ key r := fun heq => h.1 (heq ▸ List.mem_map_of_mem hr)
      rw [List.find?_cons_of_neg (by simpa using hne)]
      exact ih h.2 hr

end Library
