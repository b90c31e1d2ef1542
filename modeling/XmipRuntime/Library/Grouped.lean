import Mathlib.Data.List.SplitBy

/-!
# The runs of one key

A list cut where the key changes: each run is of one key, and what bears a key stands in one run exactly where nothing
of another key stands between two that bear it (`run_eq_filter_iff`).
-/

namespace Library

variable {α κ : Type} [DecidableEq κ]

/-- The list, cut where the key changes. -/
def runsBy (key : α → κ) (l : List α) : List (List α) := l.splitBy fun a b => decide (key a = key b)

/-- Nothing of another key stands between two of the key `k`. -/
def Together (key : α → κ) (k : κ) (l : List α) : Prop :=
  ∀ i j m : Nat, i ≤ j → j ≤ m → ∀ x y z, l[i]? = some x → l[j]? = some y → l[m]? = some z → key x = k → key z = k → key y = k

variable {key : α → κ} {l : List α}

theorem flatten_runsBy (key : α → κ) (l : List α) : (runsBy key l).flatten = l := List.flatten_splitBy ..

/-- A run is of one key. -/
theorem key_eq_of_mem_run {run : List α} (h : run ∈ runsBy key l) {x y : α} (hx : x ∈ run) (hy : y ∈ run) :
    key x = key y := by
  have hchain : run.IsChain fun a b => key a = key b := by simpa using List.isChain_of_mem_splitBy h
  have hall : ∀ (run : List α), run.IsChain (fun a b => key a = key b) → ∀ x ∈ run, ∀ a ∈ run.head?, key x = key a := by
    intro run hrun
    induction run with
    | nil => simp
    | cons a run ih =>
      intro x hx b hb
      obtain rfl : a = b := by simpa using hb
      rw [List.isChain_cons] at hrun
      rcases List.mem_cons.1 hx with rfl | hx
      · rfl
      · cases run with
        | nil => cases hx
        | cons d run => rw [ih hrun.2 x hx d rfl, hrun.1 d rfl]
  cases run with
  | nil => cases hx
  | cons a run => rw [hall _ hchain x hx a rfl, hall _ hchain y hy a rfl]

/-- What stands right before a run and right after it is of another key. -/
theorem key_ne_beside_run {before after : List (List α)} {run : List α} (h : runsBy key l = before ++ run :: after) {x : α}
    (hx : x ∈ run) :
    (before.flatten = [] ∨ ∃ first y, before.flatten = first ++ [y] ∧ key y ≠ key x) ∧
      (after.flatten = [] ∨ ∃ y last, after.flatten = y :: last ∧ key y ≠ key x) := by
  have hrun : run ∈ runsBy key l := by simp [h]
  have hchain : (runsBy key l).IsChain _ :=
    List.isChain_getLast_head_splitBy (fun a b => decide (key a = key b)) l
  rw [h, List.isChain_append] at hchain
  obtain ⟨-, hafter, hbefore⟩ := hchain
  rw [List.isChain_cons] at hafter
  constructor
  · rcases List.eq_nil_or_concat before with rfl | ⟨firsts, last, rfl⟩
    · exact .inl rfl
    · obtain ⟨hlast, hne, hkey⟩ := hbefore last (by simp) run rfl
      refine .inr ⟨firsts.flatten ++ last.dropLast, last.getLast hlast, ?_, ?_⟩
      · simp [List.dropLast_concat_getLast hlast]
      · rw [key_eq_of_mem_run hrun hx (List.head_mem hne)]
        exact of_decide_eq_false hkey
  · cases after with
    | nil => exact .inl rfl
    | cons next rest =>
      obtain ⟨hne, hnext, hkey⟩ := hafter.1 next rfl
      refine .inr ⟨next.head hnext, next.tail ++ rest.flatten, ?_, ?_⟩
      · rw [List.flatten_cons, ← List.cons_append, List.cons_head_tail]
      · rw [key_eq_of_mem_run hrun hx (List.getLast_mem hne)]
        exact fun heq => of_decide_eq_false hkey heq.symm

/-- All that bears a run's key stands in the run exactly where nothing of another key stands between. -/
theorem alone_iff_together {before after : List (List α)} {run : List α} (h : runsBy key l = before ++ run :: after) {x : α}
    (hx : x ∈ run) :
    (∀ y ∈ before.flatten ++ after.flatten, key y ≠ key x) ↔ Together key (key x) l := by
  have hrun : run ∈ runsBy key l := by simp [h]
  have hl : l = before.flatten ++ (run ++ after.flatten) := by
    rw [← flatten_runsBy key l, h]
    simp
  have hbeside := key_ne_beside_run h hx
  generalize before.flatten = first at *
  generalize after.flatten = last at *
  constructor
  · intro halone i j m hij hjm y z w hy hz hw hky hkw
    -- both ends stand in the run, so what is between them does
    have hin : ∀ (n : Nat) (v : α), l[n]? = some v → key v = key x → first.length ≤ n ∧ n < first.length + run.length := by
      intro n v hn hv
      rw [hl] at hn
      constructor
      · by_contra hlt
        rw [List.getElem?_append_left (by omega)] at hn
        exact halone v (List.mem_append_left _ (List.mem_of_getElem? hn)) hv
      · by_contra hge
        rw [List.getElem?_append_right (by omega), List.getElem?_append_right (by omega)] at hn
        exact halone v (List.mem_append_right _ (List.mem_of_getElem? hn)) hv
    have hi := hin i y hy hky
    have hm := hin m w hw hkw
    rw [hl, List.getElem?_append_right (by omega), List.getElem?_append_left (by omega)] at hz
    exact key_eq_of_mem_run hrun (List.mem_of_getElem? hz) hx
  · intro htogether y hy hky
    obtain ⟨n, hn⟩ := List.mem_iff_getElem?.1 hx
    have hlength := (List.getElem?_eq_some_iff.1 hn).1
    rcases List.mem_append.1 hy with hy | hy
    · obtain ⟨i, hi⟩ := List.mem_iff_getElem?.1 hy
      have hilength := (List.getElem?_eq_some_iff.1 hi).1
      rcases hbeside.1 with rfl | ⟨before, z, rfl, hz⟩
      · cases hy
      · refine hz (htogether i before.length ((before ++ [z]).length + n) ?_ ?_ y z x ?_ ?_ ?_ hky rfl)
        · simp only [List.length_append, List.length_singleton] at hilength
          omega
        · simp
          omega
        · rw [hl, List.getElem?_append_left hilength, hi]
        · rw [hl]
          simp
        · rw [hl, List.getElem?_append_right (by omega), List.getElem?_append_left (by omega), ← hn]
          congr 1
          omega
    · obtain ⟨i, hi⟩ := List.mem_iff_getElem?.1 hy
      rcases hbeside.2 with rfl | ⟨z, after, rfl, hz⟩
      · cases hy
      · refine hz (htogether (first.length + n) (first.length + run.length) (first.length + run.length + i)
          (by omega) (by omega) x z y ?_ ?_ ?_ rfl hky)
        · rw [hl, List.getElem?_append_right (by omega), List.getElem?_append_left (by omega), ← hn]
          congr 1
          omega
        · rw [hl, ← List.append_assoc, List.getElem?_append_right (by simp)]
          simp
        · rw [hl, ← List.append_assoc, List.getElem?_append_right (by simp), ← hi]
          congr 1
          simp

/-- A run is all that bears its key, told apart by `f` or not, exactly where nothing of another key stands between. -/
theorem run_eq_filter_iff {γ : Type} {run : List α} (h : run ∈ runsBy key l) {x : α} (hx : x ∈ run) (f : α → γ) :
    (l.filter fun y => decide (key y = key x)).map f = run.map f ↔ Together key (key x) l := by
  obtain ⟨before, after, h⟩ := List.append_of_mem h
  rw [← alone_iff_together h hx]
  have hrun : run ∈ runsBy key l := by simp [h]
  have hall : (run.filter fun y => decide (key y = key x)) = run :=
    List.filter_eq_self.2 fun y hy => decide_eq_true (key_eq_of_mem_run hrun hy hx)
  have hfilter : (l.filter fun y => decide (key y = key x)) =
      (before.flatten.filter fun y => decide (key y = key x)) ++
        (run ++ after.flatten.filter fun y => decide (key y = key x)) := by
    conv_lhs => rw [← flatten_runsBy key l, h]
    rw [List.flatten_append, List.flatten_cons, List.filter_append, List.filter_append, hall]
  rw [hfilter]
  constructor
  · intro heq y hy hky
    have hlength := congrArg List.length heq
    simp only [List.length_map, List.length_append] at hlength
    have hnone : ∀ {m : List α}, y ∈ m → 0 < (m.filter fun y => decide (key y = key x)).length := fun hm =>
      List.length_pos_of_mem (List.mem_filter.2 ⟨hm, decide_eq_true hky⟩)
    rcases List.mem_append.1 hy with hy | hy
    · have := hnone hy
      omega
    · have := hnone hy
      omega
  · intro halone
    have hnone : ∀ {m : List α}, (∀ y ∈ m, y ∈ before.flatten ++ after.flatten) →
        (m.filter fun y => decide (key y = key x)) = [] := fun hm =>
      List.filter_eq_nil_iff.2 fun y hy hky => halone y (hm y hy) (of_decide_eq_true hky)
    rw [hnone fun y hy => List.mem_append_left _ hy, hnone fun y hy => List.mem_append_right _ hy]
    simp

/-- A stretch of one key lies in one run. -/
theorem mem_run_of_stretch {run first part last : List α} (hnodup : l.Nodup) (hrun : run ∈ runsBy key l)
    (hl : l = first ++ (part ++ last)) {o x : α} (ho : o ∈ part) (horun : o ∈ run) (hx : x ∈ part)
    (hpart : ∀ y ∈ part, key y = key o) : x ∈ run := by
  obtain ⟨before, after, h⟩ := List.append_of_mem hrun
  have hbeside := key_ne_beside_run h horun
  have hruns : l = before.flatten ++ (run ++ after.flatten) := by
    rw [← flatten_runsBy key l, h]
    simp
  generalize before.flatten = before at *
  generalize after.flatten = after at *
  obtain ⟨n, hn⟩ := List.mem_iff_getElem?.1 ho
  obtain ⟨m, hm⟩ := List.mem_iff_getElem?.1 hx
  obtain ⟨r, hr⟩ := List.mem_iff_getElem?.1 horun
  have hnlt := (List.getElem?_eq_some_iff.1 hn).1
  have hmlt := (List.getElem?_eq_some_iff.1 hm).1
  have hrlt := (List.getElem?_eq_some_iff.1 hr).1
  have hstretch : ∀ {i : Nat}, i < part.length → l[first.length + i]? = part[i]? := by
    intro i hi
    rw [hl, List.getElem?_append_right (by omega), List.getElem?_append_left (by omega)]
    congr 1
    omega
  -- `o` stands at one place, in the stretch and in the run
  have hat : first.length + n = before.length + r := by
    have hlength : first.length + n < l.length := by
      rw [hl]
      simp
      omega
    refine (List.getElem?_inj hlength hnodup).1 ?_
    rw [hstretch hnlt, hn, hruns, List.getElem?_append_right (by omega), List.getElem?_append_left (by omega), ← hr]
    congr 1
    omega
  have hbetween : ∀ {i : Nat} {y : α}, l[i]? = some y → first.length ≤ i → i < first.length + part.length → key y = key o := by
    intro i y hy hle hlt
    have hi : l[first.length + (i - first.length)]? = some y := by
      rw [← hy]
      congr 1
      omega
    rw [hstretch (by omega)] at hi
    exact hpart y (List.mem_of_getElem? hi)
  have hafter : first.length + m < before.length + run.length := by
    by_contra hge
    rcases hbeside.2 with rfl | ⟨y, rest, rfl, hy⟩
    · have hlengths := congrArg List.length (hl.symm.trans hruns)
      simp at hlengths
      omega
    · refine hy (@hbetween (before.length + run.length) y ?_ (by omega) (by omega))
      rw [hruns, ← List.append_assoc, List.getElem?_append_right (by simp)]
      simp
  have hbefore : before.length ≤ first.length + m := by
    by_contra hlt
    rcases hbeside.1 with rfl | ⟨rest, y, rfl, hy⟩
    · simp at hlt
    · simp only [List.length_append, List.length_singleton] at hlt hat
      refine hy (@hbetween rest.length y ?_ (by omega) (by omega))
      rw [hruns]
      simp
  have hx : run[first.length + m - before.length]? = some x := by
    rw [← hm, ← hstretch hmlt, hruns, List.getElem?_append_right hbefore, List.getElem?_append_left (by omega)]
  exact List.mem_of_getElem? hx

end Library
