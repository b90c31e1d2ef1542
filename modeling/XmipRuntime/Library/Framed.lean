import Mathlib.Data.List.Basic

/-!
# Texts told apart by what stands between or before them

A text cut at a separator in two places is cut twice at the same one, or once in the front of the other cut or behind it
(`cut_cases`); so what stands before the first separator is told apart from the rest.  A text written with its length
before it can be taken off the front of what is written, whatever it holds: where two begin alike they begin with the
same text, and go on alike (`framed_inj`).
-/

namespace Library

/-! ### Separators -/

/-- Two cuts of one list at a separator: the same, or one behind the other. -/
theorem cut_cases {α : Type} {s : α} {a b x y : List α} (h : a ++ s :: x = b ++ s :: y) :
    (a = b ∧ x = y) ∨ (∃ z, b = a ++ s :: z ∧ x = z ++ s :: y) ∨ ∃ z, a = b ++ s :: z ∧ y = z ++ s :: x := by
  rcases List.append_eq_append_iff.1 h with ⟨z, hb, hx⟩ | ⟨z, ha, hy⟩
  · cases z with
    | nil => exact .inl ⟨by simpa using hb.symm, (List.cons.inj hx).2⟩
    | cons d z =>
      obtain ⟨rfl, hrest⟩ := List.cons.inj hx
      exact .inr (.inl ⟨z, hb, hrest⟩)
  · cases z with
    | nil => exact .inl ⟨by simpa using ha, (List.cons.inj hy).2.symm⟩
    | cons d z =>
      obtain ⟨rfl, hrest⟩ := List.cons.inj hy
      exact .inr (.inr ⟨z, ha, hrest⟩)

/-- What stands before the first separator. -/
theorem cut_inj {α : Type} {s : α} {a b x y : List α} (ha : s ∉ a) (hb : s ∉ b) (h : a ++ s :: x = b ++ s :: y) :
    a = b ∧ x = y := by
  rcases cut_cases h with heq | ⟨z, rfl, -⟩ | ⟨z, rfl, -⟩
  · exact heq
  · exact absurd (by simp) hb
  · exact absurd (by simp) ha

/-! ### Lengths -/

/-- A text, its length in bytes before it. -/
def framed (v : String) : String := toString v.utf8ByteSize ++ ":" ++ v ++ ";"

/-- A number's digits end where a colon stands. -/
theorem digits_inj {n m : Nat} {a b : List Char}
    (h : (toString n).toList ++ ':' :: a = (toString m).toList ++ ':' :: b) : n = m ∧ a = b := by
  have hdigits : ∀ n : Nat, ':' ∉ (toString n).toList := by
    intro n hx
    have hdigit := Nat.isDigit_of_mem_toDigits (by decide) (by decide) (by simpa using hx : ':' ∈ Nat.toDigits 10 n)
    cases hdigit
  obtain ⟨heq, hrest⟩ := cut_inj (hdigits n) (hdigits m) h
  refine ⟨?_, hrest⟩
  have hdigit := congrArg (fun l => Nat.ofDigitChars 10 l 0) heq
  simpa using hdigit

/-- Texts of one length at the front of one text are the same. -/
theorem eq_of_append_eq {v w x y : String} (hsize : v.utf8ByteSize = w.utf8ByteSize) (h : v ++ x = w ++ y) :
    v = w ∧ x = y := by
  have hsame : ∀ {v w : String} {rest : List Char}, v.utf8ByteSize = w.utf8ByteSize → w.toList = v.toList ++ rest →
      v = w := by
    intro v w rest hsize hw
    have hw : w = v ++ String.ofList rest := by
      rw [← String.toList_inj]
      simpa using hw
    have hrest : (String.ofList rest).utf8ByteSize = 0 := by
      have := congrArg String.utf8ByteSize hw
      rw [String.utf8ByteSize_append] at this
      omega
    rw [String.utf8ByteSize_eq_zero_iff] at hrest
    rw [hw, hrest, String.append_empty]
  have hlists := congrArg String.toList h
  rw [String.toList_append, String.toList_append] at hlists
  have heq : v = w := by
    rcases List.append_eq_append_iff.1 hlists with ⟨rest, hw, -⟩ | ⟨rest, hv, -⟩
    · exact hsame hsize hw
    · exact (hsame hsize.symm hv).symm
  refine ⟨heq, ?_⟩
  rw [heq] at h
  exact (String.append_right_inj w).1 h

/-- Two that begin alike begin with the same text, and go on alike. -/
theorem framed_inj {v w x y : String} (h : framed v ++ x = framed w ++ y) : v = w ∧ x = y := by
  have hlists := congrArg String.toList h
  simp only [framed, String.toList_append, List.append_assoc] at hlists
  obtain ⟨hsize, hrest⟩ := digits_inj hlists
  have hrest : v ++ (";" ++ x) = w ++ (";" ++ y) := by
    rw [← String.toList_inj]
    simpa using hrest
  obtain ⟨hv, hx⟩ := eq_of_append_eq hsize hrest
  exact ⟨hv, (String.append_right_inj _).1 hx⟩

end Library
