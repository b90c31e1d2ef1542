import Mathlib.Data.List.Basic

/-!
# Texts written one after another

Texts are written one after another, and read one after another by a reader that knows nothing of how they were written.  A
text that is not plain is read as another, or its reading runs into what follows it; then every later text is read from too
late on, and what was written is not what is read (`items_iff`).
-/

namespace Library

variable {σ τ ω : Type}

/-- The items read from `s`, one after another until it is done; `n` more at most. -/
def items (done : List σ → Bool) (next : List σ → Option (τ × List σ)) : Nat → List σ → Option (List τ)
  | 0, _ => none
  | n + 1, s => if done s then some [] else (next s).bind fun p => (items done next n p.2).map (p.1 :: ·)

/-- A plain text is read as what it stands for, up to what follows it. -/
structure Keeps (value : ω → τ) (write : ω → List σ) (Plain : ω → Prop) (done : List σ → Bool)
    (next : List σ → Option (τ × List σ)) : Prop where
  ends : done [] = true
  more : ∀ t rest, Plain t → done (write t ++ rest) = false
  reads : ∀ t (ts : List ω), Plain t → next (write t ++ ts.flatMap write) = some (value t, ts.flatMap write)

/-- What a reader makes of what is written: it keeps what is plain; and where what a text stands for is read from where it
was written, or from later on, it is plain and was read from there up to what follows it, or the reading ends later than where
what follows it begins. -/
structure Readable (value : ω → τ) (write : ω → List σ) (Plain : ω → Prop) (done : List σ → Bool)
    (next : List σ → Option (τ × List σ)) : Prop extends Keeps value write Plain done next where
  behind : ∀ t (ts : List ω) s s', s <:+ write t ++ ts.flatMap write → next s = some (value t, s') →
    s = write t ++ ts.flatMap write ∧ Plain t ∧ s' = ts.flatMap write ∨ s' <:+ ts.flatMap write ∧ s' ≠ ts.flatMap write

variable {value : ω → τ} {write : ω → List σ} {Plain : ω → Prop} {done : List σ → Bool} {next : List σ → Option (τ × List σ)}

theorem items_cons {n : Nat} {s : List σ} {t : τ} {ts : List τ} (h : items done next n s = some (t :: ts)) :
    ∃ m s', n = m + 1 ∧ next s = some (t, s') ∧ items done next m s' = some ts := by
  cases n with
  | zero => cases h
  | succ m =>
    unfold items at h
    split at h
    · cases h
    · obtain ⟨⟨t', s'⟩, hnext, h⟩ := Option.bind_eq_some_iff.1 h
      obtain ⟨ts', hitems, heq⟩ := Option.map_eq_some_iff.1 h
      obtain ⟨rfl, rfl⟩ := List.cons.inj heq
      exact ⟨m, s', rfl, hnext, hitems⟩

/-- Read from too late on, what was written is not what is read. -/
theorem Readable.not_items (h : Readable value write Plain done next) {n : Nat} {s : List σ} {ts : List ω}
    (hs : s <:+ ts.flatMap write) (hne : s ≠ ts.flatMap write) : items done next n s ≠ some (ts.map value) := by
  induction ts generalizing n s with
  | nil => exact absurd (List.suffix_nil.1 hs) hne
  | cons t ts ih =>
    intro hitems
    obtain ⟨m, s', rfl, hnext, hitems⟩ := items_cons hitems
    obtain ⟨heq, -, -⟩ | ⟨hs', hne'⟩ := h.behind t ts s s' hs hnext
    · exact hne heq
    · exact ih hs' hne' hitems

/-- What was written is read where every text is plain. -/
theorem Keeps.items_of_plain (h : Keeps value write Plain done next) {n : Nat} {ts : List ω} (hn : ts.length < n)
    (hplain : ∀ t ∈ ts, Plain t) : items done next n (ts.flatMap write) = some (ts.map value) := by
  induction ts generalizing n with
  | nil =>
    obtain ⟨m, rfl⟩ : ∃ m, n = m + 1 := ⟨n - 1, by simp only [List.length_nil] at hn; omega⟩
    unfold items
    rw [List.flatMap_nil, if_pos h.ends, List.map_nil]
  | cons t ts ih =>
    obtain ⟨m, rfl⟩ : ∃ m, n = m + 1 := ⟨n - 1, by omega⟩
    obtain ⟨ht, hts⟩ := List.forall_mem_cons.1 hplain
    have hmore := h.more t (ts.flatMap write) ht
    have hrest := ih (Nat.lt_of_succ_lt_succ hn) hts
    unfold items
    rw [List.flatMap_cons, hmore, h.reads t ts ht]
    exact Option.map_eq_some_iff.2 ⟨ts.map value, hrest, rfl⟩

theorem Readable.plain_of_items (h : Readable value write Plain done next) {n : Nat} {ts : List ω}
    (hitems : items done next n (ts.flatMap write) = some (ts.map value)) : ∀ t ∈ ts, Plain t := by
  induction ts generalizing n with
  | nil => exact fun _ hin => nomatch hin
  | cons t ts ih =>
    obtain ⟨m, s', rfl, hnext, hitems⟩ := items_cons hitems
    obtain ⟨-, ht, rfl⟩ | ⟨hs', hne⟩ := h.behind t ts _ s' (List.suffix_refl _) hnext
    · exact List.forall_mem_cons.2 ⟨ht, ih hitems⟩
    · exact absurd hitems (h.not_items hs' hne)

theorem Readable.items_iff (h : Readable value write Plain done next) {n : Nat} {ts : List ω} (hn : ts.length < n) :
    items done next n (ts.flatMap write) = some (ts.map value) ↔ ∀ t ∈ ts, Plain t :=
  ⟨h.plain_of_items, h.toKeeps.items_of_plain hn⟩

end Library
