import XmipRuntime.StreamShare.Reads

/-!
# Every departure is given its Stream

However the departures of a Stream move between its reads, what each was given is a beginning of the Stream, and it is
told the Stream ends only once it was given all of it.  Where a departure is in its Stream is said twice, by the read it
takes from, as the place of the window's first chunk, and by the departure itself, as the place of its next; neither is
read off the other, and a departure's place decides what the chunks of any read are to it.
-/

namespace StreamShare

open Library

variable {ρ ω β ε : Type} (c : Settings ρ ω β ε) (content : Nat → List (List β)) (stands : Nat → ρ → Nat → Prop)

/-! ### What is claimed -/

/-- What Xmip Storage's readers are relied on for: one opened at a chunk of a Stream, all before it taken, stands there;
and one that stands at a chunk answers that chunk and stands at the next, or the Stream's end where there is none, if it
answers at all. -/
structure InOrder : Prop where
  opened : ∀ stream i, i ≤ (content stream).length →
    stands stream (c.readers.sharedFrom stream (c.length stream) i ((content stream).take i).flatten.length) i
  chunk : ∀ stream x i w bytes x', stands stream x i → c.readers.nextChunk w x = (.ok (some bytes), x') →
    (content stream)[i]? = some bytes ∧ stands stream x' (i + 1)
  ended : ∀ stream x i w x', stands stream x i → c.readers.nextChunk w x = (.ok none, x') → i = (content stream).length

/-- What each departure was given is a beginning of its Stream, and all of it where it was told so. -/
def Sys.Faithful (s : Sys ρ β ε) : Prop :=
  ∀ l ∈ s.lents, l.given <+: (content l.stream).flatten ∧
    ∀ x ∈ l.answers, x.1 ≠ 0 → x.2 = .ok 0 → l.given = (content l.stream).flatten

/-- A read that fails is said so to the departure it failed for, which is given nothing for it; and one that failed, to
every departure that asks it. -/
structure Sys.Reports (s : Sys ρ β ε) : Prop where
  fails : ∀ a s' (i : Nat) (o o' : OneRead ρ β ε) why, s.next c a = some s' → s.reads[i]? = some o →
    s'.reads[i]? = some o' → o.failed = none → o'.failed = some why →
    ∃ (k : Nat) (l l' : Lent β ε) (out : Nat), s.lents[k]? = some l ∧ s'.lents[k]? = some l' ∧
      l'.given = l.given ∧ l'.answers = l.answers ++ [(out, .error why)]
  failed : ∀ (k now : Nat) w s' (l : Lent β ε) out (i : Nat) (o : OneRead ρ β ε) why,
    s.next c (.ask k now w) = some s' → s.lents[k]? = some l →
    l.phase = .asking out → l.read = some i → s.reads[i]? = some o → o.failed = some why →
    ∃ l', s'.lents[k]? = some l' ∧ l'.given = l.given ∧ l'.answers = l.answers ++ [(out, .error why)]

/-! ### A read's chunks are its Stream's, at its place -/

/-- The window is the chunks of the Stream from `first` on, and the reader stands at its end. -/
structure OneRead.Follows (stands : ρ → Nat → Prop) (chunks : List (List β)) (o : OneRead ρ β ε) : Prop where
  window : o.window = (chunks.drop o.first).take o.window.length
  within : o.first + o.window.length ≤ chunks.length
  ended : o.ended = true → o.first + o.window.length = chunks.length
  stands : o.ended = false → o.failed = none → stands o.reader (o.first + o.window.length)

namespace OneRead

variable {stands : ρ → Nat → Prop} {chunks : List (List β)} {o o' : OneRead ρ β ε}

/-- What it keeps at a place is the Stream's chunk there. -/
theorem Follows.getElem? (h : o.Follows stands chunks) {place : Nat} {chunk : List β} (hfirst : o.first ≤ place)
    (hget : o.window[place - o.first]? = some chunk) : chunks[place]? = some chunk := by
  rw [h.window] at hget
  obtain ⟨hlt, -⟩ := List.getElem?_eq_some_iff.1 hget
  rw [List.length_take] at hlt
  rw [List.getElem?_take_of_lt (by omega), List.getElem?_drop] at hget
  rwa [Nat.add_sub_cancel' hfirst] at hget

/-- Only who takes from it, and who holds it, changed. -/
theorem Follows.congr (h : o.Follows stands chunks) (hreader : o'.reader = o.reader) (hwindow : o'.window = o.window)
    (hfirst : o'.first = o.first) (hended : o'.ended = o.ended) (hfailed : o'.failed = o.failed) :
    o'.Follows stands chunks where
  window := by rw [hwindow, hfirst]; exact h.window
  within := by rw [hwindow, hfirst]; exact h.within
  ended := by rw [hwindow, hfirst, hended]; exact h.ended
  stands := by rw [hwindow, hfirst, hended, hfailed, hreader]; exact h.stands

theorem Follows.opened (stream : Nat) {place : Nat} {reader : ρ} (hplace : place ≤ chunks.length) (h : stands reader place) :
    (OneRead.opened (β := β) (ε := ε) stream reader place).Follows stands chunks where
  window := rfl
  within := hplace
  ended hended := by cases hended
  stands _ _ := h

/-- One more chunk read, and the first let go of. -/
theorem Follows.push (h : o.Follows stands chunks) {chunk : List β} {reader : ρ}
    (hget : chunks[o.first + o.window.length]? = some chunk)
    (hstands : stands reader (o.first + o.window.length + 1)) (hopen : o.ended = false) :
    ({ o with reader }.push chunk).Follows stands chunks := by
  obtain ⟨hlt, hget⟩ := List.getElem?_eq_some_iff.1 hget
  have hgone : o.first + (o.window.length + 1 - kept o.readers.length) +
      (o.window.length + 1 - (o.window.length + 1 - kept o.readers.length)) = o.first + o.window.length + 1 := by
    omega
  have hlong : o.window ++ [chunk] = (chunks.drop o.first).take (o.window.length + 1) := by
    rw [List.take_add_one, ← h.window, List.getElem?_drop, List.getElem?_eq_getElem hlt, hget]
    rfl
  refine ⟨?_, ?_, ?_, ?_⟩
  · simp only [OneRead.push, List.length_drop, List.length_append, List.length_singleton]
    rw [hlong, List.drop_take, List.drop_drop]
  · simp only [OneRead.push, List.length_drop, List.length_append, List.length_singleton]
    omega
  · intro hended
    exact absurd (hopen.symm.trans hended) (by simp)
  · intro _ _
    simp only [OneRead.push, List.length_drop, List.length_append, List.length_singleton]
    rw [hgone]
    exact hstands

end OneRead

/-- What one turn of the search for a chunk says of it, and what it leaves of the read. -/
theorem OneRead.chunk_follows {c : Settings ρ ω β ε} {content : Nat → List (List β)} {stands : Nat → ρ → Nat → Prop}
    (hc : InOrder c content stands) {o : OneRead ρ β ε} (h : o.Follows (stands o.stream) (content o.stream))
    (number place stall now : Nat) (w : ω) :
    (o.chunk c.readers number place stall now w).2.Follows (stands o.stream) (content o.stream) ∧
      (o.chunk c.readers number place stall now w).2.stream = o.stream ∧
      (∀ chunk, (o.chunk c.readers number place stall now w).1 = .answered (.ok (.chunk chunk)) →
        (content o.stream)[place]? = some chunk) ∧
      ((o.chunk c.readers number place stall now w).1 = .answered (.ok .ended) → (content o.stream).length ≤ place) := by
  unfold OneRead.chunk
  split
  · exact ⟨h, rfl, fun _ he => (by cases he), fun he => (by cases he)⟩
  · rename_i hfailed
    split
    · exact ⟨h, rfl, fun _ he => (by cases he), fun he => (by cases he)⟩
    · rename_i hfirst
      split
      · rename_i chunk hchunk
        have htook : (o.tookBy number (place + 1) now).Follows (stands o.stream) (content o.stream) ∧
            (o.tookBy number (place + 1) now).stream = o.stream := by
          unfold OneRead.tookBy
          split
          · exact ⟨h.congr rfl rfl rfl rfl rfl, rfl⟩
          · exact ⟨h, rfl⟩
        refine ⟨htook.1, htook.2, ?_, fun he => (by cases he)⟩
        intro chunk' he
        cases he
        exact h.getElem? (by omega) hchunk
      · rename_i hnone
        split
        · rename_i hended
          refine ⟨h, rfl, fun _ he => (by cases he), fun _ => ?_⟩
          have := h.ended hended
          have := List.getElem?_eq_none_iff.1 hnone
          omega
        · rename_i hopen
          rw [Bool.not_eq_true] at hopen
          have hstands := h.stands hopen hfailed
          split
          · exact ⟨h, rfl, fun _ he => (by cases he), fun he => (by cases he)⟩
          · split
            · rename_i chunk reader hnext
              obtain ⟨hget, hnow⟩ := hc.chunk _ _ _ _ _ _ hstands hnext
              exact ⟨h.push hget hnow hopen, rfl, fun _ he => (by cases he), fun he => (by cases he)⟩
            · rename_i reader hnext
              refine ⟨⟨h.window, h.within, fun _ => hc.ended _ _ _ _ _ hstands hnext, fun he => (by cases he)⟩, rfl,
                fun _ he => (by cases he), fun he => (by cases he)⟩
            · refine ⟨⟨h.window, h.within, h.ended, fun _ he => (by cases he)⟩, rfl,
                fun _ he => (by cases he), fun he => (by cases he)⟩

/-! ### A departure's place, and what it was given -/

/-- What a departure was given is the chunks before its place, the one it holds as far as it gave it. -/
def Lent.Gave (chunks : List (List β)) (l : Lent β ε) : Prop :=
  match l.held with
  | none => l.given = (chunks.take l.place).flatten
  | some held => ∃ p, l.place = p + 1 ∧ chunks[p]? = some held ∧ l.offset ≤ held.length ∧
      l.given = (chunks.take p).flatten ++ held.take l.offset

structure Lent.Follows (chunks : List (List β)) (l : Lent β ε) : Prop where
  place : l.place ≤ chunks.length
  taken : l.taken = (chunks.take l.place).flatten.length
  gave : l.Gave chunks
  answers : ∀ x ∈ l.answers, x.1 ≠ 0 → x.2 = .ok 0 → l.given = chunks.flatten

private theorem flatten_take_succ {chunks : List (List β)} {p : Nat} {chunk : List β} (h : chunks[p]? = some chunk) :
    (chunks.take (p + 1)).flatten = (chunks.take p).flatten ++ chunk := by
  rw [List.take_add_one, h, List.flatten_append]
  simp

private theorem flatten_take_begins (chunks : List (List β)) (p : Nat) :
    (chunks.take p).flatten <+: chunks.flatten := by
  refine ⟨(chunks.drop p).flatten, ?_⟩
  rw [← List.flatten_append, List.take_append_drop]

namespace Lent

variable {chunks : List (List β)} {l : Lent β ε}

theorem Gave.begins (h : l.Gave chunks) : l.given <+: chunks.flatten := by
  unfold Gave at h
  split at h
  · rw [h]
    exact flatten_take_begins chunks l.place
  · rename_i held _
    obtain ⟨p, -, hget, -, hgiven⟩ := h
    have hchunk : (chunks.take p).flatten ++ held <+: chunks.flatten := by
      rw [← flatten_take_succ hget]
      exact flatten_take_begins chunks (p + 1)
    have hpiece : held.take l.offset <+: held := List.take_prefix ..
    rw [hgiven]
    exact ((List.prefix_append_right_inj _).2 hpiece).trans hchunk

/-- What was all of the Stream still is. -/
private theorem answers_of_prefix {l' : Lent β ε} {out : Nat} {answer : Except ε Nat} (h : l.Follows chunks)
    (hgave : l'.Gave chunks) (hmore : l.given <+: l'.given) (hanswers : l'.answers = l.answers ++ [(out, answer)])
    (hnew : out ≠ 0 → answer = .ok 0 → l'.given = chunks.flatten) :
    ∀ x ∈ l'.answers, x.1 ≠ 0 → x.2 = .ok 0 → l'.given = chunks.flatten := by
  intro x hx hout hok
  rw [hanswers] at hx
  rcases List.mem_append.1 hx with hx | hx
  · have hall := h.answers x hx hout hok
    rw [hall] at hmore
    exact hgave.begins.eq_of_length_le hmore.length_le
  · obtain rfl := List.mem_singleton.1 hx
    exact hnew hout hok

/-- An answer for which nothing is given: the Stream's end where all of it was. -/
theorem Follows.answer (h : l.Follows chunks) {out : Nat} {answer : Except ε Nat}
    (hall : out ≠ 0 → answer = .ok 0 → l.given = chunks.flatten) : (l.answer out answer).Follows chunks :=
  ⟨h.place, h.taken, h.gave, answers_of_prefix h h.gave (List.prefix_refl _) rfl hall⟩

theorem Follows.gives (h : l.Follows chunks) (out : Nat) : (l.gives out).Follows chunks := by
  have hgave := h.gave
  unfold Gave at hgave
  unfold Lent.gives
  cases hheld : l.held with
  | none =>
    rw [hheld] at hgave
    exact ⟨h.place, h.taken, hgave, h.answers⟩
  | some held =>
    rw [hheld] at hgave
    obtain ⟨p, hplace, hget, hoffset, hgiven⟩ := hgave
    dsimp only
    split
    · rename_i hlt
      -- One piece more of the chunk it holds.
      have hpiece : (held.take l.offset) ++ (held.drop l.offset).take (min out (held.length - l.offset)) =
          held.take (l.offset + min out (held.length - l.offset)) := List.take_add.symm
      have hgave' : ({ l with
          held := some held
          given := l.given ++ (held.drop l.offset).take (min out (held.length - l.offset))
          offset := l.offset + min out (held.length - l.offset) }.answer out
            (.ok (min out (held.length - l.offset)))).Gave chunks := by
        refine ⟨p, hplace, hget, ?_, ?_⟩
        · show l.offset + min out (held.length - l.offset) ≤ held.length
          omega
        · show l.given ++ _ = _
          rw [hgiven, List.append_assoc, hpiece]
          rfl
      refine ⟨h.place, h.taken, hgave', answers_of_prefix h hgave' (List.prefix_append ..) rfl ?_⟩
      intro hout hok
      have hzero : min out (held.length - l.offset) = 0 := by simpa using hok
      omega
    · refine ⟨h.place, h.taken, ?_, h.answers⟩
      have hend : l.offset = held.length := by omega
      show l.given = (chunks.take l.place).flatten
      rw [hgiven, hend, List.take_length, hplace, flatten_take_succ hget]

theorem Follows.takes (h : l.Follows chunks) {chunk : List β} (hheld : l.held = none)
    (hget : chunks[l.place]? = some chunk) : (l.takes chunk).Follows chunks := by
  obtain ⟨hlt, -⟩ := List.getElem?_eq_some_iff.1 hget
  have hgiven : l.given = (chunks.take l.place).flatten := by
    have hgave := h.gave
    unfold Gave at hgave
    rw [hheld] at hgave
    exact hgave
  refine ⟨hlt, ?_, ?_, h.answers⟩
  · show l.taken + chunk.length = (chunks.take (l.place + 1)).flatten.length
    rw [flatten_take_succ hget, List.length_append, h.taken]
  · refine ⟨l.place, rfl, hget, Nat.zero_le _, ?_⟩
    show l.given = _ ++ chunk.take 0
    rw [List.take_zero, List.append_nil, hgiven]

/-- Only the read it takes from, or where it is with it, changed. -/
theorem Follows.congr {l' : Lent β ε} (h : l.Follows chunks) (hplace : l'.place = l.place) (htaken : l'.taken = l.taken)
    (hheld : l'.held = l.held) (hoffset : l'.offset = l.offset) (hgiven : l'.given = l.given)
    (hanswers : l'.answers = l.answers) : l'.Follows chunks where
  place := by rw [hplace]; exact h.place
  taken := by rw [htaken, hplace]; exact h.taken
  gave := by
    unfold Gave
    rw [hheld, hgiven, hplace, hoffset]
    exact h.gave
  answers := by rw [hanswers, hgiven]; exact h.answers

end Lent

/-! ### The invariant -/

/-- `i` is a read of `stream`. -/
def IsRead (reads : List (OneRead ρ β ε)) (stream i : Nat) : Prop := ∃ o, reads[i]? = some o ∧ o.stream = stream

/-- The reads a departure has in hand. -/
def Phase.reads : Phase → List Nat
  | .moving _ _ _ pending => pending.map Prod.fst
  | .leaving _ on | .joining _ on => [on]
  | .choosing _ pending best => pending ++ (best.map Prod.snd).toList
  | .idle | .starting _ | .asking _ | .behind _ | .left | .gone => []

/-- Whether it is in a read of its Stream, past the chunk it held. -/
def Phase.inside : Phase → Bool
  | .starting _ | .moving .. | .leaving .. | .asking _ | .behind _ | .choosing .. | .joining .. => true
  | .idle | .left | .gone => false

/-- Whether it is looking for a read to take from. -/
def Phase.seeks : Phase → Bool
  | .behind _ | .choosing .. | .joining .. => true
  | _ => false

/-- Every read a departure has in hand is one of its Stream; in a read it holds no chunk; and it looks for a read only
where its place is one a chunk can be asked for at. -/
structure Lent.Placed (reads : List (OneRead ρ β ε)) (l : Lent β ε) : Prop where
  read : ∀ i ∈ l.read, IsRead reads l.stream i
  phase : ∀ i ∈ l.phase.reads, IsRead reads l.stream i
  inside : l.phase.inside = true → l.held = none
  seeks : l.phase.seeks = true → l.place < UInt32.size

structure Sys.Lends (s : Sys ρ β ε) : Prop where
  reads : ∀ (i : Nat) (o : OneRead ρ β ε), s.reads[i]? = some o → o.Follows (stands o.stream) (content o.stream)
  lists : ∀ stream shared, s.shareds.get stream = some shared →
    shared.length = c.length stream ∧ ∀ i ∈ shared.reads, IsRead s.reads stream i
  lents : ∀ (k : Nat) (l : Lent β ε), s.lents[k]? = some l → l.Follows (content l.stream) ∧ l.Placed s.reads

/-- Every read stays one of its Stream. -/
def Extends (reads reads' : List (OneRead ρ β ε)) : Prop := ∀ stream i, IsRead reads stream i → IsRead reads' stream i

theorem Extends.set {reads : List (OneRead ρ β ε)} {i : Nat} {o o' : OneRead ρ β ε} (h : reads[i]? = some o)
    (hstream : o'.stream = o.stream) : Extends reads (reads.set i o') := by
  rintro stream j ⟨p, hp, rfl⟩
  obtain ⟨hlt, -⟩ := List.getElem?_eq_some_iff.1 h
  by_cases hj : i = j
  · subst hj
    obtain rfl : o = p := Option.some.inj (h.symm.trans hp)
    exact ⟨o', List.getElem?_set_self hlt, hstream⟩
  · exact ⟨p, by rw [List.getElem?_set_ne hj, hp], rfl⟩

theorem Extends.append (reads : List (OneRead ρ β ε)) (o : OneRead ρ β ε) : Extends reads (reads ++ [o]) := by
  rintro stream i ⟨p, hp, hstream⟩
  obtain ⟨hlt, -⟩ := List.getElem?_eq_some_iff.1 hp
  exact ⟨p, by rw [List.getElem?_append_left hlt, hp], hstream⟩

theorem Lent.Placed.extends {reads reads' : List (OneRead ρ β ε)} {l : Lent β ε} (h : l.Placed reads)
    (he : Extends reads reads') : l.Placed reads' :=
  ⟨fun i hi => he _ _ (h.read i hi), fun i hi => he _ _ (h.phase i hi), h.inside, h.seeks⟩

/-- An element of a list one place of which was set. -/
private theorem getElem?_set_cases {α : Type} {l : List α} {i j : Nat} {a b : α} (h : (l.set i a)[j]? = some b) :
    j = i ∧ b = a ∨ l[j]? = some b := by
  by_cases hj : i = j
  · subst hj
    obtain ⟨hlt, -⟩ := List.getElem?_eq_some_iff.1 h
    rw [List.length_set] at hlt
    rw [List.getElem?_set_self hlt] at h
    exact .inl ⟨rfl, (Option.some.inj h).symm⟩
  · rw [List.getElem?_set_ne hj] at h
    exact .inr h

section
variable {c content stands} {s s' : Sys ρ β ε}

/-- One read changed, still of its Stream. -/
private theorem reads_set (hs : s.Lends c content stands) (i : Nat) (o' : OneRead ρ β ε)
    (ho' : o'.Follows (stands o'.stream) (content o'.stream)) (j : Nat) (p : OneRead ρ β ε)
    (hp : (s.reads.set i o')[j]? = some p) : p.Follows (stands p.stream) (content p.stream) := by
  rcases getElem?_set_cases hp with ⟨-, rfl⟩ | hp
  · exact ho'
  · exact hs.reads j p hp

/-- The list of one Stream changed, all in it still reads of the Stream. -/
private theorem lists_put (hs : s.Lends c content stands) {reads : List (OneRead ρ β ε)} (he : Extends s.reads reads)
    {stream : Nat} {shared : Shared} (hlength : shared.length = c.length stream)
    (hreads : ∀ i ∈ shared.reads, IsRead reads stream i) (stream' : Nat) (shared' : Shared)
    (h : (s.shareds.put stream shared).get stream' = some shared') :
    shared'.length = c.length stream' ∧ ∀ i ∈ shared'.reads, IsRead reads stream' i := by
  rw [Table.get_put] at h
  split at h
  · rename_i heq
    subst heq
    cases h
    exact ⟨hlength, hreads⟩
  · obtain ⟨hlength, hreads⟩ := hs.lists stream' shared' h
    exact ⟨hlength, fun i hi => he _ _ (hreads i hi)⟩

/-- A step of one departure: what it leaves of it, of its Stream's list and of the reads. -/
private theorem Sys.Lends.update (hs : s.Lends c content stands) {reads : List (OneRead ρ β ε)}
    {shareds : Table Nat Shared} {k : Nat} {l : Lent β ε}
    (hreads : ∀ (i : Nat) (o : OneRead ρ β ε), reads[i]? = some o → o.Follows (stands o.stream) (content o.stream))
    (he : Extends s.reads reads)
    (hlists : ∀ stream shared, shareds.get stream = some shared →
      shared.length = c.length stream ∧ ∀ i ∈ shared.reads, IsRead reads stream i)
    (hl : l.Follows (content l.stream)) (hplaced : l.Placed reads) :
    Sys.Lends c content stands ⟨reads, shareds, s.lents.set k l⟩ := by
  refine ⟨hreads, hlists, fun j p hp => ?_⟩
  rcases getElem?_set_cases hp with ⟨-, rfl⟩ | hp
  · exact ⟨hl, hplaced⟩
  · exact ⟨(hs.lents j p hp).1, (hs.lents j p hp).2.extends he⟩

/-- A departure leaves its read: the reads and the list with one departure less. -/
private theorem leaves_spec {l : Lent β ε} {shared : Shared} {i : Nat} {x : Sys ρ β ε × Shared}
    (hs : s.Lends c content stands) (h : s.leaves l shared i = some x) :
    x.1.shareds = s.shareds ∧ x.1.lents = s.lents ∧ Extends s.reads x.1.reads ∧
      (∀ (i : Nat) (o : OneRead ρ β ε), x.1.reads[i]? = some o → o.Follows (stands o.stream) (content o.stream)) ∧
      x.2.length = shared.length ∧ ∀ j ∈ x.2.reads, j ∈ shared.reads := by
  obtain ⟨on, hon, h⟩ := Option.bind_eq_some_iff.1 h
  obtain ⟨-, h⟩ := Option.ite_none_right_eq_some.1 h
  cases h
  refine ⟨rfl, rfl, .set hon rfl, reads_set hs _ _ ((hs.reads i on hon).congr rfl rfl rfl rfl rfl), rfl, ?_⟩
  intro j hj
  dsimp only at hj
  split at hj
  · exact List.mem_of_mem_filter hj
  · exact hj

/-! ### What each step leaves of it -/

private theorem readerOf_lends (hs : s.Lends c content stands) (stream : Nat) :
    (s.readerOf c stream).Lends c content stands := by
  -- The list it joins: the Stream's, or a new one.
  have hshared : ∃ shared : Shared, shared.length = c.length stream ∧ (∀ i ∈ shared.reads, IsRead s.reads stream i) ∧
      s.readerOf c stream = ⟨s.reads, s.shareds.put stream { shared with numbered := shared.numbered + 1 },
        s.lents ++ [⟨stream, none, shared.numbered, 0, 0, none, 0, .behind none, [], []⟩]⟩ := by
    refine ⟨_, ?_, ?_, rfl⟩
    · split
      · cases hget : s.shareds.get stream with
        | none => rfl
        | some shared => exact (hs.lists stream shared hget).1
      · rfl
    · split
      · cases hget : s.shareds.get stream with
        | none =>
          intro i hi
          cases hi
        | some shared => exact (hs.lists stream shared hget).2
      · intro i hi
        cases hi
  obtain ⟨shared, hlength, hreads, heq⟩ := hshared
  rw [heq]
  refine ⟨hs.reads, lists_put hs (fun _ _ h => h) hlength hreads, fun k l hl => ?_⟩
  dsimp only at hl
  rw [List.getElem?_append] at hl
  split at hl
  · exact hs.lents k l hl
  · obtain rfl := List.mem_singleton.1 (List.mem_of_getElem? hl)
    refine ⟨⟨Nat.zero_le _, by simp, by simp [Lent.Gave], fun x hx => (by cases hx)⟩, ?_⟩
    exact ⟨fun i hi => (by cases hi), fun i hi => (by cases hi), fun _ => rfl, fun _ => Nat.zero_lt_succ _⟩

private theorem asks_lends (hc : InOrder c content stands) {k : Nat} {l : Lent β ε} {a : Action ω}
    (hs : s.Lends c content stands) (hl : s.lents[k]? = some l) (h : s.asks c k l a = some s') :
    s'.Lends c content stands := by
  obtain ⟨hfollows, hplaced⟩ := hs.lents k l hl
  have hgives {l : Lent β ε} (hread : ∀ i ∈ l.read, IsRead s.reads l.stream i) (out : Nat) :
      (l.gives out).Placed s.reads ∧ (l.gives out).stream = l.stream := by
    unfold Lent.gives
    split
    · dsimp only
      split
      · exact ⟨⟨hread, fun i hi => (by cases hi), fun h => (by cases h), fun h => (by cases h)⟩, rfl⟩
      · exact ⟨⟨hread, fun i hi => (by cases hi), fun _ => rfl, fun h => (by cases h)⟩, rfl⟩
    · rename_i hheld
      exact ⟨⟨hread, fun i hi => (by cases hi), fun _ => hheld, fun h => (by cases h)⟩, rfl⟩
  cases a with
  | read _ out =>
    unfold Sys.asks at h
    dsimp only at h
    split at h
    · cases h
      refine hs.update hs.reads (fun _ _ h => h) hs.lists ?_ ?_
      · split
        · exact hfollows.answer fun hne => absurd rfl hne
        · rw [(hgives hplaced.read out).2]
          exact hfollows.gives out
      · split
        · exact ⟨hplaced.read, fun i hi => (by cases hi), fun h => (by cases h), fun h => (by cases h)⟩
        · exact (hgives hplaced.read out).1
    · cases h
  | ask _ now w =>
    unfold Sys.asks at h
    dsimp only at h
    split at h
    · rename_i out hphase
      obtain ⟨i, hi, h⟩ := Option.bind_eq_some_iff.1 h
      obtain ⟨o, ho, h⟩ := Option.bind_eq_some_iff.1 h
      obtain ⟨-, h⟩ := Option.ite_none_right_eq_some.1 h
      cases h
      have hheld : l.held = none := hplaced.inside (by rw [hphase]; rfl)
      have hstream : o.stream = l.stream := by
        obtain ⟨p, hp, hstream⟩ := hplaced.read i hi
        obtain rfl : o = p := Option.some.inj (ho.symm.trans hp)
        exact hstream
      obtain ⟨hread, hsame, hchunk, hended⟩ :=
        OneRead.chunk_follows hc (hs.reads i o ho) l.number l.place c.stall now w
      rw [hstream] at hchunk hended
      have he (holder : Option Nat) : Extends s.reads
          (s.reads.set i { (o.chunk c.readers l.number l.place c.stall now w).2 with holder }) := .set ho hsame
      have hreads (holder : Option Nat) := reads_set hs i
        { (o.chunk c.readers l.number l.place c.stall now w).2 with holder }
        (by rw [show (OneRead.stream _) = o.stream from hsame]; exact hread.congr rfl rfl rfl rfl rfl)
      have hlists (holder : Option Nat) (stream : Nat) (shared : Shared) (hget : s.shareds.get stream = some shared) :
          shared.length = c.length stream ∧ ∀ j ∈ shared.reads, IsRead
            (s.reads.set i { (o.chunk c.readers l.number l.place c.stall now w).2 with holder }) stream j :=
        ⟨(hs.lists stream shared hget).1, fun j hj => he holder _ _ ((hs.lists stream shared hget).2 j hj)⟩
      have hanswer (answer : Except ε Nat) : (l.answer out answer).Placed s.reads :=
        ⟨hplaced.read, fun i hi => (by cases hi), fun h => (by cases h), fun h => (by cases h)⟩
      split
      · exact hs.update (hreads _) (he _) (hlists _) hfollows (hplaced.extends (he _))
      · exact hs.update (hreads _) (he _) (hlists _) hfollows (hplaced.extends (he _))
      · exact hs.update (hreads _) (he _) (hlists _) (hfollows.answer fun _ he => (by cases he))
          ((hanswer _).extends (he _))
      · rename_i hturn
        refine hs.update (hreads _) (he _) (hlists _) (hfollows.answer fun _ _ => ?_) ((hanswer _).extends (he _))
        -- Its place is the Stream's end, and it holds nothing it did not give.
        have hgave := hfollows.gave
        unfold Lent.Gave at hgave
        rw [hheld] at hgave
        rw [hgave, List.take_of_length_le (hended hturn)]
      · rename_i chunk hturn
        have htakes := hfollows.takes hheld (hchunk chunk hturn)
        obtain ⟨hgplaced, hgstream⟩ := hgives (l := l.takes chunk) hplaced.read out
        refine hs.update (hreads _) (he _) (hlists _) ?_ (hgplaced.extends (he _))
        rw [hgstream]
        exact htakes.gives out
      · split
        · exact hs.update (hreads _) (he _) (hlists _) (hfollows.answer fun _ he => (by cases he))
            ((hanswer _).extends (he _))
        · rename_i hplace
          refine hs.update (hreads _) (he _) (hlists _) (hfollows.congr rfl rfl rfl rfl rfl rfl) ?_
          exact Lent.Placed.extends ⟨hplaced.read, fun i hi => (by cases hi), fun _ => hheld, fun _ => (by
            show l.place < UInt32.size
            omega)⟩ (he _)
    · cases h
  | reader | move | tryMove | leave | fall | look | choose | join | drop | dropped => cases h

/-- The phases whose reads are all of one list. -/
private theorem placed_of_reads {reads : List (OneRead ρ β ε)} {l : Lent β ε} (h : l.Placed reads) {phase : Phase}
    (hreads : ∀ i ∈ phase.reads, IsRead reads l.stream i) (hinside : phase.inside = true → l.phase.inside = true)
    (hseeks : phase.seeks = true → l.phase.seeks = true) : { l with phase }.Placed reads :=
  ⟨h.read, hreads, fun hin => h.inside (hinside hin), fun hse => h.seeks (hseeks hse)⟩

/-- Once it has joined a read of its Stream. -/
private theorem placed_joined {reads : List (OneRead ρ β ε)} {l : Lent β ε} {out : Option Nat} {i : Nat}
    (hi : IsRead reads l.stream i) (hheld : l.held = none) :
    ({ l with read := some i, phase := .joined out } : Lent β ε).Placed reads := by
  refine ⟨fun j hj => ?_, fun j hj => ?_, fun _ => hheld, fun h => ?_⟩
  · cases hj
    exact hi
  · cases out <;> cases hj
  · cases out <;> cases h

private theorem leavesOwn_spec {l : Lent β ε} {shared : Shared} {x : Sys ρ β ε × Shared} (hs : s.Lends c content stands)
    (hx : s.leavesOwn l shared = some x) :
    x.1.shareds = s.shareds ∧ x.1.lents = s.lents ∧ Extends s.reads x.1.reads ∧
      (∀ (i : Nat) (o : OneRead ρ β ε), x.1.reads[i]? = some o → o.Follows (stands o.stream) (content o.stream)) ∧
      x.2.length = shared.length ∧ ∀ j ∈ x.2.reads, j ∈ shared.reads := by
  unfold Sys.leavesOwn at hx
  split at hx
  · exact leaves_spec hs hx
  · cases hx
    exact ⟨rfl, rfl, fun _ _ h => h, hs.reads, rfl, fun _ h => h⟩

private theorem opens_lends (hc : InOrder c content stands) {k now : Nat} {l : Lent β ε} {shared : Shared} {out : Option Nat}
    {reader : ρ} (hs : s.Lends c content stands) (hl : s.lents[k]? = some l)
    (hshared : s.shareds.get l.stream = some shared) (hphase : l.phase = .choosing out [] none)
    (hreader : reader = c.readers.sharedFrom l.stream shared.length (min l.place (UInt32.size - 1)) l.taken) :
    Sys.Lends c content stands { s with
      reads := s.reads ++ [(OneRead.opened l.stream reader l.place).join l.number l.place now]
      shareds := s.shareds.put l.stream { shared with reads := shared.reads ++ [s.reads.length], holder := none }
      lents := s.lents.set k { l with read := some s.reads.length, phase := .joined out } } := by
  obtain ⟨hfollows, hplaced⟩ := hs.lents k l hl
  obtain ⟨hlength, hlist⟩ := hs.lists l.stream shared hshared
  have hplace : l.place < UInt32.size := hplaced.seeks (by rw [hphase]; rfl)
  have hheld : l.held = none := hplaced.inside (by rw [hphase]; rfl)
  have he : Extends s.reads (s.reads ++ [(OneRead.opened l.stream reader l.place).join l.number l.place now]) :=
    .append s.reads _
  have hnew : IsRead (s.reads ++ [(OneRead.opened l.stream reader l.place).join l.number l.place now]) l.stream
      s.reads.length :=
    ⟨_, List.getElem?_concat_length, rfl⟩
  -- The reader is opened at its place, all before it taken.
  have hopened := hc.opened l.stream l.place hfollows.place
  rw [← hfollows.taken, ← hlength] at hopened
  refine hs.update ?_ he (lists_put hs he hlength ?_) (hfollows.congr rfl rfl rfl rfl rfl rfl)
    (placed_joined hnew hheld)
  · intro i o ho
    rw [List.getElem?_append] at ho
    split at ho
    · exact hs.reads i o ho
    · obtain rfl := List.mem_singleton.1 (List.mem_of_getElem? ho)
      refine OneRead.Follows.congr (.opened l.stream hfollows.place ?_) rfl rfl rfl rfl rfl
      rw [hreader, show min l.place (UInt32.size - 1) = l.place by omega]
      exact hopened
  · intro i hi
    rcases List.mem_append.1 hi with hi | hi
    · exact he _ _ (hlist i hi)
    · rw [List.mem_singleton.1 hi]
      exact hnew

private theorem moved_lends (hc : InOrder c content stands) {k : Nat} {l : Lent β ε} {shared : Shared}
    (hs : s.Lends c content stands) (hl : s.lents[k]? = some l) (hshared : s.shareds.get l.stream = some shared)
    (h : s.Moved c k l shared s') : s'.Lends c content stands := by
  obtain ⟨hfollows, hplaced⟩ := hs.lents k l hl
  obtain ⟨hlength, hlist⟩ := hs.lists l.stream shared hshared
  have hasking {out : Nat} (hin : l.phase.inside = true) : ({ l with phase := .asking out } : Lent β ε).Placed s.reads :=
    placed_of_reads hplaced (fun i hi => (by cases hi)) (fun _ => hin) fun h => (by cases h)
  cases h with
  | stays hphase =>
    exact hs.update hs.reads (fun _ _ h => h) hs.lists (hfollows.congr rfl rfl rfl rfl rfl rfl)
      (hasking (by rw [hphase]; rfl))
  | moves hphase =>
    refine hs.update hs.reads (fun _ _ h => h) (lists_put hs (fun _ _ h => h) hlength hlist)
      (hfollows.congr rfl rfl rfl rfl rfl rfl)
      (placed_of_reads hplaced ?_ (fun _ => by rw [hphase]; rfl) fun h => (by cases h))
    intro i hi
    obtain ⟨x, hx, rfl⟩ := List.mem_map.1 hi
    exact hlist x.1 (List.fst_mem_of_mem_zipIdx hx)
  | found hphase =>
    exact hs.update hs.reads (fun _ _ h => h) (lists_put hs (fun _ _ h => h) hlength hlist)
      (hfollows.congr rfl rfl rfl rfl rfl rfl) (hasking (by rw [hphase]; rfl))
  | passes hphase =>
    refine hs.update hs.reads (fun _ _ h => h) hs.lists (hfollows.congr rfl rfl rfl rfl rfl rfl)
      (placed_of_reads hplaced (fun j hj => hplaced.phase j ?_) (fun _ => by rw [hphase]; rfl) fun h => (by cases h))
    rw [hphase]
    exact List.mem_cons_of_mem _ hj
  | @follows out others mine i pos now pending o hphase ho =>
    have he : Extends s.reads (s.reads.set i (o.join l.number l.place now)) := .set ho rfl
    refine hs.update (reads_set hs _ _ ((hs.reads i o ho).congr rfl rfl rfl rfl rfl)) he
      (fun stream shared hget => ⟨(hs.lists stream shared hget).1,
        fun j hj => he _ _ ((hs.lists stream shared hget).2 j hj)⟩)
      (hfollows.congr rfl rfl rfl rfl rfl rfl) (Lent.Placed.extends (placed_of_reads hplaced (fun j hj => ?_)
        (fun _ => by rw [hphase]; rfl) fun h => (by cases h)) he)
    rw [List.mem_singleton.1 hj]
    refine hplaced.phase i ?_
    rw [hphase]
    exact List.mem_cons_self ..
  | @leaves out i on x hphase hx =>
    obtain ⟨hshareds, hlents, he, hreads, hlen, hsub⟩ := leaves_spec hs hx
    rw [hshareds, hlents]
    refine hs.update hreads he (lists_put hs he (hlen.trans hlength) fun j hj => he _ _ (hlist j (hsub j hj)))
      (hfollows.congr rfl rfl rfl rfl rfl rfl) (Lent.Placed.extends ⟨?_, fun i hi => (by cases hi), fun _ => ?_,
        fun h => (by cases h)⟩ he)
    · intro j hj
      cases hj
      refine hplaced.phase i ?_
      rw [hphase]
      exact List.mem_singleton.2 rfl
    · exact hplaced.inside (by rw [hphase]; rfl)
  | @falls out x hphase hx =>
    obtain ⟨hshareds, hlents, he, hreads, hlen, hsub⟩ := leavesOwn_spec hs hx
    rw [hshareds, hlents]
    refine hs.update hreads he (lists_put hs he (hlen.trans hlength) fun j hj => he _ _ (hlist j (hsub j hj)))
      (hfollows.congr rfl rfl rfl rfl rfl rfl) (Lent.Placed.extends (placed_of_reads hplaced (fun j hj => ?_)
        (fun _ => by rw [hphase]; rfl) fun _ => by rw [hphase]; rfl) he)
    have hmem : j ∈ x.2.reads := by simpa [Phase.reads] using hj
    exact hlist j (hsub j hmem)
  | @looks out i pending best best' hphase hbest =>
    refine hs.update hs.reads (fun _ _ h => h) hs.lists (hfollows.congr rfl rfl rfl rfl rfl rfl)
      (placed_of_reads hplaced ?_ (fun _ => by rw [hphase]; rfl) fun _ => by rw [hphase]; rfl)
    have hwas : ∀ j ∈ (i :: pending) ++ (best.map Prod.snd).toList, IsRead s.reads l.stream j := by
      intro j hj
      refine hplaced.phase j ?_
      rw [hphase]
      exact hj
    intro j hj
    rcases List.mem_append.1 hj with hj | hj
    · exact hwas j (List.mem_append_left _ (List.mem_cons_of_mem _ hj))
    · rcases hbest with rfl | ⟨n, rfl⟩
      · exact hwas j (List.mem_append_right _ hj)
      · obtain rfl : j = i := by simpa using hj
        exact hwas j (List.mem_append_left _ (List.mem_cons_self ..))
  | chooses hphase =>
    refine hs.update hs.reads (fun _ _ h => h) hs.lists (hfollows.congr rfl rfl rfl rfl rfl rfl)
      (placed_of_reads hplaced (fun j hj => hplaced.phase j ?_) (fun _ => by rw [hphase]; rfl)
        fun _ => by rw [hphase]; rfl)
    rw [hphase]
    exact hj
  | opens hphase hreader => exact opens_lends hc hs hl hshared hphase hreader
  | @joins out i now o hphase ho =>
    have he : Extends s.reads (s.reads.set i (o.join l.number l.place now)) := .set ho rfl
    have hi : IsRead s.reads l.stream i := hplaced.phase i (by rw [hphase]; exact List.mem_singleton.2 rfl)
    exact hs.update (reads_set hs _ _ ((hs.reads i o ho).congr rfl rfl rfl rfl rfl)) he
      (lists_put hs he hlength fun j hj => he _ _ (hlist j hj)) (hfollows.congr rfl rfl rfl rfl rfl rfl)
      (placed_joined (he _ _ hi) (hplaced.inside (by rw [hphase]; rfl)))
  | @drops on x hphase hx =>
    obtain ⟨hshareds, hlents, he, hreads, hlen, hsub⟩ := leaves_spec hs hx
    rw [hshareds, hlents]
    exact hs.update hreads he (lists_put hs he (hlen.trans hlength) fun j hj => he _ _ (hlist j (hsub j hj)))
      (hfollows.congr rfl rfl rfl rfl rfl rfl) (Lent.Placed.extends (placed_of_reads hplaced
        (fun i hi => (by cases hi)) (fun h => (by cases h)) fun h => (by cases h)) he)
  | dropped _ =>
    exact hs.update hs.reads (fun _ _ h => h) hs.lists (hfollows.congr rfl rfl rfl rfl rfl rfl)
      (placed_of_reads hplaced (fun i hi => (by cases hi)) (fun h => (by cases h)) fun h => (by cases h))

private theorem next_lends (hc : InOrder c content stands) {a : Action ω} (hs : s.Lends c content stands)
    (h : s.next c a = some s') : s'.Lends c content stands := by
  rcases Sys.next_cases h with ⟨stream, rfl⟩ | ⟨k, l, hl, h⟩ | ⟨k, l, shared, hl, hshared, h⟩
  · exact readerOf_lends hs stream
  · exact asks_lends hc hs hl h
  · exact moved_lends hc hs hl hshared h

private theorem starting_lends (h : Starts s) : s.Lends c content stands := by
  subst h
  refine ⟨?_, ?_, ?_⟩
  · intro i o h
    cases h
  · intro stream shared h
    cases h
  · intro k l h
    cases h

/-! ### A read that fails is said so -/

/-- A turn in which a read fails is one that asked Xmip Storage, and says why. -/
private theorem chunk_failed {o : OneRead ρ β ε} {number place stall now : Nat} {w : ω} {why : ε}
    (hwas : o.failed = none) (h : (o.chunk c.readers number place stall now w).2.failed = some why) :
    (o.chunk c.readers number place stall now w).1 = .answered (.error why) := by
  unfold OneRead.chunk at h ⊢
  rw [hwas] at h ⊢
  dsimp only at h ⊢
  split at h
  · exact absurd (hwas.symm.trans h) (by simp)
  · split at h
    · have htook : (o.tookBy number (place + 1) now).failed = o.failed := by
        unfold OneRead.tookBy
        split <;> rfl
      rw [htook, hwas] at h
      cases h
    · split at h
      · exact absurd (hwas.symm.trans h) (by simp)
      · split at h
        · exact absurd (hwas.symm.trans h) (by simp)
        · split at h
          · cases h
          · cases h
          · rename_i hended hwaits _ _ _ _
            cases h
            rw [if_neg ‹¬place < o.first›, if_neg hended, if_neg hwaits]

/-- No read fails. -/
def Quiet (reads reads' : List (OneRead ρ β ε)) : Prop :=
  ∀ (i : Nat) (o o' : OneRead ρ β ε), reads[i]? = some o → reads'[i]? = some o' → o'.failed = o.failed

private theorem Quiet.refl (reads : List (OneRead ρ β ε)) : Quiet reads reads := by
  intro i o o' ho ho'
  rw [ho] at ho'
  cases ho'
  rfl

private theorem Quiet.set {reads : List (OneRead ρ β ε)} {i : Nat} {o o' : OneRead ρ β ε} (h : reads[i]? = some o)
    (hfailed : o'.failed = o.failed) : Quiet reads (reads.set i o') := by
  intro j p p' hp hp'
  rcases getElem?_set_cases hp' with ⟨rfl, rfl⟩ | hp'
  · obtain rfl : o = p := Option.some.inj (h.symm.trans hp)
    exact hfailed
  · exact Quiet.refl reads j p p' hp hp'

private theorem Quiet.append (reads : List (OneRead ρ β ε)) (o : OneRead ρ β ε) : Quiet reads (reads ++ [o]) := by
  intro i p p' hp hp'
  obtain ⟨hlt, -⟩ := List.getElem?_eq_some_iff.1 hp
  rw [List.getElem?_append_left hlt] at hp'
  exact Quiet.refl reads i p p' hp hp'

private theorem leaves_quiet {l : Lent β ε} {shared : Shared} {i : Nat} {x : Sys ρ β ε × Shared}
    (h : s.leaves l shared i = some x) : Quiet s.reads x.1.reads := by
  obtain ⟨on, hon, h⟩ := Option.bind_eq_some_iff.1 h
  obtain ⟨-, h⟩ := Option.ite_none_right_eq_some.1 h
  cases h
  exact .set hon rfl

/-- No read fails where no chunk is asked for. -/
private theorem moved_quiet {k : Nat} {l : Lent β ε} {shared : Shared} (h : s.Moved c k l shared s') :
    Quiet s.reads s'.reads := by
  cases h with
  | follows _ ho => exact .set ho rfl
  | leaves _ hx => exact leaves_quiet hx
  | falls _ hx =>
    unfold Sys.leavesOwn at hx
    split at hx
    · exact leaves_quiet hx
    · cases hx
      exact .refl s.reads
  | opens => exact .append s.reads _
  | joins _ ho => exact .set ho rfl
  | drops _ hx => exact leaves_quiet hx
  | stays | moves | found | passes | looks | chooses | dropped => exact .refl s.reads

/-- What one turn of a departure's search leaves of it and of its read. -/
private theorem ask_cases {k j now : Nat} {w : ω} {l : Lent β ε} (h : s.asks c k l (.ask j now w) = some s') :
    ∃ out i o holder l', l.phase = .asking out ∧ l.read = some i ∧ s.reads[i]? = some o ∧
      s' = { s with
        reads := s.reads.set i { (o.chunk c.readers l.number l.place c.stall now w).2 with holder }
        lents := s.lents.set k l' } ∧
      ∀ why, (o.chunk c.readers l.number l.place c.stall now w).1 = .answered (.error why) →
        l' = l.answer out (.error why) := by
  unfold Sys.asks at h
  dsimp only at h
  split at h
  · rename_i out hphase
    obtain ⟨i, hi, h⟩ := Option.bind_eq_some_iff.1 h
    obtain ⟨o, ho, h⟩ := Option.bind_eq_some_iff.1 h
    obtain ⟨-, h⟩ := Option.ite_none_right_eq_some.1 h
    cases h
    refine ⟨out, i, o, _, _, hphase, hi, ho, rfl, ?_⟩
    intro why hturn
    rw [hturn]
  · cases h

private theorem next_reports (s : Sys ρ β ε) : s.Reports c := by
  refine ⟨?_, ?_⟩
  · intro a s' i o o' why h ho ho' hwas hfailed
    have hquiet : Quiet s.reads s'.reads → False := fun hq => by
      have := hq i o o' ho ho'
      rw [hwas, hfailed] at this
      cases this
    rcases Sys.next_cases h with ⟨stream, rfl⟩ | ⟨k, l, hl, h⟩ | ⟨k, l, shared, hl, hshared, h⟩
    · exact (hquiet (.refl s.reads)).elim
    · cases a with
      | read _ out =>
        unfold Sys.asks at h
        dsimp only at h
        split at h
        · cases h
          exact (hquiet (.refl s.reads)).elim
        · cases h
      | ask _ now w =>
        obtain ⟨out, j, p, holder, l', -, -, hp, rfl, hanswer⟩ := ask_cases h
        obtain ⟨hlt, -⟩ := List.getElem?_eq_some_iff.1 hl
        rcases getElem?_set_cases ho' with ⟨rfl, rfl⟩ | ho'
        · obtain rfl : o = p := Option.some.inj (ho.symm.trans hp)
          rw [hanswer why (chunk_failed hwas hfailed)]
          exact ⟨k, l, _, out, hl, List.getElem?_set_self hlt, rfl, rfl⟩
        · have hsame := Quiet.refl s.reads i o o' ho ho'
          rw [hwas, hfailed] at hsame
          cases hsame
      | reader | move | tryMove | leave | fall | look | choose | join | drop | dropped => cases h
    · exact (hquiet (moved_quiet h)).elim
  · intro k now w s' l out i o why h hl hphase hi ho hfailed
    obtain ⟨p, hp, h⟩ := Option.bind_eq_some_iff.1 h
    obtain rfl : l = p := Option.some.inj (hl.symm.trans hp)
    obtain ⟨out', j, q, holder, l', hphase', hj, hq, rfl, hanswer⟩ := ask_cases h
    obtain ⟨hlt, -⟩ := List.getElem?_eq_some_iff.1 hl
    obtain rfl : out = out' := Phase.asking.inj (hphase.symm.trans hphase')
    obtain rfl : i = j := Option.some.inj (hi.symm.trans hj)
    obtain rfl : o = q := Option.some.inj (ho.symm.trans hq)
    have hturn : (o.chunk c.readers l.number l.place c.stall now w).1 = .answered (.error why) := by
      unfold OneRead.chunk
      rw [hfailed]
    rw [hanswer why hturn]
    exact ⟨_, List.getElem?_set_self hlt, rfl, rfl⟩

/-- In every run each departure was given a beginning of its Stream, and all of it before it is told the Stream ends;
and a read that fails is said so. -/
theorem faithful_of_inOrder (hc : InOrder c content stands) (h : Reach (Sys.next c) Always Starts s) :
    s.Faithful content ∧ s.Reports c := by
  have hs : s.Lends c content stands :=
    Reach.invariant (fun _ h => starting_lends h) (fun _ _ _ hs _ h => next_lends hc hs h) h
  refine ⟨fun l hl => ?_, next_reports s⟩
  obtain ⟨k, hk⟩ := List.getElem?_of_mem hl
  obtain ⟨hfollows, -⟩ := hs.lents k l hk
  exact ⟨hfollows.gave.begins, hfollows.answers⟩

end

/-! ### A fan-out of two -/

/-- A Stream of three chunks. -/
def threeChunks : List (List Nat) := [[1, 2], [3], [4, 5]]

/-- Xmip Storage with the one Stream, its readers standing at a chunk; whether it answers is told each time. -/
def threeChunksKept : Settings Nat Bool Nat String where
  readers :=
    { sharedFrom := fun _ _ chunk _ => chunk
      nextChunk := fun answers i => (if answers then .ok threeChunks[i]? else .error "unanswered", i + 1) }
  stall := 10
  length := fun _ => 5
  pastItsChunks := "a Stream past its chunks"

private theorem threeChunksKept_inOrder :
    InOrder threeChunksKept (fun _ => threeChunks) fun _ x i => x = i ∧ i ≤ threeChunks.length := by
  refine ⟨fun stream i hi => ⟨rfl, hi⟩, ?_, ?_⟩
  · rintro stream x i w bytes x' ⟨rfl, hi⟩ h
    obtain ⟨hanswer, rfl⟩ := Prod.mk.inj h
    cases w with
    | false => cases hanswer
    | true =>
      have hget : threeChunks[x]? = some bytes := Except.ok.inj hanswer
      exact ⟨hget, rfl, (List.getElem?_eq_some_iff.1 hget).1⟩
  · rintro stream x i w x' ⟨rfl, hi⟩ h
    obtain ⟨hanswer, -⟩ := Prod.mk.inj h
    cases w with
    | false => cases hanswer
    | true =>
      have hget : threeChunks[x]? = none := Except.ok.inj hanswer
      exact Nat.le_antisymm hi (List.getElem?_eq_none_iff.1 hget)

/-- The departure of its Stream that began late reads its first chunk by itself, from where it stands, moves to the first
one's read for the next, and is told the end once it was given all. -/
theorem faithful_begunLate :
    ∃ s, Reach (Sys.next threeChunksKept) Always Starts s ∧
      (s.Faithful (fun _ => threeChunks) ∧ s.Reports threeChunksKept) ∧
      s.lents.map Lent.given = [[1, 2, 3], [1, 2, 3, 4, 5]] ∧ s.lents.map Lent.read = [some 0, some 0] := by
  obtain ⟨s, hs, hp⟩ := Reach.exists_of_runWhere (Sys.next threeChunksKept) Always
    (show Starts (.starting : Sys Nat Nat String) from rfl)
    [.reader 9, .fall 0, .choose 0 0, .read 0 2, .move 0, .ask 0 0 true, .ask 0 0 true, .read 0 2, .move 0,
      .ask 0 0 true, .ask 0 0 true, .reader 9, .fall 1, .look 1, .choose 1 1, .read 1 4, .move 1, .tryMove 1 1 false,
      .tryMove 1 1 false, .tryMove 1 1 false, .ask 1 1 true, .ask 1 1 true, .read 1 4, .move 1, .tryMove 1 1 false,
      .leave 1, .ask 1 1 true, .read 1 4, .move 1, .ask 1 2 true, .ask 1 2 true, .read 1 4, .move 1, .ask 1 3 true,
      .ask 1 3 true]
    (fun s => decide (s.lents.map Lent.given = [[1, 2, 3], [1, 2, 3, 4, 5]]) &&
      decide (s.lents.map Lent.read = [some 0, some 0])) (by decide +kernel)
  simp only [Bool.and_eq_true, decide_eq_true_eq] at hp
  exact ⟨s, hs, faithful_of_inOrder threeChunksKept_inOrder hs, hp⟩

end StreamShare
