import XmipRuntime.Library.Answers
import XmipRuntime.Library.Pieces

/-!
# A Stream written in chunks

`write_stream` (`src/ledger.rs`) reads a Stream a chunk at a time and writes each chunk before the next is read, but for
the one read ahead to know whether there is more; the last goes with the Stream's own record, which keeps its length, how
many chunks it has and the digest of its bytes, each kept as the chunks pass.

A reader gives what it has in pieces of its own, interrupted or failing where it likes; what a larger or smaller buffer
gets of a piece at once makes no difference to a read that goes on to the end of its chunk.  Xmip Storage takes a call or
refuses it, and is told here by the number of the call.  The digest is another program's.  Lengths and numbers of chunks are
counted in the bits the source gives them.
-/

namespace WriteStream

open Library

abbrev Bytes := List UInt8

/-! ### The reader -/

/-- What one read of the content comes to; no bytes are its end, and so is nothing more. -/
inductive Event where
  | data (bytes : Bytes)
  | interrupted
  | fails (why : String)

/-- What a reader gives up to its end. -/
def content : List Event → Except String Bytes
  | [] => .ok []
  | .data [] :: _ => .ok []
  | .data bytes :: events => (content events).map (bytes ++ ·)
  | .interrupted :: events => content events
  | .fails why :: _ => .error why

/-- How many bytes a reader has still to give. -/
def left : List Event → Nat
  | [] => 0
  | .data bytes :: events => bytes.length + left events
  | _ :: events => left events

/-- Up to `n` bytes read to the end, fewer only at the reader's end, and what it has to give after. -/
def readToEnd : Nat → List Event → Except String (Bytes × List Event)
  | 0, events => .ok ([], events)
  | _, [] => .ok ([], [])
  | _, .data [] :: events => .ok ([], events)
  | n, .data bytes :: events =>
    if bytes.length ≤ n then (readToEnd (n - bytes.length) events).map fun r => (bytes ++ r.1, r.2)
    else .ok (bytes.take n, .data (bytes.drop n) :: events)
  | n, .interrupted :: events => readToEnd n events
  | _, .fails why :: _ => .error why

/-- Why a Stream was not written: in words, or by a panic. -/
inductive Failed where
  | said (text : String)
  | panicked
  deriving DecidableEq

/-- Up to `chunk` bytes of the content. -/
def fill (events : List Event) (chunk : Nat) : Except Failed (Bytes × List Event) :=
  match readToEnd chunk events with
  | .ok read => .ok read
  | .error failed => .error (.said ("the Stream could not be read: " ++ failed))

/-! ### Writing -/

structure Kept where
  stream : Nat
  length : Nat
  chunks : Nat
  deriving DecidableEq

structure StreamChunk where
  stream : Nat
  index : Nat
  bytes : Bytes
  deriving DecidableEq

/-- A Stream's own record: its length, its chunks and its digest. -/
structure StreamRecord (δ : Type) where
  stream : Nat
  length : Nat
  chunks : Nat
  digest : δ
  deriving DecidableEq

/-- What Xmip Storage took: a chunk, and with the last one the Stream's record. -/
structure Call (δ : Type) where
  chunk : StreamChunk
  ended : Option (StreamRecord δ)
  deriving DecidableEq

/-- A digest taken of bytes as they pass. -/
structure StreamDigest (η δ : Type) where
  start : η
  update : η → Bytes → η
  finish : η → δ

/-- How sums are made, what the digest is, the chunk, and which calls Xmip Storage refuses, by their number. -/
structure Setup (η δ : Type) where
  (trapping : Bool)
  digest : StreamDigest η δ
  stream : Nat
  chunk : Nat
  refuses : Nat → Option String

variable {η δ : Type}

/-- The chunk a Stream is written in: one byte at least. -/
def Setup.size (c : Setup η δ) : Nat := max c.chunk 1

/-- What is read ahead of a chunk to know whether there is more: nothing behind one that is not full. -/
def Setup.ahead (c : Setup η δ) (pending : Bytes) (events : List Event) : Except Failed (Option (Bytes × List Event)) :=
  if pending.length < c.size then .ok none
  else match fill events c.size with
    | .error failed => .error failed
    | .ok ([], _) => .ok none
    | .ok (next, events) => .ok (some (next, events))

/-- The length and the number of chunks with `pending` written; nothing where a sum panics. -/
def Setup.counted (c : Setup η δ) (kept : Kept) (pending : Bytes) : Option Kept := do
  let length ← addBits c.trapping 64 kept.length pending.length
  let chunks ← addBits c.trapping 32 kept.chunks 1
  return { kept with length, chunks }

/-- One call of Xmip Storage, after those it took: refused in words, or taken. -/
def Setup.write (c : Setup η δ) (taken : List (Call δ)) (call : Call δ) : Except Failed (List (Call δ)) :=
  match c.refuses taken.length with
  | some failed => .error (.said ("Xmip Storage did not take the Stream " ++ toString c.stream ++ ": " ++ failed))
  | none => .ok (taken ++ [call])

/-- The chunk `pending` of `events`, numbered as `kept` says, with the Stream's record where it is the last. -/
def Setup.call (c : Setup η δ) (index : Nat) (pending : Bytes) (ended : Option (StreamRecord δ)) : Call δ :=
  ⟨⟨c.stream, index, pending⟩, ended⟩

theorem content_data {bytes : Bytes} {events : List Event} (h : bytes ≠ []) :
    content (.data bytes :: events) = (content events).map (bytes ++ ·) := by
  cases bytes with
  | nil => exact absurd rfl h
  | cons => rfl

/-- What is read is of what the reader has to give: all of it where it is fewer than asked, else its front. -/
theorem readToEnd_ok {n : Nat} {events rest : List Event} {got : Bytes} (h : readToEnd n events = .ok (got, rest)) :
    got.length ≤ n ∧ got.length + left rest ≤ left events ∧ (got.length < n → content events = .ok got) ∧
      (got.length = n → content events = (content rest).map (got ++ ·)) := by
  fun_induction readToEnd n events generalizing got with
  | case1 events =>
    cases h
    refine ⟨Nat.le_refl _, by simp, fun h => absurd h (Nat.lt_irrefl _), fun _ => ?_⟩
    cases hcontent : content rest with
    | error => rfl
    | ok => rfl
  | case2 n hn =>
    cases h
    exact ⟨Nat.zero_le _, by simp, fun _ => rfl, fun h => absurd h.symm hn⟩
  | case3 n events hn =>
    cases h
    exact ⟨Nat.zero_le _, by simp [left], fun _ => rfl, fun h => absurd h.symm hn⟩
  | case4 n bytes events hn hne hle ih =>
    obtain ⟨⟨got', rest'⟩, hread, heq⟩ := map_answers_iff.1 h
    simp only [Prod.mk.injEq] at heq
    obtain ⟨rfl, rfl⟩ := heq
    obtain ⟨hlen, hleft, hfew, hfull⟩ := ih hread
    rw [content_data hne]
    simp only [left, List.length_append]
    refine ⟨by omega, by omega, fun h => ?_, fun h => ?_⟩
    · rw [hfew (by omega)]
      rfl
    · rw [hfull (by omega)]
      cases content rest' with
      | error => rfl
      | ok bytes' => simp [Except.map]
  | case5 n bytes events hn hne hle =>
    cases h
    have hdrop : bytes.drop n ≠ [] := by
      rw [ne_eq, List.drop_eq_nil_iff]
      omega
    rw [content_data hne, content_data hdrop]
    simp only [left, List.length_take, List.length_drop]
    refine ⟨by omega, by omega, fun h => by omega, fun _ => ?_⟩
    cases content events with
    | error => rfl
    | ok bytes' => simp [Except.map, ← List.append_assoc]
  | case6 n events hn ih => exact ih h
  | case7 => cases h

theorem readToEnd_error {n : Nat} {events : List Event} {why : String} (h : readToEnd n events = .error why) :
    content events = .error why := by
  fun_induction readToEnd n events with
  | case1 | case2 | case3 | case5 => cases h
  | case4 n bytes events hn hne hle ih =>
    rw [content_data hne]
    cases hread : readToEnd (n - bytes.length) events with
    | error why' =>
      rw [hread] at h
      cases h
      rw [ih hread]
      rfl
    | ok r =>
      rw [hread] at h
      cases h
  | case6 n events hn ih => exact ih h
  | case7 =>
    cases h
    rfl

theorem left_ahead {c : Setup η δ} {pending next : Bytes} {events rest : List Event}
    (h : c.ahead pending events = .ok (some (next, rest))) : left rest < left events := by
  unfold Setup.ahead fill at h
  split at h
  · cases h
  · split at h
    · cases h
    · cases h
    · rename_i hne hread
      cases h
      split at hread
      · rename_i hread'
        cases hread
        have := (readToEnd_ok hread').2.1
        have : 0 < next.length := List.length_pos_iff.2 hne
        omega
      · cases hread

/-- Chunk after chunk, each written before the one after the next is read. -/
def Setup.loop (c : Setup η δ) (pending : Bytes) (events : List Event) (kept : Kept) (digest : η) (taken : List (Call δ)) :
    Except Failed Kept × List (Call δ) :=
  match _hahead : c.ahead pending events with
  | .error failed => (.error failed, taken)
  | .ok next =>
    match c.counted kept pending with
    | none => (.error .panicked, taken)
    | some counted =>
      let digest := c.digest.update digest pending
      match next with
      | none =>
        let ended : StreamRecord δ := ⟨c.stream, counted.length, counted.chunks, c.digest.finish digest⟩
        match c.write taken (c.call kept.chunks pending (some ended)) with
        | .error failed => (.error failed, taken)
        | .ok taken => (.ok counted, taken)
      | some (next, rest) =>
        match c.write taken (c.call kept.chunks pending none) with
        | .error failed => (.error failed, taken)
        | .ok taken => c.loop next rest counted digest taken
termination_by left events
decreasing_by exact left_ahead _hahead

/-- The Stream `events` give written into the Ledger: what is kept of it or why not, and what Xmip Storage took. -/
def Setup.writeStream (c : Setup η δ) (events : List Event) : Except Failed Kept × List (Call δ) :=
  match fill events c.size with
  | .error failed => (.error failed, [])
  | .ok (pending, rest) => c.loop pending rest ⟨c.stream, 0, 0⟩ c.digest.start []

/-! ### What is read ahead -/

section Ahead

variable {c : Setup η δ} {pending next : Bytes} {events rest : List Event}

theorem Setup.size_pos (c : Setup η δ) : 0 < c.size := Nat.lt_of_lt_of_le Nat.one_pos (Nat.le_max_right _ _)

/-- What a chunk read leaves of the content: nothing behind one that is not full. -/
def Behind (c : Setup η δ) (pending : Bytes) (events : List Event) : Except String Bytes :=
  if pending.length < c.size then .ok [] else content events

theorem fill_ok (h : fill events c.size = .ok (pending, rest)) :
    pending.length ≤ c.size ∧ content events = (Behind c pending rest).map (pending ++ ·) := by
  unfold fill at h
  split at h
  · rename_i hread
    cases h
    obtain ⟨hlen, -, hfew, hfull⟩ := readToEnd_ok hread
    refine ⟨hlen, ?_⟩
    unfold Behind
    split
    · rename_i hlt
      rw [hfew hlt]
      simp [Except.map]
    · exact hfull (by omega)
  · cases h

theorem fill_error {failed : Failed} (h : fill events c.size = .error failed) :
    ∃ why, content events = .error why ∧ failed = .said ("the Stream could not be read: " ++ why) := by
  unfold fill at h
  split at h
  · cases h
  · rename_i hread
    cases h
    exact ⟨_, readToEnd_error hread, rfl⟩

/-- Nothing ahead: what is pending is the last. -/
theorem ahead_none (h : c.ahead pending events = .ok none) : Behind c pending events = .ok [] := by
  unfold Setup.ahead at h
  unfold Behind
  split at h
  · rename_i hlt
    rw [if_pos hlt]
  · rename_i hlt
    rw [if_neg hlt]
    split at h
    · cases h
    · rename_i hfill
      obtain ⟨-, hcontent⟩ := fill_ok hfill
      rw [hcontent, Behind, if_pos (by simpa using c.size_pos)]
      rfl
    · cases h

/-- More ahead: what is pending is full, and what is ahead is the front of what is behind it. -/
theorem ahead_some (h : c.ahead pending events = .ok (some (next, rest))) :
    c.size ≤ pending.length ∧ next ≠ [] ∧ next.length ≤ c.size ∧
      Behind c pending events = (Behind c next rest).map (next ++ ·) := by
  unfold Setup.ahead at h
  split at h
  · cases h
  · rename_i hlt
    split at h
    · cases h
    · cases h
    · rename_i hne hfill
      cases h
      obtain ⟨hlen, hcontent⟩ := fill_ok hfill
      refine ⟨by omega, ?_, hlen, ?_⟩
      · exact hne
      · rw [← hcontent, Behind, if_neg hlt]

theorem ahead_error {failed : Failed} (h : c.ahead pending events = .error failed) :
    ∃ why, Behind c pending events = .error why := by
  unfold Setup.ahead at h
  split at h
  · cases h
  · rename_i hlt
    split at h
    · rename_i hfill
      obtain ⟨why, hcontent, -⟩ := fill_error hfill
      exact ⟨why, by rw [Behind, if_neg hlt, hcontent]⟩
    · cases h
    · cases h

end Ahead

/-! ### One chunk after another -/

section Loop

variable {c : Setup η δ} {pending next : Bytes} {events rest : List Event} {kept kept' counted : Kept} {digest : η}
  {taken taken' : List (Call δ)}

theorem counted_eq_some_iff : c.counted kept pending = some counted ↔
    counted = ⟨kept.stream, (kept.length + pending.length) % 2 ^ 64, (kept.chunks + 1) % 2 ^ 32⟩ ∧
      (c.trapping = true → kept.length + pending.length < 2 ^ 64 ∧ kept.chunks + 1 < 2 ^ 32) := by
  unfold Setup.counted
  simp only [Option.bind_eq_bind, Option.pure_def, Option.bind_eq_some_iff, addBits_eq_some_iff, Option.some.injEq]
  constructor
  · rintro ⟨length, ⟨rfl, hlength⟩, chunks, ⟨rfl, hchunks⟩, rfl⟩
    exact ⟨rfl, fun h => ⟨hlength h, hchunks h⟩⟩
  · rintro ⟨rfl, hbounds⟩
    exact ⟨_, ⟨rfl, fun h => (hbounds h).1⟩, _, ⟨rfl, fun h => (hbounds h).2⟩, rfl⟩

/-- The record of a Stream whose last chunk is `pending`. -/
def Setup.ended (c : Setup η δ) (counted : Kept) (digest : η) (pending : Bytes) : StreamRecord δ :=
  ⟨c.stream, counted.length, counted.chunks, c.digest.finish (c.digest.update digest pending)⟩

theorem loop_last (hahead : c.ahead pending events = .ok none) (hcounted : c.counted kept pending = some counted)
    (htakes : c.refuses taken.length = none) :
    c.loop pending events kept digest taken =
      (.ok counted, taken ++ [c.call kept.chunks pending (some (c.ended counted digest pending))]) := by
  rw [Setup.loop]
  split
  · rename_i hahead'
    rw [hahead] at hahead'
    cases hahead'
  · rename_i hahead'
    rw [hahead] at hahead'
    cases hahead'
    simp only [hcounted, Setup.write, htakes]
    rfl

theorem loop_next (hahead : c.ahead pending events = .ok (some (next, rest)))
    (hcounted : c.counted kept pending = some counted) (htakes : c.refuses taken.length = none) :
    c.loop pending events kept digest taken =
      c.loop next rest counted (c.digest.update digest pending) (taken ++ [c.call kept.chunks pending none]) := by
  rw [Setup.loop]
  split
  · rename_i hahead'
    rw [hahead] at hahead'
    cases hahead'
  · rename_i hahead'
    rw [hahead] at hahead'
    cases hahead'
    simp only [hcounted, Setup.write, htakes]

/-- Where the content fails, a sum panics or Xmip Storage refuses, it ends there with what was taken before. -/
theorem loop_fails (digest : η) (h : (∃ failed, c.ahead pending events = .error failed) ∨
    c.counted kept pending = none ∨ c.refuses taken.length ≠ none) : ∃ failed, c.loop pending events kept digest taken = (.error failed, taken) := by
  rw [Setup.loop]
  split
  · exact ⟨_, rfl⟩
  · rename_i hahead
    split
    · exact ⟨_, rfl⟩
    · rename_i hcounted
      have hrefuses : ∃ why, c.refuses taken.length = some why := by
        rcases h with ⟨failed, hfailed⟩ | hnone | hrefuses
        · rw [hahead] at hfailed
          cases hfailed
        · rw [hcounted] at hnone
          cases hnone
        · exact Option.ne_none_iff_exists'.1 hrefuses
      obtain ⟨why, hwhy⟩ := hrefuses
      simp only [Setup.write, hwhy]
      split <;> exact ⟨_, rfl⟩

/-- Which way a step of the loop goes. -/
theorem loop_cases (c : Setup η δ) (pending : Bytes) (events : List Event) (kept : Kept) (taken : List (Call δ)) :
    ((∃ failed, c.ahead pending events = .error failed) ∨ c.counted kept pending = none ∨ c.refuses taken.length ≠ none) ∨
      ∃ counted, c.counted kept pending = some counted ∧ c.refuses taken.length = none ∧
        (c.ahead pending events = .ok none ∨ ∃ next rest, c.ahead pending events = .ok (some (next, rest))) := by
  cases hahead : c.ahead pending events with
  | error failed => exact .inl (.inl ⟨failed, rfl⟩)
  | ok ahead =>
    cases hcounted : c.counted kept pending with
    | none => exact .inl (.inr (.inl rfl))
    | some counted =>
      cases hrefuses : c.refuses taken.length with
      | some why => exact .inl (.inr (.inr (by simp)))
      | none =>
        refine .inr ⟨counted, rfl, rfl, ?_⟩
        cases ahead with
        | none => exact .inl rfl
        | some ahead => exact .inr ⟨ahead.1, ahead.2, rfl⟩

/-- What every chunk taken meets, and with its record the last of a Stream that was written, all that is taken meets. -/
theorem loop_taken {result : Except Failed Kept} {p : Call δ → Prop} (hchunk : ∀ index bytes, p (c.call index bytes none))
    (hended : (∃ kept, result = .ok kept) → ∀ index bytes ended, p (c.call index bytes ended))
    (htaken : ∀ call ∈ taken, p call) (h : c.loop pending events kept digest taken = (result, taken')) :
    ∀ call ∈ taken', p call := by
  have hmore : ∀ {taken : List (Call δ)} {call : Call δ}, (∀ call ∈ taken, p call) → p call →
      ∀ call' ∈ taken ++ [call], p call' := by
    intro taken call htaken hcall call' hcall'
    rcases List.mem_append.1 hcall' with hcall' | hcall'
    · exact htaken call' hcall'
    · rwa [List.mem_singleton.1 hcall']
  induction hleft : left events using Nat.strong_induction_on generalizing pending events kept digest taken with
  | _ n ih =>
    rcases loop_cases c pending events kept taken with hfails | ⟨counted, hcounted, htakes, hlast | ⟨next, rest, hnext⟩⟩
    · obtain ⟨failed', hloop⟩ := loop_fails digest hfails
      rw [hloop] at h
      cases h
      exact htaken
    · rw [loop_last hlast hcounted htakes] at h
      cases h
      exact hmore htaken (hended ⟨_, rfl⟩ _ _ _)
    · rw [loop_next hnext hcounted htakes] at h
      exact ih (left rest) (hleft ▸ left_ahead hnext) (hmore htaken (hchunk _ _)) h rfl

/-- What is taken of a Stream in `pieces`, the first numbered `index`, behind `length` bytes of the digest `digest`. -/
def Setup.calls (c : Setup η δ) : Nat → Nat → η → List Bytes → List (Call δ)
  | _, _, _, [] => []
  | index, length, digest, [piece] =>
    [c.call (index % 2 ^ 32) piece
      (some (c.ended ⟨c.stream, (length + piece.length) % 2 ^ 64, (index + 1) % 2 ^ 32⟩ digest piece))]
  | index, length, digest, piece :: pieces =>
    c.call (index % 2 ^ 32) piece none :: c.calls (index + 1) (length + piece.length) (c.digest.update digest piece) pieces

theorem calls_cons (index length : Nat) (digest : η) (piece : Bytes) {pieces : List Bytes} (h : 0 < pieces.length) :
    c.calls index length digest (piece :: pieces) =
      c.call (index % 2 ^ 32) piece none ::
        c.calls (index + 1) (length + piece.length) (c.digest.update digest piece) pieces := by
  cases pieces with
  | nil => exact absurd h (Nat.lt_irrefl 0)
  | cons => rfl

/-- How the rest `all` of a Stream ends well, `index` chunks and `length` bytes in: no call refused, no sum that panics,
everything counted and every piece taken. -/
structure Ends (c : Setup η δ) (index length : Nat) (digest : η) (taken : List (Call δ)) (all : Bytes) (kept : Kept)
    (taken' : List (Call δ)) : Prop where
  takes : ∀ i < (pieces c.size all).length, c.refuses (index + i) = none
  bounds : c.trapping = true → index + (pieces c.size all).length < 2 ^ 32 ∧ length + all.length < 2 ^ 64
  counts : kept = ⟨c.stream, (length + all.length) % 2 ^ 64, (index + (pieces c.size all).length) % 2 ^ 32⟩
  calls : taken' = taken ++ c.calls index length digest (pieces c.size all)

/-- A piece taken before the rest that ends well, and only then. -/
theorem ends_cons {index length : Nat} {piece all : Bytes} (hpiece : piece.length = c.size) (hall : all ≠ [])
    (htakes : c.refuses index = none) :
    Ends c (index + 1) (length + piece.length) (c.digest.update digest piece)
        (taken ++ [c.call (index % 2 ^ 32) piece none]) all kept taken' ↔
      Ends c index length digest taken (piece ++ all) kept taken' := by
  have hpieces : pieces c.size (piece ++ all) = piece :: pieces c.size all := pieces_append c.size_pos hpiece hall
  have hcount : index + 1 + (pieces c.size all).length = index + (piece :: pieces c.size all).length := by
    rw [List.length_cons]
    omega
  have hlength : length + piece.length + all.length = length + (piece ++ all).length := by
    rw [List.length_append]
    omega
  have hcalls : taken ++ [c.call (index % 2 ^ 32) piece none] ++
      c.calls (index + 1) (length + piece.length) (c.digest.update digest piece) (pieces c.size all) =
        taken ++ c.calls index length digest (piece :: pieces c.size all) := by
    rw [calls_cons _ _ _ _ (length_pieces_pos _ _), List.append_assoc]
    rfl
  constructor
  · rintro ⟨htakes', hbounds, hcounts, hcalls'⟩
    rw [hcount] at hbounds hcounts
    rw [hlength] at hbounds hcounts
    rw [hcalls] at hcalls'
    refine ⟨?_, hpieces ▸ hbounds, hpieces ▸ hcounts, hpieces ▸ hcalls'⟩
    rw [hpieces]
    intro i hi
    cases i with
    | zero => exact htakes
    | succ i =>
      have := htakes' i (by simpa using hi)
      rwa [show index + (i + 1) = index + 1 + i by omega]
  · rintro ⟨htakes', hbounds, hcounts, hcalls'⟩
    rw [hpieces] at htakes' hbounds hcounts hcalls'
    rw [← hcount] at hbounds hcounts
    rw [← hlength] at hbounds hcounts
    rw [← hcalls] at hcalls'
    refine ⟨?_, hbounds, hcounts, hcalls'⟩
    intro i hi
    have := htakes' (i + 1) (by simpa using hi)
    rwa [show index + 1 + i = index + (i + 1) by omega]

/-- What is pending goes alone where nothing is behind it. -/
theorem ends_last {index length : Nat} (hpending : pending.length ≤ c.size) :
    Ends c index length digest taken pending kept taken' ↔
      c.refuses index = none ∧ (c.trapping = true → index + 1 < 2 ^ 32 ∧ length + pending.length < 2 ^ 64) ∧
        kept = ⟨c.stream, (length + pending.length) % 2 ^ 64, (index + 1) % 2 ^ 32⟩ ∧
        taken' = taken ++ [c.call (index % 2 ^ 32) pending (some (c.ended kept digest pending))] := by
  have hpieces : pieces c.size pending = [pending] := pieces_of_le hpending
  constructor
  · rintro ⟨htakes, hbounds, hcounts, hcalls⟩
    rw [hpieces] at htakes hbounds hcounts hcalls
    refine ⟨htakes 0 (by simp), hbounds, hcounts, ?_⟩
    rw [hcounts, hcalls]
    rfl
  · rintro ⟨htakes, hbounds, hcounts, hcalls⟩
    refine ⟨?_, hpieces ▸ hbounds, hpieces ▸ hcounts, ?_⟩
    · rw [hpieces]
      intro i hi
      have : i = 0 := by simpa using hi
      rw [this]
      exact htakes
    · rw [hpieces, hcalls, hcounts]
      rfl

/-- What is counted with one chunk more, `index` chunks and `length` bytes in. -/
theorem counted_iff {index length : Nat} (hsmall : c.trapping = true → index < 2 ^ 32 ∧ length < 2 ^ 64) :
    c.counted ⟨c.stream, length % 2 ^ 64, index % 2 ^ 32⟩ pending = some counted ↔
      counted = ⟨c.stream, (length + pending.length) % 2 ^ 64, (index + 1) % 2 ^ 32⟩ ∧
        (c.trapping = true → index + 1 < 2 ^ 32 ∧ length + pending.length < 2 ^ 64) := by
  rw [counted_eq_some_iff, Nat.mod_add_mod, Nat.mod_add_mod]
  refine and_congr Iff.rfl (forall_congr' fun hchecks => ?_)
  obtain ⟨hindex, hlength⟩ := hsmall hchecks
  rw [Nat.mod_eq_of_lt hindex, Nat.mod_eq_of_lt hlength]
  exact And.comm

/-- The loop ends well exactly where the content is read to its end and what it gives ends well. -/
theorem loop_iff {index length : Nat} (hpending : pending.length ≤ c.size) (htaken : taken.length = index)
    (hsmall : c.trapping = true → index < 2 ^ 32 ∧ length < 2 ^ 64) :
    c.loop pending events ⟨c.stream, length % 2 ^ 64, index % 2 ^ 32⟩ digest taken = (.ok kept', taken') ↔
      ∃ behind, Behind c pending events = .ok behind ∧ Ends c index length digest taken (pending ++ behind) kept' taken' := by
  induction hleft : left events using Nat.strong_induction_on generalizing pending events index length digest taken with
  | _ n ih =>
    rcases loop_cases c pending events ⟨c.stream, length % 2 ^ 64, index % 2 ^ 32⟩ taken with
      hfails | ⟨counted, hcounted, htakes, hlast | ⟨next, rest, hnext⟩⟩
    · obtain ⟨failed, hloop⟩ := loop_fails digest hfails
      rw [hloop]
      constructor
      · intro h
        cases h
      · rintro ⟨behind, hbehind, hends⟩
        have hpos : 0 < (pieces c.size (pending ++ behind)).length := length_pieces_pos _ _
        rcases hfails with ⟨failed', hahead⟩ | hcounted | hrefuses
        · obtain ⟨why, hwhy⟩ := ahead_error hahead
          rw [hwhy] at hbehind
          cases hbehind
        · have hbounds : c.trapping = true → index + 1 < 2 ^ 32 ∧ length + pending.length < 2 ^ 64 := by
            intro hchecks
            obtain ⟨hchunks, hbytes⟩ := hends.bounds hchecks
            rw [List.length_append] at hbytes
            omega
          rw [(counted_iff hsmall).2 ⟨rfl, hbounds⟩] at hcounted
          cases hcounted
        · exact absurd (htaken ▸ hends.takes 0 hpos) hrefuses
    · rw [loop_last hlast hcounted htakes, ahead_none hlast]
      obtain ⟨rfl, hbounds⟩ := (counted_iff hsmall).1 hcounted
      rw [htaken] at htakes
      constructor
      · intro h
        simp only [Prod.mk.injEq, Except.ok.injEq] at h
        refine ⟨[], rfl, ?_⟩
        rw [List.append_nil, ends_last hpending]
        exact ⟨htakes, hbounds, h.1.symm, by rw [← h.2, ← h.1]⟩
      · rintro ⟨behind, hbehind, hends⟩
        cases hbehind
        rw [List.append_nil, ends_last hpending] at hends
        obtain ⟨-, -, rfl, rfl⟩ := hends
        rfl
    · rw [loop_next hnext hcounted htakes]
      obtain ⟨rfl, hbounds⟩ := (counted_iff hsmall).1 hcounted
      obtain ⟨hfull, hne, hnextlen, hbehind⟩ := ahead_some hnext
      rw [htaken] at htakes
      have htaken' : (taken ++ [c.call (index % 2 ^ 32) pending none]).length = index + 1 := by simp [htaken]
      rw [ih (left rest) (hleft ▸ left_ahead hnext) hnextlen htaken' hbounds rfl]
      have hcons : ∀ behind, Ends c (index + 1) (length + pending.length) (c.digest.update digest pending)
          (taken ++ [c.call (index % 2 ^ 32) pending none]) (next ++ behind) kept' taken' ↔
            Ends c index length digest taken (pending ++ (next ++ behind)) kept' taken' :=
        fun behind => ends_cons (by omega) (by simp [hne]) htakes
      constructor
      · rintro ⟨behind, hrest, hends⟩
        exact ⟨next ++ behind, by rw [hbehind, hrest]; rfl, (hcons behind).1 hends⟩
      · rintro ⟨behind, hrest, hends⟩
        rw [hbehind] at hrest
        obtain ⟨behind', hbehind', rfl⟩ := map_answers_iff.1 hrest
        exact ⟨behind', hbehind', (hcons behind').2 hends⟩

end Loop

/-! ### A Stream written -/

variable {c : Setup η δ} {events : List Event}

/-- A Stream is written exactly where its content is read to its end and what it gives ends well. -/
theorem writeStream_iff {kept : Kept} {taken : List (Call δ)} :
    c.writeStream events = (.ok kept, taken) ↔
      ∃ bytes, content events = .ok bytes ∧ Ends c 0 0 c.digest.start [] bytes kept taken := by
  unfold Setup.writeStream
  split
  · rename_i hfill
    obtain ⟨why, hcontent, -⟩ := fill_error hfill
    rw [hcontent]
    constructor
    · intro h
      cases h
    · rintro ⟨bytes, hbytes, -⟩
      cases hbytes
  · rename_i pending rest hfill
    obtain ⟨hpending, hcontent⟩ := fill_ok hfill
    have hnone : ([] : List (Call δ)).length = 0 := rfl
    have hsmall : c.trapping = true → 0 < 2 ^ 32 ∧ 0 < 2 ^ 64 := fun _ => by decide
    have hzero : (⟨c.stream, 0, 0⟩ : Kept) = ⟨c.stream, 0 % 2 ^ 64, 0 % 2 ^ 32⟩ := rfl
    rw [hzero, loop_iff hpending hnone hsmall, hcontent]
    constructor
    · rintro ⟨behind, hbehind, hends⟩
      exact ⟨pending ++ behind, by rw [hbehind]; rfl, hends⟩
    · rintro ⟨bytes, hbytes, hends⟩
      obtain ⟨behind, hbehind, rfl⟩ := map_answers_iff.1 hbytes
      exact ⟨behind, hbehind, hends⟩

theorem writeStream_taken {result : Except Failed Kept} {taken : List (Call δ)} {p : Call δ → Prop}
    (hchunk : ∀ index bytes, p (c.call index bytes none))
    (hended : (∃ kept, result = .ok kept) → ∀ index bytes ended, p (c.call index bytes ended))
    (h : c.writeStream events = (result, taken)) : ∀ call ∈ taken, p call := by
  unfold Setup.writeStream at h
  split at h
  · cases h
    exact fun call hcall => absurd hcall List.not_mem_nil
  · exact loop_taken hchunk hended (fun call hcall => absurd hcall List.not_mem_nil) h

/-- No record is taken but with the last chunk of a Stream that was written. -/
theorem writeStream_no_record {failed : Failed} {taken : List (Call δ)}
    (h : c.writeStream events = (.error failed, taken)) : ∀ call ∈ taken, call.ended = none := by
  refine writeStream_taken (fun _ _ => rfl) ?_ h
  rintro ⟨kept, hkept⟩
  cases hkept

theorem writeStream_own {result : Except Failed Kept} {taken : List (Call δ)}
    (h : c.writeStream events = (result, taken)) : ∀ call ∈ taken, call.chunk.stream = c.stream :=
  writeStream_taken (fun _ _ => rfl) (fun _ _ _ _ => rfl) h

/-! ### What is written -/

/-- The digest of a Stream's bytes. -/
def StreamDigest.of (d : StreamDigest η δ) (bytes : Bytes) : δ := d.finish (d.update d.start bytes)

/-- Bytes passed one after the other are passed together. -/
def StreamDigest.Passes (d : StreamDigest η δ) : Prop := ∀ h a b, d.update (d.update h a) b = d.update h (a ++ b)

/-- How many chunks so many bytes make: as many as the chunk goes into them, rounded up, and one at least. -/
def Setup.count (c : Setup η δ) (bytes : Bytes) : Nat := max 1 ((bytes.length + c.size - 1) / c.size)

/-- The Stream `bytes` as it is written. -/
structure Written (c : Setup η δ) (bytes : Bytes) (kept : Kept) (taken : List (Call δ)) : Prop where
  joined : (taken.map fun call => call.chunk.bytes).flatten = bytes
  full : ∀ call ∈ taken.dropLast, call.chunk.bytes.length = c.size
  count : taken.length = c.count bytes
  numbered : taken.map (fun call => call.chunk.index) = List.range taken.length
  own : ∀ call ∈ taken, call.chunk.stream = c.stream
  once : ∀ call ∈ taken.dropLast, call.ended = none
  record : taken.getLast?.bind Call.ended = some ⟨c.stream, bytes.length, taken.length, c.digest.of bytes⟩
  kept : kept = ⟨c.stream, bytes.length, taken.length⟩

/-- What is written is the content, whole and with its record; where it fails no record is; and where the content is read
to its end and Xmip Storage takes every chunk, it is written. -/
structure Faithful (c : Setup η δ) (events : List Event) : Prop where
  written : ∀ kept taken, c.writeStream events = (.ok kept, taken) →
    ∃ bytes, content events = .ok bytes ∧ Written c bytes kept taken
  noRecord : ∀ failed taken, c.writeStream events = (.error failed, taken) → ∀ call ∈ taken, call.ended = none
  writes : ∀ bytes, content events = .ok bytes → (∀ i < c.count bytes, c.refuses i = none) →
    ∃ kept taken, c.writeStream events = (.ok kept, taken)

theorem map_bytes_calls (index length : Nat) (digest : η) (ps : List Bytes) :
    (c.calls index length digest ps).map (fun call => call.chunk.bytes) = ps := by
  fun_induction Setup.calls c index length digest ps with
  | case1 => rfl
  | case2 => rfl
  | case3 index length digest piece ps _ ih => rw [List.map_cons, ih]; rfl

theorem map_index_calls (index length : Nat) (digest : η) (ps : List Bytes) :
    (c.calls index length digest ps).map (fun call => call.chunk.index) =
      (List.range' index ps.length).map (· % 2 ^ 32) := by
  fun_induction Setup.calls c index length digest ps with
  | case1 => rfl
  | case2 => rfl
  | case3 index length digest piece ps _ ih => rw [List.map_cons, ih]; rfl

theorem stream_of_mem_calls (index length : Nat) (digest : η) (ps : List Bytes) :
    ∀ call ∈ c.calls index length digest ps, call.chunk.stream = c.stream := by
  fun_induction Setup.calls c index length digest ps with
  | case1 => exact fun call hcall => absurd hcall List.not_mem_nil
  | case2 => exact fun call hcall => List.mem_singleton.1 hcall ▸ rfl
  | case3 index length digest piece ps _ ih =>
    intro call hcall
    rcases List.mem_cons.1 hcall with rfl | hcall
    · rfl
    · exact ih call hcall

/-- The record goes with the last piece, and says what all of them come to. -/
theorem ended_calls (hdigest : c.digest.Passes) (index length : Nat) (digest : η) {ps : List Bytes} (hps : 0 < ps.length) :
    (∀ call ∈ (c.calls index length digest ps).dropLast, call.ended = none) ∧
      (c.calls index length digest ps).getLast?.bind Call.ended =
        some ⟨c.stream, (length + ps.flatten.length) % 2 ^ 64, (index + ps.length) % 2 ^ 32,
          c.digest.finish (c.digest.update digest ps.flatten)⟩ := by
  fun_induction Setup.calls c index length digest ps with
  | case1 => exact absurd hps (Nat.lt_irrefl 0)
  | case2 index length digest piece =>
    refine ⟨fun call hcall => absurd hcall List.not_mem_nil, ?_⟩
    simp [Setup.call, Setup.ended]
  | case3 index length digest piece ps hps' ih =>
    have hne : ps ≠ [] := fun h => hps' h
    have hpos : 0 < ps.length := List.length_pos_iff.2 hne
    obtain ⟨honce, hrecord⟩ := ih hpos
    have hcalls : c.calls (index + 1) (length + piece.length) (c.digest.update digest piece) ps ≠ [] := by
      intro h
      rw [h] at hrecord
      cases hrecord
    refine ⟨?_, ?_⟩
    · rw [List.dropLast_cons_of_ne_nil hcalls]
      intro call hcall
      rcases List.mem_cons.1 hcall with rfl | hcall
      · rfl
      · exact honce call hcall
    · rw [List.getLast?_cons_of_ne_nil hcalls, hrecord, hdigest]
      simp only [List.flatten_cons, List.length_append, List.length_cons, Option.some.injEq, StreamRecord.mk.injEq, true_and,
        and_true]
      constructor
      · congr 1
        omega
      · congr 1
        omega

theorem length_calls (index length : Nat) (digest : η) (ps : List Bytes) :
    (c.calls index length digest ps).length = ps.length := by
  rw [← List.length_map, map_bytes_calls]

/-- Within the numbers counted in, what is taken of the pieces of a content is the content written. -/
theorem written_calls (hdigest : c.digest.Passes) {bytes : Bytes} (hcount : c.count bytes < 2 ^ 32)
    (hlength : bytes.length < 2 ^ 64) :
    Written c bytes ⟨c.stream, bytes.length % 2 ^ 64, c.count bytes % 2 ^ 32⟩
      (c.calls 0 0 c.digest.start (pieces c.size bytes)) := by
  have hpieces : (pieces c.size bytes).length = c.count bytes := length_pieces c.size_pos bytes
  have hpos : 0 < (pieces c.size bytes).length := length_pieces_pos _ _
  obtain ⟨honce, hrecord⟩ := ended_calls hdigest 0 0 c.digest.start hpos
  refine ⟨?_, ?_, ?_, ?_, stream_of_mem_calls _ _ _ _, honce, ?_, ?_⟩
  · rw [map_bytes_calls, flatten_pieces]
  · intro call hcall
    apply length_of_mem_dropLast_pieces call.chunk.bytes
    rw [← map_bytes_calls 0 0 c.digest.start (pieces c.size bytes), ← List.map_dropLast]
    exact List.mem_map.2 ⟨call, hcall, rfl⟩
  · rw [length_calls, hpieces]
  · rw [map_index_calls, length_calls, List.range_eq_range', hpieces]
    conv_rhs => rw [← List.map_id (List.range' 0 (c.count bytes))]
    apply List.map_congr_left
    intro i hi
    have := List.mem_range'_1.1 hi
    rw [Nat.mod_eq_of_lt (by omega), id]
  · rw [hrecord, flatten_pieces, length_calls, hpieces, Nat.zero_add, Nat.zero_add, Nat.mod_eq_of_lt hlength,
      Nat.mod_eq_of_lt hcount]
    rfl
  · rw [length_calls, hpieces, Nat.mod_eq_of_lt hlength, Nat.mod_eq_of_lt hcount]

/-- What is kept of a Stream was counted in so many bits: where it is what it says, it was not past them. -/
theorem bounds_of_written {bytes : Bytes} {taken : List (Call δ)}
    (h : Written c bytes ⟨c.stream, bytes.length % 2 ^ 64, c.count bytes % 2 ^ 32⟩ taken) :
    c.count bytes < 2 ^ 32 ∧ bytes.length < 2 ^ 64 := by
  have hcounts := h.kept
  rw [h.count] at hcounts
  simp only [Kept.mk.injEq, true_and] at hcounts
  exact ⟨hcounts.2 ▸ Nat.mod_lt _ (by decide), hcounts.1 ▸ Nat.mod_lt _ (by decide)⟩

/-- What ends well is counted and taken so. -/
theorem eq_of_ends {bytes : Bytes} {kept : Kept} {taken : List (Call δ)}
    (h : Ends c 0 0 c.digest.start [] bytes kept taken) :
    kept = ⟨c.stream, bytes.length % 2 ^ 64, c.count bytes % 2 ^ 32⟩ ∧
      taken = c.calls 0 0 c.digest.start (pieces c.size bytes) := by
  have hcounts := h.counts
  have hcalls := h.calls
  rw [length_pieces c.size_pos, Nat.zero_add, Nat.zero_add] at hcounts
  exact ⟨hcounts, hcalls⟩

theorem bounds_of_faithful (h : Faithful c events) {bytes : Bytes} (hbytes : content events = .ok bytes)
    (htakes : ∀ i < c.count bytes, c.refuses i = none) : c.count bytes < 2 ^ 32 ∧ bytes.length < 2 ^ 64 := by
  obtain ⟨kept, taken, hwrites⟩ := h.writes bytes hbytes htakes
  obtain ⟨bytes', hbytes', hwritten⟩ := h.written kept taken hwrites
  obtain ⟨bytes'', hbytes'', hends⟩ := writeStream_iff.1 hwrites
  cases Except.ok.inj (hbytes.symm.trans hbytes')
  cases Except.ok.inj (hbytes.symm.trans hbytes'')
  obtain ⟨rfl, rfl⟩ := eq_of_ends hends
  exact bounds_of_written hwritten

/-- Whatever the content, the chunk, the reader's pieces and Xmip Storage's answers: what is written is faithful exactly
where a content that is read to its end and taken whole makes fewer chunks, and has fewer bytes, than are counted in. -/
theorem write_stream_faithful_iff (hdigest : c.digest.Passes) (events : List Event) :
    Faithful c events ↔ ∀ bytes, content events = .ok bytes → (∀ i < c.count bytes, c.refuses i = none) →
      c.count bytes < 2 ^ 32 ∧ bytes.length < 2 ^ 64 := by
  constructor
  · exact fun h bytes => bounds_of_faithful h
  · intro h
    refine ⟨?_, fun failed taken => writeStream_no_record, ?_⟩
    · intro kept taken hwrites
      obtain ⟨bytes, hbytes, hends⟩ := writeStream_iff.1 hwrites
      have htakes : ∀ i < c.count bytes, c.refuses i = none := by
        intro i hi
        have := hends.takes i (by rw [length_pieces c.size_pos]; exact hi)
        rwa [Nat.zero_add] at this
      obtain ⟨hcount, hlength⟩ := h bytes hbytes htakes
      obtain ⟨rfl, rfl⟩ := eq_of_ends hends
      exact ⟨bytes, hbytes, written_calls hdigest hcount hlength⟩
    · intro bytes hbytes htakes
      obtain ⟨hcount, hlength⟩ := h bytes hbytes htakes
      have hpieces : (pieces c.size bytes).length = c.count bytes := length_pieces c.size_pos bytes
      refine ⟨_, _, writeStream_iff.2 ⟨bytes, hbytes, ?_, ?_, rfl, rfl⟩⟩
      · intro i hi
        rw [Nat.zero_add]
        exact htakes i (hpieces ▸ hi)
      · intro _
        omega

/-- A Stream of Storage that takes everything, its digest the bytes themselves. -/
def plain (trapping : Bool) (chunk : Nat) : Setup Bytes Bytes :=
  ⟨trapping, ⟨[], (· ++ ·), id⟩, 7, chunk, fun _ => none⟩

theorem plain_passes (trapping : Bool) (chunk : Nat) : (plain trapping chunk).digest.Passes :=
  fun _ _ _ => List.append_assoc ..

/-- Three bytes given in two pieces with an interruption between, in chunks of two. -/
theorem write_stream_three :
    Faithful (plain true 2) [.data [1], .interrupted, .data [2, 3]] ∧
      ((plain true 2).writeStream [.data [1], .interrupted, .data [2, 3]]).1 = .ok ⟨7, 3, 2⟩ := by
  refine ⟨(write_stream_faithful_iff (plain_passes true 2) _).2 ?_, ?_⟩
  · intro bytes hbytes _
    cases hbytes
    decide
  · rw [(writeStream_iff (c := plain true 2)).2
      ⟨[1, 2, 3], rfl, fun _ _ => rfl, ?_, rfl, rfl⟩]
    · decide +kernel
    · decide +kernel

/-- One chunk a byte, and as many bytes as there are numbers for chunks. -/
theorem not_faithful_of_many (trapping : Bool) {n : Nat} (hn : 2 ^ 32 ≤ n) :
    ¬ Faithful (plain trapping 1) [.data (List.replicate n 0)] := by
  intro h
  have hlength : (List.replicate n (0 : UInt8)).length = n := List.length_replicate
  have hne : List.replicate n (0 : UInt8) ≠ [] := by
    intro h
    rw [h, List.length_nil] at hlength
    omega
  have hcontent : content [.data (List.replicate n 0)] = .ok (List.replicate n 0) := by
    rw [content_data hne]
    simp [content, Except.map]
  have hcount : (plain trapping 1).count (List.replicate n 0) = n := by
    show max 1 (((List.replicate n (0 : UInt8)).length + 1 - 1) / 1) = n
    rw [hlength]
    omega
  have hbound := (bounds_of_faithful h hcontent fun _ _ => rfl).1
  omega

/-- The number of chunks panics, or wraps. -/
theorem write_stream_overflows :
    ¬ Faithful (plain true 1) [.data (List.replicate (2 ^ 32) 0)] ∧
      ¬ Faithful (plain false 1) [.data (List.replicate (2 ^ 32) 0)] :=
  ⟨not_faithful_of_many true (Nat.le_refl _), not_faithful_of_many false (Nat.le_refl _)⟩

end WriteStream
