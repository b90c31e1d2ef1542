import Mathlib.Data.List.Nodup
import XmipRuntime.Ledger.WriteStream
import XmipRuntime.Library.Journaled
import XmipRuntime.Library.Pick
import XmipRuntime.Library.Run

/-!
# Receive cycles and crashes

`carry` (`src/message_path.rs`) takes a Stream through its receive cycle: the gates over its transport; the Stream into the
Ledger in chunks, none of them synced (`write_stream`, `src/ledger.rs`); the gates over its Message, and routing
(`src/arrival.rs`); and the Publication, one write answered before its sync (`publish`, `src/ledger/publication.rs`), which
the cycle waits to be durable before it ends.  Only a completed cycle is acknowledged to the sender.

Any number of cycles run at once, each call of Xmip Storage a step of its own, and the node may crash between any two steps
and go on with what the Ledger kept (`Journaled`).  A Stream's identifier is never drawn again.  What came in, and what its
sender was told, is written down beside the state; no step reads it but to draw an identifier.
-/

namespace Carrying

open Library WriteStream

/-! ### The machine -/

/-- A Publication: its Message, the Stream it refers to, and the Journeys opened, none where nothing matched. -/
structure Publication where
  message : Nat
  stream : Nat
  journeys : List Nat
  deriving DecidableEq

/-- One write into the Ledger. -/
inductive Entry (δ : Type) where
  | chunk (call : Call δ)
  | publication (p : Publication)
  deriving DecidableEq

/-- How sums are made, what the digest is and the chunk. -/
structure Ledger (η δ : Type) where
  (trapping : Bool)
  digest : StreamDigest η δ
  chunk : Nat

/-- What a sender sends, and which calls Xmip Storage refuses of it, by their number. -/
structure Arriving where
  events : List Event
  refuses : Nat → Option String

variable {η δ : Type}

def Ledger.setup (c : Ledger η δ) (stream : Nat) (arriving : Arriving) : Setup η δ :=
  ⟨c.trapping, c.digest, stream, c.chunk, arriving.refuses⟩

/-- How a receive cycle ended, which is what the sender is told. -/
inductive ReceiveCycle where
  | completed
  | refused
  | failed
  deriving DecidableEq

/-- Where a cycle is: its Stream being written, with the calls still to make and what comes of them; kept, before its gates
and its Publication; or published at a place in the Ledger and waiting for its sync. -/
inductive Phase (δ : Type) where
  | writing (todo : List (Call δ)) (result : Except Failed Kept)
  | kept (kept : Kept)
  | published (place : Nat)

structure Cycle (δ : Type) where
  stream : Nat
  phase : Phase δ

structure World (δ : Type) where
  log : Journaled (Entry δ)
  cycles : List (Cycle δ)
  /-- What came in, each under its Stream's identifier. -/
  arrived : List Arriving
  told : List (Nat × ReceiveCycle)

def World.Begins (w : World δ) : Prop := w = ⟨.empty, [], [], []⟩

inductive Action where
  /-- A Stream comes in, and whether the gates over its transport permit it. -/
  | arrive (arriving : Arriving) (permitted : Bool)
  | write (i : Nat)
  | written (i : Nat)
  /-- Refused at a gate over its Message. -/
  | refuse (i : Nat)
  /-- The Ledger not read for the gates, or the Publication not taken. -/
  | fail (i : Nat)
  | publish (i message : Nat) (journeys : List Nat)
  | sync (n : Nat)
  /-- The Publication is durable, or could not be made so. -/
  | finish (i : Nat)
  | unsynced (i : Nat)
  | crash (n : Nat)

namespace World

/-- The cycle of `stream` over, its sender told. -/
def tells (w : World δ) (cycles : List (Cycle δ)) (stream : Nat) (cycle : ReceiveCycle) : World δ :=
  { w with cycles, told := w.told ++ [(stream, cycle)] }

def step (c : Ledger η δ) (w : World δ) : Action → Option (World δ)
  | .arrive arriving permitted =>
    let stream := w.arrived.length
    let w := { w with arrived := w.arrived ++ [arriving] }
    if permitted then
      let (result, taken) := (c.setup stream arriving).writeStream arriving.events
      some { w with cycles := w.cycles ++ [⟨stream, .writing taken result⟩] }
    else some (w.tells w.cycles stream .refused)
  | .write i =>
    match pick w.cycles i with
    | some (⟨stream, .writing (call :: todo) result⟩, cycles) =>
      some { w with log := w.log.write (.chunk call), cycles := cycles ++ [⟨stream, .writing todo result⟩] }
    | _ => none
  | .written i =>
    match pick w.cycles i with
    | some (⟨stream, .writing [] (.ok kept)⟩, cycles) => some { w with cycles := cycles ++ [⟨stream, .kept kept⟩] }
    | some (⟨stream, .writing [] (.error _)⟩, cycles) => some (w.tells cycles stream .failed)
    | _ => none
  | .refuse i =>
    match pick w.cycles i with
    | some (⟨stream, .kept _⟩, cycles) => some (w.tells cycles stream .refused)
    | _ => none
  | .fail i =>
    match pick w.cycles i with
    | some (⟨stream, .kept _⟩, cycles) => some (w.tells cycles stream .failed)
    | _ => none
  | .publish i message journeys =>
    match pick w.cycles i with
    | some (⟨stream, .kept _⟩, cycles) =>
      some { w with
        log := w.log.write (.publication ⟨message, stream, journeys⟩)
        cycles := cycles ++ [⟨stream, .published w.log.entries.length⟩] }
    | _ => none
  | .sync n => some { w with log := w.log.sync n }
  | .finish i =>
    match pick w.cycles i with
    | some (⟨stream, .published place⟩, cycles) =>
      if place < w.log.synced then some (w.tells cycles stream .completed) else none
    | _ => none
  | .unsynced i =>
    match pick w.cycles i with
    | some (⟨stream, .published _⟩, cycles) => some (w.tells cycles stream .failed)
    | _ => none
  | .crash n => some { w with log := w.log.crash n, cycles := [] }

end World

/-- A Stream of no more chunks and bytes than are counted in. -/
def Ledger.counts (c : Ledger η δ) (arriving : Arriving) : Bool :=
  match content arriving.events with
  | .ok bytes => decide ((c.setup 0 arriving).count bytes < 2 ^ 32) && decide (bytes.length < 2 ^ 64)
  | .error _ => true

/-- Every Stream that comes in is such. -/
def Counts (c : Ledger η δ) (_ : World δ) : Action → Prop
  | .arrive arriving _ => c.counts arriving = true
  | _ => True

instance (c : Ledger η δ) (w : World δ) (a : Action) : Decidable (Counts c w a) :=
  match a with
  | .arrive arriving _ => inferInstanceAs (Decidable (c.counts arriving = true))
  | .write _ | .written _ | .refuse _ | .fail _ | .publish .. | .sync _ | .finish _ | .unsynced _ | .crash _ =>
    inferInstanceAs (Decidable True)

/-! ### What the Ledger holds of a Stream -/

def Entry.stream : Entry δ → Nat
  | .chunk call => call.chunk.stream
  | .publication p => p.stream

def Entry.chunkOf (stream : Nat) : Entry δ → Option (Call δ)
  | .chunk call => if call.chunk.stream = stream then some call else none
  | .publication _ => none

def Entry.publicationOf (stream : Nat) : Entry δ → Option Publication
  | .chunk _ => none
  | .publication p => if p.stream = stream then some p else none

/-- The chunks of a Stream, and the Publications that refer to it, in order. -/
def chunksOf (stream : Nat) (entries : List (Entry δ)) : List (Call δ) := entries.filterMap (Entry.chunkOf stream)

def publicationsOf (stream : Nat) (entries : List (Entry δ)) : List Publication :=
  entries.filterMap (Entry.publicationOf stream)

section Of

variable {stream : Nat} {entries : List (Entry δ)} {e : Entry δ}

theorem chunkOf_of_ne (h : e.stream ≠ stream) : e.chunkOf stream = none := by
  cases e with
  | chunk call => exact if_neg h
  | publication p => rfl

theorem publicationOf_of_ne (h : e.stream ≠ stream) : e.publicationOf stream = none := by
  cases e with
  | chunk call => rfl
  | publication p => exact if_neg h

theorem chunksOf_concat_of_ne (h : e.stream ≠ stream) : chunksOf stream (entries ++ [e]) = chunksOf stream entries := by
  rw [chunksOf, filterMap_snoc, chunkOf_of_ne h]
  exact List.append_nil _

theorem publicationsOf_concat_of_ne (h : e.stream ≠ stream) :
    publicationsOf stream (entries ++ [e]) = publicationsOf stream entries := by
  rw [publicationsOf, filterMap_snoc, publicationOf_of_ne h]
  exact List.append_nil _

theorem chunksOf_chunk {call : Call δ} (h : call.chunk.stream = stream) :
    chunksOf stream (entries ++ [.chunk call]) = chunksOf stream entries ++ [call] := by
  rw [chunksOf, filterMap_snoc, Entry.chunkOf, if_pos h]
  rfl

theorem publicationsOf_chunk {call : Call δ} :
    publicationsOf stream (entries ++ [.chunk call]) = publicationsOf stream entries := by
  rw [publicationsOf, filterMap_snoc]
  exact List.append_nil _

theorem publicationsOf_nil_of_below {n : Nat} (hbelow : ∀ e ∈ entries, e.stream < n) (h : n ≤ stream) :
    publicationsOf stream entries = [] := by
  refine List.filterMap_eq_nil_iff.2 fun e he => publicationOf_of_ne ?_
  have hlt := hbelow e he
  omega

theorem chunksOf_nil_of_below {n : Nat} (hbelow : ∀ e ∈ entries, e.stream < n) (h : n ≤ stream) :
    chunksOf stream entries = [] := by
  refine List.filterMap_eq_nil_iff.2 fun e he => chunkOf_of_ne ?_
  have hlt := hbelow e he
  omega

end Of

/-! ### What a step does -/

/-- Every step, by what it does. -/
inductive Steps (c : Ledger η δ) (w : World δ) (a : Action) : World δ → Prop where
  | arrives (arriving : Arriving) (taken : List (Call δ)) (result : Except Failed Kept) (ha : a = .arrive arriving true)
      (hwrites : (c.setup w.arrived.length arriving).writeStream arriving.events = (result, taken)) :
      Steps c w a { w with
        arrived := w.arrived ++ [arriving], cycles := w.cycles ++ [⟨w.arrived.length, .writing taken result⟩] }
  | turned (arriving : Arriving) (ha : a = .arrive arriving false) :
      Steps c w a { w with arrived := w.arrived ++ [arriving], told := w.told ++ [(w.arrived.length, .refused)] }
  | writes (i stream : Nat) (call : Call δ) (todo : List (Call δ)) (result : Except Failed Kept) (cycles : List (Cycle δ))
      (hpick : pick w.cycles i = some (⟨stream, .writing (call :: todo) result⟩, cycles)) :
      Steps c w a { w with log := w.log.write (.chunk call), cycles := cycles ++ [⟨stream, .writing todo result⟩] }
  | keeps (i stream : Nat) (kept : Kept) (cycles : List (Cycle δ))
      (hpick : pick w.cycles i = some (⟨stream, .writing [] (.ok kept)⟩, cycles)) :
      Steps c w a { w with cycles := cycles ++ [⟨stream, .kept kept⟩] }
  | publishes (i stream message : Nat) (kept : Kept) (journeys : List Nat) (cycles : List (Cycle δ))
      (hpick : pick w.cycles i = some (⟨stream, .kept kept⟩, cycles)) :
      Steps c w a { w with
        log := w.log.write (.publication ⟨message, stream, journeys⟩)
        cycles := cycles ++ [⟨stream, .published w.log.entries.length⟩] }
  | tells (i : Nat) (x : Cycle δ) (cycles : List (Cycle δ)) (cycle : ReceiveCycle)
      (hpick : pick w.cycles i = some (x, cycles))
      (hcompleted : cycle = .completed → ∃ place, x.phase = .published place ∧ place < w.log.synced)
      (hrefused : cycle = .refused → ∃ kept, x.phase = .kept kept) : Steps c w a (w.tells cycles x.stream cycle)
  | syncs (n : Nat) : Steps c w a { w with log := w.log.sync n }
  | crashes (n : Nat) : Steps c w a { w with log := w.log.crash n, cycles := [] }

variable {c : Ledger η δ} {w w' : World δ}

theorem steps_of_step {a : Action} (hs : w.step c a = some w') : Steps c w a w' := by
  cases a with
  | arrive arriving permitted =>
    simp only [World.step] at hs
    split at hs
    · rename_i hpermitted
      cases hs
      exact .arrives arriving _ _ (by rw [hpermitted]) rfl
    · rename_i hturned
      cases hs
      exact .turned arriving (by rw [Bool.eq_false_iff.2 hturned])
  | write i =>
    simp only [World.step] at hs
    split at hs
    · rename_i hpick
      cases hs
      exact .writes i _ _ _ _ _ hpick
    · exact nomatch hs
  | written i =>
    simp only [World.step] at hs
    split at hs
    · rename_i hpick
      cases hs
      exact .keeps i _ _ _ hpick
    · rename_i hpick
      cases hs
      exact .tells i _ _ _ hpick (fun h => nomatch h) (fun h => nomatch h)
    · exact nomatch hs
  | refuse i =>
    simp only [World.step] at hs
    split at hs
    · rename_i stream kept cycles hpick
      cases hs
      exact .tells i _ _ _ hpick (fun h => nomatch h) (fun _ => ⟨kept, rfl⟩)
    · exact nomatch hs
  | fail i =>
    simp only [World.step] at hs
    split at hs
    · rename_i hpick
      cases hs
      exact .tells i _ _ _ hpick (fun h => nomatch h) (fun h => nomatch h)
    · exact nomatch hs
  | publish i message journeys =>
    simp only [World.step] at hs
    split at hs
    · rename_i hpick
      cases hs
      exact .publishes i _ message _ journeys _ hpick
    · exact nomatch hs
  | sync n =>
    cases hs
    exact .syncs n
  | finish i =>
    simp only [World.step] at hs
    split at hs
    · rename_i stream place cycles hpick
      split at hs
      · rename_i hsynced
        cases hs
        exact .tells i _ _ _ hpick (fun _ => ⟨place, rfl, hsynced⟩) (fun h => nomatch h)
      · exact nomatch hs
    · exact nomatch hs
  | unsynced i =>
    simp only [World.step] at hs
    split at hs
    · rename_i hpick
      cases hs
      exact .tells i _ _ _ hpick (fun h => nomatch h) (fun h => nomatch h)
    · exact nomatch hs
  | crash n =>
    cases hs
    exact .crashes n

/-! ### What holds -/

/-- The Stream `stream` came in, and `taken` is what Xmip Storage took of it with `result`. -/
def Wrote (c : Ledger η δ) (arrived : List Arriving) (stream : Nat) (result : Except Failed Kept) (taken : List (Call δ)) :
    Prop :=
  ∃ arriving, arrived[stream]? = some arriving ∧
    (c.setup stream arriving).writeStream arriving.events = (result, taken)

theorem Wrote.append {arrived : List Arriving} {stream : Nat} {result : Except Failed Kept} {taken : List (Call δ)}
    (h : Wrote c arrived stream result taken) (arriving : Arriving) :
    Wrote c (arrived ++ [arriving]) stream result taken := by
  obtain ⟨one, hone, hwrites⟩ := h
  exact ⟨one, by rw [List.getElem?_append_left (List.getElem?_eq_some_iff.1 hone).1, hone], hwrites⟩

/-- A chunk is written before any Publication of its Stream, and a Publication once, behind all its Stream's chunks. -/
def Cause (c : Ledger η δ) (arrived : List Arriving) (before : List (Entry δ)) : Entry δ → Prop
  | .chunk call => publicationsOf call.chunk.stream before = []
  | .publication p =>
    publicationsOf p.stream before = [] ∧ ∃ kept, Wrote c arrived p.stream (.ok kept) (chunksOf p.stream before)

/-- What a cycle's phase says of the Ledger. -/
def Fits (c : Ledger η δ) (arrived : List Arriving) (entries : List (Entry δ)) (x : Cycle δ) : Prop :=
  match x.phase with
  | .writing todo result =>
    publicationsOf x.stream entries = [] ∧ Wrote c arrived x.stream result (chunksOf x.stream entries ++ todo)
  | .kept kept => publicationsOf x.stream entries = [] ∧ Wrote c arrived x.stream (.ok kept) (chunksOf x.stream entries)
  | .published place => ∃ p, entries[place]? = some (.publication p) ∧ p.stream = x.stream

structure Sound (c : Ledger η δ) (w : World δ) : Prop where
  caused : Journaled.Caused (Cause c w.arrived) w.log.entries
  below : ∀ e ∈ w.log.entries, e.stream < w.arrived.length
  fits : ∀ x ∈ w.cycles, Fits c w.arrived w.log.entries x
  apart : (w.cycles.map Cycle.stream).Nodup
  drawn : ∀ x ∈ w.cycles, x.stream < w.arrived.length
  ended : ∀ t ∈ w.told, t.1 < w.arrived.length ∧ t.1 ∉ w.cycles.map Cycle.stream
  completed : ∀ t ∈ w.told, t.2 = .completed → ∃ i p, w.log.Durable i (.publication p) ∧ p.stream = t.1
  refused : ∀ t ∈ w.told, t.2 = .refused → publicationsOf t.1 w.log.entries = []

theorem Cause.append {arrived : List Arriving} {before : List (Entry δ)} {e : Entry δ} (h : Cause c arrived before e)
    (arriving : Arriving) : Cause c (arrived ++ [arriving]) before e := by
  cases e with
  | chunk call => exact h
  | publication p =>
    obtain ⟨hnone, kept, hwrote⟩ := h
    exact ⟨hnone, kept, hwrote.append arriving⟩

theorem Fits.append {arrived : List Arriving} {entries : List (Entry δ)} {x : Cycle δ} (h : Fits c arrived entries x)
    (arriving : Arriving) : Fits c (arrived ++ [arriving]) entries x := by
  unfold Fits at h ⊢
  split
  · rename_i hphase
    rw [hphase] at h
    exact ⟨h.1, h.2.append arriving⟩
  · rename_i hphase
    rw [hphase] at h
    exact ⟨h.1, h.2.append arriving⟩
  · rename_i hphase
    rw [hphase] at h
    exact h

/-- A write of another Stream's. -/
theorem Fits.concat {arrived : List Arriving} {entries : List (Entry δ)} {x : Cycle δ} (h : Fits c arrived entries x)
    {e : Entry δ} (hne : e.stream ≠ x.stream) : Fits c arrived (entries ++ [e]) x := by
  unfold Fits at h ⊢
  rw [chunksOf_concat_of_ne hne, publicationsOf_concat_of_ne hne]
  split
  · rename_i hphase
    rw [hphase] at h
    exact h
  · rename_i hphase
    rw [hphase] at h
    exact h
  · rename_i place hphase
    rw [hphase] at h
    obtain ⟨p, hp, hstream⟩ := h
    exact ⟨p, by rw [List.getElem?_append_left (List.getElem?_eq_some_iff.1 hp).1, hp], hstream⟩

/-- The cycle picked is none of the rest. -/
theorem stream_ne_of_pick {i : Nat} {x : Cycle δ} {cycles : List (Cycle δ)} (h : Sound c w)
    (hpick : pick w.cycles i = some (x, cycles)) {y : Cycle δ} (hy : y ∈ cycles) : x.stream ≠ y.stream := by
  have hnodup := ((pick_perm hpick).map Cycle.stream).nodup_iff.2 h.apart
  rw [List.map_cons, List.nodup_cons] at hnodup
  exact fun heq => hnodup.1 (heq ▸ List.mem_map_of_mem hy)

section Goes

variable {i : Nat} {x : Cycle δ} {cycles : List (Cycle δ)}

theorem streams_becomes (hpick : pick w.cycles i = some (x, cycles)) (phase : Phase δ) :
    ((cycles ++ [(⟨x.stream, phase⟩ : Cycle δ)]).map Cycle.stream).Perm (w.cycles.map Cycle.stream) := by
  refine (List.perm_append_comm.map Cycle.stream).trans ?_
  exact map_becomes hpick rfl

theorem drawn_becomes (h : Sound c w) (hpick : pick w.cycles i = some (x, cycles)) (phase : Phase δ) :
    ∀ y ∈ cycles ++ [⟨x.stream, phase⟩], y.stream < w.arrived.length := by
  intro y hy
  rcases List.mem_append.1 hy with hy | hy
  · exact h.drawn y (mem_of_mem_pick hpick hy)
  · rw [List.mem_singleton.1 hy]
    exact h.drawn x (mem_of_pick hpick)

theorem ended_becomes (h : Sound c w) (hpick : pick w.cycles i = some (x, cycles)) (phase : Phase δ) :
    ∀ t ∈ w.told, t.1 < w.arrived.length ∧ t.1 ∉ (cycles ++ [(⟨x.stream, phase⟩ : Cycle δ)]).map Cycle.stream := by
  intro t ht
  obtain ⟨hlt, hnot⟩ := h.ended t ht
  exact ⟨hlt, fun hmem => hnot ((streams_becomes hpick phase).mem_iff.1 hmem)⟩

/-- A cycle goes on with the Ledger as it is. -/
theorem Sound.goes (h : Sound c w) (hpick : pick w.cycles i = some (x, cycles)) {phase : Phase δ}
    (hfits : Fits c w.arrived w.log.entries ⟨x.stream, phase⟩) :
    Sound c { w with cycles := cycles ++ [⟨x.stream, phase⟩] } where
  caused := h.caused
  below := h.below
  fits y hy := by
    rcases List.mem_append.1 hy with hy | hy
    · exact h.fits y (mem_of_mem_pick hpick hy)
    · exact List.mem_singleton.1 hy ▸ hfits
  apart := (streams_becomes hpick phase).nodup_iff.2 h.apart
  drawn := drawn_becomes h hpick phase
  ended := ended_becomes h hpick phase
  completed := h.completed
  refused := h.refused

/-- A cycle goes on with a write of its own Stream's. -/
theorem Sound.writes (h : Sound c w) (hpick : pick w.cycles i = some (x, cycles)) {e : Entry δ} (hown : e.stream = x.stream)
    (hcause : Cause c w.arrived w.log.entries e) {phase : Phase δ}
    (hfits : Fits c w.arrived (w.log.entries ++ [e]) ⟨x.stream, phase⟩) :
    Sound c { w with log := w.log.write e, cycles := cycles ++ [⟨x.stream, phase⟩] } where
  caused := h.caused.concat hcause
  below e' he' := by
    rcases List.mem_append.1 he' with he' | he'
    · exact h.below e' he'
    · rw [List.mem_singleton.1 he', hown]
      exact h.drawn x (mem_of_pick hpick)
  fits y hy := by
    rcases List.mem_append.1 hy with hy | hy
    · refine (h.fits y (mem_of_mem_pick hpick hy)).concat ?_
      rw [hown]
      exact stream_ne_of_pick h hpick hy
    · exact List.mem_singleton.1 hy ▸ hfits
  apart := (streams_becomes hpick phase).nodup_iff.2 h.apart
  drawn := drawn_becomes h hpick phase
  ended := ended_becomes h hpick phase
  completed t ht hcompleted := by
    obtain ⟨j, p, hdurable, hstream⟩ := h.completed t ht hcompleted
    exact ⟨j, p, hdurable.write e, hstream⟩
  refused t ht hrefused := by
    have hne : e.stream ≠ t.1 := fun heq =>
      (h.ended t ht).2 (heq ▸ hown ▸ List.mem_map_of_mem (mem_of_pick hpick))
    show publicationsOf t.1 (w.log.entries ++ [e]) = []
    rw [publicationsOf_concat_of_ne hne]
    exact h.refused t ht hrefused

/-- A cycle over. -/
theorem Sound.tells (h : Sound c w) (hpick : pick w.cycles i = some (x, cycles)) {cycle : ReceiveCycle}
    (hcompleted : cycle = .completed → ∃ place, x.phase = .published place ∧ place < w.log.synced)
    (hrefused : cycle = .refused → ∃ kept, x.phase = .kept kept) : Sound c (w.tells cycles x.stream cycle) where
  caused := h.caused
  below := h.below
  fits y hy := h.fits y (mem_of_mem_pick hpick hy)
  apart := by
    have hnodup := ((pick_perm hpick).map Cycle.stream).nodup_iff.2 h.apart
    exact (List.nodup_cons.1 hnodup).2
  drawn y hy := h.drawn y (mem_of_mem_pick hpick hy)
  ended t ht := by
    rcases List.mem_append.1 ht with ht | ht
    · obtain ⟨hlt, hnot⟩ := h.ended t ht
      refine ⟨hlt, fun hmem => hnot ?_⟩
      obtain ⟨y, hy, heq⟩ := List.mem_map.1 hmem
      exact List.mem_map.2 ⟨y, mem_of_mem_pick hpick hy, heq⟩
    · rw [List.mem_singleton.1 ht]
      refine ⟨h.drawn x (mem_of_pick hpick), fun hmem => ?_⟩
      obtain ⟨y, hy, heq⟩ := List.mem_map.1 hmem
      exact stream_ne_of_pick h hpick hy heq.symm
  completed t ht heq := by
    rcases List.mem_append.1 ht with ht | ht
    · exact h.completed t ht heq
    · rw [List.mem_singleton.1 ht] at heq ⊢
      obtain ⟨place, hphase, hsynced⟩ := hcompleted heq
      have hfits := h.fits x (mem_of_pick hpick)
      unfold Fits at hfits
      rw [hphase] at hfits
      obtain ⟨p, hp, hstream⟩ := hfits
      exact ⟨place, p, ⟨hsynced, hp⟩, hstream⟩
  refused t ht heq := by
    rcases List.mem_append.1 ht with ht | ht
    · exact h.refused t ht heq
    · rw [List.mem_singleton.1 ht] at heq ⊢
      obtain ⟨kept, hphase⟩ := hrefused heq
      have hfits := h.fits x (mem_of_pick hpick)
      unfold Fits at hfits
      rw [hphase] at hfits
      exact hfits.1

end Goes

/-- A Stream comes in, and its cycle begins where its transport is permitted. -/
theorem Sound.arrives (h : Sound c w) (arriving : Arriving) {taken : List (Call δ)} {result : Except Failed Kept}
    (hwrites : (c.setup w.arrived.length arriving).writeStream arriving.events = (result, taken)) :
    Sound c { w with
      arrived := w.arrived ++ [arriving], cycles := w.cycles ++ [⟨w.arrived.length, .writing taken result⟩] } := by
  have hlength : (w.arrived ++ [arriving]).length = w.arrived.length + 1 := List.length_append
  have hnew : w.arrived.length ∉ w.cycles.map Cycle.stream := by
    intro hmem
    obtain ⟨y, hy, heq⟩ := List.mem_map.1 hmem
    have hlt := h.drawn y hy
    omega
  constructor
  · exact h.caused.imp fun before e hcause => hcause.append arriving
  · intro e he
    have hlt := h.below e he
    show e.stream < (w.arrived ++ [arriving]).length
    omega
  · intro y hy
    rcases List.mem_append.1 hy with hy | hy
    · exact (h.fits y hy).append arriving
    · rw [List.mem_singleton.1 hy]
      refine ⟨publicationsOf_nil_of_below h.below (Nat.le_refl _), arriving, List.getElem?_concat_length, ?_⟩
      rw [chunksOf_nil_of_below h.below (Nat.le_refl _)]
      exact hwrites
  · show ((w.cycles ++ [_]).map Cycle.stream).Nodup
    rw [List.map_append, List.nodup_append']
    refine ⟨h.apart, List.nodup_singleton _, fun s hs hs' => hnew ?_⟩
    rw [List.mem_singleton.1 hs'] at hs
    exact hs
  · intro y hy
    show y.stream < (w.arrived ++ [arriving]).length
    rcases List.mem_append.1 hy with hy | hy
    · have hlt := h.drawn y hy
      omega
    · rw [List.mem_singleton.1 hy]
      show w.arrived.length < _
      omega
  · intro t ht
    obtain ⟨hlt, hnot⟩ := h.ended t ht
    refine ⟨by show t.1 < (w.arrived ++ [arriving]).length; omega, fun hmem => ?_⟩
    rw [List.map_append] at hmem
    rcases List.mem_append.1 hmem with hmem | hmem
    · exact hnot hmem
    · have heq : t.1 = w.arrived.length := List.mem_singleton.1 hmem
      omega
  · exact h.completed
  · exact h.refused

theorem Sound.turned (h : Sound c w) (arriving : Arriving) :
    Sound c { w with arrived := w.arrived ++ [arriving], told := w.told ++ [(w.arrived.length, .refused)] } := by
  have hlength : (w.arrived ++ [arriving]).length = w.arrived.length + 1 := List.length_append
  constructor
  · exact h.caused.imp fun before e hcause => hcause.append arriving
  · intro e he
    have hlt := h.below e he
    show e.stream < (w.arrived ++ [arriving]).length
    omega
  · exact fun y hy => (h.fits y hy).append arriving
  · exact h.apart
  · intro y hy
    have hlt := h.drawn y hy
    show y.stream < (w.arrived ++ [arriving]).length
    omega
  · intro t ht
    show t.1 < (w.arrived ++ [arriving]).length ∧ t.1 ∉ w.cycles.map Cycle.stream
    rcases List.mem_append.1 ht with ht | ht
    · obtain ⟨hlt, hnot⟩ := h.ended t ht
      exact ⟨by omega, hnot⟩
    · rw [List.mem_singleton.1 ht]
      refine ⟨by show w.arrived.length < _; omega, fun hmem => ?_⟩
      obtain ⟨y, hy, heq⟩ := List.mem_map.1 hmem
      have hlt := h.drawn y hy
      have heq' : y.stream = w.arrived.length := heq
      omega
  · intro t ht heq
    rcases List.mem_append.1 ht with ht | ht
    · exact h.completed t ht heq
    · rw [List.mem_singleton.1 ht] at heq
      exact nomatch heq
  · intro t ht heq
    rcases List.mem_append.1 ht with ht | ht
    · exact h.refused t ht heq
    · rw [List.mem_singleton.1 ht]
      exact publicationsOf_nil_of_below h.below (Nat.le_refl _)

/-- A crash: the cycles under way are gone, and the Ledger is what it was up to some point. -/
theorem Sound.crashes (h : Sound c w) (n : Nat) : Sound c { w with log := w.log.crash n, cycles := [] } where
  caused := h.caused.take _
  below e he := h.below e (List.mem_of_mem_take he)
  fits y hy := nomatch hy
  apart := List.nodup_nil
  drawn y hy := nomatch hy
  ended t ht := ⟨(h.ended t ht).1, fun hmem => nomatch hmem⟩
  completed t ht heq := by
    obtain ⟨j, p, hdurable, hstream⟩ := h.completed t ht heq
    exact ⟨j, p, hdurable.crash n, hstream⟩
  refused t ht heq := by
    have hnone := List.filterMap_eq_nil_iff.1 (h.refused t ht heq)
    exact List.filterMap_eq_nil_iff.2 fun e he => hnone e (List.mem_of_mem_take he)

theorem Sound.step {a : Action} (h : Sound c w) (hs : Steps c w a w') : Sound c w' := by
  cases hs with
  | arrives arriving taken result ha hwrites => exact h.arrives arriving hwrites
  | turned arriving ha => exact h.turned arriving
  | writes i stream call todo result cycles hpick =>
    obtain ⟨hnone, hwrote⟩ := h.fits _ (mem_of_pick hpick)
    have hown : call.chunk.stream = stream := by
      obtain ⟨arriving, -, hwrites⟩ := hwrote
      exact writeStream_own hwrites call (by simp)
    have hcause : Cause c w.arrived w.log.entries (.chunk call) := by
      show publicationsOf call.chunk.stream w.log.entries = []
      rw [hown]
      exact hnone
    refine h.writes hpick (e := .chunk call) hown hcause ⟨?_, ?_⟩
    · rw [publicationsOf_chunk]
      exact hnone
    · rw [chunksOf_chunk hown, List.append_assoc]
      exact hwrote
  | keeps i stream kept cycles hpick =>
    obtain ⟨hnone, hwrote⟩ := h.fits _ (mem_of_pick hpick)
    rw [List.append_nil] at hwrote
    exact h.goes hpick ⟨hnone, hwrote⟩
  | publishes i stream message kept journeys cycles hpick =>
    obtain ⟨hnone, hwrote⟩ := h.fits _ (mem_of_pick hpick)
    have hcause : Cause c w.arrived w.log.entries (.publication ⟨message, stream, journeys⟩) := ⟨hnone, kept, hwrote⟩
    exact h.writes hpick rfl hcause ⟨_, List.getElem?_concat_length, rfl⟩
  | tells i x cycles cycle hpick hcompleted hrefused => exact h.tells hpick hcompleted hrefused
  | syncs n =>
    refine ⟨h.caused, h.below, h.fits, h.apart, h.drawn, h.ended, fun t ht heq => ?_, h.refused⟩
    obtain ⟨j, p, hdurable, hstream⟩ := h.completed t ht heq
    exact ⟨j, p, hdurable.sync n, hstream⟩
  | crashes n => exact h.crashes n

theorem sound_of_begins (h : w.Begins) : Sound c w := by
  subst h
  exact ⟨fun i e he => (nomatch he), fun e he => (nomatch he), fun y hy => (nomatch hy), List.nodup_nil,
    fun y hy => (nomatch hy), fun t ht => (nomatch ht), fun t ht => (nomatch ht), fun t ht => (nomatch ht)⟩

/-! ### Results -/

/-- The Stream a Publication refers to, whole in the Ledger: what its sender sent, chunk by chunk, with its record; and no
other Publication refers to it. -/
structure Whole (c : Ledger η δ) (w : World δ) (p : Publication) : Prop where
  once : publicationsOf p.stream w.log.entries = [p]
  sent : ∃ arriving bytes kept, w.arrived[p.stream]? = some arriving ∧ content arriving.events = .ok bytes ∧
    Written (c.setup p.stream arriving) bytes kept (chunksOf p.stream w.log.entries)

/-- Nothing of a Stream is written behind its Publication. -/
theorem none_behind (h : Sound c w) {i j : Nat} {p : Publication} (hp : w.log.entries[i]? = some (.publication p))
    {e : Entry δ} (he : w.log.entries[j]? = some e) (hlt : i < j) : e.stream ≠ p.stream := by
  intro heq
  have hmem : p ∈ publicationsOf p.stream (w.log.entries.take j) := by
    refine List.mem_filterMap.2 ⟨.publication p, ?_, if_pos rfl⟩
    exact List.mem_iff_getElem?.2 ⟨i, by rw [List.getElem?_take_of_lt hlt, hp]⟩
  have hcause := h.caused j e he
  have hnone : publicationsOf p.stream (w.log.entries.take j) = [] := by
    rw [← heq]
    cases e with
    | chunk call => exact hcause
    | publication q => exact hcause.1
  rw [hnone] at hmem
  exact nomatch hmem

theorem wrote_of_published (h : Sound c w) {p : Publication} (hp : .publication p ∈ w.log.entries) :
    publicationsOf p.stream w.log.entries = [p] ∧
      ∃ kept, Wrote c w.arrived p.stream (.ok kept) (chunksOf p.stream w.log.entries) := by
  obtain ⟨i, hi⟩ := List.mem_iff_getElem?.1 hp
  have hlt := (List.getElem?_eq_some_iff.1 hi).1
  obtain ⟨hnone, kept, hwrote⟩ := h.caused i _ hi
  have hsplit : w.log.entries = w.log.entries.take i ++ .publication p :: w.log.entries.drop (i + 1) := by
    have hget := (List.getElem?_eq_some_iff.1 hi).2
    rw [← hget, ← List.drop_eq_getElem_cons hlt, List.take_append_drop]
  have hbehind : ∀ e ∈ w.log.entries.drop (i + 1), e.stream ≠ p.stream := by
    intro e he
    obtain ⟨j, hj⟩ := List.mem_iff_getElem?.1 he
    rw [List.getElem?_drop] at hj
    exact none_behind h hi hj (by omega)
  have hpublications : publicationsOf p.stream (w.log.entries.drop (i + 1)) = [] :=
    List.filterMap_eq_nil_iff.2 fun e he => publicationOf_of_ne (hbehind e he)
  have hchunks : chunksOf p.stream (w.log.entries.drop (i + 1)) = [] :=
    List.filterMap_eq_nil_iff.2 fun e he => chunkOf_of_ne (hbehind e he)
  constructor
  · have hone : (Entry.publication p : Entry δ).publicationOf p.stream = some p := if_pos rfl
    rw [hsplit, publicationsOf, List.filterMap_append, List.filterMap_cons_some hone]
    show publicationsOf p.stream _ ++ p :: publicationsOf p.stream _ = [p]
    rw [hnone, hpublications]
    rfl
  · refine ⟨kept, ?_⟩
    have hall : chunksOf p.stream w.log.entries = chunksOf p.stream (w.log.entries.take i) := by
      conv_lhs => rw [hsplit, chunksOf, List.filterMap_append, List.filterMap_cons_none rfl]
      show chunksOf p.stream _ ++ chunksOf p.stream _ = _
      rw [hchunks, List.append_nil]
    rw [hall]
    exact hwrote

/-- What was written of a Stream that came in within the numbers counted in is its content. -/
theorem written_of_wrote (hdigest : c.digest.Passes) {arrived : List Arriving}
    (hcounts : ∀ arriving ∈ arrived, c.counts arriving = true) {stream : Nat} {kept : Kept} {taken : List (Call δ)}
    (h : Wrote c arrived stream (.ok kept) taken) :
    ∃ arriving bytes kept, arrived[stream]? = some arriving ∧ content arriving.events = .ok bytes ∧
      Written (c.setup stream arriving) bytes kept taken := by
  obtain ⟨arriving, harriving, hwrites⟩ := h
  obtain ⟨bytes, hbytes, hends⟩ := writeStream_iff.1 hwrites
  have hcounted := hcounts arriving (List.mem_iff_getElem?.2 ⟨stream, harriving⟩)
  simp only [Ledger.counts, hbytes, Bool.and_eq_true, decide_eq_true_eq] at hcounted
  have hwritten : Written (c.setup stream arriving) bytes _ _ := written_calls hdigest hcounted.1 hcounted.2
  rw [← (eq_of_ends hends).2] at hwritten
  exact ⟨arriving, bytes, _, harriving, hbytes, hwritten⟩

theorem counts_of_steps {a : Action} (h : ∀ arriving ∈ w.arrived, c.counts arriving = true) (hok : Counts c w a)
    (hs : Steps c w a w') : ∀ arriving ∈ w'.arrived, c.counts arriving = true := by
  have hmore (arriving : Arriving) (hone : c.counts arriving = true) :
      ∀ other ∈ w.arrived ++ [arriving], c.counts other = true := by
    intro other hother
    rcases List.mem_append.1 hother with hother | hother
    · exact h other hother
    · rw [List.mem_singleton.1 hother]
      exact hone
  cases hs with
  | arrives arriving taken result ha => exact hmore arriving (ha ▸ hok : Counts c w (.arrive arriving true))
  | turned arriving ha => exact hmore arriving (ha ▸ hok : Counts c w (.arrive arriving false))
  | _ => exact h

theorem whole_of_reach (hdigest : c.digest.Passes) (h : Reach (World.step c) (Counts c) World.Begins w) :
    Sound c w ∧ ∀ p, .publication p ∈ w.log.entries → Whole c w p := by
  have hboth : Sound c w ∧ ∀ arriving ∈ w.arrived, c.counts arriving = true := by
    refine @Reach.invariant _ _ _ _ _ (fun w => Sound c w ∧ ∀ arriving ∈ w.arrived, c.counts arriving = true) ?_ ?_ _ h
    · intro w hw
      refine ⟨sound_of_begins hw, ?_⟩
      rw [hw]
      exact fun arriving harriving => (nomatch harriving)
    · intro w a w' hkept hok hs
      exact ⟨hkept.1.step (steps_of_step hs), counts_of_steps hkept.2 hok (steps_of_step hs)⟩
  refine ⟨hboth.1, fun p hp => ?_⟩
  obtain ⟨honce, kept, hwrote⟩ := wrote_of_published hboth.1 hp
  exact ⟨honce, written_of_wrote hdigest hboth.2 hwrote⟩

/-- Chunks of two bytes, the digest the bytes themselves. -/
private def inTwos : Ledger Bytes Bytes := ⟨true, ⟨[], (· ++ ·), id⟩, 2⟩

private theorem inTwos_passes : inTwos.digest.Passes := fun _ _ _ => List.append_assoc ..

private def sends (bytes : Bytes) : Arriving := ⟨[.data bytes], fun _ => none⟩

/-- Two cycles in turn, a third refused; the first published and durable, the second published, and a crash. -/
private def crashed : List Action :=
  [.arrive (sends [1, 2, 3]) true, .arrive (sends [9]) true, .arrive (sends []) false, .write 0, .write 0, .write 0,
    .written 0, .written 0, .publish 1 50 [60], .publish 0 51 [], .sync 4, .finish 0, .crash 0]

/-- In whatever order receive cycles run, and wherever the node crashes between them: a Publication in the Ledger is the
only one of its Stream, and the Stream is whole there, just what its sender sent. -/
theorem published_whole (hdigest : c.digest.Passes) (h : Reach (World.step c) (Counts c) World.Begins w) {p : Publication}
    (hp : .publication p ∈ w.log.entries) : Whole c w p :=
  (whole_of_reach hdigest h).2 p hp

theorem published_whole_crashed : ∃ w, Reach (World.step inTwos) (Counts inTwos) World.Begins w ∧
    w.log.entries.length = 4 ∧ Whole inTwos w ⟨50, 0, [60]⟩ := by
  obtain ⟨w, hreach, hw⟩ := Reach.exists_of_runWhere (World.step inTwos) (Counts inTwos) (show World.Begins _ from rfl)
    crashed (fun w => decide (w.log.entries.length = 4) && decide (.publication ⟨50, 0, [60]⟩ ∈ w.log.entries))
    (by decide +kernel)
  obtain ⟨hlength, hp⟩ := Bool.and_eq_true_iff.1 hw
  exact ⟨w, hreach, of_decide_eq_true hlength, published_whole inTwos_passes hreach (of_decide_eq_true hp)⟩

/-- A sender is acknowledged only for a Stream whose Publication, and so the Stream, no crash takes from the Ledger: each
acknowledged is durable there at every later point of every run.  No Publication is of a Stream its sender was refused. -/
theorem acknowledged_kept (hdigest : c.digest.Passes) (h : Reach (World.step c) (Counts c) World.Begins w) {stream : Nat} :
    ((stream, .completed) ∈ w.told → ∃ i p, w.log.Durable i (.publication p) ∧ p.stream = stream ∧ Whole c w p) ∧
      ((stream, .refused) ∈ w.told → publicationsOf stream w.log.entries = []) := by
  obtain ⟨hsound, hwhole⟩ := whole_of_reach hdigest h
  constructor
  · intro htold
    obtain ⟨i, p, hdurable, hstream⟩ := hsound.completed _ htold rfl
    exact ⟨i, p, hdurable, hstream, hwhole p (List.mem_iff_getElem?.2 ⟨i, hdurable.2⟩)⟩
  · exact fun htold => hsound.refused _ htold rfl

theorem acknowledged_kept_crashed : ∃ w, Reach (World.step inTwos) (Counts inTwos) World.Begins w ∧
    (∃ i p, w.log.Durable i (.publication p) ∧ p.stream = 0 ∧ Whole inTwos w p) ∧
    publicationsOf 2 w.log.entries = [] := by
  obtain ⟨w, hreach, hw⟩ := Reach.exists_of_runWhere (World.step inTwos) (Counts inTwos) (show World.Begins _ from rfl)
    crashed (fun w => decide ((0, .completed) ∈ w.told) && decide ((2, .refused) ∈ w.told)) (by decide +kernel)
  obtain ⟨hcompleted, hrefused⟩ := Bool.and_eq_true_iff.1 hw
  exact ⟨w, hreach, (acknowledged_kept inTwos_passes hreach).1 (of_decide_eq_true hcompleted),
    (acknowledged_kept inTwos_passes hreach).2 (of_decide_eq_true hrefused)⟩

end Carrying
