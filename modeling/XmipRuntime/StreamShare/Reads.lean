import XmipRuntime.Library.Run
import XmipRuntime.Library.Table

/-!
# One read of a Stream lent to many departures

The departures of a Stream on one node take its chunks from reads of it they share (`src/stream_share.rs`).  A read keeps
the last chunks it took in a window and reads on as its departures ask (`src/stream_share/one_read.rs`); a departure
behind the window reads on from where it is, from another read that reaches its place or one of its own, and before each
chunk it may move to a read that more departures take from.

A Stream's reads are listed under one lock, and each read has its own: a step of the machine is one hold of one read's
lock, taken alone or under the list's.  A read held across a request of Xmip Storage says by whom.  What Xmip Storage
answers is a parameter, `ChunkReaders`; the time a step is taken at comes with it.

Reads are numbered as they are opened, for the node's life, so a number is the read itself.  A Stream's list is there as
long as a departure of it is: the next departure after the last one starts it anew.
-/

namespace StreamShare

open Library

variable {ρ ω β ε : Type}

/-- Xmip Storage's readers of a Stream's chunks: one opened at a chunk of the Stream, so many bytes into it, and what the
next chunk asked for comes to, with whatever else decides it. -/
structure ChunkReaders (ρ ω β ε : Type) where
  sharedFrom : (stream length chunk taken : Nat) → ρ
  nextChunk : ω → ρ → Except ε (Option (List β)) × ρ

/-- The chunks kept for each departure beside the first. -/
def keptPerReader : Nat := 5

/-- The chunks a read keeps while `readers` departures take from it. -/
def kept (readers : Nat) : Nat := max (keptPerReader * (readers - 1)) 1

/-! ### One read -/

/-- A departure taking from a read: its number, the place of the next chunk it takes and when it last took one. -/
structure Reader where
  number : Nat
  next : Nat
  took : Nat
  deriving DecidableEq

/-- One read of Xmip Storage and the last chunks it took, from the place `first` on. -/
structure OneRead (ρ β ε : Type) where
  /-- The Stream its reader is of. -/
  stream : Nat
  reader : ρ
  window : List (List β)
  first : Nat
  ended : Bool
  /-- Why the read failed. -/
  failed : Option ε
  readers : List Reader
  /-- Who holds its lock across a request of Xmip Storage. -/
  holder : Option Nat

/-- What a read gives a departure for the chunk at its place. -/
inductive Next (β : Type) where
  | chunk (bytes : List β)
  | ended
  | behind

/-- What one turn of the search for a chunk comes to: an answer, a wait for another departure, or one more turn. -/
inductive Turn (β ε : Type) where
  | answered (answer : Except ε (Next β))
  | waits
  | goesOn

namespace OneRead

/-- `reader` of `stream`, read on from `place`. -/
def opened (stream : Nat) (reader : ρ) (place : Nat) : OneRead ρ β ε := ⟨stream, reader, [], place, false, none, [], none⟩

/-- Whether one more departure, at `place`, may take from this read. -/
def reaches (o : OneRead ρ β ε) (place : Nat) : Bool :=
  decide (o.first ≤ place) && o.failed.isNone &&
    (decide (place - o.first ≤ o.window.length) || decide (place - o.first < kept (o.readers.length + 1)))

/-- Departure `number` taking from it from `place` on. -/
def join (o : OneRead ρ β ε) (number place now : Nat) : OneRead ρ β ε :=
  { o with readers := o.readers ++ [⟨number, place, now⟩] }

/-- Departure `number` gone from it. -/
def leave (o : OneRead ρ β ε) (number : Nat) : OneRead ρ β ε :=
  { o with readers := o.readers.filter fun reader => decide (reader.number ≠ number) }

/-- How much longer the next chunk waits for a departure whose next is the first kept. -/
def waits (o : OneRead ρ β ε) (stall now : Nat) : Option Nat :=
  if o.window.length < kept o.readers.length then none
  else
    let behind := o.readers.filter fun reader => decide (reader.next = o.first)
    let left := behind.filterMap fun reader =>
      if now - reader.took ≤ stall then some (stall - (now - reader.took)) else none
    (left.filter fun left => decide (left ≠ 0)).min?

/-- Departure `number` has taken the chunk before `next`. -/
def tookBy (o : OneRead ρ β ε) (number next now : Nat) : OneRead ρ β ε :=
  match o.readers.findIdx? fun reader => decide (reader.number = number) with
  | some i => { o with readers := o.readers.modify i fun reader => { reader with next, took := now } }
  | none => o

/-- `chunk` read, and of those kept the first let go of that are more than the read may keep. -/
def push (o : OneRead ρ β ε) (chunk : List β) : OneRead ρ β ε :=
  let window := o.window ++ [chunk]
  let gone := window.length - kept o.readers.length
  { o with window := window.drop gone, first := o.first + gone }

/-- One turn of the search for the chunk at `place` for departure `number`. -/
def chunk (c : ChunkReaders ρ ω β ε) (o : OneRead ρ β ε) (number place stall now : Nat) (w : ω) :
    Turn β ε × OneRead ρ β ε :=
  match o.failed with
  | some why => (.answered (.error why), o)
  | none =>
    if place < o.first then (.answered (.ok .behind), o)
    else
      match o.window[place - o.first]? with
      | some chunk => (.answered (.ok (.chunk chunk)), o.tookBy number (place + 1) now)
      | none =>
        if o.ended then (.answered (.ok .ended), o)
        else if (o.waits stall now).isSome then (.waits, o)
        else
          match c.nextChunk w o.reader with
          | (.ok (some chunk), reader) => (.goesOn, { o with reader }.push chunk)
          | (.ok none, reader) => (.goesOn, { o with reader, ended := true })
          | (.error why, reader) => (.answered (.error why), { o with reader, failed := some why })

end OneRead

/-! ### The departures of a Stream -/

/-- One Stream's reads on this node, in the order they were opened, who holds the lock of the list, and the next
departure's number. -/
structure Shared where
  length : Nat
  reads : List Nat
  numbered : Nat
  holder : Option Nat

/-- Where a departure is: between its reads of its Stream, or in one, for a buffer of `out` bytes. -/
inductive Phase where
  | idle
  /-- About to see whether to move to another read. -/
  | starting (out : Nat)
  /-- Looking at the other reads, `mine` being its own among them and `others` the departures beside it there. -/
  | moving (out others mine : Nat) (pending : List (Nat × Nat))
  /-- It joined the read `on` and has to leave its own. -/
  | leaving (out on : Nat)
  | asking (out : Nat)
  /-- Without a read that reaches its place; `none`, where it is a new departure. -/
  | behind (out : Option Nat)
  /-- Looking for a read that reaches its place, the best so far with its departures. -/
  | choosing (out : Option Nat) (pending : List Nat) (best : Option (Nat × Nat))
  | joining (out : Option Nat) (on : Nat)
  /-- It left its read, and is let go of. -/
  | left
  | gone
  deriving DecidableEq

/-- Once it has a read that reaches its place. -/
def Phase.joined : Option Nat → Phase
  | some out => .asking out
  | none => .idle

/-- One departure's read of a Stream: the read it takes from, its place, the chunk it holds and how much of that it gave
(`at` in the source), and with it what it gave in all and what it answered, each with the buffer it was asked for. -/
structure Lent (β ε : Type) where
  stream : Nat
  read : Option Nat
  number : Nat
  place : Nat
  taken : Nat
  held : Option (List β)
  offset : Nat
  phase : Phase
  given : List β
  answers : List (Nat × Except ε Nat)

namespace Lent

def answer (l : Lent β ε) (out : Nat) (answer : Except ε Nat) : Lent β ε :=
  { l with phase := .idle, answers := l.answers ++ [(out, answer)] }

/-- What it holds given as far as the buffer goes; where it holds nothing more, the next chunk taken. -/
def gives (l : Lent β ε) (out : Nat) : Lent β ε :=
  match l.held with
  | some held =>
    if l.offset < held.length then
      let taken := min out (held.length - l.offset)
      { l with given := l.given ++ (held.drop l.offset).take taken, offset := l.offset + taken }.answer out (.ok taken)
    else { l with held := none, phase := .starting out }
  | none => { l with phase := .starting out }

/-- `chunk` is the next it holds. -/
def takes (l : Lent β ε) (chunk : List β) : Lent β ε :=
  { l with taken := l.taken + chunk.length, place := l.place + 1, held := some chunk, offset := 0 }

end Lent

structure Sys (ρ β ε : Type) where
  reads : List (OneRead ρ β ε)
  shareds : Table Nat Shared
  lents : List (Lent β ε)

/-- No Stream is read. -/
def Sys.starting : Sys ρ β ε := ⟨[], .empty, []⟩

def Starts (s : Sys ρ β ε) : Prop := s = .starting

/-- What is told the node of its reads of Streams: how long one behind is waited for, how long each Stream is as its
record keeps it, and what is said of a Stream past its chunks. -/
structure Settings (ρ ω β ε : Type) where
  readers : ChunkReaders ρ ω β ε
  stall : Nat
  length : Nat → Nat
  pastItsChunks : ε

inductive Action (ω : Type) where
  /-- A departure of `stream` asks for a reader. -/
  | reader (stream : Nat)
  /-- The departure `k` reads, into a buffer of `out` bytes. -/
  | read (k out : Nat)
  | move (k : Nat)
  /-- One other read looked at; `busy`, where its lock is another's just now. -/
  | tryMove (k now : Nat) (busy : Bool)
  | leave (k : Nat)
  | ask (k now : Nat) (w : ω)
  | fall (k : Nat)
  | look (k : Nat)
  | choose (k now : Nat)
  | join (k now : Nat)
  | drop (k : Nat)
  | dropped (k : Nat)

namespace Sys

/-- Whether the departure `k` may hold a lock now. -/
def mayHold (holder : Option Nat) (k : Nat) : Bool := holder.all fun h => decide (h = k)

/-- The departure `k` gone from its read, let go of where none takes from it any more. -/
def leaves (s : Sys ρ β ε) (l : Lent β ε) (shared : Shared) (i : Nat) : Option (Sys ρ β ε × Shared) := do
  let on ← s.reads[i]?
  if on.holder.isNone then
    let left := on.leave l.number
    let reads := if left.readers.isEmpty then shared.reads.filter fun j => decide (j ≠ i) else shared.reads
    some ({ s with reads := s.reads.set i left }, { shared with reads })
  else none

/-- It leaves its read, where it has one. -/
def leavesOwn (s : Sys ρ β ε) (l : Lent β ε) (shared : Shared) : Option (Sys ρ β ε × Shared) :=
  match l.read with
  | some i => s.leaves l shared i
  | none => some (s, shared)

variable (c : Settings ρ ω β ε)

/-- A departure's reader: one more departure of the Stream's list, or of a new one where none is left of it. -/
def readerOf (s : Sys ρ β ε) (stream : Nat) : Sys ρ β ε :=
  let alive := s.lents.any fun l => decide (l.stream = stream ∧ l.phase ≠ .gone)
  let fresh : Shared := ⟨c.length stream, [], 0, none⟩
  let shared := if alive then (s.shareds.get stream).getD fresh else fresh
  { s with
    shareds := s.shareds.put stream { shared with numbered := shared.numbered + 1 }
    lents := s.lents ++ [⟨stream, none, shared.numbered, 0, 0, none, 0, .behind none, [], []⟩] }

/-- What the departure `k`, `l`, does in its read of the Stream whose list is `shared`: moving before its next chunk. -/
def moves (s : Sys ρ β ε) (k : Nat) (l : Lent β ε) (shared : Shared) : Action ω → Option (Sys ρ β ε)
  | .move _ =>
    match l.phase with
    | .starting out =>
      let asking := { s with lents := s.lents.set k { l with phase := .asking out } }
      if shared.holder.isSome then none
      else if shared.reads.length < 2 then some asking
      else
        match l.read with
        | some i =>
          match shared.reads.idxOf? i with
          | some mine => do
            let on ← s.reads[i]?
            if on.holder.isSome then none
            else some { s with
              shareds := s.shareds.put l.stream { shared with holder := some k }
              lents := s.lents.set k { l with
                phase := .moving out (on.readers.length - 1) mine shared.reads.zipIdx } }
          | none => some asking
        | none => some asking
    | _ => none
  | .tryMove _ now busy =>
    match l.phase with
    | .moving out _ _ [] => some { s with
        shareds := s.shareds.put l.stream { shared with holder := none }
        lents := s.lents.set k { l with phase := .asking out } }
    | .moving out others mine ((i, pos) :: pending) =>
      let passed := { s with lents := s.lents.set k { l with phase := .moving out others mine pending } }
      if pos = mine ∨ busy then some passed
      else do
        let read ← s.reads[i]?
        let more := decide (read.readers.length > others) || (decide (read.readers.length = others) && decide (pos < mine))
        if read.holder.isSome then none
        else if more && read.reaches l.place then
          some { s with
            reads := s.reads.set i (read.join l.number l.place now)
            lents := s.lents.set k { l with phase := .leaving out i } }
        else some passed
    | _ => none
  | .leave _ =>
    match l.phase with
    | .leaving out i => do
      let on ← l.read
      let (s, shared) ← s.leaves l shared on
      some { s with
        shareds := s.shareds.put l.stream { shared with holder := none }
        lents := s.lents.set k { l with read := some i, phase := .asking out } }
    | _ => none
  | _ => none

/-- Joining a read that reaches its place, or one of its own. -/
def joins (s : Sys ρ β ε) (k : Nat) (l : Lent β ε) (shared : Shared) : Action ω → Option (Sys ρ β ε)
  | .fall _ =>
    match l.phase with
    | .behind out =>
      if shared.holder.isSome then none
      else do
        let (s, shared) ← s.leavesOwn l shared
        some { s with
          shareds := s.shareds.put l.stream { shared with holder := some k }
          lents := s.lents.set k { l with phase := .choosing out shared.reads none } }
    | _ => none
  | .look _ =>
    match l.phase with
    | .choosing out (i :: pending) best => do
      let read ← s.reads[i]?
      if read.holder.isSome then none
      else
        let better := read.reaches l.place && best.all fun b => decide (read.readers.length > b.1)
        let best := if better then some (read.readers.length, i) else best
        some { s with lents := s.lents.set k { l with phase := .choosing out pending best } }
    | _ => none
  | .choose _ now =>
    match l.phase with
    | .choosing out [] (some (_, i)) => some { s with lents := s.lents.set k { l with phase := .joining out i } }
    | .choosing out [] none =>
      let reader := c.readers.sharedFrom l.stream shared.length (min l.place (UInt32.size - 1)) l.taken
      let opened := (OneRead.opened l.stream reader l.place).join l.number l.place now
      some { s with
        reads := s.reads ++ [opened]
        shareds := s.shareds.put l.stream { shared with reads := shared.reads ++ [s.reads.length], holder := none }
        lents := s.lents.set k { l with read := some s.reads.length, phase := .joined out } }
    | _ => none
  | .join _ now =>
    match l.phase with
    | .joining out i => do
      let read ← s.reads[i]?
      if read.holder.isSome then none
      else some { s with
        reads := s.reads.set i (read.join l.number l.place now)
        shareds := s.shareds.put l.stream { shared with holder := none }
        lents := s.lents.set k { l with read := some i, phase := .joined out } }
    | _ => none
  | _ => none

/-- A departure's read of the Stream: from what it holds, and one turn of its read's search for the next chunk. -/
def asks (s : Sys ρ β ε) (k : Nat) (l : Lent β ε) : Action ω → Option (Sys ρ β ε)
  | .read _ out =>
    match l.phase with
    | .idle =>
      let l := if out = 0 then l.answer 0 (.ok 0) else l.gives out
      some { s with lents := s.lents.set k l }
    | _ => none
  | .ask _ now w =>
    match l.phase with
    | .asking out => do
      let i ← l.read
      let read ← s.reads[i]?
      if mayHold read.holder k then
        let (turn, read) := read.chunk c.readers l.number l.place c.stall now w
        let (holder, l) := match turn with
          | .goesOn => (some k, l)
          | .waits => (none, l)
          | .answered (.error why) => (none, l.answer out (.error why))
          | .answered (.ok .ended) => (none, l.answer out (.ok 0))
          | .answered (.ok (.chunk chunk)) => (none, (l.takes chunk).gives out)
          | .answered (.ok .behind) =>
            (none, if UInt32.size ≤ l.place then l.answer out (.error c.pastItsChunks)
              else { l with phase := .behind (some out) })
        some { s with reads := s.reads.set i { read with holder }, lents := s.lents.set k l }
      else none
    | _ => none
  | _ => none

/-- A departure done with its Stream. -/
def drops (s : Sys ρ β ε) (k : Nat) (l : Lent β ε) (shared : Shared) : Action ω → Option (Sys ρ β ε)
  | .drop _ =>
    match l.phase with
    | .idle =>
      if shared.holder.isSome then none
      else do
        let on ← l.read
        let (s, shared) ← s.leaves l shared on
        some { s with
          shareds := s.shareds.put l.stream shared
          lents := s.lents.set k { l with phase := .left } }
    | _ => none
  | .dropped _ =>
    match l.phase with
    | .left => some { s with lents := s.lents.set k { l with phase := .gone } }
    | _ => none
  | _ => none

/-- The departure a step is of. -/
def departure : Action ω → Option Nat
  | .reader _ => none
  | .read k _ | .move k | .tryMove k _ _ | .leave k | .ask k _ _ | .fall k | .look k | .choose k _ | .join k _ | .drop k
  | .dropped k => some k

/-- One step. -/
def next (s : Sys ρ β ε) (a : Action ω) : Option (Sys ρ β ε) :=
  match a with
  | .reader stream => some (s.readerOf c stream)
  | .read .. | .ask .. => do
    let k ← departure a
    let l ← s.lents[k]?
    s.asks c k l a
  | .move .. | .tryMove .. | .leave .. => do
    let k ← departure a
    let l ← s.lents[k]?
    let shared ← s.shareds.get l.stream
    s.moves k l shared a
  | .fall .. | .look .. | .choose .. | .join .. => do
    let k ← departure a
    let l ← s.lents[k]?
    let shared ← s.shareds.get l.stream
    s.joins c k l shared a
  | .drop .. | .dropped .. => do
    let k ← departure a
    let l ← s.lents[k]?
    let shared ← s.shareds.get l.stream
    s.drops k l shared a

/-- What a step that takes its Stream's list does for the departure `k`, `l`: it goes on in its read, or moves to another, one
looked at after the other, and leaves its own; it falls behind, looks for a read that reaches its place, and joins it or one
of its own; or it is done. -/
inductive Moved (s : Sys ρ β ε) (k : Nat) (l : Lent β ε) (shared : Shared) : Sys ρ β ε → Prop
  | stays {out : Nat} : l.phase = .starting out →
      Moved s k l shared { s with lents := s.lents.set k { l with phase := .asking out } }
  | moves {out mine : Nat} {on : OneRead ρ β ε} : l.phase = .starting out →
      Moved s k l shared { s with
        shareds := s.shareds.put l.stream { shared with holder := some k }
        lents := s.lents.set k { l with phase := .moving out (on.readers.length - 1) mine shared.reads.zipIdx } }
  | found {out others mine : Nat} : l.phase = .moving out others mine [] →
      Moved s k l shared { s with
        shareds := s.shareds.put l.stream { shared with holder := none }
        lents := s.lents.set k { l with phase := .asking out } }
  | passes {out others mine i pos : Nat} {pending : List (Nat × Nat)} :
      l.phase = .moving out others mine ((i, pos) :: pending) →
      Moved s k l shared { s with lents := s.lents.set k { l with phase := .moving out others mine pending } }
  | follows {out others mine i pos now : Nat} {pending : List (Nat × Nat)} {o : OneRead ρ β ε} :
      l.phase = .moving out others mine ((i, pos) :: pending) → s.reads[i]? = some o →
      Moved s k l shared { s with
        reads := s.reads.set i (o.join l.number l.place now)
        lents := s.lents.set k { l with phase := .leaving out i } }
  | leaves {out i on : Nat} {x : Sys ρ β ε × Shared} : l.phase = .leaving out i → s.leaves l shared on = some x →
      Moved s k l shared { x.1 with
        shareds := x.1.shareds.put l.stream { x.2 with holder := none }
        lents := x.1.lents.set k { l with read := some i, phase := .asking out } }
  | falls {out : Option Nat} {x : Sys ρ β ε × Shared} : l.phase = .behind out → s.leavesOwn l shared = some x →
      Moved s k l shared { x.1 with
        shareds := x.1.shareds.put l.stream { x.2 with holder := some k }
        lents := x.1.lents.set k { l with phase := .choosing out x.2.reads none } }
  | looks {out : Option Nat} {i : Nat} {pending : List Nat} {best best' : Option (Nat × Nat)} :
      l.phase = .choosing out (i :: pending) best → (best' = best ∨ ∃ n, best' = some (n, i)) →
      Moved s k l shared { s with lents := s.lents.set k { l with phase := .choosing out pending best' } }
  | chooses {out : Option Nat} {n i : Nat} : l.phase = .choosing out [] (some (n, i)) →
      Moved s k l shared { s with lents := s.lents.set k { l with phase := .joining out i } }
  | opens {out : Option Nat} {now : Nat} {reader : ρ} : l.phase = .choosing out [] none →
      reader = c.readers.sharedFrom l.stream shared.length (min l.place (UInt32.size - 1)) l.taken →
      Moved s k l shared { s with
        reads := s.reads ++ [(OneRead.opened l.stream reader l.place).join l.number l.place now]
        shareds := s.shareds.put l.stream { shared with reads := shared.reads ++ [s.reads.length], holder := none }
        lents := s.lents.set k { l with read := some s.reads.length, phase := .joined out } }
  | joins {out : Option Nat} {i now : Nat} {o : OneRead ρ β ε} : l.phase = .joining out i → s.reads[i]? = some o →
      Moved s k l shared { s with
        reads := s.reads.set i (o.join l.number l.place now)
        shareds := s.shareds.put l.stream { shared with holder := none }
        lents := s.lents.set k { l with read := some i, phase := .joined out } }
  | drops {on : Nat} {x : Sys ρ β ε × Shared} : l.phase = .idle → s.leaves l shared on = some x →
      Moved s k l shared { x.1 with
        shareds := x.1.shareds.put l.stream x.2
        lents := x.1.lents.set k { l with phase := .left } }
  | dropped : l.phase = .left → Moved s k l shared { s with lents := s.lents.set k { l with phase := .gone } }

variable {s s' : Sys ρ β ε} {k : Nat} {l : Lent β ε} {shared : Shared} {a : Action ω} {c}

theorem moved_of_moves (h : s.moves k l shared a = some s') : s.Moved c k l shared s' := by
  cases a with
  | move _ =>
    unfold Sys.moves at h
    dsimp only at h
    split at h
    · rename_i out hphase
      split at h
      · cases h
      · split at h
        · cases h
          exact .stays hphase
        · split at h
          · split at h
            · obtain ⟨on, -, h⟩ := Option.bind_eq_some_iff.1 h
              split at h
              · cases h
              · cases h
                exact .moves hphase
            · cases h
              exact .stays hphase
          · cases h
            exact .stays hphase
    · cases h
  | tryMove _ now busy =>
    unfold Sys.moves at h
    dsimp only at h
    split at h
    · rename_i out others mine hphase
      cases h
      exact .found hphase
    · rename_i out others mine i pos pending hphase
      split at h
      · cases h
        exact .passes hphase
      · obtain ⟨o, ho, h⟩ := Option.bind_eq_some_iff.1 h
        split at h
        · cases h
        · split at h
          · cases h
            exact .follows hphase ho
          · cases h
            exact .passes hphase
    · cases h
  | leave _ =>
    unfold Sys.moves at h
    dsimp only at h
    split at h
    · rename_i out i hphase
      obtain ⟨on, -, h⟩ := Option.bind_eq_some_iff.1 h
      obtain ⟨x, hx, h⟩ := Option.bind_eq_some_iff.1 h
      cases h
      exact .leaves hphase hx
    · cases h
  | reader | read | ask | fall | look | choose | join | drop | dropped => cases h

theorem moved_of_joins (h : s.joins c k l shared a = some s') : s.Moved c k l shared s' := by
  cases a with
  | fall _ =>
    unfold Sys.joins at h
    dsimp only at h
    split at h
    · rename_i out hphase
      split at h
      · cases h
      · obtain ⟨x, hx, h⟩ := Option.bind_eq_some_iff.1 h
        cases h
        exact .falls hphase hx
    · cases h
  | look _ =>
    unfold Sys.joins at h
    dsimp only at h
    split at h
    · rename_i out i pending best hphase
      obtain ⟨o, -, h⟩ := Option.bind_eq_some_iff.1 h
      split at h
      · cases h
      · cases h
        refine .looks hphase ?_
        split
        · exact .inr ⟨_, rfl⟩
        · exact .inl rfl
    · cases h
  | choose _ now =>
    unfold Sys.joins at h
    dsimp only at h
    split at h
    · rename_i out n i hphase
      cases h
      exact .chooses hphase
    · rename_i out hphase
      cases h
      exact .opens hphase rfl
    · cases h
  | join _ now =>
    unfold Sys.joins at h
    dsimp only at h
    split at h
    · rename_i out i hphase
      obtain ⟨o, ho, h⟩ := Option.bind_eq_some_iff.1 h
      split at h
      · cases h
      · cases h
        exact .joins hphase ho
    · cases h
  | reader | read | ask | move | tryMove | leave | drop | dropped => cases h

theorem moved_of_drops (h : s.drops k l shared a = some s') : s.Moved c k l shared s' := by
  cases a with
  | drop _ =>
    unfold Sys.drops at h
    dsimp only at h
    split at h
    · rename_i hphase
      split at h
      · cases h
      · obtain ⟨on, -, h⟩ := Option.bind_eq_some_iff.1 h
        obtain ⟨x, hx, h⟩ := Option.bind_eq_some_iff.1 h
        cases h
        exact .drops hphase hx
    · cases h
  | dropped _ =>
    unfold Sys.drops at h
    dsimp only at h
    split at h
    · rename_i hphase
      cases h
      exact .dropped hphase
    · cases h
  | reader | read | ask | move | tryMove | leave | fall | look | choose | join => cases h

/-- A step that is no reader asked for, and no turn of a departure's read, is one of its Stream's list. -/
theorem next_cases (h : s.next c a = some s') :
    (∃ stream, s' = s.readerOf c stream) ∨ (∃ k l, s.lents[k]? = some l ∧ s.asks c k l a = some s') ∨
      ∃ k l shared, s.lents[k]? = some l ∧ s.shareds.get l.stream = some shared ∧ s.Moved c k l shared s' := by
  cases a with
  | reader stream =>
    cases h
    exact .inl ⟨stream, rfl⟩
  | read k _ | ask k _ _ =>
    obtain ⟨l, hl, h⟩ := Option.bind_eq_some_iff.1 h
    exact .inr (.inl ⟨k, l, hl, h⟩)
  | move k | tryMove k _ _ | leave k =>
    obtain ⟨l, hl, h⟩ := Option.bind_eq_some_iff.1 h
    obtain ⟨shared, hshared, h⟩ := Option.bind_eq_some_iff.1 h
    exact .inr (.inr ⟨k, l, shared, hl, hshared, moved_of_moves h⟩)
  | fall k | look k | choose k _ | join k _ =>
    obtain ⟨l, hl, h⟩ := Option.bind_eq_some_iff.1 h
    obtain ⟨shared, hshared, h⟩ := Option.bind_eq_some_iff.1 h
    exact .inr (.inr ⟨k, l, shared, hl, hshared, moved_of_joins h⟩)
  | drop k | dropped k =>
    obtain ⟨l, hl, h⟩ := Option.bind_eq_some_iff.1 h
    obtain ⟨shared, hshared, h⟩ := Option.bind_eq_some_iff.1 h
    exact .inr (.inr ⟨k, l, shared, hl, hshared, moved_of_drops h⟩)

end Sys

end StreamShare
