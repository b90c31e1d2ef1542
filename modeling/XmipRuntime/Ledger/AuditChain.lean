import Mathlib.Algebra.Group.Nat.Defs
import Mathlib.Data.List.Basic
import Mathlib.Data.Nat.Pairing

/-!
# A writer's audit chain, verified

`verify_audit_chain` (`src/ledger/audit_chain.rs`) reads the kept records of one writer in the order of their numbers,
passes each body chunk by chunk held to its digest, digests the record and the rows of its Streams, and hands what it
found to the audit capability's walk.  A body that is not as it was kept leaves no digest to compute: the digest the first
record of a chain follows stands in for it, and is meant not to match what the record stores.

Xmip Storage, its chunk reader, the one canonical form of a record and the walk are other programs'.  They are parameters
here: what Storage answers is any function, the reader of a body is one that ends well only where the bytes it passed have
the digest asked for, and the walk finds a chain whole exactly where its records stand in order and each stores the digest
computed for it.
-/

namespace AuditChain

variable {δ ε ρ ν : Type}

/-! ### What is kept -/

/-- What is kept of a record beside its body: its number in the chain, the digest before it and its own, its body's
digest and length, and the rest. -/
structure Facts (δ ρ : Type) where
  position : Nat
  previous : δ
  digest : δ
  bodyDigest : δ
  bodyLength : Nat
  rest : ρ

structure KeptAudit (δ ρ : Type) where
  id : Nat
  streams : List Nat
  facts : Facts δ ρ

/-- The row of a Stream a record carries. -/
structure StreamRecord (δ : Type) where
  stream : Nat
  length : Nat
  digest : δ

/-- What is asked of Xmip Storage: the records of one writer from a number on. -/
structure Query where
  writer : String
  start : Nat
  most : Nat
  newestFirst : Bool
  deriving DecidableEq

/-- A record's body, under the digest it is held to. -/
inductive Chunked (δ : Type) where
  | auditBody (id : Nat) (digest : δ)

inductive ErrorKind where
  | invalidData
  | other
  deriving DecidableEq

/-- Why a body could not be passed: its kind, the Storage failure it carries, and how it reads. -/
structure ReadError (ε : Type) where
  kind : ErrorKind
  inner : Option ε
  text : String

/-- What Xmip Storage answers, and what passing a body from one end to the other comes to. -/
structure Storage (δ ε ρ : Type) where
  query : Query → Except ε (List Nat)
  readKeptAudit : Nat → Except ε (Option (KeptAudit δ ρ))
  readKeptAuditStream : Nat → Nat → Except ε (Option (StreamRecord δ))
  /-- The bytes of a record's body as they are stored. -/
  body : Nat → List UInt8
  copy : Chunked δ → Nat → Except (ReadError ε) Nat

/-! ### The check -/

/-- One record of a chain as the walk is handed it. -/
structure Link (δ : Type) where
  record : String
  position : Nat
  previous : δ
  digest : δ
  computed : δ

/-- Where a record says it stands: its number, the digest before it and its own. -/
def Link.place (l : Link δ) : Nat × δ × δ := (l.position, l.previous, l.digest)

/-- What other programs decide: the digest of bytes, of a record with the rows of its Streams, the one the first record
follows, the walk and whether its verdict is that the chain is whole, and a Storage failure said in words. -/
structure Outside (δ ε ρ ν : Type) where
  digestOf : List UInt8 → δ
  chainDigest : KeptAudit δ ρ → List (StreamRecord δ) → δ
  first : δ
  walk : String → List (Link δ) → ν
  whole : ν → Bool
  failed : String → ε

variable (o : Outside δ ε ρ ν) (storage : Storage δ ε ρ)

/-- The Storage failure a body's read carries, as Xmip Storage said it. -/
def unanswered (error : ReadError ε) : ε :=
  match error.inner with
  | some inner => inner
  | none => o.failed error.text

/-- The rows of the Streams `streams` a record carries, those that are there. -/
def readStreams (id : Nat) : List Nat → Except ε (List (StreamRecord δ))
  | [] => .ok []
  | stream :: streams => do
    let row ← storage.readKeptAuditStream id stream
    let rows ← readStreams id streams
    .ok (row.toList ++ rows)

/-- A record read: as it is kept, the rows of its Streams, and whether its body is as it was kept. -/
structure Read (δ ρ : Type) where
  kept : KeptAudit δ ρ
  streams : List (StreamRecord δ)
  whole : Bool

/-- Whether the body of `kept` is as it was kept; an outage is neither. -/
def readBody (kept : KeptAudit δ ρ) : Except ε Bool :=
  match storage.copy (.auditBody kept.id kept.facts.bodyDigest) kept.facts.bodyLength with
  | .ok _ => .ok true
  | .error error => if error.kind = .invalidData then .ok false else .error (unanswered o error)

/-- The records `ids` name, read one by one; one that is gone is passed over. -/
def readRecords : List Nat → Except ε (List (Read δ ρ))
  | [] => .ok []
  | id :: ids => do
    match ← storage.readKeptAudit id with
    | none => readRecords ids
    | some kept =>
      let streams ← readStreams storage kept.id kept.streams
      let whole ← readBody o storage kept
      let reads ← readRecords ids
      .ok (⟨kept, streams, whole⟩ :: reads)

/-- The digest computed of a record: the one the first record follows, where its body is not as it was kept. -/
def Read.computed (r : Read δ ρ) : δ := if r.whole then o.chainDigest r.kept r.streams else o.first

def Read.link (r : Read δ ρ) : Link δ where
  record := toString r.kept.id
  position := r.kept.facts.position
  previous := r.kept.facts.previous
  digest := r.kept.facts.digest
  computed := r.computed o

/-- What is asked of Xmip Storage for a writer's chain. -/
def asked (writer : String) : Query := ⟨writer, 1, 2 ^ 32 - 1, false⟩

/-- The records of `writer`'s chain as Xmip Storage answers them. -/
def records (writer : String) : Except ε (List (Read δ ρ)) := do
  let ids ← storage.query (asked writer)
  readRecords o storage ids

/-- Walk `writer`'s audit chain as Xmip Storage keeps it. -/
def verifyAuditChain (writer : String) : Except ε ν := do
  let reads ← records o storage writer
  .ok (o.walk writer (reads.map fun r => r.link o))

/-! ### What is relied on, and what is claimed -/

/-- The walk finds a chain whole exactly where its records' places are as `inOrder` has them and each stores the digest
computed for it. -/
def Outside.Walks (inOrder : List (Nat × δ × δ) → Prop) : Prop :=
  ∀ writer links, o.whole (o.walk writer links) = true ↔
    inOrder (links.map Link.place) ∧ ∀ l ∈ links, l.digest = l.computed

/-- A body passed to its end has the digest it was held to. -/
def HeldToDigest : Prop :=
  ∀ id digest length n, storage.copy (.auditBody id digest) length = .ok n → o.digestOf (storage.body id) = digest

/-- Where the verdict is that the chain is whole, every record walked has a body as it was kept, of the digest recorded,
and stores the digest of itself with what it carries. -/
def Sound (writer : String) : Prop :=
  ∀ verdict, verifyAuditChain o storage writer = .ok verdict → o.whole verdict = true →
    ∀ reads, records o storage writer = .ok reads → ∀ r ∈ reads,
      r.whole = true ∧ o.digestOf (storage.body r.kept.id) = r.kept.facts.bodyDigest ∧
        r.kept.facts.digest = o.chainDigest r.kept r.streams

/-- What an attacker leaves to be taken for whole: the records in order, every one with a body as it was kept storing its
own digest, and every other one, of which there is one, storing the digest that stands in for the one not computed. -/
def Forged (inOrder : List (Nat × δ × δ) → Prop) (writer : String) : Prop :=
  ∃ reads, records o storage writer = .ok reads ∧
    inOrder (reads.map fun r => (r.kept.facts.position, r.kept.facts.previous, r.kept.facts.digest)) ∧
    (∀ r ∈ reads, r.whole = true → r.kept.facts.digest = o.chainDigest r.kept r.streams) ∧
    (∀ r ∈ reads, r.whole = false → r.kept.facts.digest = o.first) ∧ ∃ r ∈ reads, r.whole = false

variable {o storage} {writer : String} {inOrder : List (Nat × δ × δ) → Prop}

/-! ### What is read -/

/-- A record read whole has a body of the digest recorded. -/
theorem readBody_whole (hheld : HeldToDigest o storage) {kept : KeptAudit δ ρ} (h : readBody o storage kept = .ok true) :
    o.digestOf (storage.body kept.id) = kept.facts.bodyDigest := by
  unfold readBody at h
  split at h
  · rename_i n hcopy
    exact hheld _ _ _ n hcopy
  · split at h
    · cases h
    · cases h

theorem readRecords_whole (hheld : HeldToDigest o storage) {ids : List Nat} {reads : List (Read δ ρ)}
    (h : readRecords o storage ids = .ok reads) :
    ∀ r ∈ reads, r.whole = true → o.digestOf (storage.body r.kept.id) = r.kept.facts.bodyDigest := by
  induction ids generalizing reads with
  | nil =>
    cases h
    exact fun r hr => absurd hr List.not_mem_nil
  | cons id ids ih =>
    unfold readRecords at h
    simp only [bind, Except.bind] at h
    split at h
    · cases h
    · split at h
      · exact ih h
      · split at h
        · cases h
        · split at h
          · cases h
          · rename_i whole hbody
            split at h
            · cases h
            · rename_i rest hrest
              cases h
              intro r hr hwhole
              rcases List.mem_cons.1 hr with rfl | hr
              · exact readBody_whole hheld (hwhole ▸ hbody)
              · exact ih hrest r hr hwhole

theorem records_whole (hheld : HeldToDigest o storage) {reads : List (Read δ ρ)} (h : records o storage writer = .ok reads) :
    ∀ r ∈ reads, r.whole = true → o.digestOf (storage.body r.kept.id) = r.kept.facts.bodyDigest := by
  unfold records at h
  simp only [bind, Except.bind] at h
  split at h
  · cases h
  · exact readRecords_whole hheld h

/-! ### The verdict -/

/-- The verdict on the records read is that the chain is whole exactly where they stand in order and each stores the
digest computed of it. -/
theorem whole_iff (hwalk : o.Walks inOrder) {reads : List (Read δ ρ)} :
    o.whole (o.walk writer (reads.map fun r => r.link o)) = true ↔
      inOrder (reads.map fun r => (r.kept.facts.position, r.kept.facts.previous, r.kept.facts.digest)) ∧
        ∀ r ∈ reads, r.kept.facts.digest = r.computed o := by
  rw [hwalk, List.map_map]
  refine and_congr Iff.rfl ?_
  simp only [List.mem_map, forall_exists_index, and_imp, forall_apply_eq_imp_iff₂]
  exact Iff.rfl

theorem verifyAuditChain_eq {reads : List (Read δ ρ)} (h : records o storage writer = .ok reads) :
    verifyAuditChain o storage writer = .ok (o.walk writer (reads.map fun r => r.link o)) := by
  unfold verifyAuditChain
  rw [h]
  rfl

/-- A chain forged is found whole, one of its bodies not as it was kept. -/
theorem not_sound_of_forged (hwalk : o.Walks inOrder) (h : Forged o storage inOrder writer) : ¬ Sound o storage writer := by
  obtain ⟨reads, hreads, horder, hown, hstand, r, hr, hdamaged⟩ := h
  intro hsound
  have hwhole : o.whole (o.walk writer (reads.map fun r => r.link o)) = true := by
    rw [whole_iff hwalk]
    refine ⟨horder, ?_⟩
    intro r' hr'
    unfold Read.computed
    cases hw : r'.whole with
    | true => exact hown r' hr' hw
    | false => exact hstand r' hr' hw
  have := (hsound _ (verifyAuditChain_eq hreads) hwhole reads hreads r hr).1
  rw [hdamaged] at this
  cases this

/-- A chain that is not forged is sound where its verdict is. -/
theorem sound_of_not_forged (hwalk : o.Walks inOrder) (hheld : HeldToDigest o storage)
    (h : ¬ Forged o storage inOrder writer) : Sound o storage writer := by
  intro verdict hverdict hwhole reads hreads
  rw [verifyAuditChain_eq hreads] at hverdict
  cases hverdict
  obtain ⟨horder, hcomputed⟩ := (whole_iff hwalk).1 hwhole
  have hall : ∀ r ∈ reads, r.whole = true := by
    by_contra hnot
    push Not at hnot
    obtain ⟨r, hr, hdamaged⟩ := hnot
    refine h ⟨reads, hreads, horder, ?_, ?_, r, hr, by simpa using hdamaged⟩
    · intro r' hr' hw
      rw [hcomputed r' hr', Read.computed, hw, if_pos rfl]
    · intro r' hr' hw
      rw [hcomputed r' hr', Read.computed, hw]
      rfl
  intro r hr
  refine ⟨hall r hr, records_whole hheld hreads r hr (hall r hr), ?_⟩
  rw [hcomputed r hr, Read.computed, hall r hr, if_pos rfl]

/-- Whatever is stored, the verdict that a chain is whole is sound exactly where the chain is not forged: no body is
damaged, or one that is stores another digest than the one that stands in for it, or another record does not store its
own, or the records are out of order. -/
theorem audit_chain_sound_iff (hwalk : o.Walks inOrder) (hheld : HeldToDigest o storage) :
    Sound o storage writer ↔ ¬ Forged o storage inOrder writer := by
  constructor
  · exact fun hsound hforged => not_sound_of_forged hwalk hforged hsound
  · exact sound_of_not_forged hwalk hheld

/-! ### A chain of one record -/

/-- The places of a chain from its `n`-th record on, which follows the digest `previous`. -/
def ordered : Nat → Nat → List (Nat × Nat × Nat) → Bool
  | _, _, [] => true
  | n, previous, place :: places =>
    decide (place.1 = n) && decide (place.2.1 = previous) && ordered (n + 1) place.2.2 places

/-- Digests that never collide, and a walk that says whether a chain is whole. -/
def plain : Outside Nat String Unit Bool where
  digestOf bytes := bytes.foldl (fun d b => 256 * d + b.toNat) 1
  chainDigest kept _ := Nat.pair kept.facts.previous kept.facts.bodyDigest + 1
  first := 0
  walk _ links := ordered 1 0 (links.map Link.place) && links.all fun l => decide (l.digest = l.computed)
  whole verdict := verdict
  failed reason := reason

/-- One record kept with `digest`, of the body `[1, 2]`; what is stored of the body is `body`. -/
def keptOne (digest : Nat) (body : List UInt8) : Storage Nat String Unit where
  query _ := .ok [7]
  readKeptAudit id := .ok (if id = 7 then some ⟨7, [], ⟨1, 0, digest, plain.digestOf [1, 2], 2, ()⟩⟩ else none)
  readKeptAuditStream _ _ := .ok none
  body _ := body
  copy
    | .auditBody _ held, length =>
      if plain.digestOf body = held then .ok length else .error ⟨.invalidData, none, "not the bytes kept"⟩

theorem plain_walks : plain.Walks fun places => ordered 1 0 places = true := by
  intro writer links
  simp [plain]

theorem keptOne_heldToDigest (digest : Nat) (body : List UInt8) : HeldToDigest plain (keptOne digest body) := by
  intro id held length n h
  simp only [keptOne] at h
  split at h
  · assumption
  · cases h

/-- The record as it was kept: whole, and sound. -/
theorem audit_chain_kept_sound :
    verifyAuditChain plain (keptOne (Nat.pair 0 (plain.digestOf [1, 2]) + 1) [1, 2]) "n" = .ok true ∧
      Sound plain (keptOne (Nat.pair 0 (plain.digestOf [1, 2]) + 1) [1, 2]) "n" := by
  refine ⟨by decide +kernel, (audit_chain_sound_iff plain_walks (keptOne_heldToDigest _ _)).2 ?_⟩
  rintro ⟨reads, hreads, -, -, -, r, hr, hdamaged⟩
  cases hreads
  cases List.mem_singleton.1 hr
  cases hdamaged

/-- Its body changed, and the digest the first record follows stored in place of its own: found whole all the same. -/
theorem audit_chain_forged :
    verifyAuditChain plain (keptOne 0 [1, 3]) "n" = .ok true ∧
      plain.digestOf ((keptOne 0 [1, 3]).body 7) ≠ plain.digestOf [1, 2] ∧ ¬ Sound plain (keptOne 0 [1, 3]) "n" := by
  refine ⟨by decide +kernel, by decide +kernel, not_sound_of_forged plain_walks ?_⟩
  refine ⟨[⟨⟨7, [], ⟨1, 0, 0, plain.digestOf [1, 2], 2, ()⟩⟩, [], false⟩], by rfl, by rfl, ?_, ?_, ?_⟩
  · intro r hr hw
    cases List.mem_singleton.1 hr
    cases hw
  · intro r hr _
    cases List.mem_singleton.1 hr
    rfl
  · exact ⟨_, List.mem_singleton_self _, rfl⟩

end AuditChain
