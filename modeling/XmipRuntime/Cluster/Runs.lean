import XmipRuntime.Cluster.Threads
import XmipRuntime.Library.Run

/-!
# A cluster's runs

Any number of nodes over one Xmip Storage, their threads interleaved in any order a step at a time, claims lapsing at
any moment, Publications and Replays writing their Journeys whole.  Beside the state itself a run keeps what its
properties are about: every write of a Journey with the record its writer worked from and the one it replaced, how each
operator's act ended, and which places have answered that they head their queue.
-/

namespace Cluster

open Library Ledger

/-- A write of a Journey taken: the thread's kind, the record it worked from, the one it replaced and the one it left. -/
structure Write where
  journey : Nat
  kind : Kind
  base : Journey
  was : Option Journey
  result : Journey

/-- An operator's act ended: what it saw of its Journey, how it ended and whether it wrote. -/
structure ActEnd where
  journey : Nat
  act : Kind
  saw : Option Journey
  said : Said
  wrote : Bool

structure Sys where
  config : Config
  storage : Storage
  /-- What each node's process remembers at the head of its queue. -/
  memory : Nat → List Place
  threads : Table Nat Thread
  /-- The next token minted. -/
  minted : Nat
  /-- The places that ever answered that they head their queue. -/
  headed : List Place
  /-- The Journeys let through a place that heads its queue and that is not let go of yet. -/
  inside : List (Place × Nat)
  writes : List Write
  ends : List ActEnd

inductive Action where
  | call (p node : Nat) (kind : Kind) (journey : Nat)
  | run (p : Nat) (choice : Choice)
  | lapse (journey : Nat)
  | publish (received : Received) (routed : List Routed)
  | replay (routed : List Routed)

/-- What the write a thread makes leaves of the places let through: those it lets go of are out. -/
def letThrough (inside : List (Place × Nat)) (journeys : Table Nat Journey) (h : HandOn) : List (Place × Nat) :=
  inside.filter fun x => !h.letsGo (h.journeys journeys) x.1

/-- What an act ended with has seen of its Journey. -/
def Thread.seen (t : Thread) : Option Journey :=
  match t.stage with
  | .saw base | .taken base => some base
  | .claimed seen => seen
  | _ => none

/-- The effect of a step of the thread `t`. -/
def Sys.effect (s : Sys) (t : Thread) : Effect → Sys
  | .none => s
  | .claim id token => { s with storage := s.storage.claim id token }
  | .release id token => { s with storage := s.storage.release id token }
  | .handOn base h =>
    if s.storage.Claimed h.journey h.token then
      { s with
        storage := s.storage.handOn h
        inside := letThrough s.inside s.storage.journeys h
        writes := ⟨h.journey, t.kind, base, s.storage.journeys.get h.journey, h.result⟩ :: s.writes }
    else s
  | .asked place => { s with headed := place :: s.headed, inside := (place, t.journey) :: s.inside }
  | .remember place => { s with memory := Function.update s.memory t.node (remember (s.memory t.node) place) }

/-- What an effect makes of Xmip Storage. -/
def Effect.storage (s : Storage) : Effect → Storage
  | .claim id token => s.claim id token
  | .release id token => s.release id token
  | .handOn _ h => s.handOn h
  | .none | .asked _ | .remember _ => s

theorem effect_storage (s : Sys) (t : Thread) (e : Effect) : (s.effect t e).storage = e.storage s.storage := by
  cases e with
  | handOn base h =>
    by_cases hc : s.storage.Claimed h.journey h.token
    · simp [Sys.effect, Effect.storage, hc]
    · simp [Sys.effect, Effect.storage, Storage.handOn, hc]
  | none | claim | release | asked | remember => rfl

/-- Whether an effect is a write taken. -/
def Effect.writes (s : Storage) : Effect → Bool
  | .handOn _ h => decide (s.Claimed h.journey h.token)
  | _ => false

/-- A step of the thread `t`, called `p`: its effect, the thread moved on or gone, and how an act ended. -/
def Sys.stepped (s : Sys) (p : Nat) (t : Thread) (out : Out) : Sys :=
  let after := s.effect t out.effect
  { after with
    threads := match out.thread with
      | some t' => s.threads.put p t'
      | none => s.threads.drop p
    ends := match out.said with
      | some said => ⟨t.journey, t.kind, t.seen, said, out.effect.writes s.storage⟩ :: s.ends
      | none => s.ends }

theorem stepped_storage (s : Sys) (p : Nat) (t : Thread) (out : Out) :
    (s.stepped p t out).storage = out.effect.storage s.storage := effect_storage s t out.effect

theorem stepped_config (s : Sys) (p : Nat) (t : Thread) (out : Out) : (s.stepped p t out).config = s.config := by
  unfold Sys.stepped Sys.effect
  cases out.effect with
  | handOn base h => simp only; split <;> rfl
  | none | claim | release | asked | remember => rfl

theorem stepped_minted (s : Sys) (p : Nat) (t : Thread) (out : Out) : (s.stepped p t out).minted = s.minted := by
  unfold Sys.stepped Sys.effect
  cases out.effect with
  | handOn base h => simp only; split <;> rfl
  | none | claim | release | asked | remember => rfl

/-- The threads after a step of `t`, called `p`: it alone is another, or gone. -/
theorem stepped_threads {s : Sys} {p q : Nat} {t u : Thread} {out : Out}
    (h : (s.stepped p t out).threads.get q = some u) :
    q = p ∧ out.thread = some u ∨ q ≠ p ∧ s.threads.get q = some u := by
  unfold Sys.stepped at h
  simp only at h
  by_cases hq : q = p
  · subst hq
    cases ho : out.thread with
    | none => simp [ho] at h
    | some t' =>
      rw [ho] at h
      simp only [Table.get_put_self, Option.some.injEq] at h
      exact .inl ⟨rfl, by rw [h]⟩
  · cases ho : out.thread with
    | none => exact .inr ⟨hq, by simpa [ho, hq] using h⟩
    | some t' => exact .inr ⟨hq, by simpa [ho, hq] using h⟩

/-- The writes after a step: one more where it made a hand-on under its claim. -/
theorem stepped_writes (s : Sys) (p : Nat) (t : Thread) (out : Out) :
    (s.stepped p t out).writes = s.writes ∨ ∃ base h, out.effect = .handOn base h ∧ s.storage.Claimed h.journey h.token ∧
      (s.stepped p t out).writes = ⟨h.journey, t.kind, base, s.storage.journeys.get h.journey, h.result⟩ :: s.writes := by
  unfold Sys.stepped Sys.effect
  cases he : out.effect with
  | handOn base h =>
    simp only
    split
    · rename_i hc
      exact .inr ⟨base, h, rfl, hc, rfl⟩
    · exact .inl rfl
  | none | claim | release | asked | remember => exact .inl rfl

/-- The origin of `received` is no other Stream's. -/
def FreshOrigin (journeys : Table Nat Journey) (origin : Nat) : Prop :=
  ∀ x ∈ journeys.entries, x.2.received.map Received.origin ≠ some origin

instance (journeys : Table Nat Journey) (origin : Nat) : Decidable (FreshOrigin journeys origin) :=
  inferInstanceAs (Decidable (∀ x ∈ journeys.entries, x.2.received.map Received.origin ≠ some origin))

/-- The Journeys a Publication opens, each with the places it takes: a Stream that holds a sequence end to end has its
Messages take none where they are bound yet. -/
def Config.published (c : Config) (received : Received) (routed : List Routed) : List ((Nat × Journey) × List Place) :=
  if received.sequences.isEmpty then following c (some received) routed
  else (opened (some received) routed).map fun x => (x, [])

/-- A Publication's write; one that nothing matched is the Dead Message Queue's. -/
def Sys.publish (s : Sys) (received : Received) (routed : List Routed) : Sys :=
  let published := s.config.published received routed
  if published.isEmpty then s
  else
    let streams := received.sequences.map fun q => (.endToEnd q, .origin received.origin)
    { s with storage := s.storage.publish (published.map Prod.fst) (streams ++ published.flatMap Prod.snd) }

def Sys.step (s : Sys) : Action → Option Sys
  | .call p node kind journey =>
    if s.threads.get p = none then
      some { s with threads := s.threads.put p ⟨node, kind, journey, s.minted, .called, none⟩, minted := s.minted + 1 }
    else none
  | .run p choice =>
    match s.threads.get p with
    | none => none
    | some t =>
      if choice.Fresh s.storage.journeys then
        (t.next s.config s.storage (s.memory t.node) choice).map fun out => s.stepped p t out
      else none
  | .lapse journey => some { s with storage := { s.storage with claims := s.storage.claims.drop journey } }
  | .publish received routed =>
    if Fresh s.storage.journeys routed ∧ FreshOrigin s.storage.journeys received.origin then
      some (s.publish received routed)
    else none
  | .replay routed =>
    if Fresh s.storage.journeys routed ∧ routed.all (fun one => one.group.isNone) then
      some { s with storage := s.storage.publish (opened none routed) [] }
    else none

/-- Everything a step can be, with what is checked before it. -/
inductive Sys.Steps (s : Sys) : Action → Sys → Prop where
  | call {p node : Nat} {kind : Kind} {journey : Nat} : s.threads.get p = none → Steps s (.call p node kind journey)
      { s with threads := s.threads.put p ⟨node, kind, journey, s.minted, .called, none⟩, minted := s.minted + 1 }
  | run {p : Nat} {choice : Choice} {t : Thread} {out : Out} : s.threads.get p = some t →
      choice.Fresh s.storage.journeys → t.next s.config s.storage (s.memory t.node) choice = some out →
      Steps s (.run p choice) (s.stepped p t out)
  | lapse {journey : Nat} :
      Steps s (.lapse journey) { s with storage := { s.storage with claims := s.storage.claims.drop journey } }
  | publish {received : Received} {routed : List Routed} : Fresh s.storage.journeys routed →
      FreshOrigin s.storage.journeys received.origin → Steps s (.publish received routed) (s.publish received routed)
  | replay {routed : List Routed} : Fresh s.storage.journeys routed → routed.all (fun one => one.group.isNone) = true →
      Steps s (.replay routed) { s with storage := s.storage.publish (opened none routed) [] }

theorem Sys.steps_of_step {s s' : Sys} {a : Action} (h : s.step a = some s') : s.Steps a s' := by
  cases a with
  | call p node kind journey =>
    simp only [Sys.step] at h
    split at h
    · rename_i hp; cases h; exact .call hp
    · cases h
  | run p choice =>
    simp only [Sys.step] at h
    split at h
    · cases h
    · rename_i t hp
      split at h
      · rename_i hf
        obtain ⟨out, hout, rfl⟩ := Option.map_eq_some_iff.1 h
        exact .run hp hf hout
      · cases h
  | lapse journey => cases h; exact .lapse
  | publish received routed =>
    simp only [Sys.step] at h
    split at h
    · rename_i hf; cases h; exact .publish hf.1 hf.2
    · cases h
  | replay routed =>
    simp only [Sys.step] at h
    split at h
    · rename_i hf; cases h; exact .replay hf.1 hf.2
    · cases h

/-- What a Publication writes is its Journeys and places; nothing where nothing matched. -/
theorem Sys.publish_storage (s : Sys) (received : Received) (routed : List Routed) :
    s.publish received routed = { s with storage := (s.publish received routed).storage } ∧
    ((s.publish received routed).storage = s.storage ∨ (s.publish received routed).storage =
      s.storage.publish ((s.config.published received routed).map Prod.fst)
        (received.sequences.map (fun q => (.endToEnd q, .origin received.origin)) ++
          (s.config.published received routed).flatMap Prod.snd)) := by
  unfold Sys.publish
  simp only
  split
  · exact ⟨rfl, .inl rfl⟩
  · exact ⟨rfl, .inr rfl⟩

/-- A cluster before its first Publication. -/
structure Opening (s : Sys) : Prop where
  journeys : s.storage.journeys.entries = []
  claims : s.storage.claims.entries = []
  places : s.storage.places.items = []
  memory : ∀ n, s.memory n = []
  threads : s.threads.entries = []
  headed : s.headed = []
  inside : s.inside = []
  writes : s.writes = []
  ends : s.ends = []

end Cluster
