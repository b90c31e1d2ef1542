import Mathlib.Algebra.Group.Nat.Defs
import Mathlib.Data.Finset.Basic
import XmipRuntime.Library.Pick
import XmipRuntime.Library.Run
import XmipRuntime.Library.Table

/-!
# The callers a host's runtime holds

A caller the authentication gate answered is kept behind an opaque handle (`src/plane/held.rs`): every holder has a
handle of its own, all of them share one Proof, and the Proof carries the handle each node it was vouched to issued
(`src/plane/remote/relayed.rs`), told ended when it is replaced or when the last reference to the Proof goes.

Every step is one hold of the lock on the callers or on a Proof's vouches, one reading of the clock, one reference let
go of or one node told; between them any other thread may step.  A reference counted by the language is here a name in
the list of those who have it, and a Proof goes with the last of them.  What was given out, released and revoked is
written down beside the state as it happens, for the results to speak of; no step reads it.  The clock moves on only.
-/

namespace Plane

open Library

/-! ### Callers -/

inductive Verified where
  | proven
  | vouched
  | claimed
  | refused
  deriving DecidableEq

structure AuthenticatedIdentity where
  value : String
  verified : Verified
  deriving DecidableEq

def Verified.isProven : Verified → Bool
  | .proven => true
  | .vouched | .claimed | .refused => false

/-- What a node said for a caller: the handle it issued, under the key of the surface that asked it.  Each is one of its
own, by its number, whatever handle a node says. -/
structure Vouch where
  serial : Nat
  proof : Nat
  node : Nat
  handle : Nat
  deriving DecidableEq

/-- One caller every holder of it shares. -/
structure Proof where
  identity : AuthenticatedIdentity
  leaf : Option (List UInt8)
  vouched : List Vouch

/-- One holder's handle: the Proof it shares, until when, and what proved it. -/
structure Held where
  proof : Nat
  heldUntil : Option Int
  provedBy : Option Nat
  deriving DecidableEq

def live (heldUntil : Option Int) (now : Int) : Bool := heldUntil.all fun t => decide (now < t)

/-- Every caller held, and the provers revoked. -/
structure Holding where
  callers : Table Nat Held
  revoked : Finset Nat

/-- How many callers are held at once, at most. -/
def most : Nat := 65536

/-! ### What is under way -/

/-- A handle about to be given out: the Proof it is of, how long and by what it was proved, and the handle it was made
from, where it was. -/
structure Making where
  proof : Nat
  heldUntil : Option Int
  provedBy : Option Nat
  source : Option Nat
  deriving DecidableEq

inductive Op where
  /-- `again` has found a live handle, its clock not read yet. -/
  | found (making : Making)
  /-- The clock was read at `at_`, the lock not taken yet. -/
  | making (making : Making) (at_ : Int)
  /-- A reference to a Proof in hand: an act under way, or a thread asking a node to vouch. -/
  | act (proof : Nat)
  /-- References to be let go of. -/
  | letting (proofs : List Nat)
  /-- Node handles to be told ended. -/
  | telling (vouches : List Vouch)

/-- The Proofs it has a reference to. -/
def Op.refs : Op → List Nat
  | .found m | .making m _ => [m.proof]
  | .act proof => [proof]
  | .letting proofs => proofs
  | .telling _ => []

/-- A handle given out: for whom, how long, proved by what, and made from which. -/
structure Grant where
  handle : Nat
  identity : AuthenticatedIdentity
  heldUntil : Option Int
  provedBy : Option Nat
  source : Option Nat
  deriving DecidableEq

inductive Event where
  | given (grant : Grant) (at_ : Int)
  /-- `again` found `handle` live. -/
  | found (handle : Nat) (at_ : Int)
  | released (handle : Nat)
  | revoked (prover : Nat)
  deriving DecidableEq

structure World where
  now : Int
  holding : Holding
  proofs : Table Nat Proof
  ops : List Op
  /-- How many Proofs there have been. -/
  minted : Nat
  /-- What was given out, released and revoked, the latest first. -/
  log : List Event
  /-- Every node handle vouched, the latest first. -/
  issued : List Vouch
  /-- What the nodes were told ended, the latest first. -/
  told : List Vouch

def World.starting (now : Int) : World := ⟨now, ⟨.empty, ∅⟩, .empty, [], 0, [], [], []⟩

def World.Starts (w : World) : Prop := ∃ now, w = .starting now

namespace World

/-! ### Holding, and looking up -/

/-- The caller `handle` holds, where it is held and its time has not passed. -/
def proofOf (w : World) (handle : Nat) : Option Nat :=
  if handle = 0 then none
  else (w.holding.callers.get handle).bind fun held => if live held.heldUntil w.now then some held.proof else none

/-- Who the caller `handle` holds is. -/
def proven (w : World) (handle : Nat) : Option AuthenticatedIdentity :=
  (w.proofOf handle).bind fun p => (w.proofs.get p).map Proof.identity

/-- The Proofs referred to, by a handle or by what is under way. -/
def refs (w : World) : List Nat := w.holding.callers.entries.map (fun x => x.2.proof) ++ w.ops.flatMap Op.refs

/-- A caller the gate answered to be held: refused unless it is proven and not yet ended as the clock is read, else a
Proof of its own. -/
def hold (w : World) (identity : AuthenticatedIdentity) (heldUntil : Option Int) (provedBy : Option Nat)
    (leaf : Option (List UInt8)) : World :=
  if !identity.verified.isProven || !live heldUntil w.now then w
  else { w with
    minted := w.minted + 1
    proofs := w.proofs.put w.minted ⟨identity, leaf, []⟩
    ops := w.ops ++ [.making ⟨w.minted, heldUntil, provedBy, none⟩ w.now] }

/-- Another holder of the caller `handle` holds, its handle found live. -/
def again (w : World) (handle : Nat) : World :=
  match w.holding.callers.get handle with
  | some held =>
    if live held.heldUntil w.now then
      { w with
        ops := w.ops ++ [.found ⟨held.proof, held.heldUntil, held.provedBy, some handle⟩]
        log := .found handle w.now :: w.log }
    else w
  | none => w

/-- Those of the callers that are live at `at_`. -/
def liveAt (callers : Table Nat Held) (at_ : Int) : Table Nat Held :=
  callers.keep fun held => live held.heldUntil at_

/-- The Proofs of the callers that are not. -/
def endedAt (callers : Table Nat Held) (at_ : Int) : List Nat :=
  (callers.entries.filter fun x => !live x.2.heldUntil at_).map fun x => x.2.proof

/-- `making` entered under `handle`, drawn by the caller, among `callers`. -/
def given (w : World) (callers : Table Nat Held) (making : Making) (handle : Nat) : World :=
  { w with
    holding := { w.holding with callers := callers.put handle ⟨making.proof, making.heldUntil, making.provedBy⟩ }
    log := ((w.proofs.get making.proof).toList.map fun proof =>
      Event.given ⟨handle, proof.identity, making.heldUntil, making.provedBy, making.source⟩ w.now) ++ w.log }

/-- A handle given out under the lock, unless what proved it was revoked or as many are held as may be, the ended
dropped first; `handle` is drawn, never 0 and none taken.  What it lets go of goes after the lock. -/
def insert (w : World) (making : Making) (at_ : Int) (handle : Nat) : Option (World × List Nat) :=
  if making.provedBy.any fun b => decide (b ∈ w.holding.revoked) then some (w, [making.proof])
  else
    let full := decide (most ≤ w.holding.callers.size)
    let callers := if full then liveAt w.holding.callers at_ else w.holding.callers
    let dropped := if full then endedAt w.holding.callers at_ else []
    if most ≤ callers.size then some ({ w with holding := { w.holding with callers } }, making.proof :: dropped)
    else if handle = 0 ∨ 2 ^ 64 ≤ handle ∨ (callers.get handle).isSome then none
    else some (w.given callers making handle, dropped)

/-- A handle looked up to act by: a reference to its Proof, or an ended one dropped. -/
def lookUp (w : World) (handle : Nat) : World :=
  if handle = 0 then w
  else match w.holding.callers.get handle with
    | some held =>
      if live held.heldUntil w.now then { w with ops := w.ops ++ [.act held.proof] }
      else { w with
        holding := { w.holding with callers := w.holding.callers.drop handle }
        ops := w.ops ++ [.letting [held.proof]] }
    | none => w

def release (w : World) (handle : Nat) : World :=
  { w with
    holding := { w.holding with callers := w.holding.callers.drop handle }
    ops := w.ops ++ [.letting ((w.holding.callers.get handle).toList.map Held.proof)]
    log := .released handle :: w.log }

/-- Every caller `prover` proved let go of, and no one it proves held after. -/
def revoke (w : World) (prover : Nat) : World :=
  let callers := w.holding.callers
  { w with
    holding := ⟨callers.keep fun held => decide (held.provedBy ≠ some prover), Insert.insert prover w.holding.revoked⟩
    ops := w.ops ++ [.letting ((callers.entries.filter fun x => decide (x.2.provedBy = some prover)).map
      fun x => x.2.proof)]
    log := .revoked prover :: w.log }

/-! ### References and node handles -/

/-- A reference to `proof` let go of, by one of `ops`: the Proof goes with the last, each node it was vouched to to be
told. -/
def dropped (w : World) (ops : List Op) (proof : Nat) : World :=
  let w' := { w with ops }
  if proof ∈ w'.refs then w'
  else { w' with
    proofs := w.proofs.drop proof
    ops := ops ++ [.telling (((w.proofs.get proof).map Proof.vouched).getD [])] }

/-- The node at `node` issued `handle` for the caller of `proof`: kept in the place of the one there, which is to be
told ended. -/
def vouched (w : World) (p : Nat) (proof : Proof) (node handle : Nat) : World :=
  let vouch : Vouch := ⟨w.issued.length, p, node, handle⟩
  let replaced := proof.vouched.find? fun v => decide (v.node = node)
  let rest := proof.vouched.eraseP fun v => decide (v.node = node)
  { w with
    proofs := w.proofs.put p { proof with vouched := rest ++ [vouch] }
    ops := w.ops ++ [.telling replaced.toList]
    issued := vouch :: w.issued }

end World

/-! ### Steps -/

inductive Action where
  | tick (by_ : Nat)
  | hold (identity : AuthenticatedIdentity) (heldUntil : Option Int) (provedBy : Option Nat)
      (leaf : Option (List UInt8))
  | again (handle : Nat)
  /-- The clock read for a handle found. -/
  | sample (i : Nat)
  | insert (i : Nat) (handle : Nat)
  | lookUp (handle : Nat)
  | release (handle : Nat)
  | revoke (prover : Nat)
  /-- A second reference taken from one in hand. -/
  | clone (i : Nat)
  | vouched (i : Nat) (node handle : Nat)
  | done (i : Nat)
  | letGo (i : Nat)
  | tell (i : Nat)

def World.step (w : World) : Action → Option World
  | .tick by_ => some { w with now := w.now + by_ }
  | .hold identity heldUntil provedBy leaf => some (w.hold identity heldUntil provedBy leaf)
  | .again handle => some (w.again handle)
  | .sample i =>
    match pick w.ops i with
    | some (.found making, rest) =>
      if live making.heldUntil w.now then some { w with ops := rest ++ [.making making w.now] }
      else some { w with ops := rest ++ [.letting [making.proof]] }
    | _ => none
  | .insert i handle =>
    match pick w.ops i with
    | some (.making making at_, rest) =>
      (w.insert making at_ handle).map fun x => { x.1 with ops := rest ++ [.letting x.2] }
    | _ => none
  | .lookUp handle => some (w.lookUp handle)
  | .release handle => some (w.release handle)
  | .revoke prover => some (w.revoke prover)
  | .clone i =>
    match pick w.ops i with
    | some (.act proof, _) => some { w with ops := w.ops ++ [.act proof] }
    | _ => none
  | .vouched i node handle =>
    match pick w.ops i with
    | some (.act p, _) => (w.proofs.get p).map fun proof => w.vouched p proof node handle
    | _ => none
  | .done i =>
    match pick w.ops i with
    | some (.act proof, rest) => some { w with ops := rest ++ [.letting [proof]] }
    | _ => none
  | .letGo i =>
    match pick w.ops i with
    | some (.letting [], rest) => some { w with ops := rest }
    | some (.letting (proof :: proofs), rest) => some (w.dropped (rest ++ [.letting proofs]) proof)
    | _ => none
  | .tell i =>
    match pick w.ops i with
    | some (.telling [], rest) => some { w with ops := rest }
    | some (.telling (vouch :: vouches), rest) =>
      some { w with ops := rest ++ [.telling vouches], told := vouch :: w.told }
    | _ => none

/-- What one step does: to a place under way it picks, where it has one of that kind. -/
inductive World.Taken (w : World) : World → Prop
  | tick (by_ : Nat) : Taken w { w with now := w.now + by_ }
  | hold (identity : AuthenticatedIdentity) (heldUntil : Option Int) (provedBy : Option Nat)
      (leaf : Option (List UInt8)) : Taken w (w.hold identity heldUntil provedBy leaf)
  | again (handle : Nat) : Taken w (w.again handle)
  | sampled {i : Nat} {m : Making} {rest : List Op} : pick w.ops i = some (.found m, rest) →
      live m.heldUntil w.now = true → Taken w { w with ops := rest ++ [.making m w.now] }
  | stale {i : Nat} {m : Making} {rest : List Op} : pick w.ops i = some (.found m, rest) →
      live m.heldUntil w.now = false → Taken w { w with ops := rest ++ [.letting [m.proof]] }
  | insert {i handle : Nat} {m : Making} {at_ : Int} {rest : List Op} {x : World × List Nat} :
      pick w.ops i = some (.making m at_, rest) → w.insert m at_ handle = some x →
      Taken w { x.1 with ops := rest ++ [.letting x.2] }
  | lookUp (handle : Nat) : Taken w (w.lookUp handle)
  | release (handle : Nat) : Taken w (w.release handle)
  | revoke (prover : Nat) : Taken w (w.revoke prover)
  | clone {i p : Nat} {rest : List Op} : pick w.ops i = some (.act p, rest) →
      Taken w { w with ops := w.ops ++ [.act p] }
  | vouched {i p : Nat} {rest : List Op} {proof : Proof} (node handle : Nat) : pick w.ops i = some (.act p, rest) →
      w.proofs.get p = some proof → Taken w (w.vouched p proof node handle)
  | done {i p : Nat} {rest : List Op} : pick w.ops i = some (.act p, rest) →
      Taken w { w with ops := rest ++ [.letting [p]] }
  | letAll {i : Nat} {rest : List Op} : pick w.ops i = some (.letting [], rest) → Taken w { w with ops := rest }
  | letGo {i p : Nat} {ps : List Nat} {rest : List Op} : pick w.ops i = some (.letting (p :: ps), rest) →
      Taken w (w.dropped (rest ++ [.letting ps]) p)
  | toldAll {i : Nat} {rest : List Op} : pick w.ops i = some (.telling [], rest) → Taken w { w with ops := rest }
  | tell {i : Nat} {vouch : Vouch} {vouches : List Vouch} {rest : List Op} :
      pick w.ops i = some (.telling (vouch :: vouches), rest) →
      Taken w { w with ops := rest ++ [.telling vouches], told := vouch :: w.told }

theorem World.taken_of_step {w w' : World} {a : Action} (hs : w.step a = some w') : w.Taken w' := by
  cases a with
  | tick by_ =>
    cases hs
    exact .tick by_
  | hold identity heldUntil provedBy leaf =>
    cases hs
    exact .hold ..
  | again handle =>
    cases hs
    exact .again handle
  | sample i =>
    simp only [World.step] at hs
    split at hs
    · rename_i m rest hp
      split at hs
      · rename_i hlive
        cases hs
        exact .sampled hp hlive
      · rename_i hlive
        cases hs
        exact .stale hp (by simpa using hlive)
    · cases hs
  | insert i handle =>
    simp only [World.step] at hs
    split at hs
    · rename_i m at_ rest hp
      obtain ⟨x, hx, rfl⟩ := Option.map_eq_some_iff.1 hs
      exact .insert hp hx
    · cases hs
  | lookUp handle =>
    cases hs
    exact .lookUp handle
  | release handle =>
    cases hs
    exact .release handle
  | revoke prover =>
    cases hs
    exact .revoke prover
  | clone i =>
    simp only [World.step] at hs
    split at hs
    · rename_i p rest hp
      cases hs
      exact .clone hp
    · cases hs
  | vouched i node handle =>
    simp only [World.step] at hs
    split at hs
    · rename_i p rest hp
      obtain ⟨proof, hproof, rfl⟩ := Option.map_eq_some_iff.1 hs
      exact .vouched node handle hp hproof
    · cases hs
  | done i =>
    simp only [World.step] at hs
    split at hs
    · rename_i p rest hp
      cases hs
      exact .done hp
    · cases hs
  | letGo i =>
    simp only [World.step] at hs
    split at hs
    · rename_i rest hp
      cases hs
      exact .letAll hp
    · rename_i p ps rest hp
      cases hs
      exact .letGo hp
    · cases hs
  | tell i =>
    simp only [World.step] at hs
    split at hs
    · rename_i rest hp
      cases hs
      exact .toldAll hp
    · rename_i vouch vouches rest hp
      cases hs
      exact .tell hp
    · cases hs

end Plane
