import Mathlib.Data.List.Nodup
import Mathlib.Logic.Function.Basic
import XmipRuntime.Library.Pick
import XmipRuntime.Library.Run
import XmipRuntime.Plane.Relaying

/-!
# The nonces a browser's handshake is bound to

A web host keeps a few nonces of each node it follows, by the listener they are for, and binds each browser's handshake to
one of every surface (`src/plane/remote/fresh.rs`).  A handshake takes one kept under the surface's lock; where few are
left it has more asked for on a thread, one ask at a time by a flag; where none is left and the node is known to answer, it
asks itself, and takes one under the lock again.

The machine is any number of handshakes and of asks behind them.  A step is one hold of a lock, a look at the clock or at
what another part says, or the start of a thread.  What a node answers is given with the step: nothing where it refused or
was lost.  A nonce is taken to be bound as it is taken for its handshake.
-/

namespace Bound

open Library
open Relaying (Bytes)

/-! ### A surface's nonces -/

/-- How long a nonce is kept to bind with: ten seconds, the clock counting milliseconds. -/
def keptFor : Nat := 10000

/-- How many are asked for at once. -/
def atOnce : Nat := 8

/-- How long a node that refused nonces is left. -/
def refusedFor : Nat := 60000

/-- A surface's nonces, by listener, each with when it was kept; until when its node is left; and whether more are asked
for behind the handshakes. -/
structure Pool where
  nonces : Table Bytes (List (Bytes × Nat))
  refusedUntil : Table Bytes Nat
  refilling : Bool

namespace Pool

def default : Pool := ⟨.empty, .empty, false⟩

def kept (pool : Pool) (listener : Bytes) : List (Bytes × Nat) := (pool.nonces.get listener).getD []

/-- Those of the listener are `nonces` from now. -/
def put (pool : Pool) (listener : Bytes) (nonces : List (Bytes × Nat)) : Pool :=
  { pool with nonces := pool.nonces.put listener nonces }

/-- Those still to bind with at `now`. -/
def retained (pool : Pool) (listener : Bytes) (now : Nat) : List (Bytes × Nat) :=
  (pool.kept listener).filter fun one => decide (now - one.2 < keptFor)

def refused (pool : Pool) (listener : Bytes) (now : Nat) : Bool := (pool.refusedUntil.get listener).any (now < ·)

/-- What an ask gave for the listener is kept from `now`; a node that gave none is left for a while. -/
def refill (pool : Pool) (listener : Bytes) (given : List Bytes) (now : Nat) : Pool :=
  if given.isEmpty then { pool with refilling := false, refusedUntil := pool.refusedUntil.put listener (now + refusedFor) }
  else { pool.put listener (pool.kept listener ++ given.map (·, now)) with refilling := false }

end Pool

/-! ### The machine -/

/-- The nonces an answer gives: its entries that can be read, none where there is no answer or no list in it. -/
def given (answer : Option (List (Option Bytes))) : List Bytes := (answer.getD []).filterMap id

/-- Where a handshake is: to take the next surface's; `x`'s clock read; whether `x`'s node is reached read; to ask `x` behind
itself, with the nonce taken; to start a thread for it; asking `x` itself, the clock read at `read`; answered; to take one
after its own ask; bound. -/
inductive Phase where
  | next
  | reads (x now : Nat)
  | reached (x now : Nat) (reached : Bool)
  | behind (x : Nat) (nonce : Option Bytes)
  | spawns (x : Nat) (nonce : Option Bytes)
  | asks (x read : Nat)
  | answered (x read : Nat) (given : List Bytes) (now : Nat)
  | pops (x read : Nat)
  | bound
  deriving DecidableEq

/-- A handshake made with a listener: the surfaces found live, those still to go, and the nonces taken with the surfaces
whose they are. -/
structure Handshake where
  listener : Bytes
  live : List Nat
  left : List Nat
  phase : Phase
  nonces : List Bytes
  surfaces : List Nat
  deriving DecidableEq

inductive Asking where
  | spawned
  | asks
  | answered (given : List Bytes) (now : Nat)
  deriving DecidableEq

/-- An ask behind the handshakes. -/
structure Ask where
  surface : Nat
  listener : Bytes
  phase : Asking
  deriving DecidableEq

/-- A nonce a surface's node gave for a listener, and when it was kept. -/
structure Given where
  nonce : Bytes
  surface : Nat
  listener : Bytes
  keptAt : Nat
  deriving DecidableEq

structure State where
  clock : Nat
  known : List Nat
  gone : Nat → Bool
  pools : Nat → Pool
  handshakes : List Handshake
  asks : List Ask
  /-- Every nonce kept so far, and those taken, with when. -/
  given : List Given
  taken : List (Given × Nat)

def Begins (s : State) : Prop := ∃ clock, s = ⟨clock, [], fun _ => false, fun _ => .default, [], [], [], []⟩

inductive Action where
  | ticks (n : Nat)
  | surfaced (x : Nat)
  | goes (x : Nat)
  | begins (listener : Bytes)
  /-- Whether the surface is ending. -/
  | looks (k : Nat) (ending : Bool)
  | reaches (k : Nat) (reached : Bool)
  | takes (k : Nat)
  | asksBehind (k : Nat)
  | spawns (k : Nat) (started : Bool)
  | answers (k : Nat) (answer : Option (List (Option Bytes)))
  | keeps (k : Nat)
  | pops (k : Nat)
  | upgrades (j : Nat)
  | answersBehind (j : Nat) (answer : Option (List (Option Bytes)))
  | keepsBehind (j : Nat)

namespace Handshake

/-- It goes on to the next surface, with what it took of `x`. -/
def pushed (h : Handshake) (x : Nat) : Option Bytes → Handshake
  | some nonce => { h with phase := .next, nonces := h.nonces ++ [nonce], surfaces := h.surfaces ++ [x] }
  | none => { h with phase := .next }

/-- Where it goes with what it found under `x`'s lock, the clock read at `read`. -/
def found (h : Handshake) (x read : Nat) (reached low : Bool) : Option Bytes → Handshake
  | some nonce => if low then { h with phase := .behind x (some nonce) } else h.pushed x (some nonce)
  | none => if reached then { h with phase := .asks x read } else { h with phase := .behind x none }

/-- It holds the surfaces it found live until it is bound. -/
def holds (h : Handshake) (x : Nat) : Bool := h.phase ≠ .bound ∧ x ∈ h.live

end Handshake

namespace State

/-- One taken by a handshake: from the front, the rest staying. -/
def took (s : State) (x : Nat) (listener : Bytes) : List (Bytes × Nat) → State
  | [] => { s with pools := Function.update s.pools x ((s.pools x).put listener []) }
  | one :: rest => { s with
      pools := Function.update s.pools x ((s.pools x).put listener rest)
      taken := s.taken ++ [(⟨one.1, x, listener, one.2⟩, s.clock)] }

/-- What an ask of `x` gave is kept. -/
def refilled (s : State) (x : Nat) (listener : Bytes) (given : List Bytes) (now : Nat) : State :=
  { s with
    pools := Function.update s.pools x ((s.pools x).refill listener given now)
    given := s.given ++ given.map fun nonce => ⟨nonce, x, listener, now⟩ }

def flagged (s : State) (x : Nat) (refilling : Bool) : State :=
  { s with pools := Function.update s.pools x { s.pools x with refilling } }

def step (s : State) : Action → Option State
  | .ticks n => some { s with clock := s.clock + n }
  | .surfaced x => some { s with known := s.known.filter (fun one => !s.gone one) ++ [x] }
  | .goes x =>
    if (∀ h ∈ s.handshakes, h.holds x = false) ∧ ∀ ask ∈ s.asks, ask.surface = x → ask.phase = .spawned then
      some { s with gone := Function.update s.gone x true }
    else none
  | .begins listener =>
    let live := s.known.filter fun one => !s.gone one
    some { s with handshakes := ⟨listener, live, live, .next, [], []⟩ :: s.handshakes }
  | .looks k ending => do
    let (h, rest) ← pick s.handshakes k
    match h.phase, h.left with
    | .next, [] => some { s with handshakes := { h with phase := .bound } :: rest }
    | .next, x :: left =>
      if ending then some { s with handshakes := { h with left } :: rest }
      else some { s with handshakes := { h with left, phase := .reads x s.clock } :: rest }
    | _, _ => none
  | .reaches k reached => do
    let (h, rest) ← pick s.handshakes k
    match h.phase with
    | .reads x now => some { s with handshakes := { h with phase := .reached x now reached } :: rest }
    | _ => none
  | .takes k => do
    let (h, rest) ← pick s.handshakes k
    match h.phase with
    | .reached x now reached =>
      if (s.pools x).refused h.listener now then some { s with handshakes := h.pushed x none :: rest }
      else
        let kept := (s.pools x).retained h.listener now
        let low := decide (kept.tail.length < atOnce / 2)
        some { s.took x h.listener kept with
          handshakes := h.found x now reached low (kept.head?.map Prod.fst) :: rest }
    | _ => none
  | .asksBehind k => do
    let (h, rest) ← pick s.handshakes k
    match h.phase with
    | .behind x nonce =>
      if (s.pools x).refilling then some { s with handshakes := h.pushed x nonce :: rest }
      else some { s.flagged x true with handshakes := { h with phase := .spawns x nonce } :: rest }
    | _ => none
  | .spawns k started => do
    let (h, rest) ← pick s.handshakes k
    match h.phase with
    | .spawns x nonce =>
      if started then
        some { s with handshakes := h.pushed x nonce :: rest, asks := ⟨x, h.listener, .spawned⟩ :: s.asks }
      else some { s.flagged x false with handshakes := h.pushed x nonce :: rest }
    | _ => none
  | .answers k answer => do
    let (h, rest) ← pick s.handshakes k
    match h.phase with
    | .asks x read =>
      some { s with handshakes := { h with phase := .answered x read (Bound.given answer) s.clock } :: rest }
    | _ => none
  | .keeps k => do
    let (h, rest) ← pick s.handshakes k
    match h.phase with
    | .answered x read given now =>
      some { s.refilled x h.listener given now with handshakes := { h with phase := .pops x read } :: rest }
    | _ => none
  | .pops k => do
    let (h, rest) ← pick s.handshakes k
    match h.phase with
    | .pops x _ =>
      let kept := (s.pools x).kept h.listener
      some { s.took x h.listener kept with handshakes := h.pushed x (kept.head?.map Prod.fst) :: rest }
    | _ => none
  | .upgrades j => do
    let (ask, rest) ← pick s.asks j
    match ask.phase with
    | .spawned => some { s with asks := if s.gone ask.surface then rest else { ask with phase := .asks } :: rest }
    | _ => none
  | .answersBehind j answer => do
    let (ask, rest) ← pick s.asks j
    match ask.phase with
    | .asks => some { s with asks := { ask with phase := .answered (Bound.given answer) s.clock } :: rest }
    | _ => none
  | .keepsBehind j => do
    let (ask, rest) ← pick s.asks j
    match ask.phase with
    | .answered given now => some { s.refilled ask.surface ask.listener given now with asks := rest }
    | _ => none

end State

/-! ### What a step does -/

inductive Taken (s : State) : Action → State → Prop where
  | ticks (n : Nat) : Taken s (.ticks n) { s with clock := s.clock + n }
  | surfaced (x : Nat) (known : List Nat) : Taken s (.surfaced x) { s with known }
  | goes (x : Nat) (gone : Nat → Bool) : Taken s (.goes x) { s with gone }
  | begins (listener : Bytes) (live : List Nat) :
      Taken s (.begins listener) { s with handshakes := ⟨listener, live, live, .next, [], []⟩ :: s.handshakes }
  | binds (k : Nat) (ending : Bool) (h : Handshake) (rest : List Handshake) : pick s.handshakes k = some (h, rest) →
      h.phase = .next → Taken s (.looks k ending) { s with handshakes := { h with phase := .bound } :: rest }
  | skips (k : Nat) (h : Handshake) (rest : List Handshake) (left : List Nat) : pick s.handshakes k = some (h, rest) →
      h.phase = .next → Taken s (.looks k true) { s with handshakes := { h with left } :: rest }
  | looks (k x : Nat) (h : Handshake) (rest : List Handshake) (left : List Nat) : pick s.handshakes k = some (h, rest) →
      h.phase = .next →
      Taken s (.looks k false) { s with handshakes := { h with left, phase := .reads x s.clock } :: rest }
  | reaches (k x now : Nat) (reached : Bool) (h : Handshake) (rest : List Handshake) :
      pick s.handshakes k = some (h, rest) → h.phase = .reads x now →
      Taken s (.reaches k reached) { s with handshakes := { h with phase := .reached x now reached } :: rest }
  | refused (k x now : Nat) (reached : Bool) (h : Handshake) (rest : List Handshake) :
      pick s.handshakes k = some (h, rest) → h.phase = .reached x now reached →
      Taken s (.takes k) { s with handshakes := h.pushed x none :: rest }
  | takes (k x now : Nat) (reached low : Bool) (h : Handshake) (rest : List Handshake) :
      pick s.handshakes k = some (h, rest) → h.phase = .reached x now reached →
      (s.pools x).refused h.listener now = false →
      Taken s (.takes k) { s.took x h.listener ((s.pools x).retained h.listener now) with
        handshakes := h.found x now reached low (((s.pools x).retained h.listener now).head?.map Prod.fst) :: rest }
  | asked (k x : Nat) (nonce : Option Bytes) (h : Handshake) (rest : List Handshake) :
      pick s.handshakes k = some (h, rest) → h.phase = .behind x nonce →
      Taken s (.asksBehind k) { s with handshakes := h.pushed x nonce :: rest }
  | asksBehind (k x : Nat) (nonce : Option Bytes) (h : Handshake) (rest : List Handshake) :
      pick s.handshakes k = some (h, rest) → h.phase = .behind x nonce → (s.pools x).refilling = false →
      Taken s (.asksBehind k) { s.flagged x true with handshakes := { h with phase := .spawns x nonce } :: rest }
  | spawns (k x : Nat) (nonce : Option Bytes) (h : Handshake) (rest : List Handshake) :
      pick s.handshakes k = some (h, rest) → h.phase = .spawns x nonce →
      Taken s (.spawns k true) { s with
        handshakes := h.pushed x nonce :: rest, asks := ⟨x, h.listener, .spawned⟩ :: s.asks }
  | unstarted (k x : Nat) (nonce : Option Bytes) (h : Handshake) (rest : List Handshake) :
      pick s.handshakes k = some (h, rest) → h.phase = .spawns x nonce →
      Taken s (.spawns k false) { s.flagged x false with handshakes := h.pushed x nonce :: rest }
  | answers (k x read : Nat) (answer : Option (List (Option Bytes))) (h : Handshake) (rest : List Handshake) :
      pick s.handshakes k = some (h, rest) → h.phase = .asks x read →
      Taken s (.answers k answer) { s with
        handshakes := { h with phase := .answered x read (Bound.given answer) s.clock } :: rest }
  | keeps (k x read now : Nat) (given : List Bytes) (h : Handshake) (rest : List Handshake) :
      pick s.handshakes k = some (h, rest) → h.phase = .answered x read given now →
      Taken s (.keeps k) { s.refilled x h.listener given now with handshakes := { h with phase := .pops x read } :: rest }
  | pops (k x read : Nat) (h : Handshake) (rest : List Handshake) : pick s.handshakes k = some (h, rest) →
      h.phase = .pops x read →
      Taken s (.pops k) { s.took x h.listener ((s.pools x).kept h.listener) with
        handshakes := h.pushed x (((s.pools x).kept h.listener).head?.map Prod.fst) :: rest }
  | lost (j : Nat) (ask : Ask) (rest : List Ask) : pick s.asks j = some (ask, rest) → Taken s (.upgrades j) { s with asks := rest }
  | upgrades (j : Nat) (ask : Ask) (rest : List Ask) : pick s.asks j = some (ask, rest) →
      Taken s (.upgrades j) { s with asks := { ask with phase := .asks } :: rest }
  | answersBehind (j : Nat) (answer : Option (List (Option Bytes))) (ask : Ask) (rest : List Ask) :
      pick s.asks j = some (ask, rest) →
      Taken s (.answersBehind j answer) { s with
        asks := { ask with phase := .answered (Bound.given answer) s.clock } :: rest }
  | keepsBehind (j now : Nat) (given : List Bytes) (ask : Ask) (rest : List Ask) : pick s.asks j = some (ask, rest) →
      ask.phase = .answered given now →
      Taken s (.keepsBehind j) { s.refilled ask.surface ask.listener given now with asks := rest }

variable {ok : State → Action → Prop} {s s' : State} {a : Action}

theorem taken_of_step (h : s.step a = some s') : Taken s a s' := by
  cases a with
  | ticks n =>
    cases h
    exact .ticks n
  | surfaced x =>
    cases h
    exact .surfaced x _
  | goes x =>
    simp only [State.step] at h
    split at h
    · cases h
      exact .goes x _
    · cases h
  | begins listener =>
    cases h
    exact .begins listener _
  | looks k ending =>
    obtain ⟨⟨handshake, rest⟩, hk, h⟩ := Option.bind_eq_some_iff.1 h
    dsimp only at h
    split at h
    · rename_i hphase hleft
      cases h
      exact .binds k ending handshake rest hk hphase
    · rename_i x left hphase hleft
      cases ending with
      | true =>
        cases h
        exact .skips k handshake rest left hk hphase
      | false =>
        cases h
        exact .looks k x handshake rest left hk hphase
    · cases h
  | reaches k reached =>
    obtain ⟨⟨handshake, rest⟩, hk, h⟩ := Option.bind_eq_some_iff.1 h
    dsimp only at h
    split at h
    · rename_i x now hphase
      cases h
      exact .reaches k x now reached handshake rest hk hphase
    · cases h
  | takes k =>
    obtain ⟨⟨handshake, rest⟩, hk, h⟩ := Option.bind_eq_some_iff.1 h
    dsimp only at h
    split at h
    · rename_i x now reached hphase
      split at h
      · cases h
        exact .refused k x now reached handshake rest hk hphase
      · rename_i hrefused
        cases h
        exact .takes k x now reached _ handshake rest hk hphase (Bool.eq_false_of_not_eq_true hrefused)
    · cases h
  | asksBehind k =>
    obtain ⟨⟨handshake, rest⟩, hk, h⟩ := Option.bind_eq_some_iff.1 h
    dsimp only at h
    split at h
    · rename_i x nonce hphase
      split at h
      · cases h
        exact .asked k x nonce handshake rest hk hphase
      · rename_i hrefilling
        cases h
        exact .asksBehind k x nonce handshake rest hk hphase (Bool.eq_false_of_not_eq_true hrefilling)
    · cases h
  | spawns k started =>
    obtain ⟨⟨handshake, rest⟩, hk, h⟩ := Option.bind_eq_some_iff.1 h
    dsimp only at h
    split at h
    · rename_i x nonce hphase
      cases started with
      | true =>
        cases h
        exact .spawns k x nonce handshake rest hk hphase
      | false =>
        cases h
        exact .unstarted k x nonce handshake rest hk hphase
    · cases h
  | answers k answer =>
    obtain ⟨⟨handshake, rest⟩, hk, h⟩ := Option.bind_eq_some_iff.1 h
    dsimp only at h
    split at h
    · rename_i x read hphase
      cases h
      exact .answers k x read answer handshake rest hk hphase
    · cases h
  | keeps k =>
    obtain ⟨⟨handshake, rest⟩, hk, h⟩ := Option.bind_eq_some_iff.1 h
    dsimp only at h
    split at h
    · rename_i x read given now hphase
      cases h
      exact .keeps k x read now given handshake rest hk hphase
    · cases h
  | pops k =>
    obtain ⟨⟨handshake, rest⟩, hk, h⟩ := Option.bind_eq_some_iff.1 h
    dsimp only at h
    split at h
    · rename_i x read hphase
      cases h
      exact .pops k x read handshake rest hk hphase
    · cases h
  | upgrades j =>
    obtain ⟨⟨ask, rest⟩, hj, h⟩ := Option.bind_eq_some_iff.1 h
    dsimp only at h
    split at h
    · cases h
      split
      · exact .lost j ask rest hj
      · exact .upgrades j ask rest hj
    · cases h
  | answersBehind j answer =>
    obtain ⟨⟨ask, rest⟩, hj, h⟩ := Option.bind_eq_some_iff.1 h
    dsimp only at h
    split at h
    · cases h
      exact .answersBehind j answer ask rest hj
    · cases h
  | keepsBehind j =>
    obtain ⟨⟨ask, rest⟩, hj, h⟩ := Option.bind_eq_some_iff.1 h
    dsimp only at h
    split at h
    · rename_i given now hphase
      cases h
      exact .keepsBehind j now given ask rest hj hphase
    · cases h

/-! ### What is kept and what is taken -/

/-- The nonces kept of each surface for each listener. -/
def keptOf (pools : Nat → Pool) (x : Nat) (listener : Bytes) : List (Bytes × Nat) := (pools x).kept listener

theorem keptOf_put (pools : Nat → Pool) (x y : Nat) (listener m : Bytes) (nonces : List (Bytes × Nat)) :
    keptOf (Function.update pools x ((pools x).put listener nonces)) y m =
      if y = x ∧ m = listener then nonces else keptOf pools y m := by
  unfold keptOf
  by_cases hy : y = x
  · subst hy
    rw [Function.update_self]
    unfold Pool.kept Pool.put
    dsimp only
    rw [Table.get_put]
    by_cases hm : m = listener
    · rw [if_pos hm, if_pos ⟨rfl, hm⟩]
      rfl
    · rw [if_neg hm, if_neg fun h => hm h.2]
  · rw [Function.update_of_ne hy, if_neg fun h => hy h.1]

theorem keptOf_flagged (s : State) (x : Nat) (refilling : Bool) : keptOf (s.flagged x refilling).pools = keptOf s.pools := by
  funext y m
  unfold keptOf State.flagged
  by_cases hy : y = x
  · subst hy
    dsimp only
    rw [Function.update_self]
    rfl
  · dsimp only
    rw [Function.update_of_ne hy]

theorem keptOf_refilled (s : State) (x : Nat) (listener : Bytes) (given : List Bytes) (now y : Nat) (m : Bytes) :
    keptOf (s.refilled x listener given now).pools y m =
      if y = x ∧ m = listener then keptOf s.pools x listener ++ given.map (·, now) else keptOf s.pools y m := by
  cases given with
  | nil =>
    rw [List.map_nil, List.append_nil]
    unfold keptOf State.refilled
    by_cases hy : y = x
    · subst hy
      dsimp only
      rw [Function.update_self]
      split
      · rename_i hm
        rw [hm.2]
        rfl
      · rfl
    · dsimp only
      rw [Function.update_of_ne hy, if_neg fun h => hy h.1]
  | cons nonce given =>
    rw [← keptOf_put]
    unfold keptOf State.refilled
    by_cases hy : y = x
    · subst hy
      dsimp only
      rw [Function.update_self, Function.update_self]
      rfl
    · dsimp only
      rw [Function.update_of_ne hy, Function.update_of_ne hy]

/-- What is said of the nonces kept: each was given by that surface's node for that listener, once, and none is taken; and
those taken were given, and are taken once. -/
structure Kept (kept : Nat → Bytes → List (Bytes × Nat)) (given : List Given) (taken : List (Given × Nat)) : Prop where
  distinct : (given.map Given.nonce).Nodup
  own : ∀ x listener, ∀ one ∈ kept x listener, ⟨one.1, x, listener, one.2⟩ ∈ given
  keptOnce : ∀ x listener, ((kept x listener).map Prod.fst).Nodup
  apart : ∀ x listener, ∀ one ∈ kept x listener, one.1 ∉ taken.map fun p => p.1.nonce
  logged : ∀ p ∈ taken, p.1 ∈ given
  once : (taken.map fun p => p.1.nonce).Nodup

section Kept

variable {kept kept' : Nat → Bytes → List (Bytes × Nat)} {given : List Given} {taken : List (Given × Nat)}

theorem Kept.narrow (h : Kept kept given taken) (hsub : ∀ x listener, (kept' x listener).Sublist (kept x listener)) :
    Kept kept' given taken where
  distinct := h.distinct
  own x listener one hone := h.own x listener one ((hsub x listener).subset hone)
  keptOnce x listener := (h.keptOnce x listener).sublist ((hsub x listener).map _)
  apart x listener one hone := h.apart x listener one ((hsub x listener).subset hone)
  logged := h.logged
  once := h.once

/-- One is taken from the front. -/
theorem Kept.take (h : Kept kept given taken) {x : Nat} {listener : Bytes} {one : Bytes × Nat}
    (hone : (one :: kept' x listener).Sublist (kept x listener))
    (hsub : ∀ y m, (kept' y m).Sublist (kept y m)) (now : Nat) :
    Kept kept' given (taken ++ [(⟨one.1, x, listener, one.2⟩, now)]) := by
  have hin : one ∈ kept x listener := hone.subset List.mem_cons_self
  have hnarrow := h.narrow hsub
  have hnew : ∀ y m, ∀ other ∈ kept' y m, other.1 ≠ one.1 := by
    intro y m other hother heq
    have hgiven := List.inj_on_of_nodup_map h.distinct (hnarrow.own y m other hother) (h.own x listener one hin) heq
    obtain ⟨-, rfl, rfl, -⟩ := Given.mk.inj hgiven
    have hnodup := (h.keptOnce y m).sublist (hone.map Prod.fst)
    rw [List.map_cons, List.nodup_cons] at hnodup
    exact hnodup.1 (heq ▸ List.mem_map_of_mem hother)
  refine ⟨h.distinct, hnarrow.own, hnarrow.keptOnce, fun y m other hother => ?_, ?_, ?_⟩
  · rw [List.map_append, List.mem_append, not_or]
    exact ⟨hnarrow.apart y m other hother, fun hmem => hnew y m other hother (List.mem_singleton.1 hmem)⟩
  · intro p hp
    rcases List.mem_append.1 hp with hp | hp
    · exact h.logged p hp
    · rw [List.mem_singleton.1 hp]
      exact h.own x listener one hin
  · rw [List.map_append]
    refine List.nodup_append.2 ⟨h.once, List.nodup_singleton _, ?_⟩
    rintro nonce hmem _ hlast rfl
    rw [List.mem_singleton.1 hlast] at hmem
    exact h.apart x listener one hin hmem

/-- Those an ask gave, none given before, are kept. -/
theorem Kept.gain (h : Kept kept given taken) {x : Nat} {listener : Bytes} {new : List Bytes} {now : Nat}
    (hkept : ∀ y m, kept' y m = if y = x ∧ m = listener then kept x listener ++ new.map (·, now) else kept y m)
    (hnew : new.Nodup) (hfresh : ∀ nonce ∈ new, nonce ∉ given.map Given.nonce) :
    Kept kept' (given ++ new.map fun nonce => ⟨nonce, x, listener, now⟩) taken := by
  have hnonces : (new.map fun nonce => (⟨nonce, x, listener, now⟩ : Given)).map Given.nonce = new := by
    rw [List.map_map]
    exact List.map_id _
  have hin : ∀ y m, ∀ one ∈ kept' y m, one ∈ kept y m ∨ y = x ∧ m = listener ∧ one.1 ∈ new ∧ one.2 = now := by
    intro y m one hone
    rw [hkept] at hone
    split at hone
    · rename_i heq
      obtain ⟨rfl, rfl⟩ := heq
      rcases List.mem_append.1 hone with hone | hone
      · exact .inl hone
      · obtain ⟨nonce, hnonce, rfl⟩ := List.mem_map.1 hone
        exact .inr ⟨rfl, rfl, hnonce, rfl⟩
    · exact .inl hone
  refine ⟨?_, fun y m one hone => ?_, fun y m => ?_, fun y m one hone => ?_, fun p hp => ?_, h.once⟩
  · rw [List.map_append, hnonces]
    refine List.nodup_append.2 ⟨h.distinct, hnew, ?_⟩
    rintro nonce hold _ hmem rfl
    exact hfresh nonce hmem hold
  · rcases hin y m one hone with hone | ⟨rfl, rfl, hnonce, hnow⟩
    · exact List.mem_append_left _ (h.own y m one hone)
    · exact List.mem_append_right _ (List.mem_map.2 ⟨one.1, hnonce, by rw [hnow]⟩)
  · rw [hkept]
    split
    · rename_i heq
      obtain ⟨rfl, rfl⟩ := heq
      rw [List.map_append, List.map_map]
      refine List.nodup_append.2 ⟨h.keptOnce y m, ?_, ?_⟩
      · exact (List.map_id new).symm ▸ hnew
      · rintro nonce hold _ hmem rfl
        obtain ⟨one, hone, rfl⟩ := List.mem_map.1 hold
        obtain ⟨nonce, hnonce, heq⟩ := List.mem_map.1 hmem
        exact hfresh nonce hnonce (List.mem_map.2 ⟨_, h.own y m one hone, heq.symm⟩)
    · exact h.keptOnce y m
  · rcases hin y m one hone with hone | ⟨rfl, rfl, hnonce, -⟩
    · exact h.apart y m one hone
    · intro hmem
      obtain ⟨p, hp, heq⟩ := List.mem_map.1 hmem
      exact hfresh one.1 hnonce (List.mem_map.2 ⟨p.1, h.logged p hp, heq⟩)
  · exact List.mem_append_left _ (h.logged p hp)

end Kept

/-! ### What a handshake holds -/

namespace Handshake

/-- What it took and has not yet put with what it is bound to, with the surface whose it is. -/
def held (h : Handshake) : List (Bytes × Nat) :=
  match h.phase with
  | .behind x (some nonce) | .spawns x (some nonce) => [(nonce, x)]
  | _ => []

/-- The nonces it took. -/
def out (h : Handshake) : List Bytes := h.nonces ++ h.held.map Prod.fst

/-- A nonce was given for its listener by the surface's node. -/
def Has (h : Handshake) (given : List Given) (nonce : Bytes) (x : Nat) : Prop :=
  ∃ keptAt, ⟨nonce, x, h.listener, keptAt⟩ ∈ given

/-- Each of its nonces was given for its listener, by the node of the surface at its place. -/
def Own (h : Handshake) (given : List Given) : Prop :=
  List.Forall₂ (h.Has given) h.nonces h.surfaces ∧ ∀ one ∈ h.held, h.Has given one.1 one.2

theorem Own.mono {h : Handshake} {given : List Given} (ho : h.Own given) (more : List Given) : h.Own (given ++ more) := by
  have hmono : ∀ nonce x, h.Has given nonce x → h.Has (given ++ more) nonce x := by
    rintro nonce x ⟨keptAt, hin⟩
    exact ⟨keptAt, List.mem_append_left _ hin⟩
  exact ⟨ho.1.imp hmono, fun one hone => hmono _ _ (ho.2 one hone)⟩

theorem held_of_phase {h : Handshake} {phase : Phase} (hphase : h.phase = phase) :
    h.held = held ⟨[], [], [], phase, [], []⟩ := by
  rw [← hphase]
  rfl

/-- It goes on with the same in hand. -/
theorem Own.goes {h h' : Handshake} {given : List Given} (ho : h.Own given) (hlistener : h'.listener = h.listener)
    (hnonces : h'.nonces = h.nonces) (hsurfaces : h'.surfaces = h.surfaces) (hheld : h'.held = h.held) : h'.Own given := by
  unfold Own Has at ho ⊢
  rw [hlistener, hnonces, hsurfaces, hheld]
  exact ho

theorem out_goes {h h' : Handshake} (hnonces : h'.nonces = h.nonces) (hheld : h'.held = h.held) : h'.out = h.out := by
  rw [out, hnonces, hheld, out]

theorem out_pushed (h : Handshake) (x : Nat) (nonce : Option Bytes) : (h.pushed x nonce).out = h.nonces ++ nonce.toList := by
  cases nonce with
  | none => rfl
  | some nonce => exact List.append_nil _

theorem own_pushed {h : Handshake} {x : Nat} {nonce : Option Bytes} {given : List Given}
    (ho : List.Forall₂ (h.Has given) h.nonces h.surfaces) (hn : ∀ n ∈ nonce, h.Has given n x) :
    (h.pushed x nonce).Own given := by
  cases nonce with
  | none => exact ⟨ho, fun _ hone => nomatch hone⟩
  | some nonce => exact ⟨List.rel_append ho (.cons (hn nonce rfl) .nil), fun _ hone => nomatch hone⟩

theorem out_found (h : Handshake) (x read : Nat) (reached low : Bool) (nonce : Option Bytes) :
    (h.found x read reached low nonce).out = h.nonces ++ nonce.toList := by
  cases nonce with
  | none => cases reached <;> rfl
  | some nonce =>
    cases low with
    | true => rfl
    | false => exact out_pushed h x (some nonce)

theorem own_found {h : Handshake} {x read : Nat} {reached low : Bool} {nonce : Option Bytes} {given : List Given}
    (ho : List.Forall₂ (h.Has given) h.nonces h.surfaces) (hn : ∀ n ∈ nonce, h.Has given n x) :
    (h.found x read reached low nonce).Own given := by
  cases nonce with
  | none => cases reached <;> exact ⟨ho, fun _ hone => nomatch hone⟩
  | some nonce =>
    cases low with
    | true => exact ⟨ho, fun _ hone => List.mem_singleton.1 hone ▸ hn nonce rfl⟩
    | false => exact own_pushed ho hn

/-- With one in hand to ask behind for, what it took is what it has and that one. -/
theorem out_of_holding {h : Handshake} {x : Nat} {nonce : Option Bytes}
    (hphase : h.phase = .behind x nonce ∨ h.phase = .spawns x nonce) : h.out = h.nonces ++ nonce.toList := by
  unfold out
  rcases hphase with hphase | hphase <;> rw [held_of_phase hphase] <;> cases nonce <;> rfl

theorem has_of_holding {h : Handshake} {x : Nat} {nonce : Option Bytes} {given : List Given} (ho : h.Own given)
    (hphase : h.phase = .behind x nonce ∨ h.phase = .spawns x nonce) : ∀ n ∈ nonce, h.Has given n x := by
  rintro n rfl
  refine ho.2 (n, x) ?_
  rcases hphase with hphase | hphase <;> rw [held_of_phase hphase] <;> exact List.mem_singleton.2 rfl

theorem out_of_empty {h : Handshake} (hheld : h.held = []) : h.out = h.nonces := by
  rw [out, hheld]
  exact List.append_nil _

end Handshake

/-- What the handshakes took is what was taken, each with its own. -/
structure Bindings (handshakes : List Handshake) (given : List Given) (taken : List (Given × Nat)) : Prop where
  out : (handshakes.flatMap Handshake.out).Perm (taken.map fun p => p.1.nonce)
  own : ∀ h ∈ handshakes, h.Own given

section Bindings

variable {k : Nat} {handshakes rest : List Handshake} {h h' : Handshake} {given : List Given} {taken : List (Given × Nat)}

theorem Bindings.goes (hb : Bindings handshakes given taken) (hk : pick handshakes k = some (h, rest)) (hout : h'.out = h.out)
    (hown : h'.Own given) : Bindings (h' :: rest) given taken where
  out := by
    rw [List.flatMap_cons, hout, ← List.flatMap_cons]
    exact ((pick_perm hk).flatMap_right _).trans hb.out
  own := List.forall_mem_cons.2 ⟨hown, fun other ho => hb.own other (mem_of_mem_pick hk ho)⟩

theorem Bindings.takes (hb : Bindings handshakes given taken) (hk : pick handshakes k = some (h, rest)) {one : Given × Nat}
    (hout : h'.out = h.out ++ [one.1.nonce]) (hown : h'.Own given) : Bindings (h' :: rest) given (taken ++ [one]) where
  out := by
    have hold := ((pick_perm hk).flatMap_right Handshake.out).trans hb.out
    rw [List.flatMap_cons] at hold
    rw [List.flatMap_cons, hout, List.map_append, List.append_assoc]
    refine List.Perm.trans ?_ (hold.append_right _)
    rw [List.append_assoc]
    exact List.perm_append_comm.append_left _
  own := List.forall_mem_cons.2 ⟨hown, fun other ho => hb.own other (mem_of_mem_pick hk ho)⟩

theorem Bindings.mono (hb : Bindings handshakes given taken) (more : List Given) :
    Bindings handshakes (given ++ more) taken :=
  ⟨hb.out, fun h hin => (hb.own h hin).mono more⟩

end Bindings

/-! ### Each nonce is bound once -/

def Phase.given : Phase → List Bytes
  | .answered _ _ given _ => given
  | _ => []

def Asking.given : Asking → List Bytes
  | .answered given _ => given
  | _ => []

/-- The nonces a step keeps. -/
def State.arriving (s : State) : Action → List Bytes
  | .keeps k => ((pick s.handshakes k).map fun p => p.1.phase.given).getD []
  | .keepsBehind j => ((pick s.asks j).map fun p => p.1.phase.given).getD []
  | _ => []

/-- No two nonces given are equal. -/
def Distinct (s : State) (a : Action) : Prop :=
  (s.arriving a).Nodup ∧ ∀ nonce ∈ s.arriving a, nonce ∉ s.given.map Given.nonce

instance (s : State) (a : Action) : Decidable (Distinct s a) := inferInstanceAs (Decidable (_ ∧ _))

/-- What every step keeps of the nonces kept, of those taken and of the handshakes. -/
structure Once (s : State) : Prop where
  kept : Kept (keptOf s.pools) s.given s.taken
  bindings : Bindings s.handshakes s.given s.taken

theorem begins_once (h : Begins s) : Once s := by
  obtain ⟨clock, rfl⟩ := h
  refine ⟨⟨List.nodup_nil, ?_, fun _ _ => List.nodup_nil, ?_, ?_, List.nodup_nil⟩, .refl _, ?_⟩
  · exact fun _ _ _ hone => nomatch hone
  · exact fun _ _ _ hone => nomatch hone
  · exact fun _ hp => nomatch hp
  · exact fun _ hin => nomatch hin

section Once

variable {k x : Nat} {handshake handshake' : Handshake} {rest : List Handshake}

/-- A handshake goes on with what it took. -/
theorem Once.goes (h : Once s) (hk : pick s.handshakes k = some (handshake, rest)) (hout : handshake'.out = handshake.out)
    (hown : handshake'.Own s.given) : Once { s with handshakes := handshake' :: rest } :=
  ⟨h.kept, h.bindings.goes hk hout hown⟩

theorem Once.flagged (h : Once s) (x : Nat) (refilling : Bool) : Once (s.flagged x refilling) where
  kept := by
    rw [keptOf_flagged]
    exact h.kept
  bindings := h.bindings

/-- A handshake takes the first of some kept for its listener, the others of them staying. -/
theorem Once.took (h : Once s) (hk : pick s.handshakes k = some (handshake, rest)) {nonces : List (Bytes × Nat)}
    (hsub : nonces.Sublist (keptOf s.pools x handshake.listener)) (hempty : handshake.held = [])
    (hout : handshake'.out = handshake.nonces ++ (nonces.head?.map Prod.fst).toList)
    (hown : (∀ n ∈ nonces.head?.map Prod.fst, handshake.Has s.given n x) → handshake'.Own s.given) :
    Once { s.took x handshake.listener nonces with handshakes := handshake' :: rest } := by
  rw [← Handshake.out_of_empty hempty] at hout
  cases nonces with
  | nil =>
    refine ⟨h.kept.narrow fun y m => ?_, h.bindings.goes hk ?_ (hown fun _ hn => nomatch hn)⟩
    · dsimp only [State.took]
      rw [keptOf_put]
      split
      · exact List.nil_sublist _
      · exact List.Sublist.refl _
    · rw [hout]
      exact List.append_nil _
  | cons one nonces =>
    have hin : one ∈ keptOf s.pools x handshake.listener := hsub.subset List.mem_cons_self
    have hkept : ∀ y m, keptOf (s.took x handshake.listener (one :: nonces)).pools y m =
        if y = x ∧ m = handshake.listener then nonces else keptOf s.pools y m := fun y m => keptOf_put ..
    refine ⟨h.kept.take ?_ (fun y m => ?_) s.clock, h.bindings.takes hk hout (hown ?_)⟩
    · rw [hkept, if_pos ⟨rfl, rfl⟩]
      exact hsub
    · rw [hkept]
      split
      · rename_i heq
        rw [heq.1, heq.2]
        exact (List.sublist_cons_self ..).trans hsub
      · exact List.Sublist.refl _
    · rintro n hn
      cases hn
      exact ⟨one.2, h.kept.own x handshake.listener one hin⟩

end Once

/-- What an ask gave, distinct from all given before, is kept. -/
theorem Once.refilled (h : Once s) (x : Nat) (listener : Bytes) {given : List Bytes} (now : Nat) (hnew : given.Nodup)
    (hfresh : ∀ nonce ∈ given, nonce ∉ s.given.map Given.nonce) : Once (s.refilled x listener given now) where
  kept := h.kept.gain (fun y m => keptOf_refilled s x listener given now y m) hnew hfresh
  bindings := h.bindings.mono _

theorem arriving_keeps {k : Nat} {h : Handshake} {rest : List Handshake} (hk : pick s.handshakes k = some (h, rest)) :
    s.arriving (.keeps k) = h.phase.given := by
  unfold State.arriving
  dsimp only
  rw [hk]
  rfl

theorem arriving_keepsBehind {j : Nat} {ask : Ask} {rest : List Ask} (hj : pick s.asks j = some (ask, rest)) :
    s.arriving (.keepsBehind j) = ask.phase.given := by
  unfold State.arriving
  dsimp only
  rw [hj]
  rfl

theorem Once.step (h : Once s) (ht : Taken s a s') (hok : Distinct s a) : Once s' := by
  have hown : ∀ {k : Nat} {handshake : Handshake} {rest : List Handshake},
      pick s.handshakes k = some (handshake, rest) → handshake.Own s.given := fun hk => h.bindings.own _ (mem_of_pick hk)
  have hgoes : ∀ {k : Nat} {handshake : Handshake} {rest : List Handshake} (left : List Nat) (phase : Phase),
      pick s.handshakes k = some (handshake, rest) → Handshake.held ⟨[], [], [], phase, [], []⟩ = handshake.held →
      Once { s with handshakes := { handshake with left, phase } :: rest } := fun left phase hk hheld =>
    h.goes hk (Handshake.out_goes rfl ((Handshake.held_of_phase rfl).trans hheld))
      ((hown hk).goes rfl rfl rfl ((Handshake.held_of_phase rfl).trans hheld))
  cases ht with
  | ticks n => exact ⟨h.kept, h.bindings⟩
  | surfaced x known => exact ⟨h.kept, h.bindings⟩
  | goes x gone => exact ⟨h.kept, h.bindings⟩
  | begins listener live =>
    exact ⟨h.kept, h.bindings.out, List.forall_mem_cons.2 ⟨⟨.nil, fun _ hone => nomatch hone⟩, h.bindings.own⟩⟩
  | binds k ending handshake rest hk hphase => exact hgoes _ .bound hk (Handshake.held_of_phase hphase).symm
  | skips k handshake rest left hk hphase => exact hgoes left handshake.phase hk rfl
  | looks k x handshake rest left hk hphase => exact hgoes left (.reads x s.clock) hk (Handshake.held_of_phase hphase).symm
  | reaches k x now reached handshake rest hk hphase =>
    exact hgoes _ (.reached x now reached) hk (Handshake.held_of_phase hphase).symm
  | refused k x now reached handshake rest hk hphase =>
    refine h.goes hk ?_ (Handshake.own_pushed (hown hk).1 fun _ hn => nomatch hn)
    rw [Handshake.out_pushed, Handshake.out_of_empty (Handshake.held_of_phase hphase)]
    exact List.append_nil _
  | takes k x now reached low handshake rest hk hphase =>
    exact h.took hk List.filter_sublist (Handshake.held_of_phase hphase) (Handshake.out_found ..)
      (Handshake.own_found (hown hk).1)
  | asked k x nonce handshake rest hk hphase =>
    refine h.goes hk ?_ (Handshake.own_pushed (hown hk).1 (Handshake.has_of_holding (hown hk) (.inl hphase)))
    rw [Handshake.out_pushed, Handshake.out_of_holding (.inl hphase)]
  | asksBehind k x nonce handshake rest hk hphase =>
    have hspawns := hgoes handshake.left (.spawns x nonce) hk (by rw [Handshake.held_of_phase hphase]; cases nonce <;> rfl)
    exact hspawns.flagged x true
  | spawns k x nonce handshake rest hk hphase =>
    have hpushed : Once { s with handshakes := handshake.pushed x nonce :: rest } := by
      refine h.goes hk ?_ (Handshake.own_pushed (hown hk).1 (Handshake.has_of_holding (hown hk) (.inr hphase)))
      rw [Handshake.out_pushed, Handshake.out_of_holding (.inr hphase)]
    exact ⟨hpushed.kept, hpushed.bindings⟩
  | unstarted k x nonce handshake rest hk hphase =>
    have hpushed : Once { s with handshakes := handshake.pushed x nonce :: rest } := by
      refine h.goes hk ?_ (Handshake.own_pushed (hown hk).1 (Handshake.has_of_holding (hown hk) (.inr hphase)))
      rw [Handshake.out_pushed, Handshake.out_of_holding (.inr hphase)]
    exact hpushed.flagged x false
  | answers k x read answer handshake rest hk hphase =>
    exact hgoes _ (.answered x read (Bound.given answer) s.clock) hk (Handshake.held_of_phase hphase).symm
  | keeps k x read now given handshake rest hk hphase =>
    rw [Distinct, arriving_keeps hk, hphase] at hok
    have hpops := hgoes handshake.left (.pops x read) hk (Handshake.held_of_phase hphase).symm
    exact hpops.refilled x handshake.listener now hok.1 hok.2
  | pops k x read handshake rest hk hphase =>
    exact h.took hk (List.Sublist.refl _) (Handshake.held_of_phase hphase) (Handshake.out_pushed ..)
      (Handshake.own_pushed (hown hk).1)
  | lost j ask rest hj => exact ⟨h.kept, h.bindings⟩
  | upgrades j ask rest hj => exact ⟨h.kept, h.bindings⟩
  | answersBehind j answer ask rest hj => exact ⟨h.kept, h.bindings⟩
  | keepsBehind j now given ask rest hj hphase =>
    rw [Distinct, arriving_keepsBehind hj, hphase] at hok
    have hkept := h.refilled ask.surface ask.listener now hok.1 hok.2
    exact ⟨hkept.kept, hkept.bindings⟩

/-! ### One ask behind at a time, and none too late -/

/-- An ask behind is of `x`. -/
def Ask.on (x : Nat) (ask : Ask) : Nat := if ask.surface = x then 1 else 0

/-- A handshake is to start a thread for `x`. -/
def Handshake.starts (x : Nat) (h : Handshake) : Nat :=
  match h.phase with
  | .spawns y _ => if y = x then 1 else 0
  | _ => 0

/-- Of each surface one ask behind at most is under way or to be started, where its flag is up, and none where it is not. -/
def One (s : State) : Prop :=
  ∀ x, total (Ask.on x) s.asks + total (Handshake.starts x) s.handshakes ≤ (s.pools x).refilling.toNat

/-- The surface a handshake asks itself, until it takes what it was given, and when it read the clock before. -/
def Phase.asking : Phase → Option (Nat × Nat)
  | .asks x read | .answered x read _ _ | .pops x read => some (x, read)
  | .next | .reads .. | .reached .. | .behind .. | .spawns .. | .bound => none

/-- The first of these has not turned too old since `read`. -/
def State.Lasts (s : State) (read : Nat) (nonces : List (Bytes × Nat)) : Prop :=
  ∀ one ∈ nonces.head?, read - one.2 < keptFor → s.clock - one.2 < keptFor

instance (s : State) (read : Nat) (nonces : List (Bytes × Nat)) : Decidable (s.Lasts read nonces) :=
  inferInstanceAs (Decidable (∀ one ∈ nonces.head?, _ → _))

/-- What `x`'s node answered for the listener at `now` was not too old as a handshake that asks for it itself read the
clock. -/
def State.Timely (s : State) (x : Nat) (listener : Bytes) (now : Nat) : Prop :=
  ∀ h ∈ s.handshakes, h.listener = listener → ∀ asked ∈ h.phase.asking, asked.1 = x → asked.2 - now < keptFor

instance (s : State) (x : Nat) (listener : Bytes) (now : Nat) : Decidable (s.Timely x listener now) :=
  inferInstanceAs (Decidable (∀ h ∈ s.handshakes, _ → ∀ asked ∈ h.phase.asking, _ → _))

/-- Where a handshake that asked itself is to keep what was given, no ask behind is under way; and none of what one is to
take, after its own ask or not, turns too old between its look at the clock and its take. -/
def State.Turn (s : State) (h : Handshake) : Prop :=
  match h.phase with
  | .reached x now _ => (s.pools x).refused h.listener now = false → s.Lasts now ((s.pools x).retained h.listener now)
  | .answered x _ _ now => (s.pools x).refilling = false ∧ s.Timely x h.listener now
  | .pops x read => s.Lasts read ((s.pools x).kept h.listener)
  | _ => True

instance (s : State) (h : Handshake) : Decidable (s.Turn h) := by
  unfold State.Turn
  split <;> infer_instance

/-- What an ask behind is to keep is not too old for a handshake that asks for it itself. -/
def State.TurnBehind (s : State) (ask : Ask) : Prop :=
  match ask.phase with
  | .answered _ now => s.Timely ask.surface ask.listener now
  | .spawned | .asks => True

instance (s : State) (ask : Ask) : Decidable (s.TurnBehind ask) := by
  unfold State.TurnBehind
  split <;> infer_instance

def InTurn (s : State) : Action → Prop
  | .takes k | .keeps k | .pops k => ∀ p ∈ pick s.handshakes k, s.Turn p.1
  | .keepsBehind j => ∀ p ∈ pick s.asks j, s.TurnBehind p.1
  | _ => True

instance (s : State) (a : Action) : Decidable (InTurn s a) := by
  unfold InTurn
  split <;> infer_instance

def Ok (s : State) (a : Action) : Prop := Distinct s a ∧ InTurn s a

instance (s : State) (a : Action) : Decidable (Ok s a) := inferInstanceAs (Decidable (_ ∧ _))

theorem starts_of_phase {h : Handshake} {phase : Phase} (hphase : h.phase = phase) (x : Nat) :
    h.starts x = Handshake.starts x ⟨[], [], [], phase, [], []⟩ := by
  rw [← hphase]
  rfl

theorem starts_pushed (h : Handshake) (x y : Nat) (nonce : Option Bytes) : (h.pushed y nonce).starts x = 0 := by
  cases nonce <;> rfl

theorem starts_found (h : Handshake) (x y read : Nat) (reached low : Bool) (nonce : Option Bytes) :
    (h.found y read reached low nonce).starts x = 0 := by
  cases nonce with
  | none => cases reached <;> rfl
  | some nonce => cases low <;> rfl

theorem refilling_took (s : State) (x y : Nat) (listener : Bytes) (nonces : List (Bytes × Nat)) :
    ((s.took x listener nonces).pools y).refilling = (s.pools y).refilling := by
  have hput : ∀ rest, (Function.update s.pools x ((s.pools x).put listener rest) y).refilling = (s.pools y).refilling := by
    intro rest
    by_cases hy : y = x
    · subst hy
      rw [Function.update_self]
      rfl
    · rw [Function.update_of_ne hy]
  cases nonces <;> exact hput _

theorem refilling_flagged (s : State) (x y : Nat) (refilling : Bool) :
    ((s.flagged x refilling).pools y).refilling = if y = x then refilling else (s.pools y).refilling := by
  dsimp only [State.flagged]
  by_cases hy : y = x
  · subst hy
    rw [Function.update_self, if_pos rfl]
  · rw [Function.update_of_ne hy, if_neg hy]

theorem refilling_refilled (s : State) (x y : Nat) (listener : Bytes) (given : List Bytes) (now : Nat) :
    ((s.refilled x listener given now).pools y).refilling = if y = x then false else (s.pools y).refilling := by
  dsimp only [State.refilled]
  by_cases hy : y = x
  · subst hy
    rw [Function.update_self, if_pos rfl]
    unfold Pool.refill
    split <;> rfl
  · rw [Function.update_of_ne hy, if_neg hy]

theorem begins_one (h : Begins s) : One s := by
  obtain ⟨clock, rfl⟩ := h
  exact fun _ => Nat.zero_le _

/-- The flags stay, and no more asks are under way or to be started. -/
theorem One.frame (h : One s) (hasks : ∀ x, total (Ask.on x) s'.asks ≤ total (Ask.on x) s.asks)
    (hstarts : ∀ x, total (Handshake.starts x) s'.handshakes ≤ total (Handshake.starts x) s.handshakes)
    (hflag : ∀ x, (s'.pools x).refilling = (s.pools x).refilling) : One s' := by
  intro x
  rw [hflag]
  exact Nat.le_trans (Nat.add_le_add (hasks x) (hstarts x)) (h x)

/-- A handshake goes on that is to start no thread. -/
theorem One.goes (h : One s) {k : Nat} {handshake handshake' : Handshake} {rest : List Handshake}
    (hk : pick s.handshakes k = some (handshake, rest)) (hstarts : ∀ x, handshake'.starts x = 0)
    (hflag : ∀ x, (s'.pools x).refilling = (s.pools x).refilling) (hasks : s'.asks = s.asks)
    (hhandshakes : s'.handshakes = handshake' :: rest) : One s' := by
  refine h.frame (fun x => by rw [hasks]) (fun x => ?_) hflag
  rw [hhandshakes]
  exact total_becomes_le hk (hstarts x ▸ Nat.zero_le _)

theorem Handshake.starts_spawns {h : Handshake} {x : Nat} {nonce : Option Bytes} (hphase : h.phase = .spawns x nonce)
    (y : Nat) : h.starts y = if x = y then 1 else 0 :=
  starts_of_phase hphase y

/-- The flag of `x` is taken down, and so is what was under way or to be started of it. -/
theorem One.lowered (h : One s) {x : Nat} (hflag : ∀ y, (s'.pools y).refilling = if y = x then false else (s.pools y).refilling)
    (htotal : ∀ y, total (Ask.on y) s'.asks + total (Handshake.starts y) s'.handshakes + (if x = y then 1 else 0) ≤
      total (Ask.on y) s.asks + total (Handshake.starts y) s.handshakes) : One s' := by
  intro y
  have hy := Nat.le_trans (htotal y) (h y)
  rw [hflag]
  split at hy
  · rename_i hxy
    rw [if_pos hxy.symm]
    have hone := Bool.toNat_le (s.pools y).refilling
    exact Nat.le_of_succ_le_succ (Nat.le_trans hy hone)
  · rename_i hxy
    rw [if_neg fun heq => hxy heq.symm]
    exact hy

theorem One.step (h : One s) (ht : Taken s a s') (hok : InTurn s a) : One s' := by
  have hrfl : ∀ x, (s.pools x).refilling = (s.pools x).refilling := fun _ => rfl
  cases ht with
  | ticks n => exact h
  | surfaced x known => exact h
  | goes x gone => exact h
  | begins listener live => exact h.frame (fun _ => Nat.le_refl _) (fun _ => Nat.le_of_eq (Nat.zero_add _)) hrfl
  | binds k ending handshake rest hk hphase => exact h.goes hk (fun _ => rfl) hrfl rfl rfl
  | skips k handshake rest left hk hphase =>
    have hnext : ({ handshake with left } : Handshake).phase = .next := hphase
    exact h.goes hk (starts_of_phase hnext) hrfl rfl rfl
  | looks k x handshake rest left hk hphase => exact h.goes hk (fun _ => rfl) hrfl rfl rfl
  | reaches k x now reached handshake rest hk hphase => exact h.goes hk (fun _ => rfl) hrfl rfl rfl
  | refused k x now reached handshake rest hk hphase => exact h.goes hk (fun _ => starts_pushed ..) hrfl rfl rfl
  | takes k x now reached low handshake rest hk hphase =>
    refine h.goes hk (fun _ => starts_found ..) (fun y => refilling_took s x y _ _) ?_ rfl
    dsimp only [State.took]
    split <;> rfl
  | asked k x nonce handshake rest hk hphase => exact h.goes hk (fun _ => starts_pushed ..) hrfl rfl rfl
  | asksBehind k x nonce handshake rest hk hphase hflag =>
    intro y
    have hy := h y
    have htotal := total_of_pick (Handshake.starts y) hk
    have hnew : ({ handshake with phase := .spawns x nonce } : Handshake).starts y = if x = y then 1 else 0 := rfl
    dsimp only
    rw [total_cons, hnew, refilling_flagged]
    by_cases hxy : x = y
    · subst hxy
      rw [hflag, Bool.toNat_false] at hy
      rw [if_pos rfl, if_pos rfl, Bool.toNat_true]
      dsimp only [State.flagged]
      omega
    · rw [if_neg hxy, if_neg fun heq => hxy heq.symm]
      dsimp only [State.flagged]
      omega
  | spawns k x nonce handshake rest hk hphase =>
    intro y
    have hy := h y
    have htotal := total_of_pick (Handshake.starts y) hk
    have hnew : Ask.on y ⟨x, handshake.listener, .spawned⟩ = if x = y then 1 else 0 := rfl
    rw [Handshake.starts_spawns hphase] at htotal
    dsimp only
    rw [total_cons, total_cons, starts_pushed, hnew]
    omega
  | unstarted k x nonce handshake rest hk hphase =>
    refine h.lowered (refilling_flagged s x · false) fun y => ?_
    have htotal := total_of_pick (Handshake.starts y) hk
    rw [Handshake.starts_spawns hphase] at htotal
    dsimp only [State.flagged]
    rw [total_cons, starts_pushed]
    omega
  | answers k x read answer handshake rest hk hphase => exact h.goes hk (fun _ => rfl) hrfl rfl rfl
  | keeps k x read now given handshake rest hk hphase =>
    have hturn := hok _ hk
    rw [State.Turn, hphase] at hturn
    have hdown : (s.pools x).refilling = false := hturn.1
    have hflag : ∀ y, ((s.refilled x handshake.listener given now).pools y).refilling = (s.pools y).refilling := by
      intro y
      rw [refilling_refilled]
      split
      · rename_i heq
        rw [heq]
        exact hdown.symm
      · rfl
    exact h.goes hk (fun _ => rfl) hflag rfl rfl
  | pops k x read handshake rest hk hphase =>
    refine h.goes hk (fun _ => starts_pushed ..) (fun y => refilling_took s x y _ _) ?_ rfl
    dsimp only [State.took]
    split <;> rfl
  | lost j ask rest hj =>
    refine h.frame (fun x => ?_) (fun _ => Nat.le_refl _) hrfl
    rw [total_of_pick (Ask.on x) hj]
    exact Nat.le_add_left _ _
  | upgrades j ask rest hj => exact h.frame (fun x => total_becomes_le hj (Nat.le_refl _)) (fun _ => Nat.le_refl _) hrfl
  | answersBehind j answer ask rest hj =>
    exact h.frame (fun x => total_becomes_le hj (Nat.le_refl _)) (fun _ => Nat.le_refl _) hrfl
  | keepsBehind j now given ask rest hj hphase =>
    refine h.lowered (refilling_refilled s ask.surface · ask.listener given now) fun y => ?_
    have htotal := total_of_pick (Ask.on y) hj
    have hask : Ask.on y ask = if ask.surface = y then 1 else 0 := rfl
    dsimp only [State.refilled]
    omega

/-- What is kept where a handshake asks itself was not too old as it read the clock: its look left none that was. -/
def Young (s : State) : Prop :=
  ∀ h ∈ s.handshakes, ∀ asked ∈ h.phase.asking, ∀ one ∈ keptOf s.pools asked.1 h.listener, asked.2 - one.2 < keptFor

theorem begins_young (h : Begins s) : Young s := by
  obtain ⟨clock, rfl⟩ := h
  exact fun _ hin => nomatch hin

theorem asking_pushed (h : Handshake) (x : Nat) (nonce : Option Bytes) : (h.pushed x nonce).phase.asking = none := by
  cases nonce <;> rfl

theorem listener_pushed (h : Handshake) (x : Nat) (nonce : Option Bytes) : (h.pushed x nonce).listener = h.listener := by
  cases nonce <;> rfl

theorem listener_found (h : Handshake) (x read : Nat) (reached low : Bool) (nonce : Option Bytes) :
    (h.found x read reached low nonce).listener = h.listener := by
  cases nonce with
  | none => cases reached <;> rfl
  | some nonce => cases low <;> rfl

/-- A handshake that asks itself found none to take. -/
theorem asking_found {h : Handshake} {x read : Nat} {reached low : Bool} {nonce : Option Bytes} {asked : Nat × Nat}
    (hasked : asked ∈ (h.found x read reached low nonce).phase.asking) : nonce = none ∧ asked = (x, read) := by
  cases nonce with
  | none =>
    refine ⟨rfl, ?_⟩
    cases reached with
    | true => exact (Option.some.inj hasked).symm
    | false => cases hasked
  | some nonce =>
    cases low with
    | true => cases hasked
    | false => cases hasked

/-- Less is kept, and no handshake asks that did not. -/
theorem Young.frame (h : Young s) (hsub : ∀ x listener, (keptOf s'.pools x listener).Sublist (keptOf s.pools x listener))
    (hasking : ∀ other ∈ s'.handshakes, ∀ asked ∈ other.phase.asking, ∃ was ∈ s.handshakes,
      was.listener = other.listener ∧ asked ∈ was.phase.asking) : Young s' := by
  intro other hother asked hasked one hone
  obtain ⟨was, hwas, hlistener, hmem⟩ := hasking other hother asked hasked
  exact h was hwas asked hmem one ((hsub asked.1 was.listener).subset (hlistener ▸ hone))

/-- A handshake goes on, and asks itself only where it did. -/
theorem Young.goes (h : Young s) {k : Nat} {handshake handshake' : Handshake} {rest : List Handshake}
    (hhandshakes : s'.handshakes = handshake' :: rest) (hk : pick s.handshakes k = some (handshake, rest))
    (hlistener : handshake'.listener = handshake.listener)
    (hasking : ∀ asked ∈ handshake'.phase.asking, asked ∈ handshake.phase.asking)
    (hsub : ∀ x listener, (keptOf s'.pools x listener).Sublist (keptOf s.pools x listener)) : Young s' := by
  refine h.frame hsub fun other hother asked hasked => ?_
  rw [hhandshakes] at hother
  rcases List.mem_cons.1 hother with rfl | hother
  · exact ⟨handshake, mem_of_pick hk, hlistener.symm, hasking asked hasked⟩
  · exact ⟨other, mem_of_mem_pick hk hother, rfl, hasked⟩

theorem keptOf_took (s : State) (x : Nat) (listener : Bytes) (nonces : List (Bytes × Nat)) (y : Nat) (m : Bytes) :
    keptOf (s.took x listener nonces).pools y m = if y = x ∧ m = listener then nonces.tail else keptOf s.pools y m := by
  cases nonces <;> exact keptOf_put ..

/-- Taking leaves less. -/
theorem sublist_took {x : Nat} {listener : Bytes} {nonces : List (Bytes × Nat)}
    (hsub : nonces.Sublist (keptOf s.pools x listener)) (y : Nat) (m : Bytes) :
    (keptOf (s.took x listener nonces).pools y m).Sublist (keptOf s.pools y m) := by
  rw [keptOf_took]
  split
  · rename_i heq
    rw [heq.1, heq.2]
    exact (List.tail_sublist _).trans hsub
  · exact List.Sublist.refl _

/-- What is kept more was answered in time for every handshake that asks for it. -/
theorem Young.refilled (h : Young s) {x now : Nat} {listener : Bytes} {given : List Bytes}
    (htimely : s.Timely x listener now) : Young (s.refilled x listener given now) := by
  intro other hother asked hasked one hone
  rw [keptOf_refilled] at hone
  split at hone
  · rename_i heq
    rcases List.mem_append.1 hone with hone | hone
    · exact h other hother asked hasked one (by rw [heq.1, heq.2]; exact hone)
    · obtain ⟨nonce, -, rfl⟩ := List.mem_map.1 hone
      exact htimely other hother heq.2 asked hasked heq.1
  · exact h other hother asked hasked one hone

theorem Young.step (h : Young s) (ht : Taken s a s') (hok : InTurn s a) : Young s' := by
  have hsame : ∀ x listener, (keptOf s.pools x listener).Sublist (keptOf s.pools x listener) := fun _ _ => List.Sublist.refl _
  have hflagged (x : Nat) (refilling : Bool) (y : Nat) (m : Bytes) :
      (keptOf (s.flagged x refilling).pools y m).Sublist (keptOf s.pools y m) := by
    rw [keptOf_flagged]
  have hnone {phase : Phase} {asking : Option (Nat × Nat)} (hphase : phase.asking = none) :
      ∀ asked ∈ phase.asking, asked ∈ asking := by
    rw [hphase]
    exact fun _ h => nomatch h
  cases ht with
  | ticks n => exact h
  | surfaced x known => exact h
  | goes x gone => exact h
  | begins listener live =>
    intro other hother asked hasked
    rcases List.mem_cons.1 hother with rfl | hother
    · cases hasked
    · exact h other hother asked hasked
  | binds k ending handshake rest hk hphase => exact h.goes rfl hk rfl (hnone rfl) hsame
  | skips k handshake rest left hk hphase => exact h.goes rfl hk rfl (fun _ h => h) hsame
  | looks k x handshake rest left hk hphase => exact h.goes rfl hk rfl (hnone rfl) hsame
  | reaches k x now reached handshake rest hk hphase => exact h.goes rfl hk rfl (hnone rfl) hsame
  | refused k x now reached handshake rest hk hphase =>
    exact h.goes rfl hk (listener_pushed ..) (hnone (asking_pushed ..)) hsame
  | takes k x now reached low handshake rest hk hphase hrefused =>
    have hsub := sublist_took (s := s) (x := x) (List.filter_sublist (l := (s.pools x).kept handshake.listener)
      (p := fun one => decide (now - one.2 < keptFor)))
    intro other hother asked hasked one hone
    rcases List.mem_cons.1 hother with rfl | hother
    · -- Its look left none, so none is kept.
      obtain ⟨hempty, rfl⟩ := asking_found hasked
      have hretained : (s.pools x).retained handshake.listener now = [] :=
        List.head?_eq_none_iff.1 (Option.map_eq_none_iff.1 hempty)
      dsimp only at hone
      rw [hretained, listener_found, keptOf_took, if_pos ⟨rfl, rfl⟩] at hone
      cases hone
    · exact h other (mem_of_mem_pick hk hother) asked hasked one ((hsub asked.1 other.listener).subset hone)
  | asked k x nonce handshake rest hk hphase => exact h.goes rfl hk (listener_pushed ..) (hnone (asking_pushed ..)) hsame
  | asksBehind k x nonce handshake rest hk hphase hflag => exact h.goes rfl hk rfl (hnone rfl) (hflagged x true)
  | spawns k x nonce handshake rest hk hphase => exact h.goes rfl hk (listener_pushed ..) (hnone (asking_pushed ..)) hsame
  | unstarted k x nonce handshake rest hk hphase =>
    exact h.goes rfl hk (listener_pushed ..) (hnone (asking_pushed ..)) (hflagged x false)
  | answers k x read answer handshake rest hk hphase =>
    exact h.goes rfl hk rfl (fun asked hasked => by rw [hphase]; exact hasked) hsame
  | keeps k x read now given handshake rest hk hphase =>
    have hturn := hok _ hk
    rw [State.Turn, hphase] at hturn
    have hkept : Young (s.refilled x handshake.listener given now) := h.refilled hturn.2
    exact hkept.goes rfl hk rfl (fun asked hasked => by rw [hphase]; exact hasked) fun _ _ => List.Sublist.refl _
  | pops k x read handshake rest hk hphase =>
    exact h.goes rfl hk (listener_pushed ..) (hnone (asking_pushed ..)) (sublist_took (List.Sublist.refl _))
  | lost j ask rest hj => exact h
  | upgrades j ask rest hj => exact h
  | answersBehind j answer ask rest hj => exact h
  | keepsBehind j now given ask rest hj hphase =>
    have hturn := hok _ hj
    rw [State.TurnBehind, hphase] at hturn
    exact h.refilled hturn

/-- None was taken too late. -/
def InTime (s : State) : Prop := ∀ p ∈ s.taken, p.2 < p.1.keptAt + keptFor

/-- What is taken was not too old as the clock was read, and has not turned so since. -/
theorem InTime.took (h : InTime s) {x read : Nat} {listener : Bytes} {nonces : List (Bytes × Nat)}
    (hyoung : ∀ one ∈ nonces, read - one.2 < keptFor) (hlasts : s.Lasts read nonces) :
    InTime (s.took x listener nonces) := by
  cases nonces with
  | nil => exact h
  | cons one nonces =>
    intro p hp
    rcases List.mem_append.1 hp with hp | hp
    · exact h p hp
    · rw [List.mem_singleton.1 hp]
      have hage : s.clock - one.2 < keptFor := hlasts one rfl (hyoung one List.mem_cons_self)
      show s.clock < one.2 + keptFor
      unfold keptFor at hage ⊢
      omega

theorem InTime.step (h : InTime s) (hyoung : Young s) (ht : Taken s a s') (hok : InTurn s a) : InTime s' := by
  cases ht with
  | takes k x now reached low handshake rest hk hphase hrefused =>
    have hlasts := hok _ hk
    rw [State.Turn, hphase] at hlasts
    refine h.took (fun one hone => ?_) (hlasts hrefused)
    exact of_decide_eq_true (List.mem_filter.1 hone).2
  | pops k x read handshake rest hk hphase =>
    have hlasts := hok _ hk
    rw [State.Turn, hphase] at hlasts
    refine h.took (fun one hone => ?_) hlasts
    exact hyoung handshake (mem_of_pick hk) (x, read) (by rw [hphase]; rfl) one hone
  | _ => exact h

/-- No two nonces given being equal, no nonce is bound into two handshakes, and each is one given for the handshake's
listener by the node of the surface at its place.  Where besides a handshake that asked itself keeps what was given while no
ask behind is under way, none of what a handshake takes turns too old between its look at the clock and its take, and none
that was too old at that look is kept while it asks itself, each is bound within the time it is kept, and of each surface
one ask behind at most is under way. -/
theorem bound_once :
    ∀ s, Reach State.step Distinct Begins s →
      (s.handshakes.flatMap Handshake.out).Nodup ∧
      (∀ h ∈ s.handshakes, List.Forall₂ (h.Has s.given) h.nonces h.surfaces) ∧
      (∀ h ∈ s.handshakes, ∀ nonce ∈ h.out, ∃ p ∈ s.taken, p.1 ∈ s.given ∧ p.1.nonce = nonce) ∧
      (Reach State.step Ok Begins s →
        (∀ p ∈ s.taken, p.2 < p.1.keptAt + keptFor) ∧ ∀ x, total (Ask.on x) s.asks ≤ 1) := by
  intro s hs
  have h : Once s := hs.invariant (fun _ => begins_once) fun _ _ _ h hok hstep => h.step (taken_of_step hstep) hok
  refine ⟨h.bindings.out.nodup_iff.2 h.kept.once, fun handshake hin => (h.bindings.own handshake hin).1, ?_, fun hs => ?_⟩
  · intro handshake hin nonce hnonce
    have hmem := h.bindings.out.mem_iff.1 (List.mem_flatMap.2 ⟨handshake, hin, hnonce⟩)
    obtain ⟨p, hp, heq⟩ := List.mem_map.1 hmem
    exact ⟨p, hp, h.kept.logged p hp, heq⟩
  · let inv (s : State) : Prop := Young s ∧ InTime s ∧ One s
    have hbegins : ∀ s, Begins s → inv s := by
      rintro s hbegins
      refine ⟨begins_young hbegins, ?_, begins_one hbegins⟩
      obtain ⟨clock, rfl⟩ := hbegins
      exact fun _ hp => nomatch hp
    have hrun : inv s := hs.invariant hbegins fun _ _ _ h hok hstep =>
      ⟨h.1.step (taken_of_step hstep) hok.2, h.2.1.step h.1 (taken_of_step hstep) hok.2,
        h.2.2.step (taken_of_step hstep) hok.2⟩
    refine ⟨hrun.2.1, fun x => ?_⟩
    exact Nat.le_trans (Nat.le_add_right _ _) (Nat.le_trans (hrun.2.2 x) (Bool.toNat_le _))

/-- A handshake of a surface whose node is not known to answer begins an ask behind. -/
private def asksBehindOne : List Action :=
  [.surfaced 0, .begins [7], .looks 0 false, .reaches 0 false, .takes 0, .asksBehind 0, .spawns 0 true]

/-- Another, its node known to answer meanwhile, asks itself and takes the one given; a third begins another ask behind. -/
private def asksBehindTwo : List Action :=
  asksBehindOne ++ [.begins [7], .looks 0 false, .reaches 0 true, .takes 0, .answers 0 (some [some [1]]), .keeps 0, .pops 0,
    .begins [7], .looks 0 false, .reaches 0 false, .takes 0, .asksBehind 0, .spawns 0 true]

/-- Or the ask behind is kept while the other asks, which takes what it gave eleven seconds later. -/
private def takesLate : List Action :=
  asksBehindOne ++ [.upgrades 0, .answersBehind 0 (some [some [1]]), .begins [7], .looks 0 false, .reaches 0 true, .takes 0,
    .keepsBehind 0, .ticks 11000, .answers 0 (some [some [2]]), .keeps 0, .pops 0]

private def first : State := ⟨0, [], fun _ => false, fun _ => .default, [], [], [], []⟩

theorem asked_twice_and_late :
    (∃ s, Reach State.step Distinct Begins s ∧ decide (2 ≤ total (Ask.on 0) s.asks) = true) ∧
    ∃ s, Reach State.step Distinct Begins s ∧ (s.taken.any fun p => decide (p.1.keptAt + keptFor < p.2)) = true :=
  ⟨Reach.exists_of_runWhere State.step Distinct (show Begins first from ⟨0, rfl⟩) asksBehindTwo
      (fun s => decide (2 ≤ total (Ask.on 0) s.asks)) (by decide),
    Reach.exists_of_runWhere State.step Distinct (show Begins first from ⟨0, rfl⟩) takesLate
      (fun s => s.taken.any fun p => decide (p.1.keptAt + keptFor < p.2)) (by decide)⟩

/-- An ask behind is kept, and the next handshake takes one. -/
private def takesKept : List Action :=
  asksBehindOne ++ [.looks 0 false, .upgrades 0, .answersBehind 0 (some [some [1], none, some [2]]), .keepsBehind 0,
    .begins [7], .looks 0 false, .reaches 0 false, .ticks 9000, .takes 0, .asksBehind 0, .spawns 0 true, .looks 0 false]

theorem kept_taken : ∃ s, Reach State.step Ok Begins s ∧ s.taken.length = 1 ∧ (s.handshakes.flatMap Handshake.out).Nodup ∧
    (∀ p ∈ s.taken, p.2 < p.1.keptAt + keptFor) ∧ ∀ x, total (Ask.on x) s.asks ≤ 1 := by
  obtain ⟨s, hs, htaken⟩ := Reach.exists_of_runWhere State.step Ok (show Begins first from ⟨0, rfl⟩) takesKept
    (fun s => s.taken.length == 1) (by decide)
  obtain ⟨honce, -, -, hin⟩ := bound_once s (hs.mono fun _ _ hok => hok.1)
  exact ⟨s, hs, beq_iff_eq.1 htaken, honce, hin hs⟩

end Bound
