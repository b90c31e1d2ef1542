import Mathlib.Logic.Function.Basic
import XmipRuntime.Library.Pick
import XmipRuntime.Library.Run
import XmipRuntime.SendStep.State

/-!
# The claims of many nodes

A Message is sent under a claim on its Journey in Xmip Storage: taken by a scan, a Publication or a pick-up, renewed every
third of a lease by the node's one renewing thread, and ended by the pass's own hand-on or release
(`src/send_step/renewal.rs`, `src/send_step/scan.rs`, `src/held_work.rs`, `src/send_step/dispatch.rs`).  Between any two of
these another node, an operator's act or time may come.

Of Xmip Storage this is relied on: it grants a claim only where none is live on the Journey, ends one only under its own
token or once its lease is over, counts a lease from when it answers, and renews only what is still held.  One clock runs for
all; a node reads it before it asks and when it is answered.  The places of the Send pool are not kept here.
-/

namespace Claiming

open Library SendStep

/-! ### Xmip Storage -/

/-- A claim as Xmip Storage keeps it. -/
structure Live where
  token : Nat
  node : Nat
  heldUntil : Nat
  deriving DecidableEq

structure Storage where
  live : Table Nat Live
  /-- The claims whose lease was over. -/
  lapsed : List Nat
  /-- The claims ended under their own token. -/
  ended : List Nat

namespace Storage

/-- Whether the claim `token` on the Journey `id` is live. -/
def Held (s : Storage) (id token : Nat) : Prop := (s.live.get id).any (fun l => l.token = token) = true

instance (s : Storage) (id token : Nat) : Decidable (s.Held id token) :=
  inferInstanceAs (Decidable ((s.live.get id).any (fun l => l.token = token) = true))

/-- A claim asked: granted where no live one is. -/
def claim (s : Storage) (id : Nat) (l : Live) : Bool × Storage :=
  if s.live.get id = none then (true, { s with live := s.live.put id l }) else (false, s)

/-- A hand-on or a release under `token`: the claim ended, where it is still held. -/
def finish (s : Storage) (id token : Nat) : Bool × Storage :=
  if s.Held id token then (true, { s with live := s.live.drop id, ended := token :: s.ended }) else (false, s)

/-- The claim `token` held until `t` at least, where it is held. -/
def prolong (t : Nat) (live : Table Nat Live) (id token : Nat) : Table Nat Live :=
  match live.get id with
  | some l => if l.token = token then live.put id { l with heldUntil := max l.heldUntil t } else live
  | none => live

/-- A hand-on that keeps its claim. -/
def keep (s : Storage) (id token t : Nat) : Bool × Storage :=
  (decide (s.Held id token), { s with live := prolong t s.live id token })

/-- One request for many claims: those still held, each held until `t` now. -/
def renew (s : Storage) (claims : List Claim) (t : Nat) : List Claim × Storage :=
  (claims.filter fun claim => s.Held claim.journey claim.token,
    { s with live := claims.foldl (fun live claim => prolong t live claim.journey claim.token) s.live })

/-- The lease of the claim on the Journey `id` over. -/
def lapse (s : Storage) (id now : Nat) : Option Storage :=
  match s.live.get id with
  | some l => if l.heldUntil ≤ now then some { s with live := s.live.drop id, lapsed := l.token :: s.lapsed } else none
  | none => none

end Storage

/-! ### What is under way -/

inductive Kind where
  | scan
  | publication
  | pickUp
  /-- An operator's, or another step's. -/
  | act
  deriving DecidableEq

inductive Stage where
  | asked
  | granted
  | refused
  /-- A pick-up's move asked, which keeps its claim. -/
  | moving
  | moved
  deriving DecidableEq

/-- A claim asked for and not yet owned, `asked` when its last request was made. -/
structure Request where
  node : Nat
  id : Nat
  kind : Kind
  token : Nat
  asked : Nat
  stage : Stage
  deriving DecidableEq

/-- A Message owned, on a send thread or on the way to one; once its pass ended, whether its own write ended its claim. -/
structure Pass where
  node : Nat
  departure : Departure
  ended : Option Bool
  deriving DecidableEq

/-- A renewing thread's round: when it asked, once it has read the clock after it cloned the claims, those of them whose
answer is not yet kept, and what was answered, nothing where Xmip Storage did not answer. -/
structure Round where
  asked : Option Nat
  left : List Claim
  answer : Option (Option (List Claim))
  deriving DecidableEq

structure Sys where
  now : Nat
  storage : Storage
  minted : Nat
  steps : Nat → State
  /-- What a scan of a node found and marked. -/
  takers : List (Nat × Nat)
  requests : List Request
  passes : List Pass
  rounds : Nat → Option Round
  /-- The claims a renewal found another's, each said once. -/
  marked : List Nat

inductive Action where
  | tick
  | lapse (id : Nat)
  | read (node id queue place : Nat)
  | asks (i : Nat)
  | begins (node id : Nat) (kind : Kind)
  | grants (i : Nat)
  | moving (i : Nat)
  | moves (i : Nat)
  | owns (i : Nat) (journey : Ledger.Journey) (port : String) (queue fence : Nat)
  /-- A request given up, or an act written; `reaches`, whether its hand-on or release reaches Xmip Storage. -/
  | gives (i : Nat) (reaches : Bool)
  /-- A pass ends, with a hand-on or a release that reaches Xmip Storage or without. -/
  | ends (i : Nat) (reaches : Bool)
  | settles (i : Nat) (ended : Ended)
  /-- The claims in flight cloned. -/
  | clones (node : Nat)
  /-- The clock read, and the claims asked to be renewed. -/
  | round (node : Nat)
  /-- A round's request answered by Xmip Storage; `arrives`, whether the node has the answer. -/
  | renews (node : Nat) (arrives : Bool)
  | unanswered (node : Nat)
  | applies (node : Nat)

/-- The answer for `claim`, of what its round was answered. -/
def answerFor (answer : Option (List Claim)) (claim : Claim) : Renewed :=
  match answer with
  | some held => (heldAs held claim).elim .lost .held
  | none => .unanswered

/-- Whether `answer` marks `claim` lost, and says so. -/
def marks (step : State) (claim : Claim) (answer : Renewed) : Bool :=
  decide (answer = .lost) &&
    (step.owned.get claim.journey).any fun owned => decide (owned.claim.token = claim.token) && !owned.standing.lost

/-- Whether what `r` claimed is the send step's now. -/
def Request.ready (r : Request) : Bool :=
  match r.kind with
  | .scan | .publication => decide (r.stage = .granted)
  | .pickUp => decide (r.stage = .moved)
  | .act => false

/-- What is owned of a request's. -/
def owning (r : Request) (departure : Departure) (step : State) : State :=
  match r.kind with
  | .publication => { step with owned := step.owned.put departure.id (.of departure) }
  | _ => step.own departure.id (.of departure)

/-- What becomes of a request that is given up: a scan's mark is taken back. -/
def givenBack (r : Request) (step : State) : State := if r.kind = .scan then step.untake r.id else step

variable (c : Nat → Settings)

/-- The departure a request granted goes on as. -/
def Request.departure (r : Request) (journey : Ledger.Journey) (port : String) (queue fence : Nat) : Departure :=
  ⟨r.id, journey, port, queue, ⟨r.id, r.node, r.token, fence⟩, r.asked + (c r.node).lease⟩

namespace Sys

/-- The send step of `node` changed. -/
def stepped (s : Sys) (node : Nat) (f : State → State) : Nat → State := Function.update s.steps node (f (s.steps node))

/-- A claim's request, from the scan's mark to the send step's. -/
def claims (s : Sys) : Action → Option Sys
  | .read node id queue place =>
    if (s.steps node).known queue id place then none
    else some { s with steps := s.stepped node (·.mark id), takers := s.takers ++ [(node, id)] }
  | .asks i => do
    let (taker, rest) ← pick s.takers i
    some { s with
      minted := s.minted + 1
      takers := rest
      requests := s.requests ++ [⟨taker.1, taker.2, .scan, s.minted, s.now, .asked⟩] }
  | .begins node id kind =>
    if kind = .scan then none
    else some { s with minted := s.minted + 1, requests := s.requests ++ [⟨node, id, kind, s.minted, s.now, .asked⟩] }
  | .grants i => do
    let (r, rest) ← pick s.requests i
    if r.stage = .asked then
      let (granted, storage) := s.storage.claim r.id ⟨r.token, r.node, s.now + (c r.node).lease⟩
      some { s with storage, requests := rest ++ [{ r with stage := if granted then .granted else .refused }] }
    else none
  | .moving i => do
    let (r, rest) ← pick s.requests i
    if r.kind = .pickUp ∧ r.stage = .granted then
      some { s with requests := rest ++ [{ r with asked := s.now, stage := .moving }] }
    else none
  | .moves i => do
    let (r, rest) ← pick s.requests i
    if r.stage = .moving then
      let (moved, storage) := s.storage.keep r.id r.token (s.now + (c r.node).lease)
      some { s with storage, requests := rest ++ [{ r with stage := if moved then .moved else .refused }] }
    else none
  | .owns i journey port queue fence => do
    let (r, rest) ← pick s.requests i
    let departure := r.departure c journey port queue fence
    if r.ready then
      some { s with
        steps := s.stepped r.node (owning r departure)
        requests := rest
        passes := s.passes ++ [⟨r.node, departure, none⟩] }
    else none
  | .gives i reaches => do
    let (r, rest) ← pick s.requests i
    some { s with
      storage := if reaches then (s.storage.finish r.id r.token).2 else s.storage
      steps := s.stepped r.node (givenBack r)
      requests := rest }
  | _ => none

/-- A pass, from its last write to its settling. -/
def sends (s : Sys) : Action → Option Sys
  | .ends i reaches => do
    let (p, rest) ← pick s.passes i
    let (finished, storage) :=
      if reaches then s.storage.finish p.departure.id p.departure.claim.token else (false, s.storage)
    some { s with storage, passes := rest ++ [{ p with ended := some (finished || p.ended = some true) }] }
  | .settles i ended => do
    let (p, rest) ← pick s.passes i
    if p.ended.isSome then
      some { s with steps := s.stepped p.node (·.settle p.departure s.now ended), passes := rest }
    else none
  | _ => none

/-- A round of a node's renewing thread. -/
def renewing (s : Sys) : Action → Option Sys
  | .clones node =>
    if s.rounds node = none ∧ (s.steps node).flying ≠ [] then
      some { s with rounds := Function.update s.rounds node (some ⟨none, (s.steps node).flying, none⟩) }
    else none
  | .round node => do
    let round ← s.rounds node
    if round.asked = none ∧ round.answer = none then
      some { s with rounds := Function.update s.rounds node (some { round with asked := some s.now }) }
    else none
  | .renews node arrives => do
    let round ← s.rounds node
    if round.asked.isSome ∧ round.answer = none then
      let (held, storage) := s.storage.renew round.left (s.now + (c node).lease)
      let answer := some (if arrives then some held else none)
      some { s with storage, rounds := Function.update s.rounds node (some { round with answer }) }
    else none
  | .unanswered node => do
    let round ← s.rounds node
    if round.asked.isSome ∧ round.answer = none then
      some { s with rounds := Function.update s.rounds node (some { round with answer := some none }) }
    else none
  | .applies node => do
    let round ← s.rounds node
    let asked ← round.asked
    let answer ← round.answer
    match round.left with
    | [] => some { s with rounds := Function.update s.rounds node none }
    | claim :: left =>
      let renewed := answerFor answer claim
      some { s with
        steps := s.stepped node fun step => step.renewed (c node) claim asked s.now renewed
        rounds := Function.update s.rounds node (some { round with left })
        marked := if marks (s.steps node) claim renewed then claim.token :: s.marked else s.marked }
  | _ => none

def step (s : Sys) (a : Action) : Option Sys :=
  match a with
  | .tick => some { s with now := s.now + 1 }
  | .lapse id => (s.storage.lapse id s.now).map fun storage => { s with storage }
  | .read .. | .asks .. | .begins .. | .grants .. | .moving .. | .moves .. | .owns .. | .gives .. => s.claims c a
  | .ends .. | .settles .. => s.sends a
  | .clones .. | .round .. | .renews .. | .unanswered .. | .applies .. => s.renewing c a

/-- No claim asked for yet. -/
def starting (served : Nat → List Nat) : Sys :=
  ⟨0, ⟨.empty, [], []⟩, 0, fun node => .starting (served node), [], [], [], fun _ => none, []⟩

def Starts (s : Sys) : Prop := ∃ served, s = starting served

end Sys

/-! ### What one step does -/

/-- What the token of a pass's claim is. -/
def Pass.token (p : Pass) : Nat := p.departure.claim.token

variable {c}

namespace Sys

/-- Every step of the machine, once. -/
inductive Taken (c : Nat → Settings) (s : Sys) : Action → Sys → Prop where
  | tick : Taken c s .tick { s with now := s.now + 1 }
  | lapse {id : Nat} {storage : Storage} (h : s.storage.lapse id s.now = some storage) :
      Taken c s (.lapse id) { s with storage }
  | read {node id queue place : Nat} (h : (s.steps node).known queue id place = false) :
      Taken c s (.read node id queue place)
        { s with steps := s.stepped node (·.mark id), takers := s.takers ++ [(node, id)] }
  | asks {a : Action} (node id : Nat) (kind : Kind) (takers : List (Nat × Nat))
      (h : (∃ i, a = .asks i) ∨ a = .begins node id kind) :
      Taken c s a { s with
        minted := s.minted + 1, takers := takers
        requests := s.requests ++ [⟨node, id, kind, s.minted, s.now, .asked⟩] }
  | grants {i : Nat} {r : Request} {rest : List Request} {granted : Bool} {storage : Storage}
      (h : pick s.requests i = some (r, rest)) (hstage : r.stage = .asked)
      (hclaim : s.storage.claim r.id ⟨r.token, r.node, s.now + (c r.node).lease⟩ = (granted, storage)) :
      Taken c s (.grants i)
        { s with storage, requests := rest ++ [{ r with stage := if granted then .granted else .refused }] }
  | moving {i : Nat} {r : Request} {rest : List Request} (h : pick s.requests i = some (r, rest))
      (hstage : r.stage = .granted) :
      Taken c s (.moving i) { s with requests := rest ++ [{ r with asked := s.now, stage := .moving }] }
  | moves {i : Nat} {r : Request} {rest : List Request} {moved : Bool} {storage : Storage}
      (h : pick s.requests i = some (r, rest)) (hstage : r.stage = .moving)
      (hkeep : s.storage.keep r.id r.token (s.now + (c r.node).lease) = (moved, storage)) :
      Taken c s (.moves i)
        { s with storage, requests := rest ++ [{ r with stage := if moved then .moved else .refused }] }
  | owns {i : Nat} {r : Request} {rest : List Request} {journey : Ledger.Journey} {port : String} {queue fence : Nat}
      (h : pick s.requests i = some (r, rest)) (hready : r.ready = true) :
      Taken c s (.owns i journey port queue fence) { s with
        steps := s.stepped r.node (owning r (r.departure c journey port queue fence))
        requests := rest
        passes := s.passes ++ [⟨r.node, r.departure c journey port queue fence, none⟩] }
  | gives {i : Nat} {reaches : Bool} {r : Request} {rest : List Request} (h : pick s.requests i = some (r, rest)) :
      Taken c s (.gives i reaches) { s with
        storage := if reaches then (s.storage.finish r.id r.token).2 else s.storage
        steps := s.stepped r.node (givenBack r)
        requests := rest }
  | ends {i : Nat} {p : Pass} {rest : List Pass} {finished : Bool} {storage : Storage}
      (h : pick s.passes i = some (p, rest)) (hfinish : s.storage.finish p.departure.id p.token = (finished, storage)) :
      Taken c s (.ends i true)
        { s with storage, passes := rest ++ [{ p with ended := some (finished || p.ended = some true) }] }
  | stops {i : Nat} {p : Pass} {rest : List Pass} (h : pick s.passes i = some (p, rest)) :
      Taken c s (.ends i false) { s with passes := rest ++ [{ p with ended := some (p.ended = some true) }] }
  | settles {i : Nat} {ended : Ended} {p : Pass} {rest : List Pass} (h : pick s.passes i = some (p, rest))
      (hended : p.ended.isSome = true) :
      Taken c s (.settles i ended)
        { s with steps := s.stepped p.node (·.settle p.departure s.now ended), passes := rest }
  | clones {node : Nat} (h : s.rounds node = none) :
      Taken c s (.clones node)
        { s with rounds := Function.update s.rounds node (some ⟨none, (s.steps node).flying, none⟩) }
  | round {node : Nat} {round : Round} (h : s.rounds node = some round) (hanswer : round.answer = none) :
      Taken c s (.round node)
        { s with rounds := Function.update s.rounds node (some { round with asked := some s.now }) }
  | renews {node : Nat} {arrives : Bool} {round : Round} {held : List Claim} {storage : Storage}
      (h : s.rounds node = some round) (hasked : round.asked.isSome = true) (hanswer : round.answer = none)
      (hrenew : s.storage.renew round.left (s.now + (c node).lease) = (held, storage)) :
      Taken c s (.renews node arrives) { s with
        storage
        rounds := Function.update s.rounds node
          (some { round with answer := some (if arrives then some held else none) }) }
  | unanswered {node : Nat} {round : Round} (h : s.rounds node = some round) (hanswer : round.answer = none) :
      Taken c s (.unanswered node)
        { s with rounds := Function.update s.rounds node (some { round with answer := some none }) }
  | applied {node : Nat} : Taken c s (.applies node) { s with rounds := Function.update s.rounds node none }
  | applies {node : Nat} {round : Round} {asked : Nat} {answer : Option (List Claim)} {claim : Claim} {left : List Claim}
      (h : s.rounds node = some round) (hasked : round.asked = some asked) (hanswer : round.answer = some answer)
      (hleft : round.left = claim :: left) :
      Taken c s (.applies node) { s with
        steps := s.stepped node fun step => step.renewed (c node) claim asked s.now (answerFor answer claim)
        rounds := Function.update s.rounds node (some { round with left })
        marked := if marks (s.steps node) claim (answerFor answer claim) then claim.token :: s.marked else s.marked }

theorem taken_of_claims {s s' : Sys} {a : Action} (h : s.claims c a = some s') : s.Taken c a s' := by
  cases a with
  | read node id queue place =>
    simp only [claims, Option.ite_none_left_eq_some, Option.some.injEq] at h
    obtain ⟨hk, rfl⟩ := h
    exact .read (by simpa using hk)
  | asks i =>
    obtain ⟨⟨taker, rest⟩, hp, h⟩ := Option.bind_eq_some_iff.1 h
    obtain rfl := Option.some.inj h
    exact .asks taker.1 taker.2 .scan rest (.inl ⟨i, rfl⟩)
  | begins node id kind =>
    simp only [claims, Option.ite_none_left_eq_some, Option.some.injEq] at h
    obtain ⟨-, rfl⟩ := h
    exact .asks node id kind s.takers (.inr rfl)
  | grants i =>
    obtain ⟨⟨r, rest⟩, hp, h⟩ := Option.bind_eq_some_iff.1 h
    obtain ⟨hstage, h⟩ := Option.ite_none_right_eq_some.1 h
    obtain rfl := Option.some.inj h
    exact .grants hp hstage rfl
  | moving i =>
    obtain ⟨⟨r, rest⟩, hp, h⟩ := Option.bind_eq_some_iff.1 h
    obtain ⟨hstage, h⟩ := Option.ite_none_right_eq_some.1 h
    obtain rfl := Option.some.inj h
    exact .moving hp hstage.2
  | moves i =>
    obtain ⟨⟨r, rest⟩, hp, h⟩ := Option.bind_eq_some_iff.1 h
    obtain ⟨hstage, h⟩ := Option.ite_none_right_eq_some.1 h
    obtain rfl := Option.some.inj h
    exact .moves hp hstage rfl
  | owns i journey port queue fence =>
    obtain ⟨⟨r, rest⟩, hp, h⟩ := Option.bind_eq_some_iff.1 h
    obtain ⟨hready, h⟩ := Option.ite_none_right_eq_some.1 h
    obtain rfl := Option.some.inj h
    exact .owns hp hready
  | gives i reaches =>
    obtain ⟨⟨r, rest⟩, hp, h⟩ := Option.bind_eq_some_iff.1 h
    obtain rfl := Option.some.inj h
    exact .gives hp
  | _ => cases h

theorem taken_of_sends {s s' : Sys} {a : Action} (h : s.sends a = some s') : s.Taken c a s' := by
  cases a with
  | ends i reaches =>
    obtain ⟨⟨p, rest⟩, hp, h⟩ := Option.bind_eq_some_iff.1 h
    obtain rfl := Option.some.inj h
    cases reaches with
    | true => exact .ends hp rfl
    | false => exact .stops hp
  | settles i ended =>
    obtain ⟨⟨p, rest⟩, hp, h⟩ := Option.bind_eq_some_iff.1 h
    obtain ⟨hended, h⟩ := Option.ite_none_right_eq_some.1 h
    obtain rfl := Option.some.inj h
    exact .settles hp hended
  | _ => cases h

theorem taken_of_renewing {s s' : Sys} {a : Action} (h : s.renewing c a = some s') : s.Taken c a s' := by
  cases a with
  | clones node =>
    obtain ⟨hnone, h⟩ := Option.ite_none_right_eq_some.1 h
    obtain rfl := Option.some.inj h
    exact .clones hnone.1
  | round node =>
    obtain ⟨round, hround, h⟩ := Option.bind_eq_some_iff.1 h
    obtain ⟨hasked, h⟩ := Option.ite_none_right_eq_some.1 h
    obtain rfl := Option.some.inj h
    exact .round hround hasked.2
  | renews node arrives =>
    obtain ⟨round, hround, h⟩ := Option.bind_eq_some_iff.1 h
    obtain ⟨hanswer, h⟩ := Option.ite_none_right_eq_some.1 h
    obtain rfl := Option.some.inj h
    exact .renews hround hanswer.1 hanswer.2 rfl
  | unanswered node =>
    obtain ⟨round, hround, h⟩ := Option.bind_eq_some_iff.1 h
    obtain ⟨hanswer, h⟩ := Option.ite_none_right_eq_some.1 h
    obtain rfl := Option.some.inj h
    exact .unanswered hround hanswer.2
  | applies node =>
    obtain ⟨round, hround, h⟩ := Option.bind_eq_some_iff.1 h
    obtain ⟨asked, hasked, h⟩ := Option.bind_eq_some_iff.1 h
    obtain ⟨answer, hanswer, h⟩ := Option.bind_eq_some_iff.1 h
    split at h
    · obtain rfl := Option.some.inj h
      exact .applied
    · rename_i claim left hleft
      obtain rfl := Option.some.inj h
      exact .applies hround hasked hanswer hleft
  | _ => cases h

theorem taken_of_step {s s' : Sys} {a : Action} (h : s.step c a = some s') : s.Taken c a s' := by
  unfold step at h
  split at h
  case h_1 =>
    obtain rfl := Option.some.inj h
    exact .tick
  case h_2 =>
    obtain ⟨storage, hstorage, rfl⟩ := Option.map_eq_some_iff.1 h
    exact .lapse hstorage
  all_goals first | exact taken_of_claims h | exact taken_of_sends h | exact taken_of_renewing h

end Sys

/-! ### What becomes of a claim -/

namespace Storage

variable {s s' s'' : Storage} {now now' now'' id token t : Nat}

theorem held_iff : s.Held id token ↔ ∃ l, s.live.get id = some l ∧ l.token = token := by
  simp [Held, Option.any_eq_true]

/-- Nothing is forgotten, and a live claim stays live as long as it was held for, or ends. -/
structure Goes (s : Storage) (now : Nat) (s' : Storage) (now' : Nat) : Prop where
  time : now ≤ now'
  lapsed : ∀ t ∈ s.lapsed, t ∈ s'.lapsed
  ended : ∀ t ∈ s.ended, t ∈ s'.ended
  live : ∀ id l, s.live.get id = some l →
    (∃ l', s'.live.get id = some l' ∧ l'.token = l.token ∧ l.heldUntil ≤ l'.heldUntil) ∨
      (l.token ∈ s'.lapsed ∧ l.heldUntil ≤ now') ∨ l.token ∈ s'.ended

theorem Goes.of_time (h : now ≤ now') : s.Goes now s now' :=
  ⟨h, fun _ => id, fun _ => id, fun _ l hl => .inl ⟨l, hl, rfl, Nat.le_refl _⟩⟩

theorem goes_of_claim {l : Live} {granted : Bool} (h : s.claim id l = (granted, s')) : s.Goes now s' now := by
  unfold claim at h
  split at h
  · rename_i hnone
    obtain ⟨-, rfl⟩ := Prod.mk.inj h
    refine ⟨Nat.le_refl _, fun _ => fun h => h, fun _ => fun h => h, fun id' l' hl' => .inl ⟨l', ?_, rfl, Nat.le_refl _⟩⟩
    have hne : id' ≠ id := by
      rintro rfl
      rw [hnone] at hl'
      cases hl'
    exact (Table.get_put_of_ne _ hne _).trans hl'
  · obtain ⟨-, rfl⟩ := Prod.mk.inj h
    exact .of_time (Nat.le_refl _)

/-- What a hand-on or a release that reaches Xmip Storage comes to. -/
theorem finish_cases {finished : Bool} (h : s.finish id token = (finished, s')) :
    (finished = true ∧ s.Held id token ∧ s' = { s with live := s.live.drop id, ended := token :: s.ended }) ∨
      finished = false ∧ s' = s := by
  unfold finish at h
  split at h
  · rename_i hheld
    obtain ⟨rfl, rfl⟩ := Prod.mk.inj h
    exact .inl ⟨rfl, hheld, rfl⟩
  · obtain ⟨rfl, rfl⟩ := Prod.mk.inj h
    exact .inr ⟨rfl, rfl⟩

theorem goes_of_finish {finished : Bool} (h : s.finish id token = (finished, s')) : s.Goes now s' now := by
  rcases finish_cases h with ⟨-, hheld, rfl⟩ | ⟨-, rfl⟩
  · refine ⟨Nat.le_refl _, fun _ => fun h => h, fun _ => List.mem_cons_of_mem _, fun id' l hl => ?_⟩
    by_cases hid : id' = id
    · subst hid
      obtain ⟨l', hl', rfl⟩ := held_iff.1 hheld
      obtain rfl := Option.some.inj (hl.symm.trans hl')
      exact .inr (.inr (List.mem_cons_self ..))
    · exact .inl ⟨l, (Table.get_drop_of_ne _ hid).trans hl, rfl, Nat.le_refl _⟩
  · exact .of_time (Nat.le_refl _)

theorem get_prolong (t id token : Nat) {live : Table Nat Live} {id' : Nat} {l : Live} (h : live.get id' = some l) :
    ∃ l', (prolong t live id token).get id' = some l' ∧ l'.token = l.token ∧ l'.node = l.node ∧ l.heldUntil ≤ l'.heldUntil ∧
      (id' = id → l.token = token → t ≤ l'.heldUntil) := by
  unfold prolong
  by_cases hid : id' = id
  · subst hid
    rw [h]
    dsimp only
    split
    · exact ⟨_, Table.get_put_self .., rfl, rfl, Nat.le_max_left .., fun _ _ => Nat.le_max_right ..⟩
    · rename_i hne
      exact ⟨l, h, rfl, rfl, Nat.le_refl _, fun _ he => absurd he hne⟩
  · refine ⟨l, ?_, rfl, rfl, Nat.le_refl _, fun he => absurd he hid⟩
    split
    · split
      · exact (Table.get_put_of_ne _ hid _).trans h
      · exact h
    · exact h

theorem get_prolongs (t : Nat) {live : Table Nat Live} {l : Live} (claims : List Claim) (h : live.get id = some l) :
    ∃ l', (claims.foldl (fun live claim => prolong t live claim.journey claim.token) live).get id = some l' ∧
      l'.token = l.token ∧ l'.node = l.node ∧ l.heldUntil ≤ l'.heldUntil ∧
      ((∃ claim ∈ claims, claim.journey = id ∧ claim.token = l.token) → t ≤ l'.heldUntil) := by
  induction claims generalizing live l with
  | nil => exact ⟨l, h, rfl, rfl, Nat.le_refl _, by simp⟩
  | cons claim claims ih =>
    obtain ⟨l₁, h₁, htoken₁, hnode₁, hle₁, hmax₁⟩ := get_prolong t claim.journey claim.token h
    obtain ⟨l₂, h₂, htoken₂, hnode₂, hle₂, hmax₂⟩ := ih h₁
    refine ⟨l₂, h₂, htoken₂.trans htoken₁, hnode₂.trans hnode₁, Nat.le_trans hle₁ hle₂, ?_⟩
    rintro ⟨claim', hmem, hid, htoken⟩
    rcases List.mem_cons.1 hmem with rfl | hmem
    · exact Nat.le_trans (hmax₁ hid.symm htoken.symm) hle₂
    · exact hmax₂ ⟨claim', hmem, hid, htoken.trans htoken₁.symm⟩

theorem goes_of_keep {kept : Bool} (h : s.keep id token t = (kept, s')) : s.Goes now s' now := by
  obtain ⟨-, rfl⟩ := Prod.mk.inj h
  refine ⟨Nat.le_refl _, fun _ => fun h => h, fun _ => fun h => h, fun id' l hl => ?_⟩
  obtain ⟨l', hl', htoken, -, hle, -⟩ := get_prolong t id token hl
  exact .inl ⟨l', hl', htoken, hle⟩

theorem goes_of_renew {claims held : List Claim} (h : s.renew claims t = (held, s')) : s.Goes now s' now := by
  obtain ⟨-, rfl⟩ := Prod.mk.inj h
  refine ⟨Nat.le_refl _, fun _ => fun h => h, fun _ => fun h => h, fun id' l hl => ?_⟩
  obtain ⟨l', hl', htoken, -, hle, -⟩ := get_prolongs t claims hl
  exact .inl ⟨l', hl', htoken, hle⟩

theorem lapse_eq (h : s.lapse id now = some s') : ∃ l, s.live.get id = some l ∧ l.heldUntil ≤ now ∧
    s' = { s with live := s.live.drop id, lapsed := l.token :: s.lapsed } := by
  unfold lapse at h
  split at h
  · rename_i l hl
    obtain ⟨hle, h⟩ := Option.ite_none_right_eq_some.1 h
    exact ⟨l, hl, hle, (Option.some.inj h).symm⟩
  · cases h

theorem goes_of_lapse (h : s.lapse id now = some s') : s.Goes now s' now := by
  obtain ⟨l, hl, hle, rfl⟩ := lapse_eq h
  refine ⟨Nat.le_refl _, fun _ => List.mem_cons_of_mem _, fun _ => fun h => h, fun id' l' hl' => ?_⟩
  by_cases hid : id' = id
  · subst hid
    obtain rfl := Option.some.inj (hl.symm.trans hl')
    exact .inr (.inl ⟨List.mem_cons_self .., hle⟩)
  · exact .inl ⟨l', (Table.get_drop_of_ne _ hid).trans hl', rfl, Nat.le_refl _⟩

/-- The claim `token` was granted on the Journey `id`: it is live, or its lease was over, or its own holder ended it. -/
def Once (s : Storage) (id token : Nat) : Prop :=
  (∃ l, s.live.get id = some l ∧ l.token = token) ∨ token ∈ s.lapsed ∨ token ∈ s.ended

theorem Once.goes (h : s.Once id token) (hgoes : s.Goes now s' now') : s'.Once id token := by
  rcases h with ⟨l, hl, rfl⟩ | h | h
  · rcases hgoes.live id l hl with ⟨l', hl', htoken, -⟩ | ⟨h, -⟩ | h
    · exact .inl ⟨l', hl', htoken⟩
    · exact .inr (.inl h)
    · exact .inr (.inr h)
  · exact .inr (.inl (hgoes.lapsed _ h))
  · exact .inr (.inr (hgoes.ended _ h))

end Storage

namespace Sys

theorem Taken.goes {s s' : Sys} {a : Action} (h : s.Taken c a s') : s.storage.Goes s.now s'.storage s'.now := by
  cases h with
  | tick => exact .of_time (Nat.le_succ _)
  | lapse h => exact Storage.goes_of_lapse h
  | grants _ _ hclaim => exact Storage.goes_of_claim hclaim
  | moves _ _ hkeep => exact Storage.goes_of_keep hkeep
  | @gives i reaches r rest h =>
    cases reaches with
    | true => exact Storage.goes_of_finish (Prod.eta _).symm
    | false => exact .of_time (Nat.le_refl _)
  | ends _ hfinish => exact Storage.goes_of_finish hfinish
  | renews _ _ _ hrenew => exact Storage.goes_of_renew hrenew
  | _ => exact .of_time (Nat.le_refl _)

/-! ### What is owned -/

variable {s s' : Sys} {a : Action}

theorem owned_stepped {node k : Nat} {f : State → State} :
    (s.stepped node f k).owned = if k = node then (f (s.steps node)).owned else (s.steps k).owned := by
  unfold stepped
  rw [Function.update_apply]
  split <;> rfl

theorem owned_stepped_of_eq {node : Nat} {f : State → State} (k : Nat) (h : ∀ step, (f step).owned = step.owned) :
    (s.stepped node f k).owned = (s.steps k).owned := by
  rw [owned_stepped]
  split
  · rename_i hk
    rw [h, hk]
  · rfl

theorem owned_givenBack (r : Request) (step : State) : (givenBack r step).owned = step.owned := by
  unfold givenBack
  split
  · exact State.untake_owned _
  · rfl

theorem owned_owning (r : Request) (departure : Departure) (step : State) :
    (owning r departure step).owned = step.owned.put departure.id (.of departure) := by
  unfold owning
  split <;> rfl

/-- What a renewal's answer leaves owned: what was, or the claim it is of with its standing. -/
theorem owned_renewed {settings : Settings} {step : State} {claim : Claim} {asked now id : Nat} {answer : Renewed} {o' : Owned}
    (h : (step.renewed settings claim asked now answer).owned.get id = some o') :
    ∃ o, step.owned.get id = some o ∧ (o' = o ∨
      id = claim.journey ∧ o.claim.token = claim.token ∧ o' = o.renewed settings.lease asked now answer) := by
  unfold State.renewed at h
  split at h
  · rename_i o ho
    split at h
    · rename_i htoken
      rw [Table.get_put] at h
      split at h
      · rename_i hid
        exact ⟨o, hid ▸ ho, .inr ⟨hid, htoken, (Option.some.inj h).symm⟩⟩
      · exact ⟨o', h, .inl rfl⟩
    · exact ⟨o', h, .inl rfl⟩
  · exact ⟨o', h, .inl rfl⟩

theorem answerFor_held {answer : Option (List Claim)} {claim claim' : Claim} (h : answerFor answer claim = .held claim') :
    ∃ held, answer = some held ∧ claim' ∈ held ∧ claim'.journey = claim.journey ∧ claim'.token = claim.token := by
  unfold answerFor at h
  split at h
  · rename_i held
    cases hfound : heldAs held claim with
    | none =>
      rw [hfound] at h
      cases h
    | some kept =>
      rw [hfound] at h
      obtain rfl := Renewed.held.inj h
      unfold heldAs at hfound
      obtain ⟨hjourney, htoken⟩ : kept.journey = claim.journey ∧ kept.token = claim.token := by
        simpa using List.find?_some hfound
      exact ⟨held, rfl, List.mem_of_find?_eq_some hfound, hjourney, htoken⟩
  · cases h

/-- An answer for a claim still speaks of that claim. -/
theorem renewed_claim {o : Owned} {claim : Claim} {lease asked now : Nat} {answer : Option (List Claim)}
    (htoken : o.claim.token = claim.token) :
    (o.renewed lease asked now (answerFor answer claim)).claim.token = o.claim.token ∧
      (o.claim.journey = claim.journey →
        (o.renewed lease asked now (answerFor answer claim)).claim.journey = o.claim.journey) := by
  cases hr : answerFor answer claim with
  | held claim' =>
    obtain ⟨-, -, -, hjourney, htoken'⟩ := answerFor_held hr
    exact ⟨htoken'.trans htoken.symm, fun he => hjourney.trans he.symm⟩
  | lost => exact ⟨rfl, fun _ => rfl⟩
  | unanswered => exact ⟨rfl, fun _ => rfl⟩

/-- How a step leaves a Message owned: as it was, or its claim renewed, or newly owned. -/
inductive Entered (c : Nat → Settings) (s : Sys) (a : Action) (node id : Nat) : Owned → Prop where
  | kept {o : Owned} (h : (s.steps node).owned.get id = some o)
      (hsettled : ∀ i ended p rest, a = .settles i ended → pick s.passes i = some (p, rest) → p.node = node →
        p.departure.id ≠ id) : Entered c s a node id o
  | renewed {o : Owned} {round : Round} {asked : Nat} {answer : Option (List Claim)} {claim : Claim} {left : List Claim}
      (h : (s.steps node).owned.get id = some o) (hround : s.rounds node = some round) (hasked : round.asked = some asked)
      (hanswer : round.answer = some answer) (hleft : round.left = claim :: left) (hid : id = claim.journey)
      (htoken : o.claim.token = claim.token) (ha : a = .applies node) :
      Entered c s a node id (o.renewed (c node).lease asked s.now (answerFor answer claim))
  | owned {i : Nat} {r : Request} {rest : List Request} {journey : Ledger.Journey} {port : String} {queue fence : Nat}
      (ha : a = .owns i journey port queue fence) (h : pick s.requests i = some (r, rest)) (hready : r.ready = true)
      (hnode : r.node = node) (hid : r.id = id) : Entered c s a node id (.of (r.departure c journey port queue fence))

theorem Taken.entered (ht : s.Taken c a s') {node id : Nat} {o : Owned} (ho : (s'.steps node).owned.get id = some o) :
    s.Entered c a node id o := by
  cases ht with
  | @read node' id' queue place hk =>
    have ho : (s.stepped node' (·.mark id') node).owned.get id = some o := ho
    rw [owned_stepped_of_eq node (f := (·.mark id')) fun _ => rfl] at ho
    exact .kept ho (by simp)
  | gives hp =>
    have ho : (s.stepped _ _ node).owned.get id = some o := ho
    rw [owned_stepped_of_eq node (owned_givenBack _)] at ho
    exact .kept ho (by simp)
  | @owns i r rest journey port queue fence hp hready =>
    have ho : (s.stepped _ _ node).owned.get id = some o := ho
    rw [owned_stepped] at ho
    split at ho
    · rename_i hnode
      rw [owned_owning, Table.get_put] at ho
      split at ho
      · rename_i hid
        obtain rfl := Option.some.inj ho
        exact .owned rfl hp hready hnode.symm hid.symm
      · exact .kept (hnode ▸ ho) (by simp)
    · exact .kept ho (by simp)
  | @settles i ended p rest hp hended =>
    have ho : (s.stepped _ _ node).owned.get id = some o := ho
    rw [owned_stepped] at ho
    split at ho
    · rename_i hnode
      rw [State.settle_owned, Table.get_drop] at ho
      split at ho
      · cases ho
      · rename_i hid
        refine .kept (hnode ▸ ho) ?_
        rintro i' ended' q rest' ha hq - rfl
        obtain ⟨rfl, -⟩ := Action.settles.inj ha
        obtain ⟨rfl, -⟩ := Prod.mk.inj (Option.some.inj (hp.symm.trans hq))
        exact hid rfl
    · rename_i hnode
      refine .kept ho ?_
      rintro i' ended' q rest' ha hq rfl
      obtain ⟨rfl, -⟩ := Action.settles.inj ha
      obtain ⟨rfl, -⟩ := Prod.mk.inj (Option.some.inj (hp.symm.trans hq))
      exact absurd rfl hnode
  | @applies node' round asked answer claim left hround hasked hanswer hleft =>
    have ho : (s.stepped _ _ node).owned.get id = some o := ho
    rw [owned_stepped] at ho
    split at ho
    · rename_i hnode
      subst hnode
      obtain ⟨o₀, ho₀, rfl | ⟨hid, htoken, rfl⟩⟩ := owned_renewed ho
      · exact .kept ho₀ (by simp)
      · exact .renewed ho₀ hround hasked hanswer hleft hid htoken rfl
    · exact .kept ho (by simp)
  | asks _ _ _ _ ha =>
    refine .kept ho ?_
    rcases ha with ⟨i, rfl⟩ | rfl <;> simp
  | _ => exact .kept ho (by simp)

/-- A pass stays until it is settled. -/
theorem Taken.pass_stays (ht : s.Taken c a s') {q : Pass} (hq : q ∈ s.passes) :
    (∃ q' ∈ s'.passes, q'.node = q.node ∧ q'.departure = q.departure) ∨
      ∃ i ended rest, a = .settles i ended ∧ pick s.passes i = some (q, rest) := by
  cases ht with
  | owns hp hready => exact .inl ⟨q, List.mem_append_left _ hq, rfl, rfl⟩
  | @ends i p rest finished storage hp hfinish =>
    rcases eq_or_mem_of_pick hp hq with rfl | hq
    · exact .inl ⟨_, List.mem_append_right _ (List.mem_singleton_self _), rfl, rfl⟩
    · exact .inl ⟨q, List.mem_append_left _ hq, rfl, rfl⟩
  | @stops i p rest hp =>
    rcases eq_or_mem_of_pick hp hq with rfl | hq
    · exact .inl ⟨_, List.mem_append_right _ (List.mem_singleton_self _), rfl, rfl⟩
    · exact .inl ⟨q, List.mem_append_left _ hq, rfl, rfl⟩
  | @settles i ended p rest hp hended =>
    rcases eq_or_mem_of_pick hp hq with rfl | hq
    · exact .inr ⟨i, ended, rest, rfl, hp⟩
    · exact .inl ⟨q, hq, rfl, rfl⟩
  | _ => exact .inl ⟨q, hq, rfl, rfl⟩

end Sys

end Claiming
