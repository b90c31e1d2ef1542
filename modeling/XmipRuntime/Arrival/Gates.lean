import XmipRuntime.Arrival.Context
import XmipRuntime.Library.Traced

/-!
# The gates an arrival passes

`arrive` and `settle_message_identity` (`src/arrival.rs`): three gates over the transport, before anything of the Stream
is read; the Stream written into the Ledger; three gates again over the Message made of it; and only then routing.

What identifies, authenticates and authorizes, the accepted set, the registry of Parties, the route technologies and the
Subscriptions are other programs, each a function of what it is given.  An arrival's trace is what it does that another
could see: a claim authenticated, facts authorized, and everything that reads the body or calls Xmip Storage.
-/

namespace Arrival

open Library

inductive Layer where
  | transport
  | message
  deriving DecidableEq

/-- A claim of an identity, with what proves it. -/
structure Presented where
  mechanism : String
  value : String
  layer : Layer
  established : String
  evidence : List (String × String)
  proof : Option String
  deriving DecidableEq

def Presented.withoutProof (claim : Presented) : Presented := { claim with proof := none }

/-- A claim as the record keeps it, its proof left behind. -/
def uncheckedClaim (claim : Presented) : UncheckedClaim := ⟨claim.mechanism, claim.value, claim.established⟩

/-- What the transport handed over, its body apart. -/
structure ReceivedStream (ν : Type) where
  handed : Handed ν
  sourceUri : String
  presented : Option Presented
  body : List UInt8

/-- What a transport identifier reads: how and from where a Stream arrived, and what was observed of it. -/
structure StreamArrival where
  arriving : String
  sourceUri : String
  observed : List (String × String)

/-- A Message as it is first made: one Section over the Stream kept. -/
structure Message (κ : Type) where
  messageId : Nat
  sectionId : Nat
  stream : Nat
  context : κ

structure Attempt where
  location : String
  concludedAt : Int

/-- What the policies said of an attempt. -/
structure Permitted where
  allowed : Bool
  why : String
  deriving DecidableEq

/-- A Receive Location's gate: the accepted set and the rules of its identities. -/
structure ReceiveGate (γ : Type) where
  location : String
  accept : List String
  identity : γ

abbrev Promoted := List (String × String)

/-- Every Subscription asked, and whether it matched. -/
abbrev Routing := List (String × Bool)

/-- What an arrival is wired up with. -/
structure Runtime (κ ν γ : Type) where
  now : Int
  ids : Nat → Nat
  contexts : Contexts κ ν
  kept : List String
  accountable : IdentityFacts → Option String
  identifyTransport : StreamArrival → Except String (List Presented)
  identifyMessage : Message κ → Except String (List Presented)
  /-- The circumstance of an arrival that presented nothing: where it came from. -/
  inferred : String → Presented
  /-- A claim checked against an accepted set. -/
  authenticate : List String → Presented → Except String Identity
  /-- An identity with when it was concluded. -/
  at_ : Identity → Int → Identity
  /-- Both layers' identities as facts, aligned by a gate's rules. -/
  evaluate : γ → Identity → Option Identity → IdentityFacts
  evaluate_transport : ∀ rules transport message, (evaluate rules transport message).transport = transport
  evaluate_message : ∀ rules transport message, (evaluate rules transport message).message = message
  authorize : γ → IdentityFacts → Attempt → Permitted
  /-- The body read to its end and kept in chunks under a new identifier. -/
  writeStream : Nat → List UInt8 → Except String Unit
  promote : Message κ → Except String Promoted
  /-- Why the Ledger could not be read for the gates, where it could not. -/
  unread : Message κ → Option String
  publish : Promoted → Routing
  routed : Routing → Bool

inductive Refused where
  | identification (why : String)
  | authentication (why : String) (claim : Presented)
  | authorization (permitted : Permitted)
  | promotion (why : String)
  deriving DecidableEq

/-- How an arrival stops before it is routed: refused, or the Ledger did not take it or answer. -/
inductive Stopped where
  | refused (reason : Refused)
  | failed (reason : String)
  deriving DecidableEq

/-- What came of an arrival that did not stop. -/
inductive Arrived (κ : Type) where
  | routed (message : Message κ) (facts : IdentityFacts) (routing : Routing)
  | unroutable (message : Message κ) (facts : IdentityFacts) (routing : Routing) (promoted : Promoted)

def Arrived.facts {κ : Type} : Arrived κ → IdentityFacts
  | .routed _ facts _ | .unroutable _ facts .. => facts

/-- What an arrival does that another could see. -/
inductive Effect where
  | authenticates (accept : List String) (claim : Presented)
  | authorizes (facts : IdentityFacts)
  /-- The body read and written to Xmip Storage. -/
  | keeps
  /-- The Message given to the message identifiers, which may read it from Xmip Storage. -/
  | identifies
  /-- The Message given to the route technologies, which may read it from Xmip Storage. -/
  | promotes
  deriving DecidableEq

/-- Whether the body is read or Xmip Storage called. -/
def Effect.touches : Effect → Bool
  | .authenticates .. | .authorizes _ => false
  | .keeps | .identifies | .promotes => true

variable {κ ν γ : Type}

/-- Every other claim the transport presented. -/
def uncheckedOf (received : ReceivedStream ν) (claims : List Presented) : List UncheckedClaim :=
  (claims.tail ++ if claims.isEmpty then [] else received.presented.toList).map uncheckedClaim

namespace Runtime

variable (rt : Runtime κ ν γ)

abbrev Does (α : Type) := Traced Effect Stopped α

/-- The claim of the transport that is authenticated: the first identified, else the one presented, else the
circumstance. -/
def chosen (received : ReceivedStream ν) (claims : List Presented) : Presented :=
  (claims.head?.or received.presented).getD (rt.inferred received.sourceUri)

/-- What the gates of the transport conclude, `identity` authenticated. -/
def transportFacts (gate : ReceiveGate γ) (received : ReceivedStream ν) (claims : List Presented) (identity : Identity) :
    IdentityFacts :=
  { rt.evaluate gate.identity (rt.at_ identity rt.now) none with unchecked := uncheckedOf received claims }

/-- The Message made of a Stream kept, its context promoted from `facts`. -/
def made (facts : IdentityFacts) (received : ReceivedStream ν) : Message κ :=
  ⟨rt.ids 1, rt.ids 2, rt.ids 0, promoteIdentity rt.contexts rt.kept rt.accountable facts received.handed⟩

/-- An identifier's answer, a failure of it a refusal. -/
def identified (claims : Except String (List Presented)) : Except Stopped (List Presented) :=
  claims.mapError fun why => .refused (.identification why)

def authenticates (gate : ReceiveGate γ) (claim : Presented) : Does Identity :=
  .does (.authenticates gate.accept claim)
    ((rt.authenticate gate.accept claim).mapError fun why => .refused (.authentication why claim.withoutProof))

def authorizes (gate : ReceiveGate γ) (facts : IdentityFacts) : Does Unit :=
  let permitted := rt.authorize gate.identity facts ⟨gate.location, rt.now⟩
  .does (.authorizes facts) (if permitted.allowed then .ok () else .error (.refused (.authorization permitted)))

/-- The gates of the transport: its claims identified, one authenticated, and the facts authorized. -/
def transportGates (gate : ReceiveGate γ) (received : ReceivedStream ν) : Does IdentityFacts := do
  let claims ← .asks (identified
    (rt.identifyTransport ⟨received.handed.arriving, received.sourceUri, received.handed.observed⟩))
  let identity ← rt.authenticates gate (rt.chosen received claims)
  rt.authorizes gate (rt.transportFacts gate received claims identity)
  return rt.transportFacts gate received claims identity

/-- The Stream written into the Ledger. -/
def keeps (received : ReceivedStream ν) : Does Unit :=
  .does .keeps ((rt.writeStream (rt.ids 0) received.body).mapError .failed)

/-- The second pass of the three gates, over the Message. -/
def settleMessageIdentity (gate : ReceiveGate γ) (transportFacts : IdentityFacts) (message : Message κ)
    (received : ReceivedStream ν) : Does (IdentityFacts × Message κ) := do
  let claims ← .does .identifies (identified (rt.identifyMessage message))
  let claimed := claims.filter fun claim => decide (claim.layer = .message)
  let others := claims.filter fun claim => !decide (claim.layer = .message)
  let unchecked := transportFacts.unchecked ++ (claimed.tail ++ others).map uncheckedClaim
  match claimed.head? with
  | none => return ({ transportFacts with unchecked }, message)
  | some claim =>
    let identity ← rt.authenticates gate claim
    let facts := { rt.evaluate gate.identity transportFacts.transport (some (rt.at_ identity rt.now)) with unchecked }
    rt.authorizes gate facts
    return (facts, { message with context := promoteIdentity rt.contexts rt.kept rt.accountable facts received.handed })

/-- The names the filters use, of the Message. -/
def promoted (message : Message κ) : Does Promoted :=
  .does .promotes ((rt.promote message).mapError fun why => .refused (.promotion why))

/-- An arrival from its transport to its dispatch. -/
def arrive (gate : ReceiveGate γ) (received : ReceivedStream ν) : Does (Arrived κ) := do
  let transportFacts ← rt.transportGates gate received
  rt.keeps received
  let settled ← rt.settleMessageIdentity gate transportFacts (rt.made transportFacts received) received
  let promoted ← rt.promoted settled.2
  .asks ((rt.unread settled.2).elim (.ok ()) fun why => .error (.failed why))
  let routing := rt.publish promoted
  return if rt.routed routing then .routed settled.2 settled.1 routing
    else .unroutable settled.2 settled.1 routing promoted

/-! ### What the gates of the transport let through -/

/-- The transport's claim was authenticated against the accepted set, and its facts were authorized. -/
structure TransportChecked (gate : ReceiveGate γ) (received : ReceivedStream ν) (claims : List Presented)
    (identity : Identity) : Prop where
  identified : rt.identifyTransport ⟨received.handed.arriving, received.sourceUri, received.handed.observed⟩ = .ok claims
  authenticated : rt.authenticate gate.accept (rt.chosen received claims) = .ok identity
  authorized : (rt.authorize gate.identity (rt.transportFacts gate received claims identity)
    ⟨gate.location, rt.now⟩).allowed = true

/-- The first claim a Message carries of itself. -/
def firstOfMessage (later : List Presented) : Option Presented := later.find? fun claim => decide (claim.layer = .message)

/-- The facts answered hold the identities checked, and every other claim as unchecked: `claims` are those identified of
the transport, `later` those of the Message. -/
structure Holds (gate : ReceiveGate γ) (received : ReceivedStream ν) (claims : List Presented) (identity : Identity)
    (later : List Presented) (facts : IdentityFacts) : Prop where
  transport : facts.transport = rt.at_ identity rt.now
  message : ∀ claim, firstOfMessage later = some claim → ∃ checked, rt.authenticate gate.accept claim = .ok checked ∧
    facts.message = some (rt.at_ checked rt.now) ∧
    (rt.authorize gate.identity facts ⟨gate.location, rt.now⟩).allowed = true
  noMessage : firstOfMessage later = none → facts.message = none
  unchecked : ∃ others, facts.unchecked = others.map uncheckedClaim ∧
    ((claims ++ received.presented.toList).head?.toList ++ (firstOfMessage later).toList ++ others).Perm
      (claims ++ received.presented.toList ++ later)

variable {rt} {gate : ReceiveGate γ} {received : ReceivedStream ν}

private theorem authenticates_answer {claim : Presented} {identity : Identity} :
    (rt.authenticates gate claim).answer = .ok identity ↔ rt.authenticate gate.accept claim = .ok identity :=
  mapError_answers_iff

private theorem authorizes_answer {facts : IdentityFacts} {u : Unit} : (rt.authorizes gate facts).answer = .ok u ↔
    (rt.authorize gate.identity facts ⟨gate.location, rt.now⟩).allowed = true := by
  simp only [authorizes, Traced.does]
  split
  · rename_i h
    simp [h]
  · rename_i h
    simp [h]

/-- The gates of the transport touch nothing. -/
theorem transportGates_untouched : ∀ e ∈ (rt.transportGates gate received).trace, e.touches = false := by
  intro e he
  simp only [transportGates, Traced.mem_trace_bind] at he
  rcases he with he | ⟨claims, -, he | ⟨identity, -, he | ⟨-, -, he⟩⟩⟩
  · cases he
  · rw [List.mem_singleton.1 he]
    rfl
  · rw [List.mem_singleton.1 he]
    rfl
  · cases he

/-- What the gates of the transport let through was authenticated, and then authorized. -/
theorem transportGates_ok {facts : IdentityFacts} (h : (rt.transportGates gate received).answer = .ok facts) :
    ∃ claims identity, rt.TransportChecked gate received claims identity ∧
      facts = rt.transportFacts gate received claims identity ∧
      .authenticates gate.accept (rt.chosen received claims) ∈ (rt.transportGates gate received).trace ∧
      .authorizes facts ∈ (rt.transportGates gate received).trace := by
  have hdo := h
  obtain ⟨claims, hclaims, hdo⟩ := Traced.answer_bind_iff.1 hdo
  obtain ⟨identity, hidentity, hdo⟩ := Traced.answer_bind_iff.1 hdo
  obtain ⟨u, hallowed, hdo⟩ := Traced.answer_bind_iff.1 hdo
  cases hdo
  refine ⟨claims, identity, ⟨mapError_answers_iff.1 hclaims, authenticates_answer.1 hidentity,
    authorizes_answer.1 hallowed⟩, rfl, ?_, ?_⟩
  · refine Traced.mem_trace_bind.2 (.inr ⟨claims, hclaims, Traced.mem_trace_bind.2 (.inl ?_)⟩)
    exact List.mem_singleton_self _
  · refine Traced.mem_trace_bind.2 (.inr ⟨claims, hclaims, Traced.mem_trace_bind.2 (.inr ⟨identity, hidentity, ?_⟩)⟩)
    exact Traced.mem_trace_bind.2 (.inl (List.mem_singleton_self _))

/-- The claim of the transport that is checked and those that are not are all it presented. -/
theorem uncheckedOf_eq (claims : List Presented) :
    uncheckedOf received claims = (claims ++ received.presented.toList).tail.map uncheckedClaim := by
  unfold uncheckedOf
  cases claims with
  | nil => cases received.presented <;> simp
  | cons claim claims => simp

private theorem head_append_tail (l : List Presented) : l.head?.toList ++ l.tail = l := by
  cases l with
  | nil => rfl
  | cons claim l => rfl

/-- The first of each of two lists and the rest of both are all of them. -/
private theorem perm_of_parts {all claimed others later : List Presented} (h : (claimed ++ others).Perm later) :
    (all.head?.toList ++ claimed.head?.toList ++ (all.tail ++ (claimed.tail ++ others))).Perm (all ++ later) := by
  refine List.Perm.trans ?_ (h.append_left all)
  rw [List.perm_iff_count]
  intro claim
  have hall := congrArg (List.count claim) (head_append_tail all)
  have hclaimed := congrArg (List.count claim) (head_append_tail claimed)
  simp only [List.count_append] at hall hclaimed ⊢
  omega

/-- What the second pass of the gates answers. -/
theorem settle_ok {claims : List Presented} {identity : Identity} {message : Message κ}
    {settled : IdentityFacts × Message κ}
    (h : (rt.settleMessageIdentity gate (rt.transportFacts gate received claims identity) message received).answer =
      .ok settled) :
    ∃ later, rt.identifyMessage message = .ok later ∧ rt.Holds gate received claims identity later settled.1 := by
  obtain ⟨later, hlater, h⟩ := Traced.answer_bind_iff.1 h
  have htransport : (rt.transportFacts gate received claims identity).transport = rt.at_ identity rt.now :=
    rt.evaluate_transport ..
  have hfirst : firstOfMessage later = (later.filter fun claim => decide (claim.layer = .message)).head? :=
    (List.head?_filter ..).symm
  -- the claims kept as unchecked, in the order they are kept
  have hothers : ∀ others, others = (claims ++ received.presented.toList).tail ++
      ((later.filter fun claim => decide (claim.layer = .message)).tail ++
        later.filter fun claim => !decide (claim.layer = .message)) →
      ((claims ++ received.presented.toList).head?.toList ++ (firstOfMessage later).toList ++ others).Perm
        (claims ++ received.presented.toList ++ later) := by
    rintro others rfl
    rw [hfirst]
    exact perm_of_parts (List.filter_append_perm ..)
  refine ⟨later, mapError_answers_iff.1 hlater, ?_⟩
  simp only at h
  split at h
  · rename_i hnone
    cases h
    refine ⟨htransport, ?_, fun _ => rt.evaluate_message .., _, ?_, hothers _ rfl⟩
    · intro claim hclaim
      rw [hfirst, hnone] at hclaim
      cases hclaim
    · show uncheckedOf received claims ++ _ = _
      rw [uncheckedOf_eq, ← List.map_append]
  · rename_i claim hclaim
    obtain ⟨checked, hchecked, h⟩ := Traced.answer_bind_iff.1 h
    obtain ⟨u, hallowed, h⟩ := Traced.answer_bind_iff.1 h
    cases h
    refine ⟨(rt.evaluate_transport ..).trans htransport, ?_, ?_, _, ?_, hothers _ rfl⟩
    · intro claim' hclaim'
      rw [hfirst, hclaim] at hclaim'
      cases hclaim'
      exact ⟨checked, authenticates_answer.1 hchecked, rt.evaluate_message .., authorizes_answer.1 hallowed⟩
    · intro hnone
      rw [hfirst, hclaim] at hnone
      cases hnone
    · show uncheckedOf received claims ++ _ = _
      rw [uncheckedOf_eq, ← List.map_append]

/-- Nothing is read or kept of a Stream before the transport's claim was authenticated and its facts authorized; and what
is routed, or found unroutable, has in addition passed the same gates with the first claim its Message carries, its facts
the identities checked and every other claim unchecked. -/
theorem authorized_of_arrive (rt : Runtime κ ν γ) (gate : ReceiveGate γ) (received : ReceivedStream ν) :
    (∀ first e last, (rt.arrive gate received).trace = first ++ e :: last → e.touches = true →
      ∃ claims identity, rt.TransportChecked gate received claims identity ∧
        .authenticates gate.accept (rt.chosen received claims) ∈ first ∧
        .authorizes (rt.transportFacts gate received claims identity) ∈ first) ∧
    ∀ arrived, (rt.arrive gate received).answer = .ok arrived →
      ∃ claims identity later, rt.TransportChecked gate received claims identity ∧
        rt.identifyMessage (rt.made (rt.transportFacts gate received claims identity) received) = .ok later ∧
        rt.Holds gate received claims identity later arrived.facts := by
  constructor
  · intro first e last hsplit htouches
    cases hgates : (rt.transportGates gate received).answer with
    | error stopped =>
      rw [arrive, (Traced.bind_of_error hgates).1] at hsplit
      have huntouched := transportGates_untouched e (by rw [hsplit]; simp)
      rw [htouches] at huntouched
      cases huntouched
    | ok facts =>
      obtain ⟨claims, identity, hchecked, rfl, hauthenticates, hauthorizes⟩ := transportGates_ok hgates
      rw [arrive, (Traced.bind_of_ok hgates).1] at hsplit
      have hnone : ∀ e ∈ (rt.transportGates gate received).trace, ¬ e.touches = true := by
        intro e he
        simp [transportGates_untouched e he]
      obtain ⟨d, hd, rfl⟩ := Traced.comesAfter_append hnone ⟨_, hauthenticates, rfl⟩ first e last hsplit htouches
      obtain ⟨d, hd', rfl⟩ := Traced.comesAfter_append hnone ⟨_, hauthorizes, rfl⟩ first e last hsplit htouches
      exact ⟨claims, identity, hchecked, hd, hd'⟩
  · intro arrived h
    obtain ⟨facts, hgates, h⟩ := Traced.answer_bind_iff.1 h
    obtain ⟨claims, identity, hchecked, rfl, -⟩ := transportGates_ok hgates
    obtain ⟨-, -, h⟩ := Traced.answer_bind_iff.1 h
    obtain ⟨settled, hsettled, h⟩ := Traced.answer_bind_iff.1 h
    obtain ⟨promoted, -, h⟩ := Traced.answer_bind_iff.1 h
    obtain ⟨-, -, h⟩ := Traced.answer_bind_iff.1 h
    obtain ⟨later, hlater, hholds⟩ := settle_ok hsettled
    have hfacts : arrived.facts = settled.1 := by
      cases h
      split <;> rfl
    exact ⟨claims, identity, later, hchecked, hlater, hfacts ▸ hholds⟩

/-- A claim made at a layer, with its proof. -/
def claimed (layer : Layer) (value : String) : Presented := ⟨"basic", value, layer, "presented", [], some "secret"⟩

/-- A node whose transports and Messages each carry one claim.  A gate's accepted set names the mechanisms it takes, and its
rules whether the layers are to name one Party; what is proven is allowed. -/
def bothLayers : Runtime (List (String × (String ⊕ Bool))) (String ⊕ Bool) Bool where
  now := 5
  ids n := n
  contexts := latestFirst
  kept := ["file.name"]
  accountable facts := facts.transport.party
  identifyTransport _ := .ok [claimed .transport "Contoso"]
  identifyMessage _ := .ok [claimed .message "Fabrikam"]
  inferred uri := ⟨"circumstance", uri, .transport, "inferred", [], none⟩
  authenticate accept claim :=
    if accept.contains claim.mechanism then
      .ok ⟨claim.mechanism, claim.value, "secret", claim.proof.isSome, "verified", claim.established, some claim.value, none⟩
    else .error "not accepted"
  at_ identity now := { identity with concludedAt := some now }
  evaluate aligned transport message :=
    ⟨transport, message, aligned && message.any fun m => decide (m.party ≠ transport.party), []⟩
  evaluate_transport _ _ _ := rfl
  evaluate_message _ _ _ := rfl
  authorize _ facts _ := ⟨facts.transport.proven, "proven"⟩
  writeStream _ _ := .ok ()
  promote _ := .ok [("file.name", "a.edi")]
  unread _ := none
  publish _ := [("orders", true)]
  routed routing := routing.any Prod.snd

/-- A gate that accepts the mechanism, and what arrives at it. -/
def basicGate : ReceiveGate Bool := ⟨"xmip:///in", ["basic"], true⟩

def dropped : ReceivedStream (String ⊕ Bool) := ⟨⟨"pushed", [], [("file.name", "a.edi")]⟩, "file:///in", none, [1, 2]⟩

/-- An arrival whose transport and whose Message carry a claim each: both are checked, and both identities are in its
facts. -/
theorem authorized_of_arrive_both :
    Effect.keeps ∈ (bothLayers.arrive basicGate dropped).trace ∧
      ∃ arrived, (bothLayers.arrive basicGate dropped).answer = .ok arrived ∧
        (∃ claims identity later, bothLayers.TransportChecked basicGate dropped claims identity ∧
          bothLayers.identifyMessage (bothLayers.made (bothLayers.transportFacts basicGate dropped claims identity) dropped) =
            .ok later ∧
          bothLayers.Holds basicGate dropped claims identity later arrived.facts) ∧
        arrived.facts.transport.value = "Contoso" ∧ arrived.facts.message.map Identity.value = some "Fabrikam" := by
  refine ⟨by decide +kernel, ?_⟩
  obtain ⟨arrived, hanswer⟩ : ∃ arrived, (bothLayers.arrive basicGate dropped).answer = .ok arrived := ⟨_, rfl⟩
  refine ⟨arrived, hanswer, (authorized_of_arrive bothLayers basicGate dropped).2 arrived hanswer, ?_⟩
  cases hanswer
  decide +kernel

end Runtime

end Arrival
