import XmipRuntime.Plane.Held

/-!
# What a node holds for its relays

A web host relays its browsers' calls to a node.  The node issues it nonces (`src/plane/fresh.rs`), takes a browser's
handshake bound to one of them as proof that the browser held its key (`src/plane/possessed.rs`), verifies the browser's
chain and holds its caller behind a handle of its own (`src/plane/vouched.rs`); a call that names the handle acts as that
caller, and only through the account it was vouched for (`src/plane/served.rs`).

Every step is one hold of one lock, or one reading of a clock before it.  The clock a nonce ends by moves on only; the
one a caller ends by is the system's, and may say anything.  What the handshake and the certificates prove is decided
outside the repository, by the fields of `Outside`.  What was issued, spent, vouched, let go of and called is written
down beside the state as it happens, for the results to speak of; no step reads it.
-/

namespace Relaying

open Library Plane

abbrev Bytes := List UInt8

/-! ### Nonces -/

/-- How long a nonce is fresh, in milliseconds. -/
def within : Nat := 30000

/-- How many a relay is answered at once, at most. -/
def atOnce : Nat := 32

/-- How many are outstanding at once, at most. -/
def mostIssued : Nat := 65536

/-- How long a nonce is. -/
def nonceLength : Nat := 16

/-- One nonce issued: the number it was issued as, to whom, for which listener, until when. -/
structure Issued where
  serial : Nat
  nonce : Bytes
  through : String
  listener : Bytes
  freshUntil : Nat
  deriving DecidableEq

/-- How many numbers a `usize` has; a sum past them wraps. -/
def usize : Nat := 2 ^ 64

/-- The stale let go of where `count` more would be too many. -/
def cleared (held : Table Bytes Issued) (count now : Nat) : Table Bytes Issued :=
  if mostIssued ≤ (held.size + count) % usize then held.keep fun one => decide (now < one.freshUntil) else held

/-- How many of `count` are issued beside those `held`. -/
def issuing (held : Table Bytes Issued) (count : Nat) : Nat := min (min count atOnce) (mostIssued - held.size)

/-- Those drawn, each a nonce none held is. -/
def drawnFor (held : Table Bytes Issued) (count : Nat) (drawn : List Bytes) : Bool :=
  decide (drawn.length = issuing held count) && decide drawn.Nodup &&
    drawn.all fun nonce => decide (nonce.length = nonceLength) && (held.get nonce).isNone

/-- `drawn` issued to `through` for `listener`, numbered from `serial` on. -/
def issuedFrom (through : String) (listener : Bytes) (now : Nat) : Nat → List Bytes → List Issued
  | _, [] => []
  | serial, nonce :: drawn =>
    ⟨serial, nonce, through, listener, now + within⟩ :: issuedFrom through listener now (serial + 1) drawn

/-- The one nonce among `nonces` issued to `through` that is still fresh at `now`; every one of them that was held, spent;
and those held after it. -/
def spend (through : String) (now : Nat) : List Bytes → Table Bytes Issued → Option Issued × List Issued × Table Bytes Issued
  | [], held => (none, [], held)
  | nonce :: nonces, held =>
    match if nonce.length = nonceLength then held.get nonce else none with
    | some one =>
      let (found, spent, held) := spend through now nonces (held.drop nonce)
      (if one.through = through ∧ now < one.freshUntil then some one else found, one :: spent, held)
    | none => spend through now nonces held

/-! ### What is decided outside -/

inductive Usage where
  | clientAuth
  | any

/-- What a handshake handed over proves: its server's random and leaf certificate, and the chain of the client that
signed it. -/
structure Handshake where
  serverRandom : Bytes
  serverLeaf : Bytes
  clientChain : List Bytes
  deriving DecidableEq

/-- What the transport and the certificates prove, in words where they do not: a handshake handed over whole, what nonces
are bound to, a chain read, verified under the node's anchors and until when its path is valid, and the caller its leaf
proves at the gate. -/
structure Outside (χ π : Type) where
  proved : Bytes → Except String Handshake
  bindingLength : Nat
  binding : List Bytes → Bytes
  fromDer : List Bytes → Except String χ
  verify : χ → Usage → Int → Except String π
  notAfter : π → Except String Int
  certificate : Bytes → Except String AuthenticatedIdentity

/-- The account a connection proved, and whether a certificate proved it. -/
structure Connection where
  identity : AuthenticatedIdentity
  mutualTls : Bool

/-- Who may relay, and what is decided outside. -/
structure Settings (χ π : Type) extends Outside χ π where
  relays : String → Bool

variable {χ π : Type} (c : Settings χ π)

namespace Settings

/-- Whether a connection may relay. -/
def relaying (connection : Connection) : Bool :=
  connection.identity.verified.isProven && c.relays connection.identity.value

/-- The caller `chain` proves for `usage` at `now`, and until when its path is valid. -/
def verified (chain : List Bytes) (usage : Usage) (now : Int) : Except String (AuthenticatedIdentity × Int) := do
  let leaf ← match chain with
    | leaf :: _ => .ok leaf
    | [] => .error "REFUSED. The chain is empty"
  let read ← c.fromDer chain
  let path ← match c.verify read usage now with
    | .ok path => .ok path
    | .error failed => .error ("REFUSED. The certificate: " ++ failed)
  let identity ← c.certificate leaf
  if identity.verified.isProven then
    let heldUntil ← c.notAfter path
    .ok (identity, heldUntil)
  else .error ("REFUSED. " ++ identity.value ++ " is not proven")

/-- What a handshake proves and is bound to, before any nonce is spent for it. -/
def possessed (transcript : Except String Bytes) (nonces : List Bytes) : Except String Handshake := do
  let transcript ← transcript
  let proof ← match c.proved transcript with
    | .ok proof => .ok proof
    | .error failed => .error ("REFUSED. The browser's handshake proves nothing: " ++ failed ++ " (ADR-0009)")
  if proof.serverRandom.take c.bindingLength = c.binding nonces then .ok proof
  else .error ("REFUSED. The browser's handshake is not bound to the nonces handed with it: its " ++
    "server's random holds none of them (ADR-0009)")

/-- Whether a connection may be issued nonces for `listener`: one a certificate proved, for its own subject's alone. -/
def mayName (connection : Connection) (listener : Bytes) : Bool :=
  !connection.mutualTls || match c.certificate listener with
    | .ok named => decide (named.value = connection.identity.value)
    | .error _ => false

end Settings

/-! ### What a node holds -/

/-- One caller a relay vouched for. -/
structure Vouched where
  identity : AuthenticatedIdentity
  heldUntil : Int
  through : String
  deriving DecidableEq

/-- How many callers a node holds for its relays at once, at most. -/
def mostVouched : Nat := 65536

/-- How many chains it keeps verified, at most. -/
def mostKnown : Nat := 1024

/-- A request for a caller whose handshake was proved: which request it is, of which relay, under the nonce it spent. -/
structure Vouching where
  request : Nat
  through : String
  proof : Handshake
  nonces : List Bytes
  one : Issued
  spentAt : Nat
  deriving DecidableEq

/-- A caller vouched for, and what justified it. -/
structure Grant extends Vouching where
  handle : Nat
  vouched : Vouched
  deriving DecidableEq

/-- What is under way for a relay. -/
inductive Op where
  | issuing (through : String) (listener : Bytes) (count now : Nat)
  | vouching (request : Nat) (through : String) (transcript : Except String Bytes) (nonces : List Bytes)
  /-- Proved and bound, the clock read, its nonces about to be spent. -/
  | spending (request : Nat) (through : String) (proof : Handshake) (nonces : List Bytes) (now : Nat)
  /-- Its possession proved; the chain about to be verified. -/
  | possessed (v : Vouching)
  /-- Not verified before. -/
  | unknown (v : Vouching) (now : Int)
  | verified (v : Vouching) (now : Int) (known : AuthenticatedIdentity × Int)
  /-- The chain known; the caller about to be held. -/
  | known (v : Vouching) (now : Int) (known : AuthenticatedIdentity × Int)

/-- What happened to the callers held. -/
inductive Event where
  | vouched (g : Grant)
  | unvouched (handle : Nat)
  deriving DecidableEq

structure Node where
  now : Nat
  held : Table Bytes Issued
  known : Table (List Bytes) (AuthenticatedIdentity × Int)
  vouched : Table Nat Vouched
  ops : List Op
  /-- Requests for a caller so far. -/
  asked : Nat
  issued : List Issued
  /-- Every nonce spent, with the request and the relay it was spent by. -/
  spent : List (Issued × Nat × String)
  /-- The requests refused before they spent a nonce. -/
  unspent : List Nat
  /-- What happened to the callers held, the latest first. -/
  log : List Event

def Node.starting : Node := ⟨0, .empty, .empty, .empty, [], 0, [], [], [], []⟩

def Starts (n : Node) : Prop := n = .starting

/-! ### Calls -/

inductive Method where
  | publication
  | wait
  | act
  | secret
  | secrets
  deriving DecidableEq

/-- A call: its method, the handle it names its caller by, 0 for a header that is no handle, and the rest of it. -/
structure Request (μ : Type) where
  method : Method
  caller : Option Nat
  message : Except String μ

inductive Role where
  | observer
  | operator
  | developer
  deriving DecidableEq

def Role.word : Role → String
  | .observer => "Observer"
  | .operator => "Operator"
  | .developer => "Developer"

def Role.describe : Role → String
  | .observer => "watches — monitoring only"
  | .operator => "also acts and configures"
  | .developer => "also builds"

/-- What a call of a method asks, in the words its refusal says. -/
def Method.asked : Method → String
  | .publication => "read the publication"
  | .wait => "follow the publication"
  | .secret => "set a secret"
  | .secrets => "list the secrets"
  | .act => "act"

/-- The least role that may call each method. -/
def Method.role : Method → Role
  | .publication | .wait => .observer
  | .secrets | .act | .secret => .operator

/-- What comes of a call: refused in words, not read, or carried out as a caller, through a relay where one called for
it. -/
inductive Answer (μ : Type) where
  | refused (why : String)
  | invalid (why : String)
  | carried (acting : AuthenticatedIdentity) (through : Option String) (message : μ)

/-- What the listener is told: the role its callers hold, and which role may do what (`authorize::plane`). -/
structure Serve where
  role : Role
  admits : (who : Option String) → (role least : Role) → Bool

/-- Whether `caller` may call `method`. -/
def Serve.admitted (serve : Serve) (caller : AuthenticatedIdentity) (method : Method) : Except String Unit :=
  let who := if caller.verified.isProven then some caller.value else none
  if serve.admits who serve.role method.role then .ok ()
  else
    match who with
    | none => .error ("REFUSED. Nothing proved who asks to " ++ method.asked ++ " on this node; an act is taken from the " ++
        "identity the connection proved — a client certificate, or on the node's local endpoint the account the " ++
        "operating system names — never from what the caller says, nor from where it connects (ADR-0009)")
    | some who => .error ("REFUSED. " ++ who ++ " may not " ++ method.asked ++ " on this node: " ++ who ++ " is " ++
        serve.role.word ++ ", which " ++ serve.role.describe ++ " (ADR-0009)")

namespace Node

/-- The caller the node's `handle` holds for `through` at `now`, and the callers held after it. -/
def proven (vouched : Table Nat Vouched) (handle : Nat) (through : String) (now : Int) :
    Option AuthenticatedIdentity × Table Nat Vouched :=
  match vouched.get handle with
  | some caller =>
    if caller.heldUntil ≤ now then (none, vouched.drop handle)
    else (if caller.through = through then some caller.identity else none, vouched)
  | none => (none, vouched)

/-- Who a call acts as, and through which relay, and the callers held after it. -/
def acting (vouched : Table Nat Vouched) (connection : Connection) (handle : Option Nat) (now : Int) :
    Except String (AuthenticatedIdentity × Option String) × Table Nat Vouched :=
  match handle with
  | none => (.ok (connection.identity, none), vouched)
  | some handle =>
    if c.relaying connection then
      match proven vouched handle connection.identity.value now with
      | (some caller, vouched) => (.ok (caller, some connection.identity.value), vouched)
      | (none, vouched) =>
        (.error ("REFUSED. Nothing proved who asks: the node holds no caller by that handle for this relay"), vouched)
    else (.error ("REFUSED. " ++ connection.identity.value ++
      " relays for no one: [operate] relay does not name it (ADR-0009)"), vouched)

/-- The answer to one call. -/
def called {μ : Type} (serve : Serve) (vouched : Table Nat Vouched) (connection : Connection) (request : Request μ)
    (now : Int) : Answer μ × Table Nat Vouched :=
  match acting c vouched connection request.caller now with
  | (.error refused, vouched) => (.refused refused, vouched)
  | (.ok (acting, through), vouched) =>
    match serve.admitted acting request.method with
    | .error refused => (.refused refused, vouched)
    | .ok () =>
      match request.message with
      | .error why => (.invalid why, vouched)
      | .ok message => (.carried acting through message, vouched)

end Node

/-! ### Steps -/

inductive Action where
  | tick (by_ : Nat)
  /-- A relay asks for `count` nonces for `listener`, verified at `now`. -/
  | nonces (connection : Connection) (listener : Bytes) (count : Nat) (now : Int)
  | issue (i : Nat) (drawn : List Bytes)
  | vouch (connection : Connection) (transcript : Except String Bytes) (nonces : List Bytes)
  | check (i : Nat)
  | spend (i : Nat)
  /-- The chain looked up among those known, the system's clock read twice. -/
  | lookUp (i : Nat) (now now' : Int)
  | verify (i : Nat) (now : Int)
  | keep (i : Nat)
  | hold (i handle : Nat)
  | unvouch (connection : Connection) (handle : Nat)
  /-- A call that names `handle`, the system's clock read. -/
  | call (connection : Connection) (handle : Option Nat) (now : Int)

namespace Node

/-- Nonces asked for and issued. -/
def issues (n : Node) : Action → Option Node
  | .nonces connection listener count now =>
    if c.relaying connection ∧ listener ≠ [] then
      match c.verified [listener] .any now with
      | .ok _ =>
        if c.mayName connection listener then
          some { n with ops := n.ops ++ [.issuing connection.identity.value listener count n.now] }
        else some n
      | .error _ => some n
    else some n
  | .issue i drawn =>
    match pick n.ops i with
    | some (.issuing through listener count now, rest) =>
      let held := cleared n.held count now
      if drawnFor held count drawn then
        let issued := issuedFrom through listener now n.issued.length drawn
        some { n with
          held := issued.foldl (fun held one => held.put one.nonce one) held
          issued := n.issued ++ issued
          ops := rest }
      else none
    | _ => none
  | _ => none

/-- A caller asked for, up to its nonce. -/
def proves (n : Node) : Action → Option Node
  | .vouch connection transcript nonces =>
    if c.relaying connection then
      some { n with
        asked := n.asked + 1
        ops := n.ops ++ [.vouching n.asked connection.identity.value transcript nonces] }
    else some n
  | .check i =>
    match pick n.ops i with
    | some (.vouching request through transcript nonces, rest) =>
      match c.possessed transcript nonces with
      | .ok proof => some { n with ops := rest ++ [.spending request through proof nonces n.now] }
      | .error _ => some { n with ops := rest, unspent := n.unspent ++ [request] }
    | _ => none
  | .spend i =>
    match pick n.ops i with
    | some (.spending request through proof nonces now, rest) =>
      let (found, spent, held) := spend through now nonces n.held
      let n := { n with held, spent := n.spent ++ spent.map fun one => (one, request, through) }
      match found with
      | some one =>
        if proof.serverLeaf = one.listener then
          some { n with ops := rest ++ [.possessed ⟨request, through, proof, nonces, one, now⟩] }
        else some { n with ops := rest }
      | none => some { n with ops := rest }
    | _ => none
  | _ => none

/-- Those ended at `now` let go of where the node holds all it may. -/
def roomed (vouched : Table Nat Vouched) (now : Int) : Table Nat Vouched :=
  if mostVouched ≤ vouched.size then vouched.keep fun x => decide (now < x.heldUntil) else vouched

/-- A caller's chain verified, once while its path is valid, and the caller held. -/
def holds (n : Node) : Action → Option Node
  | .lookUp i now now' =>
    match pick n.ops i with
    | some (.possessed v, rest) =>
      let known := n.known.keep fun x => decide (now' < x.2)
      match known.get v.proof.clientChain with
      | some kept => some { n with known, ops := rest ++ [.known v now kept] }
      | none => some { n with known, ops := rest ++ [.unknown v now] }
    | _ => none
  | .verify i at_ =>
    match pick n.ops i with
    | some (.unknown v now, rest) =>
      match c.verified v.proof.clientChain .clientAuth at_ with
      | .ok verified => some { n with ops := rest ++ [.verified v now verified] }
      | .error _ => some { n with ops := rest }
    | _ => none
  | .keep i =>
    match pick n.ops i with
    | some (.verified v now verified, rest) =>
      let known := if mostKnown ≤ n.known.size then .empty else n.known
      some { n with known := known.put v.proof.clientChain verified, ops := rest ++ [.known v now verified] }
    | _ => none
  | .hold i handle =>
    match pick n.ops i with
    | some (.known v now known, rest) =>
      let vouched := roomed n.vouched now
      if mostVouched ≤ vouched.size then some { n with vouched, ops := rest }
      else if handle = 0 ∨ (vouched.get handle).isSome then none
      else
        let caller := ⟨known.1, known.2, v.through⟩
        some { n with
          vouched := vouched.put handle caller
          ops := rest
          log := .vouched ⟨v, handle, caller⟩ :: n.log }
    | _ => none
  | _ => none

/-- A handle let go of, and a call that names one. -/
def answers (n : Node) : Action → Option Node
  | .unvouch connection handle =>
    if c.relaying connection ∧ (n.vouched.get handle).any fun caller => decide (caller.through = connection.identity.value)
    then some { n with vouched := n.vouched.drop handle, log := .unvouched handle :: n.log }
    else some n
  | .call connection handle now => some { n with vouched := (acting c n.vouched connection handle now).2 }
  | _ => none

def step (n : Node) (a : Action) : Option Node :=
  match a with
  | .tick by_ => some { n with now := n.now + by_ }
  | .nonces .. | .issue .. => n.issues c a
  | .vouch .. | .check _ | .spend _ => n.proves c a
  | .lookUp .. | .verify .. | .keep _ | .hold .. => n.holds c a
  | .unvouch .. | .call .. => n.answers c a

end Node

end Relaying
