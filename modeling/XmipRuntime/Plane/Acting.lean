import XmipRuntime.Plane.Relaying

/-!
# What a node does for its callers

A call that reaches a node's operate listener is decided before it is read, by its method, by the identity its connection
proved or the caller the node holds for a relay, and by the role its callers hold (`src/plane/served.rs`,
`src/plane/role.rs`).  An order is then audited, and only then applied to the pickup or the send step of the node it names
(`src/applied.rs`), and one taken is told to the program running the node; a secret is audited and then written
(`src/secret.rs`).

Any number of calls are answered at once, on as many connections, while relays vouch for their callers and let go of them
(`Relaying`).  A step is one look at the callers held, one record kept, one deed done or one telling of it.  What a call
led to is written down beside the state, in order; no step reads it.  The words of nouns and acts, and what makes a secret,
are outside the repository, by the fields of `Words` and `Secrets`.
-/

namespace Acting

open Library Plane Relaying

/-! ### What is asked -/

inductive Noun where
  | subscription
  | deadMessage
  | message
  | eventSubscription
  deriving DecidableEq

/-- The words of nouns and of the acts each takes. -/
structure Words (α : Type) where
  named : String → Option Noun
  called : Noun → String
  act : Noun → String → Except String α
  word : α → String
  replay : α

/-- The fields a call's message is read for, each empty where it says none. -/
structure Message where
  node : String
  target : String
  noun : String
  act : String
  name : String
  kind : String
  value : String
  deriving DecidableEq

structure Order (α : Type) where
  node : String
  noun : Noun
  target : String
  act : α
  who : String
  deriving DecidableEq

inductive Deed (α : Type) where
  | order (order : Order α)
  | secret (node name kind value who : String)
  deriving DecidableEq

variable {α κ : Type}

namespace Words

variable (words : Words α)

/-- The order a message gives, in words where it gives none. -/
def order (message : Message) (who : String) : Except String (Order α) :=
  match words.named message.noun with
  | none => .error ("REFUSED: '" ++ message.noun ++ "' is no noun")
  | some noun =>
    match words.act noun message.act with
    | .error refused => .error refused
    | .ok act => .ok ⟨message.node, noun, message.target, act, who⟩

/-- What a call asks to be done by `who`; a call that asks to read something asks for none. -/
def deed (method : Method) (message : Message) (who : String) : Option (Except String (Deed α)) :=
  match method with
  | .act => some ((words.order message who).map .order)
  | .secret => some (.ok (.secret message.node message.name message.kind message.value who))
  | .publication | .wait | .secrets => none

/-- The act a record names, and what it is on. -/
def asked : Deed α → String × String
  | .order order => (words.word order.act, words.called order.noun ++ " '" ++ order.target ++ "' at " ++ order.node)
  | .secret node name _ _ _ => ("set", "the secret '" ++ name ++ "' at " ++ node)

end Words

/-! ### The audit's record -/

/-- Who asks a call, and the relay it came through. -/
structure Asker where
  who : String
  through : Option String
  deriving DecidableEq

inductive Phase where
  | execute
  | failure
  deriving DecidableEq

structure Record where
  phase : Phase
  message : String
  act : String
  target : String
  who : String
  role : String
  through : Option String
  deriving DecidableEq

/-- Who asked, the act, its target and the role, taken or refused. -/
def record (role : Role) (asker : Asker) (asked : String × String) (refused : Option String) : Record :=
  let said := match asker.through with
    | some through => asker.who ++ " asked through " ++ through ++ " to " ++ asked.1 ++ " " ++ asked.2
    | none => asker.who ++ " asked to " ++ asked.1 ++ " " ++ asked.2
  match refused with
  | none => ⟨.execute, said, asked.1, asked.2, asker.who, role.word, asker.through⟩
  | some refused => ⟨.failure, refused, asked.1, asked.2, asker.who, role.word, asker.through⟩

/-! ### What is done -/

inductive Applied where
  | taken (said : String)
  | refused (said : String)
  | failed (said : String)
  deriving DecidableEq

/-- What an act's own answer says. -/
def Applied.of : Except String String → Applied
  | .ok said => .taken said
  | .error said => if "FAILED".isPrefixOf said then .failed said else .refused said

/-- What makes a secret, and the words of its kinds. -/
structure Secrets (κ : Type) where
  name : String → Except String Unit
  named : String → Option κ
  word : κ → String
  all : List κ
  secret : String → κ → String → Except String Unit

/-- A node's pickup, as it answers now, with the Xmip Storage its secrets are written through. -/
structure Pickup (α κ : Type) where
  node : String
  replay : (target who : String) → Except String String
  act : (target : String) → α → (who : String) → Except String String
  writeSecret : (name : String) → κ → (value who : String) → Except String Unit

structure SendStep (α : Type) where
  node : String
  act : (target : String) → α → (who : String) → Except String String

/-- The nodes this process runs. -/
structure Process (α κ : Type) where
  pickups : List (Pickup α κ)
  sendSteps : List (SendStep α)

namespace Process

variable [DecidableEq α] (words : Words α) (secrets : Secrets κ) (process : Process α κ)

/-- An order applied to the node it names. -/
def apply (order : Order α) : Applied :=
  let absent := Applied.refused ("REFUSED: no node at " ++ order.node ++ " runs in this process")
  match order.noun with
  | .subscription | .deadMessage =>
    match process.pickups.find? fun pickup => decide (pickup.node = order.node) with
    | none => absent
    | some pickup =>
      .of (if order.act = words.replay then pickup.replay order.target order.who
        else pickup.act order.target order.act order.who)
  | .message =>
    match process.sendSteps.find? fun step => decide (step.node = order.node) with
    | none => absent
    | some step => .of (step.act order.target order.act order.who)
  | .eventSubscription =>
    .refused ("REFUSED: " ++ order.node ++ " keeps no Event subscription hub; the Event subscription '" ++ order.target ++
      "' is another process's")

/-- Whose Xmip Storage a secret is written through. -/
def storageOf (node : String) : Except String (Pickup α κ) :=
  let found := if node = "" ∧ process.pickups.length = 1 then process.pickups.head?
    else process.pickups.find? fun pickup => decide (pickup.node = node)
  match found with
  | some pickup => .ok pickup
  | none =>
    if node = "" then .error "REFUSED: name the node; this process runs more than one node, or none"
    else .error ("REFUSED: no node at " ++ node ++ " runs in this process")

/-- A secret made, in words where it is none. -/
def made (name kind value : String) : Except String κ := do
  let () ← secrets.name name
  let made ← match secrets.named kind with
    | some made => .ok made
    | none => .error ("'" ++ kind ++ "' is no kind of secret: " ++ String.intercalate ", " (secrets.all.map secrets.word))
  let () ← secrets.secret name made value
  .ok made

/-- A secret set through a node. -/
def set (node name kind value who : String) : Applied :=
  match made secrets name kind value with
  | .error why => .refused ("REFUSED: " ++ why)
  | .ok kind =>
    match process.storageOf node with
    | .error refused => .refused refused
    | .ok pickup =>
      match pickup.writeSecret name kind value who with
      | .ok () => .taken ("the secret '" ++ name ++ "', a " ++ secrets.word kind ++
          ", is set; a Location naming it presents it as it next connects")
      | .error failed => .failed ("FAILED: the secret '" ++ name ++ "' is not set, Xmip Storage did not take it: " ++ failed)

def does : Deed α → Applied
  | .order order => process.apply words order
  | .secret node name kind value who => process.set secrets node name kind value who

end Process

/-! ### Calls -/

/-- What a call is answered. -/
inductive Said where
  | outcome (word said : String)
  | refused (said : String)
  | refusal (status why : String)
  deriving DecidableEq

/-- A method as it is called. -/
def word : Method → String
  | .publication => "Publication"
  | .wait => "Wait"
  | .act => "Act"
  | .secret => "SetSecret"
  | .secrets => "Secrets"

/-- A refusal, as the call's method answers one. -/
def answeredRefused (method : Method) (refused : String) : Said :=
  match method with
  | .act | .secret => .outcome "denied" refused
  | .secrets => .refused refused
  | .publication | .wait => .refusal "PERMISSION_DENIED" refused

def Applied.outcome : Applied → Said
  | .taken said => .outcome "taken" said
  | .refused said => .outcome "refused" said
  | .failed said => .outcome "failed" said

/-- Where a call is: to be decided; admitted, its deed not yet audited; audited; its order taken, not yet told; reading
what it asks for; or answered. -/
inductive Stage (α : Type) where
  | called
  | admitted (asker : Asker) (deed : Deed α)
  | recorded (asker : Asker) (deed : Deed α)
  | taken (asker : Asker) (deed : Deed α) (said : String)
  | reading (message : Message)
  | answered (said : Said)
  deriving DecidableEq

structure Call (α : Type) where
  connection : Connection
  request : Request Message
  stage : Stage α
  /-- The node's relays and the clock as it was decided, once it was; no step reads it. -/
  decision : Option (Node × Int)

/-- What a call led to. -/
inductive Event (α : Type) where
  | recorded (record : Record)
  | done (deed : Deed α) (applied : Applied)
  /-- The program running the node told that an act was taken. -/
  | told
  deriving DecidableEq

structure World (α : Type) where
  node : Node
  calls : List (Call α)
  /-- What the calls led to, each with the call it is of, in order. -/
  log : List (Nat × Event α)

def World.Begins (w : World α) : Prop := w = ⟨.starting, [], []⟩

inductive Action (α κ : Type) where
  /-- A relay asks, or a caller is let go of. -/
  | node (a : Relaying.Action)
  | call (connection : Connection) (request : Request Message)
  /-- A call decided, the system's clock read. -/
  | decide (i : Nat) (now : Int)
  | record (i : Nat)
  | carry (i : Nat) (process : Process α κ)
  | tell (i : Nat)

variable {χ π : Type} (c : Settings χ π) (serve : Serve) (words : Words α) (secrets : Secrets κ)

/-- A call decided, and what it is recorded as where it is refused by role. -/
def decided (request : Request Message) (acting : Except String (AuthenticatedIdentity × Option String)) :
    Stage α × List (Event α) :=
  match acting with
  | .error refused => (.answered (answeredRefused request.method refused), [])
  | .ok (identity, through) =>
    let asker : Asker := ⟨identity.value, through⟩
    match serve.admitted identity request.method with
    | .error refused =>
      (.answered (answeredRefused request.method refused),
        [.recorded (record serve.role asker (word request.method, "") (some refused))])
    | .ok () =>
      match request.message with
      | .error why => (.answered (.refusal "INVALID_ARGUMENT" why), [])
      | .ok message =>
        match words.deed request.method message asker.who with
        | none => (.reading message, [])
        | some (.error said) => (.answered (.outcome "invalid" said), [])
        | some (.ok deed) => (.admitted asker deed, [])

/-- What a call goes on as once its deed is done. -/
def after (asker : Asker) (deed : Deed α) (applied : Applied) : Stage α :=
  match deed, applied with
  | .order _, .taken said => .taken asker deed said
  | _, _ => .answered applied.outcome

namespace World

/-- The call at `i` goes on, with what it led to. -/
def goes (w : World α) (i : Nat) (call : Call α) (events : List (Event α)) : World α :=
  { w with calls := w.calls.set i call, log := w.log ++ events.map fun event => (i, event) }

def step [DecidableEq α] (w : World α) : Action α κ → Option (World α)
  | .node a => (w.node.step c a).map fun node => { w with node }
  | .call connection request => some { w with calls := w.calls ++ [⟨connection, request, .called, none⟩] }
  | .decide i now =>
    match w.calls[i]? with
    | some ⟨connection, request, .called, _⟩ =>
      let (acting, vouched) := Node.acting c w.node.vouched connection request.caller now
      let (stage, events) := decided serve words request acting
      let call : Call α := ⟨connection, request, stage, some (w.node, now)⟩
      some (({ w with node := { w.node with vouched } } : World α).goes i call events)
    | _ => none
  | .record i =>
    match w.calls[i]? with
    | some ⟨connection, request, .admitted asker deed, decision⟩ =>
      some (w.goes i ⟨connection, request, .recorded asker deed, decision⟩
        [.recorded (Acting.record serve.role asker (words.asked deed) none)])
    | _ => none
  | .carry i process =>
    match w.calls[i]? with
    | some ⟨connection, request, .recorded asker deed, decision⟩ =>
      let applied := process.does words secrets deed
      some (w.goes i ⟨connection, request, after asker deed applied, decision⟩ [.done deed applied])
    | _ => none
  | .tell i =>
    match w.calls[i]? with
    | some ⟨connection, request, .taken _ _ said, decision⟩ =>
      some (w.goes i ⟨connection, request, .answered (.outcome "taken" said), decision⟩ [.told])
    | _ => none

end World

end Acting
