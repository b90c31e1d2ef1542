import Mathlib.Algebra.Ring.Nat
import Mathlib.Data.List.Basic
import XmipRuntime.Plane.Acting
import XmipRuntime.Plane.Asking

/-!
# A call as it crosses

A surface puts each call of the operate service on a stream of its own, its method in the path, its caller's handle in a
header and its message JSON in a frame, and the node reads it there; the answer's status is in its trailers, and the surface
reads it back (`src/plane/call.rs`, `src/plane/line.rs`).  Each end names the fields of its messages itself
(`src/plane/remote.rs`, `src/plane/remote/secret.rs`, `src/plane/follow.rs`, `src/plane/served.rs`).

What a surface asks is what the node reads (`read_of_request`), and what the node answers is what the surface is told
(`tells_of_answer`): above all, nothing a node answers is taken for a line that was lost, on which a surface asks once more
(`tells_of_call`).  So it is of every answer of `Acting`'s node (`tells_of_reach`).

JSON, frames, percent encoding and the numbers of gRPC's statuses are other crates', by the fields of `Codec`; HTTP/2 carries
a request and a response whole.
-/

namespace Calls

open Library
open Relaying (Method)
open Acting (Message Said word)

/-! ### What crosses -/

/-- A JSON value; of those that are neither texts, lists, objects nor numbers without a sign nothing is read. -/
inductive Value where
  | null
  | number (n : Nat)
  | text (s : String)
  | list (items : List Value)
  | object (fields : List (String × Value))
  | other (s : String)

namespace Value

/-- The value under a key; null where there is none. -/
def get (v : Value) (key : String) : Value :=
  match v with
  | .object fields => (fields.find? fun field => decide (field.1 = key)).elim .null Prod.snd
  | _ => .null

def asNumber : Value → Option Nat
  | .number n => some n
  | _ => none

def asText : Value → Option String
  | .text s => some s
  | _ => none

/-- A value either end reads: a text, a number of 64 bits, or none. -/
inductive Plain : Value → Prop where
  | null : Plain .null
  | number {n : Nat} : n < 2 ^ 64 → Plain (.number n)
  | text {s : String} : Plain (.text s)

/-- A value either end writes: numbers of 64 bits, and no key twice in an object. -/
inductive Written : Value → Prop where
  | null : Written .null
  | number {n : Nat} : n < 2 ^ 64 → Written (.number n)
  | text {s : String} : Written (.text s)
  | list {items : List Value} : (∀ item ∈ items, Written item) → Written (.list items)
  | object {fields : List (String × Value)} : (fields.map Prod.fst).Nodup → (∀ field ∈ fields, Written field.2) →
      Written (.object fields)
  | other {s : String} : Written (.other s)

/-- One value as another: alike at every key and in every place, whatever order an object's keys are in, and nothing said
of what is never read. -/
inductive Alike : Value → Value → Prop where
  | null : Alike .null .null
  | number {n : Nat} : Alike (.number n) (.number n)
  | text {s : String} : Alike (.text s) (.text s)
  | list {items items' : List Value} : items.length = items'.length →
      (∀ (i : Nat) item item', items[i]? = some item → items'[i]? = some item' → Alike item item') →
      Alike (.list items) (.list items')
  | object {fields fields' : List (String × Value)} :
      (∀ key, Alike ((Value.object fields).get key) ((Value.object fields').get key)) →
      Alike (.object fields) (.object fields')
  | other {s s' : String} : Alike (.other s) (.other s')

theorem Alike.eq_of_plain {v v' : Value} (h : v.Alike v') (hplain : v.Plain) : v' = v := by
  cases hplain with
  | null => cases h; rfl
  | number hn => cases h; rfl
  | text => cases h; rfl

/-- Of values alike, what either end reads at a key of one is at it in the other. -/
theorem Alike.get {v v' : Value} (h : v.Alike v') (key : String) (hplain : (v.get key).Plain) : v'.get key = v.get key := by
  cases h with
  | object hkeys => exact (hkeys key).eq_of_plain hplain
  | _ => rfl

/-- A value written is as itself. -/
theorem Written.alike {v : Value} (h : v.Written) : v.Alike v := by
  induction h with
  | null => exact .null
  | number => exact .number
  | text => exact .text
  | list hitems ih =>
    refine .list rfl fun i item item' hitem hitem' => ?_
    obtain rfl := Option.some.inj (hitem.symm.trans hitem')
    exact ih item (List.mem_of_getElem? hitem)
  | @object fields hkeys hfields ih =>
    refine .object fun key => ?_
    cases hfind : fields.find? fun field => decide (field.1 = key) with
    | none => simpa [Value.get, hfind] using Alike.null
    | some field => simpa [Value.get, hfind] using ih field (List.mem_of_find?_eq_some hfind)
  | other => exact .other

/-- A value of fields each of which either end reads. -/
inductive Simple : Value → Prop where
  | object {fields : List (String × Value)} : (fields.map Prod.fst).Nodup → (∀ field ∈ fields, field.2.Plain) →
      Simple (.object fields)

theorem Plain.written {v : Value} (h : v.Plain) : v.Written := by
  cases h with
  | null => exact .null
  | number hn => exact .number hn
  | text => exact .text

theorem Simple.written {v : Value} (h : v.Simple) : v.Written := by
  obtain ⟨hkeys, hplain⟩ := h
  exact .object hkeys fun field hfield => (hplain field hfield).written

theorem Simple.plain {v : Value} (h : v.Simple) (key : String) : (v.get key).Plain := by
  obtain @⟨fields, -, hplain⟩ := h
  cases hfind : fields.find? fun field => decide (field.1 = key) with
  | none => simpa [get, hfind] using Plain.null
  | some field => simpa [get, hfind] using hplain field (List.mem_of_find?_eq_some hfind)

end Value

structure Request (β : Type) where
  method : String
  path : String
  headers : List (String × String)
  body : β

structure Response (β : Type) where
  status : Nat
  headers : List (String × String)
  body : Option β
  trailers : List (String × String)

/-- The statuses a node refuses a call with. -/
def refusals : List String := ["UNIMPLEMENTED", "PERMISSION_DENIED", "INVALID_ARGUMENT", "INTERNAL"]

/-- What other crates make of a message's bytes, a text's and a status's name; what they write they read. -/
structure Codec (β : Type) where
  print : Value → β
  parse : β → Except String Value
  frame : β → Except String β
  unframe : β → Except String β
  encode : String → String
  decode : String → String
  code : String → Nat
  white : Char → Bool
  parse_print : ∀ v : Value, v.Written → ∃ read, parse (print v) = .ok read ∧ v.Alike read
  unframe_frame : ∀ {b framed}, frame b = .ok framed → unframe framed = .ok b
  decode_encode : ∀ s, decode (encode s) = s
  code_refusal : ∀ name ∈ refusals, code name ≠ 0
  white_digit : ∀ ch : Char, ch.isDigit = true → white ch = false

def service : String := "xmip.operate.v1.Operate"

def callerHeader : String := "xmip-caller"

def contentTypeJson : String := "application/grpc+json"

def grpcStatus : String := "grpc-status"

def grpcMessage : String := "grpc-message"

/-- The longest one wait is held, in milliseconds. -/
def longestWait : Nat := 25000

/-- The path a method is called at. -/
def pathOf (method : String) : String := "/" ++ service ++ "/" ++ method

/-- The method a path calls, where it is one of the service's. -/
def methodOf (path : String) : Option String := do
  let rest ← path.toList.dropPrefix? "/".toList
  let rest ← rest.dropPrefix? service.toList
  let rest ← rest.dropPrefix? "/".toList
  some (String.ofList rest)

/-- Names alike but for the case of their letters. -/
def sameName (a b : String) : Bool := decide (a.map Char.toLower = b.map Char.toLower)

/-- The first field of a name. -/
def fieldOf (fields : List (String × String)) (name : String) : Option String :=
  (fields.find? fun field => sameName field.1 name).map Prod.snd

/-- A number of 64 bits, as its digits say it, after a sign or none. -/
def parseNumber (digits : List Char) : Option Nat :=
  let digits := (digits.dropPrefix? ['+']).getD digits
  let n := Nat.ofDigitChars 10 digits 0
  if digits ≠ [] ∧ digits.all Char.isDigit = true ∧ n < 2 ^ 64 then some n else none

section Codec

variable {β : Type} (c : Codec β)

/-- A text without the blanks around it. -/
def trimmed (s : String) : List Char := ((s.toList.dropWhile c.white).reverse.dropWhile c.white).reverse

/-- A method called, for the caller a handle names where one does. -/
def request (authority method : String) (message : Value) (caller : Option UInt64) : Except String (Request β) := do
  let body ← c.frame (c.print message)
  let headers := [("host", authority), ("content-type", contentTypeJson), ("te", "trailers")]
  return ⟨"POST", pathOf method,
    headers ++ caller.elim [] (fun handle => [(callerHeader, toString handle.toNat)]), body⟩

/-- The handle a call names its caller by; 0 for a header that is none. -/
def callerOf (request : Request β) : Option Nat :=
  (fieldOf request.headers callerHeader).map fun value => (parseNumber (trimmed c value)).getD 0

/-- The message a request carries. -/
def message (request : Request β) : Except String Value := do
  let message ← c.unframe request.body
  (c.parse message).mapError fun error => "the message is not JSON: " ++ error

/-- An answer with no message: a status and why. -/
def refusal (name why : String) : Response β :=
  ⟨200, [("content-type", contentTypeJson)], none, [(grpcStatus, toString (c.code name)), (grpcMessage, c.encode why)]⟩

/-- An answer carrying a message. -/
def answer (message : Value) : Response β :=
  match c.frame (c.print message) with
  | .ok body => ⟨200, [("content-type", contentTypeJson)], some body, [(grpcStatus, "0")]⟩
  | .error failed => refusal c "INTERNAL" failed

/-- What a refusal is told as. -/
def refused (status said : String) : String := Surface.refusedCall ++ " (" ++ status ++ "): " ++ said

/-- The message an answer carries; a body that is none reads as `empty`. -/
def answered (empty : β) (response : Response β) : Except String Value :=
  if response.status ≠ 200 then .error ("the node answered HTTP " ++ toString response.status)
  else
    let field := fieldOf (response.trailers ++ response.headers)
    let status := (field grpcStatus).getD "2"
    if status ≠ "0" then .error (refused status ((field grpcMessage).elim "" c.decode))
    else do
      let message ← c.unframe (response.body.getD empty)
      (c.parse message).mapError fun error => "the answer is not JSON: " ++ error

/-! ### What a surface asks -/

/-- A surface's calls. -/
inductive Ask where
  | publication
  | wait (after within : UInt64)
  | act (node noun target deed : String)
  | secret (node name kind value : String)
  | secrets (node : String)

def Ask.method : Ask → Method
  | .publication => .publication
  | .wait _ _ => .wait
  | .act _ _ _ _ => .act
  | .secret _ _ _ _ => .secret
  | .secrets _ => .secrets

/-- The message a surface writes. -/
def Ask.message : Ask → Value
  | .publication => .object []
  | .wait after within => .object [("after", .number after.toNat), ("within_ms", .number within.toNat)]
  | .act node noun target deed =>
    .object [("node", .text node), ("noun", .text noun), ("target", .text target), ("act", .text deed)]
  | .secret node name kind value =>
    .object [("node", .text node), ("name", .text name), ("kind", .text kind), ("value", .text value)]
  | .secrets node => .object [("node", .text node)]

/-- A message as a node reads it: the revision a wait is to be past and how long it is held at most, and the rest. -/
structure Read where
  after : Nat
  within : Nat
  message : Message
  deriving DecidableEq

/-- What a surface means by it. -/
def Ask.means : Ask → Read
  | .publication => ⟨0, longestWait, ⟨"", "", "", "", "", "", ""⟩⟩
  | .wait after within => ⟨after.toNat, min within.toNat longestWait, ⟨"", "", "", "", "", "", ""⟩⟩
  | .act node noun target deed => ⟨0, longestWait, ⟨node, target, noun, deed, "", "", ""⟩⟩
  | .secret node name kind value => ⟨0, longestWait, ⟨node, "", "", "", name, kind, value⟩⟩
  | .secrets node => ⟨0, longestWait, ⟨node, "", "", "", "", "", ""⟩⟩

/-! ### What a node reads -/

/-- The method of a name, where the listener answers it for a surface. -/
def methodNamed (name : String) : Option Method :=
  [Method.publication, .wait, .act, .secret, .secrets].find? fun method => decide (word method = name)

/-- The calls a relay makes for itself. -/
def relayMethods : List String := ["Nonces", "Vouch", "Unvouch"]

/-- The fields of a message, each empty where it says none. -/
def readOf (v : Value) : Read :=
  let text (key : String) := (v.get key).asText.getD ""
  ⟨(v.get "after").asNumber.getD 0, min ((v.get "within_ms").asNumber.getD longestWait) longestWait,
    ⟨text "node", text "target", text "noun", text "act", text "name", text "kind", text "value"⟩⟩

/-- A call of a method as the node decides on it. -/
def requested (method : Method) (r : Request β) : Relaying.Request Read :=
  ⟨method, callerOf c r, (message c r).map readOf⟩

/-! ### What a node answers, and a surface is told -/

inductive Answer where
  | said (said : Said)
  | publication (revision : UInt64) (text : String)
  | waited (revision : UInt64)
  | listed (secrets : Value)
  /-- What a relay asked for itself is answered. -/
  | relayed (answer : Value)

/-- An answer's message; none for a refusal of the call. -/
def Answer.message : Answer → Option Value
  | .said (.outcome word why) => some (.object [("outcome", .text word), ("said", .text why)])
  | .said (.refused why) => some (.object [("refused", .text why)])
  | .said (.refusal _ _) => none
  | .publication revision text => some (.object [("revision", .number revision.toNat), ("publication", .text text)])
  | .waited revision => some (.object [("revision", .number revision.toNat)])
  | .listed secrets => some secrets
  | .relayed answer => some answer

/-- An answer as it is written. -/
def respond : Answer → Response β
  | .said (.refusal status why) => refusal c status why
  | given => answer c (given.message.getD .null)

/-- What a node decides on the calls it reads: a surface's, and those a relay makes for itself. -/
structure Deciding where
  surface : Relaying.Request Read → Answer
  relay : String → Except String Value → Answer

/-- A call answered. -/
def served (deciding : Deciding) (r : Request β) : Response β :=
  match methodOf r.path with
  | some name =>
    if name ∈ relayMethods then respond c (deciding.relay name (message c r))
    else match methodNamed name with
      | some method => respond c (deciding.surface (requested c method r))
      | none => refusal c "UNIMPLEMENTED" (r.path ++ " is no method of " ++ service)
  | none => refusal c "UNIMPLEMENTED" (r.path ++ " is no method of " ++ service)

/-- One call on a line to a node. -/
def call (empty : β) (sent : Request β → Except String (Response β)) (authority : String) (ask : Ask)
    (caller : Option UInt64) : Except String Value := do
  let request ← request c authority (word ask.method) ask.message caller
  let response ← sent request
  answered c empty response

end Codec

inductive Outcome where
  | taken
  | denied
  | refused
  | invalid
  | failed
  deriving DecidableEq

/-- The outcome the node's word names. -/
def Outcome.of (word : String) : Outcome :=
  if word = "taken" then .taken else if word = "denied" then .denied else if word = "invalid" then .invalid
  else if word = "failed" then .failed else .refused

/-- What an act or a secret set came to, and the node's sentence. -/
def outcomeTold (v : Value) : Outcome × String :=
  (Outcome.of ((v.get "outcome").asText.getD ""), (v.get "said").asText.getD "")

/-- The publication and its revision. -/
def publicationTold (v : Value) : Nat × String :=
  ((v.get "revision").asNumber.getD 0, (v.get "publication").asText.getD "")

/-- The revision a wait came to; the last one known where none is said. -/
def revisionTold (last : Nat) (v : Value) : Nat := (v.get "revision").asNumber.getD last

/-- The secrets listed, or the refusal to. -/
def secretsTold (v : Value) : Except String Value :=
  match (v.get "refused").asText with
  | some refused => .error refused
  | none => .ok v

/-! ### A request read -/

section Codec

variable {β : Type} {c : Codec β}

theorem methodOf_pathOf (name : String) : methodOf (pathOf name) = some name := by
  have hlist : (pathOf name).toList = "/".toList ++ (service.toList ++ ("/".toList ++ name.toList)) := by
    simp [pathOf, String.toList_append]
  have hcut (p rest : List Char) : (p ++ rest).dropPrefix? p = some rest :=
    List.dropPrefix?_append_of_beq rest (beq_self_eq_true p)
  unfold methodOf
  rw [hlist]
  simp only [hcut, Option.bind_eq_bind, Option.bind_some, String.ofList_toList]

theorem methodNamed_word (method : Method) : methodNamed (word method) = some method := by
  cases method <;> decide +kernel

theorem word_notMem_relayMethods (method : Method) : word method ∉ relayMethods := by
  cases method <;> decide +kernel

/-- The digits of a number of 64 bits are read as it, blanks around them or none. -/
theorem parseNumber_repr {n : Nat} (hn : n < 2 ^ 64) : parseNumber (trimmed c (toString n)) = some n := by
  have hlist : (toString n).toList = Nat.toDigits 10 n := Nat.toList_repr
  have hdigit : ∀ ch ∈ Nat.toDigits 10 n, ch.isDigit = true := fun ch hch =>
    Nat.isDigit_of_mem_toDigits (by omega) (by omega) hch
  have hblank (digits : List Char) (h : ∀ ch ∈ digits, ch.isDigit = true) : digits.dropWhile c.white = digits := by
    cases digits with
    | nil => rfl
    | cons ch rest => rw [List.dropWhile_cons_of_neg (by simp [c.white_digit ch (h ch (by simp))])]
  have htrimmed : trimmed c (toString n) = Nat.toDigits 10 n := by
    unfold trimmed
    rw [hlist, hblank _ hdigit, hblank _ (by simpa using hdigit), List.reverse_reverse]
  -- A sign is no digit, and none is there to drop.
  have hsign : ((Nat.toDigits 10 n).dropPrefix? ['+']).getD (Nat.toDigits 10 n) = Nat.toDigits 10 n := by
    cases h : (Nat.toDigits 10 n).dropPrefix? ['+'] with
    | none => rfl
    | some rest =>
      obtain ⟨front, heq, hfront⟩ := List.dropPrefix?_eq_some_iff.1 h
      have hmem : '+' ∈ Nat.toDigits 10 n := by simp [heq, eq_of_beq hfront]
      exact absurd (hdigit '+' hmem) (by decide)
  have hvalue : Nat.ofDigitChars 10 (Nat.toDigits 10 n) 0 = n := Nat.ofDigitChars_ten_toDigits
  unfold parseNumber
  simp only [htrimmed, hsign, hvalue]
  exact if_pos ⟨Nat.toDigits_ne_nil, List.all_eq_true.2 hdigit, hn⟩

/-- What a surface's call is framed as is called at the method's path, for the caller of the handle it was made for. -/
theorem request_ok {authority method : String} {v : Value} {caller : Option UInt64} {r : Request β}
    (hr : request c authority method v caller = .ok r) :
    methodOf r.path = some method ∧ callerOf c r = caller.map UInt64.toNat ∧ c.frame (c.print v) = .ok r.body := by
  unfold request at hr
  cases hframe : c.frame (c.print v) with
  | error failed => simp [hframe, bind, Except.bind] at hr
  | ok body =>
    simp only [hframe, bind, Except.bind, pure, Except.pure, Except.ok.injEq] at hr
    subst hr
    refine ⟨methodOf_pathOf method, ?_, rfl⟩
    have hhost : sameName "host" callerHeader = false := by decide +kernel
    have htype : sameName "content-type" callerHeader = false := by decide +kernel
    have hte : sameName "te" callerHeader = false := by decide +kernel
    have hcaller : sameName callerHeader callerHeader = true := by decide +kernel
    cases caller with
    | none => simp [callerOf, fieldOf, hhost, htype, hte]
    | some handle =>
      have hread : callerOf c ⟨"POST", pathOf method, [("host", authority), ("content-type", contentTypeJson),
          ("te", "trailers")] ++ [(callerHeader, toString handle.toNat)], body⟩ =
          some ((parseNumber (trimmed c (toString handle.toNat))).getD 0) := by
        simp [callerOf, fieldOf, hhost, htype, hte, hcaller]
      simp only [Option.elim_some, hread, parseNumber_repr handle.toNat_lt, Option.getD_some, Option.map_some]

/-- A message written is read as it was. -/
theorem message_ok {r : Request β} {v : Value} (hv : v.Written) (hframe : c.frame (c.print v) = .ok r.body) :
    ∃ read, message c r = .ok read ∧ v.Alike read := by
  obtain ⟨read, hread, halike⟩ := c.parse_print v hv
  refine ⟨read, ?_, halike⟩
  simp [message, c.unframe_frame hframe, hread, bind, Except.bind, Except.mapError]

theorem simple_message (ask : Ask) : ask.message.Simple := by
  cases ask with
  | publication => exact .object .nil (by simp)
  | wait after within =>
    refine .object (by simp) fun field hfield => ?_
    simp only [List.mem_cons, List.not_mem_nil, or_false] at hfield
    obtain rfl | rfl := hfield
    · exact .number after.toNat_lt
    · exact .number within.toNat_lt
  | act node noun target deed => exact .object (by simp) (by simp [Value.Plain.text])
  | secret node name kind value => exact .object (by simp) (by simp [Value.Plain.text])
  | secrets node => exact .object (by simp) (by simp [Value.Plain.text])

theorem readOf_message (ask : Ask) : readOf ask.message = ask.means := by
  cases ask <;> simp [readOf, Ask.message, Ask.means, Value.get, Value.asText, Value.asNumber]

theorem readOf_congr {v read : Value} (h : ∀ key, read.get key = v.get key) : readOf read = readOf v := by
  simp only [readOf, h]

/-- What a surface asks is what the node reads: its method, the caller it is for, and all it says. -/
theorem read_of_request {authority : String} {ask : Ask} {caller : Option UInt64} {r : Request β}
    (hr : request c authority (word ask.method) ask.message caller = .ok r) :
    (methodOf r.path).bind methodNamed = some ask.method ∧
      requested c ask.method r = ⟨ask.method, caller.map UInt64.toNat, .ok ask.means⟩ := by
  obtain ⟨hmethod, hcaller, hframe⟩ := request_ok hr
  have hsimple := simple_message ask
  obtain ⟨read, hread, halike⟩ := message_ok hsimple.written hframe
  have hmeans : readOf read = ask.means := by
    rw [readOf_congr fun key => halike.get key (hsimple.plain key), readOf_message]
  refine ⟨by rw [hmethod, Option.bind_some, methodNamed_word], ?_⟩
  simp [requested, hcaller, hread, hmeans, Except.map]

/-! ### An answer told -/

/-- What a node answers with: a status a node refuses with, and a listing that is no refusal. -/
def Answer.Fits : Answer → Prop
  | .said (.refusal status _) => status ∈ refusals
  | .listed secrets => secrets.Written ∧ secrets.get "refused" = .null
  | .relayed answer => answer.Written
  | _ => True

/-- What is told of an answer as it was meant. -/
def Answer.Tells (c : Codec β) : Answer → Except String Value → Prop
  | .said (.outcome word why), told => ∃ read, told = .ok read ∧ outcomeTold read = (Outcome.of word, why)
  | .said (.refused why), told => ∃ read, told = .ok read ∧ secretsTold read = .error why
  | .said (.refusal status why), told => told = .error (refused (toString (c.code status)) why)
  | .publication revision text, told => ∃ read, told = .ok read ∧ publicationTold read = (revision.toNat, text)
  | .waited revision, told => ∃ read, told = .ok read ∧ ∀ last, revisionTold last read = revision.toNat
  | .listed v, told => ∃ read, told = .ok read ∧ secretsTold read = .ok read ∧ v.Alike read
  | .relayed v, told => ∃ read, told = .ok read ∧ v.Alike read

theorem answered_refusal {empty : β} {name : String} (hname : name ∈ refusals) (why : String) :
    answered c empty (refusal c name why) = .error (refused (toString (c.code name)) why) := by
  have hstatus : sameName grpcStatus grpcStatus = true := by decide +kernel
  have hother : sameName grpcStatus grpcMessage = false := by decide +kernel
  have hmessage : sameName grpcMessage grpcMessage = true := by decide +kernel
  have hcode : toString (c.code name) ≠ "0" := by
    intro h
    refine c.code_refusal name hname ?_
    calc c.code name = Nat.ofDigitChars 10 (toString (c.code name)).toList 0 := by
          rw [show (toString (c.code name)).toList = Nat.toDigits 10 (c.code name) from Nat.toList_repr,
            Nat.ofDigitChars_ten_toDigits]
      _ = 0 := by rw [h]; decide +kernel
  have hread : fieldOf ((refusal c name why).trailers ++ (refusal c name why).headers) grpcStatus =
      some (toString (c.code name)) := by
    simp [refusal, fieldOf, hstatus]
  have hwhy : fieldOf ((refusal c name why).trailers ++ (refusal c name why).headers) grpcMessage = some (c.encode why) := by
    simp [refusal, fieldOf, hother, hmessage]
  unfold answered
  simp only [hread, hwhy, Option.getD_some, ne_eq, hcode, not_false_eq_true, if_true, Option.elim_some, c.decode_encode]
  rfl

/-- A message answered in a frame is read as it was. -/
theorem answered_answer {empty body : β} {v : Value} (hv : v.Written) (hframe : c.frame (c.print v) = .ok body) :
    ∃ read, answered c empty (answer c v) = .ok read ∧ v.Alike read := by
  have hstatus : sameName grpcStatus grpcStatus = true := by decide +kernel
  obtain ⟨read, hread, halike⟩ := c.parse_print v hv
  refine ⟨read, ?_, halike⟩
  simp [answered, answer, hframe, fieldOf, hstatus, c.unframe_frame hframe, hread, bind, Except.bind, Except.mapError]

/-- A message no frame holds is answered as a refusal. -/
theorem answered_unframed {empty : β} {v : Value} {failed : String} (hframe : c.frame (c.print v) = .error failed) :
    answered c empty (answer c v) = .error (refused (toString (c.code "INTERNAL")) failed) := by
  have hrefusal : answer c v = refusal c "INTERNAL" failed := by simp [answer, hframe]
  rw [hrefusal, answered_refusal (by decide)]

/-- An answer with a message is written as its message. -/
theorem respond_message {a : Answer} {v : Value} (hv : a.message = some v) : respond c a = answer c v := by
  cases a with
  | said what =>
    cases what with
    | outcome word why => simp [respond, hv]
    | refused why => simp [respond, hv]
    | refusal status why => simp [Answer.message] at hv
  | _ => simp [respond, hv]

theorem Answer.Fits.written {a : Answer} {v : Value} (ha : a.Fits) (hv : a.message = some v) : v.Written := by
  cases a with
  | said what =>
    cases what with
    | outcome word why =>
      obtain rfl := Option.some.inj hv
      exact .object (by simp) (by simp [Value.Written.text])
    | refused why =>
      obtain rfl := Option.some.inj hv
      exact .object (by simp) (by simp [Value.Written.text])
    | refusal status why => simp [Answer.message] at hv
  | publication revision text =>
    obtain rfl := Option.some.inj hv
    exact .object (by simp) (by simp [Value.Written.text, Value.Written.number revision.toNat_lt])
  | waited revision =>
    obtain rfl := Option.some.inj hv
    exact .object (by simp) (by simp [Value.Written.number revision.toNat_lt])
  | listed secrets =>
    obtain rfl := Option.some.inj hv
    exact ha.1
  | relayed answer =>
    obtain rfl := Option.some.inj hv
    exact ha

/-- An answer is told as it was meant where a frame holds its message. -/
theorem tells_of_answer {empty : β} {a : Answer} (ha : a.Fits)
    (hframe : ∀ v, a.message = some v → ∃ body, c.frame (c.print v) = .ok body) :
    a.Tells c (answered c empty (respond c a)) := by
  have hread : ∀ v, a.message = some v → ∃ read, answered c empty (answer c v) = .ok read ∧ v.Alike read := by
    intro v hv
    obtain ⟨body, hbody⟩ := hframe v hv
    exact answered_answer (ha.written hv) hbody
  cases a with
  | said what =>
    cases what with
    | outcome word why =>
      obtain ⟨read, htold, halike⟩ := hread _ rfl
      have hword : read.get "outcome" = .text word :=
        (halike.get "outcome" (by simpa [Value.get] using .text)).trans (by simp [Value.get])
      have hwhy : read.get "said" = .text why :=
        (halike.get "said" (by simpa [Value.get] using .text)).trans (by simp [Value.get])
      exact ⟨read, htold, by simp [outcomeTold, hword, hwhy, Value.asText]⟩
    | refused why =>
      obtain ⟨read, htold, halike⟩ := hread _ rfl
      have hwhy : read.get "refused" = .text why :=
        (halike.get "refused" (by simpa [Value.get] using .text)).trans (by simp [Value.get])
      exact ⟨read, htold, by simp [secretsTold, hwhy, Value.asText]⟩
    | refusal status why => exact answered_refusal ha why
  | publication revision text =>
    obtain ⟨read, htold, halike⟩ := hread _ rfl
    have hrevision : read.get "revision" = .number revision.toNat :=
      (halike.get "revision" (by simpa [Value.get] using .number revision.toNat_lt)).trans (by simp [Value.get])
    have htext : read.get "publication" = .text text :=
      (halike.get "publication" (by simpa [Value.get] using .text)).trans (by simp [Value.get])
    exact ⟨read, htold, by simp [publicationTold, hrevision, htext, Value.asText, Value.asNumber]⟩
  | waited revision =>
    obtain ⟨read, htold, halike⟩ := hread _ rfl
    have hrevision : read.get "revision" = .number revision.toNat :=
      (halike.get "revision" (by simpa [Value.get] using .number revision.toNat_lt)).trans (by simp [Value.get])
    exact ⟨read, htold, fun last => by simp [revisionTold, hrevision, Value.asNumber]⟩
  | listed secrets =>
    obtain ⟨read, htold, halike⟩ := hread _ rfl
    have hnone := halike.get "refused" (by rw [ha.2]; exact .null)
    exact ⟨read, htold, by simp [secretsTold, hnone, ha.2, Value.asText], halike⟩
  | relayed answer => exact hread _ rfl

/-! ### A call made -/

theorem refuses_refused (status why : String) : Surface.refuses (refused status why) = true := by
  have hlist : (refused status why).toList = Surface.refusedCall.toList ++ (" (" ++ status ++ "): " ++ why).toList := by
    simp [refused, String.toList_append]
  unfold Surface.refuses
  rw [hlist, List.isPrefixOf_iff_prefix]
  exact List.prefix_append _ _

theorem refuses_of_tells {a : Answer} {why : String} (h : a.Tells c (.error why)) : Surface.refuses why = true := by
  cases a with
  | said what =>
    cases what with
    | outcome word why => simp [Answer.Tells] at h
    | refused why => simp [Answer.Tells] at h
    | refusal status said =>
      obtain rfl := Except.error.inj h
      exact refuses_refused _ _
  | publication revision text => simp [Answer.Tells] at h
  | waited revision => simp [Answer.Tells] at h
  | listed secrets => simp [Answer.Tells] at h
  | relayed answer => simp [Answer.Tells] at h

/-- What a call came to, as the surface goes on from it. -/
def replyOf (told : Except String Value) : Surface.Reply :=
  match told with
  | .ok _ => .answered
  | .error why => .failed why

/-- A node's answer to a call, or to say that no frame holds it. -/
theorem served_of_request {deciding : Deciding} {authority : String} {ask : Ask} {caller : Option UInt64} {r : Request β}
    (hr : request c authority (word ask.method) ask.message caller = .ok r) :
    served c deciding r = respond c (deciding.surface ⟨ask.method, caller.map UInt64.toNat, .ok ask.means⟩) := by
  obtain ⟨hmethod, hread⟩ := read_of_request hr
  rw [(request_ok hr).1, Option.bind_some] at hmethod
  unfold served
  simp [(request_ok hr).1, word_notMem_relayMethods, hmethod, hread]

/-- Of a call made on a line to a node, where a frame holds what is asked: the node decides on what the surface asks and
for whom, and the surface is told what it decides, or that no frame holds it; either way the line that was held is held,
and the call is not made again.  What no frame holds reaches no node, whatever would be answered. -/
theorem tells_of_call {deciding : Deciding} {empty : β} {authority : String} {ask : Ask} {caller : Option UInt64}
    (hfits : ∀ r, (deciding.surface r).Fits)
    {told : Except String Value} (htold : told = call c empty (fun r => .ok (served c deciding r)) authority ask caller) :
    (∀ body, c.frame (c.print ask.message) = .ok body →
      ((deciding.surface ⟨ask.method, caller.map UInt64.toNat, .ok ask.means⟩).Tells c told ∨
        ∃ v failed, (deciding.surface ⟨ask.method, caller.map UInt64.toNat, .ok ask.means⟩).message = some v ∧
          c.frame (c.print v) = .error failed ∧ told = .error (refused (toString (c.code "INTERNAL")) failed)) ∧
      ∀ (s : Surface.Lines) (line : Nat) (o : Surface.Outcome), s.held = some line → o.first = replyOf told →
        (s.calling o).2 = s.put line (replyOf told)) ∧
    ∀ failed, c.frame (c.print ask.message) = .error failed →
      ∀ sent : Request β → Except String (Response β), call c empty sent authority ask caller = .error failed := by
  refine ⟨fun body hbody => ?_, fun failed hfailed sent => by simp [call, request, hfailed, bind, Except.bind]⟩
  obtain ⟨r, hr⟩ : ∃ r, request c authority (word ask.method) ask.message caller = .ok r := by
    simp [request, hbody, bind, Except.bind, pure, Except.pure]
  set said := deciding.surface ⟨ask.method, caller.map UInt64.toNat, .ok ask.means⟩ with hsaid
  have hserved : served c deciding r = respond c said := served_of_request hr
  have hcame : told = answered c empty (respond c said) := by
    rw [htold, ← hserved]
    simp [call, hr, bind, Except.bind]
  have htelling : said.Tells c told ∨ ∃ v failed, said.message = some v ∧ c.frame (c.print v) = .error failed ∧
      told = .error (refused (toString (c.code "INTERNAL")) failed) := by
    by_cases hframe : ∀ v, said.message = some v → ∃ body, c.frame (c.print v) = .ok body
    · rw [hcame]
      exact Or.inl (tells_of_answer (hfits _) hframe)
    · push Not at hframe
      obtain ⟨v, hv, hnone⟩ := hframe
      cases hfailed : c.frame (c.print v) with
      | ok body => exact absurd hfailed (hnone body)
      | error failed =>
        exact Or.inr ⟨v, failed, hv, hfailed, by rw [hcame, respond_message hv, answered_unframed hfailed]⟩
  have hrefuses : ∀ why, told = .error why → Surface.refuses why = true := by
    rintro why rfl
    obtain htells | ⟨v, failed, -, -, hfailed⟩ := htelling
    · exact refuses_of_tells htells
    · obtain rfl := Except.error.inj hfailed
      exact refuses_refused _ _
  refine ⟨htelling, fun s line o hheld hfirst => ?_⟩
  unfold Surface.Lines.calling
  rw [hheld, hfirst]
  cases hto : told with
  | ok v => simp [replyOf]
  | error why => simp [replyOf, hrefuses why hto]

end Codec

/-! ### The answers of a node -/

/-- The listener can write what the calls are answered. -/
def AnswersFit {α : Type} (calls : List (Acting.Call α)) : Prop :=
  ∀ (i : Nat) (call : Acting.Call α) said, calls[i]? = some call → call.stage = .answered said → (Answer.said said).Fits

section Node

variable {α κ χ π : Type} {c : Relaying.Settings χ π} {serve : Relaying.Serve} {words : Acting.Words α}
  {secrets : Acting.Secrets κ} {w w' : Acting.World α}

theorem fits_answeredRefused (method : Method) (refused : String) :
    (Answer.said (Acting.answeredRefused method refused)).Fits := by
  cases method with
  | publication => exact (by decide : "PERMISSION_DENIED" ∈ refusals)
  | wait => exact (by decide : "PERMISSION_DENIED" ∈ refusals)
  | act => trivial
  | secret => trivial
  | secrets => trivial

theorem fits_outcome (applied : Acting.Applied) : (Answer.said applied.outcome).Fits := by
  cases applied <;> trivial

theorem AnswersFit.goes {calls : List (Acting.Call α)} (h : AnswersFit calls) (i : Nat) {call' : Acting.Call α}
    (hstage : ∀ said, call'.stage = .answered said → (Answer.said said).Fits) : AnswersFit (calls.set i call') := by
  intro j call said hset hsaid
  by_cases hij : i = j
  · subst hij
    obtain ⟨hlt, heq⟩ := List.getElem?_eq_some_iff.1 hset
    rw [List.getElem_set_self] at heq
    exact hstage said (heq ▸ hsaid)
  · rw [List.getElem?_set_ne hij] at hset
    exact h j call said hset hsaid

/-- A call is decided with an answer the listener can write, or none yet. -/
theorem fits_of_decided {request : Relaying.Request Message}
    {acting : Except String (Plane.AuthenticatedIdentity × Option String)} {said : Said}
    (hsaid : (Acting.decided serve words request acting).1 = .answered said) : (Answer.said said).Fits := by
  unfold Acting.decided at hsaid
  split at hsaid
  · obtain rfl := Acting.Stage.answered.inj hsaid
    exact fits_answeredRefused _ _
  · simp only at hsaid
    split at hsaid
    · obtain rfl := Acting.Stage.answered.inj hsaid
      exact fits_answeredRefused _ _
    · split at hsaid
      · obtain rfl := Acting.Stage.answered.inj hsaid
        exact (by decide : "INVALID_ARGUMENT" ∈ refusals)
      · split at hsaid
        · cases hsaid
        · obtain rfl := Acting.Stage.answered.inj hsaid
          trivial
        · cases hsaid

theorem AnswersFit.step [DecidableEq α] {a : Acting.Action α κ} (h : AnswersFit w.calls)
    (hs : w.step c serve words secrets a = some w') : AnswersFit w'.calls := by
  cases a with
  | node a =>
    obtain ⟨node, -, rfl⟩ := Option.map_eq_some_iff.1 hs
    exact h
  | call connection request =>
    obtain rfl := Option.some.inj hs
    intro i call said hcall hsaid
    have hnew : (w.calls ++ [⟨connection, request, .called, none⟩])[i]? = some call := hcall
    rw [List.getElem?_append] at hnew
    split at hnew
    · exact h i call said hnew hsaid
    · obtain ⟨hlt, hone⟩ := List.getElem?_eq_some_iff.1 hnew
      simp only [List.getElem_singleton] at hone
      rw [← hone] at hsaid
      cases hsaid
  | decide i now =>
    simp only [Acting.World.step] at hs
    split at hs
    · obtain rfl := Option.some.inj hs
      exact h.goes i fun said hsaid => fits_of_decided hsaid
    · cases hs
  | record i =>
    simp only [Acting.World.step] at hs
    split at hs
    · obtain rfl := Option.some.inj hs
      exact h.goes i fun said hsaid => by cases hsaid
    · cases hs
  | carry i process =>
    simp only [Acting.World.step] at hs
    split at hs
    · obtain rfl := Option.some.inj hs
      refine h.goes i fun said hsaid => ?_
      unfold Acting.after at hsaid
      split at hsaid
      · cases hsaid
      · obtain rfl := Acting.Stage.answered.inj hsaid
        exact fits_outcome _
    · cases hs
  | tell i =>
    simp only [Acting.World.step] at hs
    split at hs
    · obtain rfl := Option.some.inj hs
      refine h.goes i fun said hsaid => ?_
      obtain rfl := Acting.Stage.answered.inj hsaid
      trivial
    · cases hs

/-- Over every run of calls on a node, the listener can write what each is answered. -/
theorem answersFit_of_reach [DecidableEq α]
    (h : Reach (Acting.World.step c serve words secrets) Always Acting.World.Begins w) : AnswersFit w.calls := by
  have hbegins : ∀ w : Acting.World α, w.Begins → AnswersFit w.calls := by
    intro w hw i call said hcall
    rw [show w = ⟨.starting, [], []⟩ from hw] at hcall
    simp at hcall
  exact Reach.invariant hbegins (fun _ _ _ hw _ hs => AnswersFit.step hw hs) h

/-- Over every run of calls on a node, what each is answered is told as it was meant, where a frame holds it. -/
theorem tells_of_reach [DecidableEq α] {β : Type} {codec : Codec β} {empty : β}
    (h : Reach (Acting.World.step c serve words secrets) Always Acting.World.Begins w) {i : Nat} {call : Acting.Call α}
    {said : Said} (hcall : w.calls[i]? = some call) (hsaid : call.stage = .answered said)
    (hframe : ∀ v, (Answer.said said).message = some v → ∃ body, codec.frame (codec.print v) = .ok body) :
    (Answer.said said).Tells codec (answered codec empty (respond codec (.said said))) :=
  tells_of_answer (answersFit_of_reach h i call said hcall hsaid) hframe

end Node

/-! ### A codec -/

/-- JSON in frames as it is. -/
def Codec.asIs : Codec Value where
  print := id
  parse := .ok
  frame := .ok
  unframe := .ok
  encode := id
  decode := id
  code name := refusals.idxOf name + 1
  white ch := decide (ch = ' ')
  parse_print v hv := ⟨v, rfl, hv.alike⟩
  unframe_frame h := h.symm
  decode_encode _ := rfl
  code_refusal _ _ := Nat.succ_ne_zero _
  white_digit ch h := by
    rw [decide_eq_false_iff_not]
    rintro rfl
    simp at h

/-- A node that takes every act, and says it. -/
def taking : Deciding where
  surface request := .said (.outcome "taken" (request.message.toOption.elim "" fun read => read.message.act))
  relay _ _ := .relayed .null

theorem tells_of_call_act :
    ∃ read, call Codec.asIs .null (fun r => .ok (served Codec.asIs taking r)) "node1:7001"
        (.act "node1" "channel" "orders" "pause") (some 7) = .ok read ∧ outcomeTold read = (.taken, "pause") := by
  have hfits : ∀ r, (taking.surface r).Fits := fun _ => trivial
  have htold := ((@tells_of_call Value Codec.asIs taking .null "node1:7001" (.act "node1" "channel" "orders" "pause")
    (some 7) hfits _ rfl).1 _ rfl).1
  obtain ⟨read, hread, hmeant⟩ | ⟨v, failed, -, hfailed, -⟩ := htold
  · exact ⟨read, hread, hmeant.trans (by decide +kernel)⟩
  · cases hfailed

end Calls
