import Mathlib.Data.List.Infix

/-!
# What the gates concluded, in the Message Context

`promote_identity` (`src/arrival/identity_context.rs`) writes into a new Message Context the headers the transport handed
over, what it observed that the context keeps, and then what the gates concluded of who sent the Stream: of the transport
always, of the Message where it carries an identity, whether the two disagree, and the Party where one answers for it.
Routing and authorization read these names, so nothing a sender hands over may stand under one of them.

The context, its values and the identities are other programs: a context is whatever takes a value under a name and
answers with the one it took last, and of an identity only the words it is written by are here.  A header reaches the
runtime as `<protocol>.header.<name>` (`src/receiving/received.rs`).
-/

namespace Arrival

/-- A Message Context of values `ν`: what was written last under a name is what it answers. -/
structure Contexts (κ ν : Type) where
  new : κ
  withValue : κ → String → ν → κ
  get : κ → String → Option ν
  text : String → ν
  bool : Bool → ν
  get_new : ∀ name, get new name = none
  get_withValue : ∀ k name value other, get (withValue k name value) other = if other = name then some value else get k other

/-- An identity a gate concluded, by the words it is promoted as. -/
structure Identity where
  mechanism : String
  value : String
  classWord : String
  proven : Bool
  verified : String
  established : String
  party : Option String
  concludedAt : Option Int
  deriving DecidableEq

/-- A claim no authenticator checked, as it is recorded. -/
structure UncheckedClaim where
  mechanism : String
  value : String
  established : String
  deriving DecidableEq

structure IdentityFacts where
  transport : Identity
  message : Option Identity
  misaligned : Bool
  unchecked : List UncheckedClaim
  deriving DecidableEq

/-- What of a Stream received the Message Context is written from. -/
structure Handed (ν : Type) where
  arriving : String
  headers : List (String × ν)
  observed : List (String × String)

variable {κ ν : Type} (m : Contexts κ ν)

/-- The values of `entries` written one after the other. -/
def Contexts.write (k : κ) (entries : List (String × ν)) : κ := entries.foldl (fun k x => m.withValue k x.1 x.2) k

/-- What is promoted of `identity`, each under its name at `layer`. -/
def promotedAs (layer : String) (identity : Identity) : List (String × ν) :=
  [(layer ++ ".mechanism", m.text identity.mechanism), (layer ++ ".identity", m.text identity.value),
    (layer ++ ".class", m.text identity.classWord), (layer ++ ".proven", m.bool identity.proven),
    (layer ++ ".verified", m.text identity.verified), (layer ++ ".established", m.text identity.established)]

/-- The name the Party is promoted under. -/
def party : String := "xmip.party"

/-- What the transport handed over that is written: its headers, and what it observed that the context keeps. -/
def handedOver (kept : List String) (received : Handed ν) : List (String × ν) :=
  received.headers ++ (received.observed.filter fun x => kept.contains x.1).map fun x => (x.1, m.text x.2)

/-- What the gates concluded, as it is written; `accountable` is the Party that answers for it. -/
def concluded (accountable : IdentityFacts → Option String) (facts : IdentityFacts) : List (String × ν) :=
  promotedAs m "xmip.transport" facts.transport ++ facts.message.toList.flatMap (promotedAs m "xmip.message") ++
    [("xmip.identity.misaligned", m.bool facts.misaligned)] ++
    (accountable facts).toList.map fun name => (party, m.text name)

def promoteIdentity (kept : List String) (accountable : IdentityFacts → Option String) (facts : IdentityFacts)
    (received : Handed ν) : κ :=
  m.write (m.write (m.write m.new (handedOver m kept received)) [("xmip.arriving", m.text received.arriving)])
    (concluded m accountable facts)

/-! ### The names of an identity -/

/-- Every name an identity is promoted under, at either layer. -/
def identityNames : List String :=
  ["xmip.transport.mechanism", "xmip.transport.identity", "xmip.transport.class", "xmip.transport.proven",
    "xmip.transport.verified", "xmip.transport.established", "xmip.message.mechanism", "xmip.message.identity",
    "xmip.message.class", "xmip.message.proven", "xmip.message.verified", "xmip.message.established",
    "xmip.identity.misaligned", party]

/-- A name a header travels by. -/
def Travels (name : String) : Prop := ∃ protocol field, name = protocol ++ ".header." ++ field

theorem not_identity_of_travels {name : String} (h : Travels name) : name ∉ identityNames := by
  obtain ⟨protocol, field, rfl⟩ := h
  intro hmem
  have hinfix : ".header.".toList <:+: (protocol ++ ".header." ++ field).toList := by
    rw [String.toList_append, String.toList_append]
    exact List.infix_append ..
  have hnone : ∀ name ∈ identityNames, ¬ ".header.".toList <:+: name.toList := by decide
  exact hnone _ hmem hinfix

/-! ### What is read back -/

/-- The value written last under `name`. -/
def lastUnder (entries : List (String × ν)) (name : String) : Option ν :=
  (entries.reverse.find? fun x => decide (x.1 = name)).map Prod.snd

theorem lastUnder_append (l l' : List (String × ν)) (name : String) :
    lastUnder (l ++ l') name = (lastUnder l' name).or (lastUnder l name) := by
  unfold lastUnder
  rw [List.reverse_append, List.find?_append, Option.map_or]

theorem lastUnder_eq_none {entries : List (String × ν)} {name : String} (h : ∀ x ∈ entries, x.1 ≠ name) :
    lastUnder entries name = none := by
  unfold lastUnder
  rw [Option.map_eq_none_iff, List.find?_eq_none]
  intro x hx
  simpa using h x (List.mem_reverse.1 hx)

theorem Contexts.get_write (k : κ) (entries : List (String × ν)) (name : String) :
    m.get (m.write k entries) name = (lastUnder entries name).or (m.get k name) := by
  induction entries generalizing k with
  | nil => rfl
  | cons x entries ih =>
    have hcons : x :: entries = [x] ++ entries := rfl
    show m.get (m.write (m.withValue k x.1 x.2) entries) name = _
    rw [ih, hcons, lastUnder_append, Option.or_assoc, m.get_withValue]
    by_cases hx : name = x.1
    · simp [lastUnder, hx]
    · rw [if_neg hx, @lastUnder_eq_none ν [x] name (by simpa using Ne.symm hx)]
      rfl

/-- Under the name of an identity stands what the gates concluded, and where they concluded nothing there, what the
transport handed over under it. -/
theorem get_promoteIdentity (kept : List String) (accountable : IdentityFacts → Option String) (facts : IdentityFacts)
    (received : Handed ν) {name : String} (h : name ∈ identityNames) :
    m.get (promoteIdentity m kept accountable facts received) name =
      (lastUnder (concluded m accountable facts) name).or (lastUnder (handedOver m kept received) name) := by
  have harriving : "xmip.arriving" ≠ name := by
    rintro rfl
    exact absurd h (by decide)
  have hnone : lastUnder [("xmip.arriving", m.text received.arriving)] name = none :=
    lastUnder_eq_none (by simpa using harriving)
  unfold promoteIdentity
  rw [m.get_write, m.get_write, m.get_write, m.get_new, hnone, Option.none_or, Option.or_none]

/-- Headers named as they travel, and names kept that are no identity's, hand over nothing under an identity's name. -/
theorem lastUnder_handedOver {kept : List String} (hkept : ∀ name ∈ kept, name ∉ identityNames) {received : Handed ν}
    (hheaders : ∀ x ∈ received.headers, Travels x.1) {name : String} (h : name ∈ identityNames) :
    lastUnder (handedOver m kept received) name = none := by
  apply lastUnder_eq_none
  intro x hx heq
  rcases List.mem_append.1 hx with hheader | hobserved
  · exact not_identity_of_travels (hheaders x hheader) (heq ▸ h)
  · obtain ⟨y, hy, rfl⟩ := List.mem_map.1 hobserved
    have hy := (List.mem_filter.1 hy).2
    exact hkept y.1 (by simpa using hy) (heq ▸ h)

/-- Two Streams that differ only in their headers and in what was observed of them, the headers named as they travel: with
the same facts, the same stands under every identity's name, and it is what the gates concluded. -/
theorem unforged_of_travelling {kept : List String} (hkept : ∀ name ∈ kept, name ∉ identityNames)
    (accountable : IdentityFacts → Option String) (facts : IdentityFacts) (received : Handed ν)
    (headers : List (String × ν)) (observed : List (String × String))
    (hheaders : ∀ x ∈ received.headers ++ headers, Travels x.1) :
    ∀ name ∈ identityNames,
      m.get (promoteIdentity m kept accountable facts received) name =
          m.get (promoteIdentity m kept accountable facts { received with headers, observed }) name ∧
        m.get (promoteIdentity m kept accountable facts received) name = lastUnder (concluded m accountable facts) name := by
  intro name hname
  have hfirst : ∀ x ∈ received.headers, Travels x.1 := fun x hx => hheaders x (List.mem_append_left _ hx)
  have hsecond : ∀ x ∈ ({ received with headers, observed } : Handed ν).headers, Travels x.1 :=
    fun x hx => hheaders x (List.mem_append_right _ hx)
  rw [get_promoteIdentity m kept accountable facts received hname,
    get_promoteIdentity m kept accountable facts { received with headers, observed } hname,
    lastUnder_handedOver m hkept hfirst hname, lastUnder_handedOver m hkept hsecond hname]
  exact ⟨rfl, Option.or_none⟩

/-- A context that keeps every value, the latest first. -/
def latestFirst : Contexts (List (String × (String ⊕ Bool))) (String ⊕ Bool) where
  new := []
  withValue k name value := (name, value) :: k
  get k name := k.lookup name
  text := .inl
  bool := .inr
  get_new _ := rfl
  get_withValue k name value other := by
    rw [List.lookup_cons]
    by_cases h : other = name
    · simp [h]
    · have hne : (other == name) = false := by simpa using h
      rw [hne, if_neg h]

private def droppedFile : IdentityFacts :=
  ⟨⟨"circumstance", "file:///in", "inferred", false, "claimed", "detected", none, none⟩, none, false, []⟩

/-- A header named as it travels leaves no Party where the gates concluded none. -/
theorem unforged_party :
    (∀ x ∈ ([] : List (String × (String ⊕ Bool))) ++ [("http.header.xmip.party", .inl "Contoso")], Travels x.1) ∧
      latestFirst.get (promoteIdentity latestFirst ["file.name"] (fun facts => facts.transport.party) droppedFile
        ⟨"pushed", [], []⟩) party = none := by
  have hheaders : ∀ x ∈ ([] : List (String × (String ⊕ Bool))) ++ [("http.header.xmip.party", .inl "Contoso")],
      Travels x.1 := by
    intro x hx
    rw [List.nil_append, List.mem_singleton] at hx
    exact ⟨"http", "xmip.party", by rw [hx]; decide⟩
  refine ⟨hheaders, ?_⟩
  have hsame := @unforged_of_travelling _ _ latestFirst ["file.name"] (by decide)
    (fun facts => facts.transport.party) droppedFile ⟨"pushed", [], []⟩ _ [("file.name", "a.edi")] hheaders party
    (by decide)
  rw [hsame.2]
  decide

/-- A header that is itself named `xmip.party` is taken for the Party where the gates concluded none. -/
theorem party_set_by_a_header :
    ¬ ∀ name ∈ identityNames,
      latestFirst.get (promoteIdentity latestFirst [] (fun facts => facts.transport.party) droppedFile
          ⟨"pushed", [], []⟩) name =
        latestFirst.get (promoteIdentity latestFirst [] (fun facts => facts.transport.party) droppedFile
          ⟨"pushed", [(party, .inl "Contoso")], []⟩) name := by
  intro h
  have hparty := h party (by decide)
  exact absurd hparty (by decide)

end Arrival
