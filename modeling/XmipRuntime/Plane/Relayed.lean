import XmipRuntime.Plane.Relaying

/-!
# A caller acts through its own relay

A call that names a handle acts as the caller the node holds behind it, where the account the call comes through is the
one the caller was vouched for.  The handles the node holds each have a vouching behind them that stands: nothing was
vouched under the handle since, and it was not let go of.  Who a call acts as is decided before a byte of it is read.
-/

namespace Relaying

open Library Plane

variable {χ π : Type} {c : Settings χ π} {n n' : Node}

/-! ### What is claimed -/

/-- A caller was vouched for, and its handle neither vouched again nor let go of since; the latest is first. -/
def Grant.Stands (g : Grant) : List Event → Prop
  | [] => False
  | .vouched g' :: log => g' = g ∨ g'.handle ≠ g.handle ∧ g.Stands log
  | .unvouched handle :: log => handle ≠ g.handle ∧ g.Stands log

variable (c) in
/-- A caller of this node's that a call through `connection` acts as by naming `handle` at `now`: vouched under the handle
by that very account, standing and not ended. -/
structure Node.ActsAs (n : Node) (connection : Connection) (handle : Nat) (now : Int) (g : Grant) : Prop where
  relaying : c.relaying connection = true
  stands : g.Stands n.log
  handle : g.handle = handle
  through : g.through = connection.identity.value
  notEnded : now < g.vouched.heldUntil

variable (c) in
/-- What calls act as on a node: one that names a handle acts as a caller vouched under it through its own relay, and is
refused where there is none; one that names none acts as its connection; and of two calls of one account that name one
handle, nothing else decides who they act as. -/
structure Node.OwnRelay (n : Node) : Prop where
  named : ∀ {μ : Type} (serve : Serve) (connection : Connection) (request : Request μ) (handle : Nat) (now : Int)
    (acting : AuthenticatedIdentity) (through : Option String) (message : μ), request.caller = some handle →
    (called c serve n.vouched connection request now).1 = .carried acting through message →
    through = some connection.identity.value ∧ ∃ g, n.ActsAs c connection handle now g ∧ g.vouched.identity = acting
  refused : ∀ {μ : Type} (serve : Serve) (connection : Connection) (request : Request μ) (handle : Nat) (now : Int),
    request.caller = some handle → (¬ ∃ g, n.ActsAs c connection handle now g) →
    ∃ why, (called c serve n.vouched connection request now).1 = .refused why
  unnamed : ∀ {μ : Type} (serve : Serve) (connection : Connection) (request : Request μ) (now : Int)
    (acting : AuthenticatedIdentity) (through : Option String) (message : μ), request.caller = none →
    (called c serve n.vouched connection request now).1 = .carried acting through message →
    acting = connection.identity ∧ through = none
  alone : ∀ {μ ν : Type} (serve serve' : Serve) (connection connection' : Connection) (request : Request μ)
    (request' : Request ν) (now now' : Int) (acting acting' : AuthenticatedIdentity) (through through' : Option String)
    (message : μ) (message' : ν), connection.identity = connection'.identity → request.caller = request'.caller →
    (called c serve n.vouched connection request now).1 = .carried acting through message →
    (called c serve' n.vouched connection' request' now').1 = .carried acting' through' message' →
    acting = acting' ∧ through = through'
  decided : ∀ {μ ν : Type} (request : Request μ) (request' : Request ν) (connection connection' : Connection) (now : Int),
    connection.identity = connection'.identity → request.caller = request'.caller →
    acting c n.vouched connection request.caller now = acting c n.vouched connection' request'.caller now

/-! ### What is held stands -/

/-- Every caller held was vouched for under its handle, and stands. -/
def Node.Backed (n : Node) : Prop :=
  ∀ handle caller, n.vouched.get handle = some caller →
    ∃ g : Grant, g.Stands n.log ∧ g.handle = handle ∧ g.vouched = caller ∧ g.through = caller.through

namespace Node

/-- Callers are let go of at any time. -/
private theorem Backed.fewer (h : n.Backed) {n' : Node} (hlog : n'.log = n.log)
    (hfewer : ∀ handle caller, n'.vouched.get handle = some caller → n.vouched.get handle = some caller) : n'.Backed := by
  intro handle caller hget
  rw [hlog]
  exact h handle caller (hfewer handle caller hget)

private theorem get_roomed {vouched : Table Nat Vouched} {now : Int} {handle : Nat} {caller : Vouched}
    (h : (roomed vouched now).get handle = some caller) : vouched.get handle = some caller := by
  unfold roomed at h
  split at h
  · rw [Table.get_keep] at h
    exact (Option.filter_eq_some_iff.1 h).1
  · exact h

private theorem get_proven {vouched : Table Nat Vouched} {handle handle' : Nat} {through : String} {now : Int}
    {caller : Vouched} (h : (proven vouched handle through now).2.get handle' = some caller) :
    vouched.get handle' = some caller := by
  unfold proven at h
  split at h
  · split at h
    · rw [Table.get_drop] at h
      split at h
      · cases h
      · exact h
    · exact h
  · exact h

private theorem get_acting {vouched : Table Nat Vouched} {connection : Connection} {handle : Option Nat} {handle' : Nat}
    {now : Int} {caller : Vouched} (h : (acting c vouched connection handle now).2.get handle' = some caller) :
    vouched.get handle' = some caller := by
  unfold acting at h
  split at h
  · exact h
  · split at h
    · split at h
      · rename_i heq
        exact get_proven (by rw [heq]; exact h)
      · rename_i heq
        exact get_proven (by rw [heq]; exact h)
    · exact h

private theorem hold_backed (h : n.Backed) {v : Vouching} {now : Int} {known : AuthenticatedIdentity × Int} {rest : List Op}
    {handle : Nat} :
    { n with
      vouched := (roomed n.vouched now).put handle ⟨known.1, known.2, v.through⟩
      ops := rest
      log := .vouched ⟨v, handle, ⟨known.1, known.2, v.through⟩⟩ :: n.log }.Backed := by
  intro handle' caller hget
  rw [Table.get_put] at hget
  split at hget
  · rename_i heq
    cases hget
    exact ⟨⟨v, handle, ⟨known.1, known.2, v.through⟩⟩, .inl rfl, heq.symm, rfl, rfl⟩
  · rename_i hne
    obtain ⟨g, hstands, hhandle, hrest⟩ := h handle' caller (get_roomed hget)
    refine ⟨g, .inr ⟨?_, hstands⟩, hhandle, hrest⟩
    rw [hhandle]
    exact Ne.symm hne

private theorem step_backed {a : Action} (h : n.Backed) (hs : n.step c a = some n') : n'.Backed := by
  -- Most steps are about no caller held.
  have hsame : n'.vouched = n.vouched → n'.log = n.log → n'.Backed := fun hv hl =>
    h.fewer hl fun _ _ hget => hv ▸ hget
  cases a with
  | tick by_ =>
    cases hs
    exact hsame rfl rfl
  | nonces connection listener count now =>
    simp only [step, issues] at hs
    split at hs
    · split at hs
      · split at hs
        · cases hs
          exact hsame rfl rfl
        · cases hs
          exact h
      · cases hs
        exact h
    · cases hs
      exact h
  | issue i drawn =>
    simp only [step, issues] at hs
    split at hs
    · split at hs
      · cases hs
        exact hsame rfl rfl
      · cases hs
    · cases hs
  | vouch connection transcript nonces =>
    simp only [step, proves] at hs
    split at hs
    · cases hs
      exact hsame rfl rfl
    · cases hs
      exact h
  | check i =>
    simp only [step, proves] at hs
    split at hs
    · split at hs
      · cases hs
        exact hsame rfl rfl
      · cases hs
        exact hsame rfl rfl
    · cases hs
  | spend i =>
    simp only [step, proves] at hs
    split at hs
    · split at hs
      · split at hs
        · cases hs
          exact hsame rfl rfl
        · cases hs
          exact hsame rfl rfl
      · cases hs
        exact hsame rfl rfl
    · cases hs
  | lookUp i now now' =>
    simp only [step, holds] at hs
    split at hs
    · split at hs
      · cases hs
        exact hsame rfl rfl
      · cases hs
        exact hsame rfl rfl
    · cases hs
  | verify i now =>
    simp only [step, holds] at hs
    split at hs
    · split at hs
      · cases hs
        exact hsame rfl rfl
      · cases hs
        exact hsame rfl rfl
    · cases hs
  | keep i =>
    simp only [step, holds] at hs
    split at hs
    · cases hs
      exact hsame rfl rfl
    · cases hs
  | hold i handle =>
    simp only [step, holds] at hs
    split at hs
    · split at hs
      · cases hs
        exact h.fewer rfl fun _ _ hget => get_roomed hget
      · split at hs
        · cases hs
        · cases hs
          exact hold_backed h
    · cases hs
  | unvouch connection handle =>
    simp only [step, answers] at hs
    split at hs
    · cases hs
      intro handle' caller hget
      rw [Table.get_drop] at hget
      split at hget
      · cases hget
      · rename_i hne
        obtain ⟨g, hstands, hhandle, hrest⟩ := h handle' caller hget
        refine ⟨g, ⟨?_, hstands⟩, hhandle, hrest⟩
        rw [hhandle]
        exact Ne.symm hne
    · cases hs
      exact h
  | call connection handle now =>
    cases hs
    exact h.fewer rfl fun _ _ hget => get_acting hget

/-! ### Who a call acts as -/

/-- A call carried out acts as decided. -/
private theorem acting_of_carried {μ : Type} {serve : Serve} {vouched : Table Nat Vouched} {connection : Connection}
    {request : Request μ} {now : Int} {who : AuthenticatedIdentity} {through : Option String} {message : μ}
    (h : (called c serve vouched connection request now).1 = .carried who through message) :
    (acting c vouched connection request.caller now).1 = .ok (who, through) := by
  unfold called at h
  split at h
  · cases h
  · rename_i hacting
    rw [hacting]
    split at h
    · cases h
    · split at h
      · cases h
      · cases h
        rfl

/-- What a call that names a handle acts as is held behind it, for the account it comes through. -/
private theorem held_of_acting {vouched : Table Nat Vouched} {connection : Connection} {handle : Nat} {now : Int}
    {who : AuthenticatedIdentity} {through : Option String}
    (h : (acting c vouched connection (some handle) now).1 = .ok (who, through)) :
    through = some connection.identity.value ∧ c.relaying connection = true ∧
      ∃ caller, vouched.get handle = some caller ∧ now < caller.heldUntil ∧
        caller.through = connection.identity.value ∧ caller.identity = who := by
  unfold acting at h
  dsimp only at h
  split at h
  · rename_i hrelaying
    split at h
    · rename_i caller vouched' hproven
      cases h
      refine ⟨rfl, hrelaying, ?_⟩
      unfold proven at hproven
      split at hproven
      · rename_i held hheld
        split at hproven
        · cases hproven
        · rename_i hnot
          obtain ⟨hwho, -⟩ := Prod.mk.inj hproven
          split at hwho
          · rename_i hthrough
            cases hwho
            exact ⟨held, hheld, Int.not_le.1 hnot, hthrough, rfl⟩
          · cases hwho
      · cases hproven
    · cases h
  · cases h

theorem Backed.ownRelay (h : n.Backed) : n.OwnRelay c := by
  -- Whoever a call that names a handle acts as is backed by a vouching of the relay's own.
  have hacts : ∀ connection handle now who through,
      (acting c n.vouched connection (some handle) now).1 = .ok (who, through) →
      through = some connection.identity.value ∧ ∃ g, n.ActsAs c connection handle now g ∧ g.vouched.identity = who := by
    intro connection handle now who through hacting
    obtain ⟨hthrough, hrelaying, caller, hget, hlive, hown, hwho⟩ := held_of_acting hacting
    obtain ⟨g, hstands, hhandle, hvouched, hg⟩ := h handle caller hget
    subst hvouched
    exact ⟨hthrough, g, ⟨hrelaying, hstands, hhandle, hg.trans hown, hlive⟩, hwho⟩
  refine ⟨?_, ?_, ?_, ?_, ?_⟩
  · intro μ serve connection request handle now who through message hcaller hcarried
    have hacting := acting_of_carried hcarried
    rw [hcaller] at hacting
    exact hacts _ _ _ _ _ hacting
  · intro μ serve connection request handle now hcaller hnone
    unfold called
    split
    · exact ⟨_, rfl⟩
    · rename_i who through vouched hacting
      refine absurd ?_ hnone
      have hdecided : (acting c n.vouched connection (some handle) now).1 = .ok (who, through) := by
        rw [← hcaller, hacting]
      obtain ⟨-, g, hg, -⟩ := hacts _ _ _ _ _ hdecided
      exact ⟨g, hg⟩
  · intro μ serve connection request now who through message hcaller hcarried
    have hacting := acting_of_carried hcarried
    rw [hcaller] at hacting
    cases hacting
    exact ⟨rfl, rfl⟩
  · intro μ ν serve serve' connection connection' request request' now now' who who' through through' message message'
      hidentity hsame hcarried hcarried'
    have hacting := acting_of_carried hcarried
    have hacting' := acting_of_carried hcarried'
    rw [← hsame] at hacting'
    cases hcaller : request.caller with
    | none =>
      rw [hcaller] at hacting hacting'
      cases hacting
      cases hacting'
      exact ⟨hidentity, rfl⟩
    | some handle =>
      rw [hcaller] at hacting hacting'
      obtain ⟨hthrough, -, caller, hget, -, -, hwho⟩ := held_of_acting hacting
      obtain ⟨hthrough', -, caller', hget', -, -, hwho'⟩ := held_of_acting hacting'
      obtain rfl : caller = caller' := Option.some.inj (hget.symm.trans hget')
      exact ⟨hwho.symm.trans hwho', by rw [hthrough, hthrough', hidentity]⟩
  · intro μ ν request request' connection connection' now hidentity hsame
    rw [hsame]
    unfold acting Settings.relaying
    rw [hidentity]

/-- In every run a call acts as a caller a relay vouched for only through that relay. -/
theorem ownRelay_of_reach (h : Reach (Node.step c) Always Starts n) : n.OwnRelay c := by
  have hb : n.Backed := by
    refine Reach.invariant ?_ (fun _ _ _ hb _ hs => step_backed hb hs) h
    rintro n rfl handle caller hget
    cases hget
  exact hb.ownRelay

private def bound : Bytes := List.replicate nonceLength 5

/-- One browser's handshake, and two hosts that relay. -/
private def hosts : Settings Unit Unit where
  proved _ := .ok ⟨bound, [30], [[40]]⟩
  bindingLength := nonceLength
  binding nonces := nonces.flatten.take nonceLength
  fromDer _ := .ok ()
  verify _ _ _ := .ok ()
  notAfter _ := .ok 50
  certificate leaf := .ok ⟨if leaf = [30] then "web" else "bob", .proven⟩
  relays who := who = "web" || who = "second"

private def web : Connection := ⟨⟨"web", .proven⟩, true⟩

private def second : Connection := ⟨⟨"second", .proven⟩, true⟩

private def operators : Serve := ⟨.operator, fun who _ _ => who.isSome⟩

private def carriedAs {μ : Type} : Answer μ → Option (AuthenticatedIdentity × Option String)
  | .carried acting through _ => some (acting, through)
  | .refused _ | .invalid _ => none

/-- A caller vouched for through one relay: named through it, a call acts as the caller; through another, or once its
certificate ended, it is refused. -/
theorem ownRelay_of_twoRelays : ∃ n : Node, n.OwnRelay hosts ∧
    carriedAs (called hosts operators n.vouched web ⟨.act, some 9, .ok ()⟩ 8).1 = some (⟨"bob", .proven⟩, some "web") ∧
    carriedAs (called hosts operators n.vouched second ⟨.act, some 9, .ok ()⟩ 8).1 = none ∧
    carriedAs (called hosts operators n.vouched web ⟨.act, some 9, .ok ()⟩ 50).1 = none := by
  obtain ⟨n, hn, hp⟩ := Reach.exists_of_runWhere (Node.step hosts) Always (show Starts Node.starting from rfl)
    [.nonces web [30] 1 7, .issue 0 [bound], .vouch web (.ok []) [bound], .check 0, .spend 0, .lookUp 0 7 7, .verify 0 7,
      .keep 0, .hold 0 9, .call second (some 9) 8, .unvouch second 9]
    (fun n =>
      decide (carriedAs (called hosts operators n.vouched web ⟨.act, some 9, .ok ()⟩ 8).1 =
        some (⟨"bob", .proven⟩, some "web")) &&
      (decide (carriedAs (called hosts operators n.vouched second ⟨.act, some 9, .ok ()⟩ 8).1 = none) &&
      decide (carriedAs (called hosts operators n.vouched web ⟨.act, some 9, .ok ()⟩ 50).1 = none)))
    (by decide +kernel)
  simp only [Bool.and_eq_true, decide_eq_true_eq] at hp
  exact ⟨n, ownRelay_of_reach hn, hp⟩

end Node

end Relaying
