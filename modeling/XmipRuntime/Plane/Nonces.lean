import Mathlib.Data.List.Range
import XmipRuntime.Plane.Relaying

/-!
# A nonce is good once

A relay's proof that its browser held its key is bound to nonces the node issued.  Every nonce handed over is spent under
one lock, whoever hands it, before anything it may justify is done; so what a nonce justified is read off the list of
what was spent.  Issued nonces are numbered, so that one drawn again long after it was spent is another.
-/

namespace Relaying

open Library Plane

variable {χ π : Type} {c : Settings χ π} {n n' : Node}

/-! ### What is claimed -/

/-- The callers vouched for. -/
def Node.grants (n : Node) : List Grant := n.log.filterMap fun
  | .vouched g => some g
  | .unvouched _ => none

variable (c) in
/-- A caller was vouched for under a nonce issued to the relay that asked, while it was fresh, for the listener the
browser's handshake was made with; and the handshake is bound to it. -/
structure Vouching.Justified (n : Node) (v : Vouching) : Prop where
  issued : v.one ∈ n.issued
  own : v.one.through = v.through
  fresh : v.spentAt < v.one.freshUntil
  listener : v.proof.serverLeaf = v.one.listener
  handed : v.one.nonce ∈ v.nonces
  proved : ∃ transcript, c.possessed transcript v.nonces = .ok v.proof
  spent : (v.one, v.request, v.through) ∈ n.spent

variable (c) in
/-- A nonce justifies one caller at most, of the relay it was issued to; once spent, whoever spent it, it justifies none
but what it was spent for; and a request refused before it spent one spent none. -/
structure Node.GoodOnce (n : Node) : Prop where
  numbered : n.issued.map Issued.serial = List.range n.issued.length
  once : (n.grants.map fun g => g.one.serial).Nodup
  justified : ∀ g ∈ n.grants, g.toVouching.Justified c n
  spentOnce : (n.spent.map fun x => x.1.serial).Nodup
  usedUp : ∀ x ∈ n.spent, (∀ k one, n.held.get k = some one → one.serial ≠ x.1.serial) ∧
    ∀ g ∈ n.grants, g.one.serial = x.1.serial → x.2.2 = x.1.through ∧ g.request = x.2.1
  handed : ∀ i request through proof nonces now rest n',
    pick n.ops i = some (.spending request through proof nonces now, rest) → n.step c (.spend i) = some n' →
    ∀ one, n.held.get one.nonce = some one → one.nonce ∈ nonces → (one, request, through) ∈ n'.spent
  unspent : ∀ r ∈ n.unspent, ∀ x ∈ n.spent, x.2.1 ≠ r
  refused : ∀ i n', n.step c (.check i) = some n' → n'.held = n.held ∧ n'.spent = n.spent

/-! ### What is spent -/

/-- What is spent was held, and is not held after; and every nonce not spent is. -/
theorem spend_spec (through : String) (now : Nat) (nonces : List Bytes) {held : Table Bytes Issued}
    (hkey : ∀ k one, held.get k = some one → one.nonce = k) :
    (∀ one ∈ (spend through now nonces held).2.1, held.get one.nonce = some one ∧ one.nonce ∈ nonces ∧
      (spend through now nonces held).2.2.get one.nonce = none) ∧
    ((spend through now nonces held).2.1.map Issued.nonce).Nodup ∧
    (∀ k one, (spend through now nonces held).2.2.get k = some one → held.get k = some one) ∧
    ∀ one, (spend through now nonces held).1 = some one →
      one ∈ (spend through now nonces held).2.1 ∧ one.through = through ∧ now < one.freshUntil := by
  induction nonces generalizing held with
  | nil =>
    refine ⟨?_, List.nodup_nil, fun _ _ h => h, ?_⟩
    · intro one h
      cases h
    · intro one h
      cases h
  | cons nonce nonces ih =>
    unfold spend
    split
    · rename_i one hget
      have hheld : held.get nonce = some one := by
        split at hget
        · exact hget
        · cases hget
      have hkey' : ∀ k one', (held.drop nonce).get k = some one' → one'.nonce = k := by
        intro k one' h
        rw [Table.get_drop] at h
        split at h
        · cases h
        · exact hkey k one' h
      obtain ⟨hspent, hnodup, hrest, hfound⟩ := ih hkey'
      have hnonce : one.nonce = nonce := hkey nonce one hheld
      -- The rest is of what was left, so nothing of it is the one just spent.
      have hother : ∀ one' ∈ (spend through now nonces (held.drop nonce)).2.1, one'.nonce ≠ nonce := by
        intro one' hone' heq
        have := (hspent one' hone').1
        rw [heq, Table.get_drop_self] at this
        cases this
      refine ⟨?_, ?_, ?_, ?_⟩
      · intro one' hone'
        rcases List.mem_cons.1 hone' with rfl | hone'
        · rw [hnonce]
          refine ⟨hheld, List.mem_cons_self .., ?_⟩
          cases hleft : (spend through now nonces (held.drop nonce)).2.2.get nonce with
          | none => rfl
          | some one'' =>
            have := hrest nonce one'' hleft
            rw [Table.get_drop_self] at this
            cases this
        · obtain ⟨hget', hmem, hgone⟩ := hspent one' hone'
          rw [Table.get_drop_of_ne _ (hother one' hone')] at hget'
          exact ⟨hget', List.mem_cons_of_mem _ hmem, hgone⟩
      · rw [List.map_cons, List.nodup_cons]
        refine ⟨?_, hnodup⟩
        rw [hnonce]
        intro hmem
        obtain ⟨one', hone', heq⟩ := List.mem_map.1 hmem
        exact hother one' hone' heq
      · intro k one' h
        have := hrest k one' h
        rw [Table.get_drop] at this
        split at this
        · cases this
        · exact this
      · intro one' h
        dsimp only at h
        split at h
        · rename_i hown
          cases h
          exact ⟨List.mem_cons_self .., hown⟩
        · obtain ⟨hmem, hown⟩ := hfound one' h
          exact ⟨List.mem_cons_of_mem _ hmem, hown⟩
    · obtain ⟨hspent, hnodup, hrest, hfound⟩ := ih hkey
      refine ⟨?_, hnodup, hrest, hfound⟩
      intro one hone
      obtain ⟨hget, hmem, hgone⟩ := hspent one hone
      exact ⟨hget, List.mem_cons_of_mem _ hmem, hgone⟩

/-- Every nonce handed over that is held is spent, whoever it was issued to. -/
theorem mem_spend {through : String} {now : Nat} {nonces : List Bytes} {held : Table Bytes Issued} {one : Issued}
    (hheld : held.get one.nonce = some one) (hlength : one.nonce.length = nonceLength) (hmem : one.nonce ∈ nonces) :
    one ∈ (spend through now nonces held).2.1 := by
  induction nonces generalizing held with
  | nil => cases hmem
  | cons nonce nonces ih =>
    unfold spend
    by_cases heq : one.nonce = nonce
    · subst heq
      rw [if_pos hlength, hheld]
      exact List.mem_cons_self ..
    · have hmem' := (List.mem_cons.1 hmem).resolve_left heq
      split
      · refine List.mem_cons_of_mem _ (ih ?_ hmem')
        rw [Table.get_drop_of_ne _ heq]
        exact hheld
      · exact ih hheld hmem'

/-! ### What is issued -/

private theorem issuedFrom_serial (through : String) (listener : Bytes) (now serial : Nat) (drawn : List Bytes) :
    (issuedFrom through listener now serial drawn).map Issued.serial = List.range' serial drawn.length := by
  induction drawn generalizing serial with
  | nil => rfl
  | cons nonce drawn ih =>
    show serial :: (issuedFrom through listener now (serial + 1) drawn).map Issued.serial = _
    rw [ih]
    rfl

private theorem issuedFrom_length (through : String) (listener : Bytes) (now serial : Nat) (drawn : List Bytes) :
    (issuedFrom through listener now serial drawn).length = drawn.length := by
  have := congrArg List.length (issuedFrom_serial through listener now serial drawn)
  simpa using this

/-- What is held once all of `issued` are: one of them, under its nonce, or what was held. -/
private theorem get_putAll {issued : List Issued} {held : Table Bytes Issued} {k : Bytes} {one : Issued}
    (h : (issued.foldl (fun held one => held.put one.nonce one) held).get k = some one) :
    one ∈ issued ∧ one.nonce = k ∨ held.get k = some one := by
  induction issued generalizing held with
  | nil => exact .inr h
  | cons first issued ih =>
    rcases ih h with ⟨hmem, hk⟩ | h
    · exact .inl ⟨List.mem_cons_of_mem _ hmem, hk⟩
    · rw [Table.get_put] at h
      split at h
      · rename_i hk
        cases h
        exact .inl ⟨List.mem_cons_self .., hk.symm⟩
      · exact .inr h

private theorem issuedFrom_nonce {through : String} {listener : Bytes} {now serial : Nat} {drawn : List Bytes} {one : Issued}
    (h : one ∈ issuedFrom through listener now serial drawn) : one.nonce ∈ drawn := by
  induction drawn generalizing serial with
  | nil => cases h
  | cons nonce drawn ih =>
    rcases List.mem_cons.1 h with rfl | h
    · exact List.mem_cons_self ..
    · exact List.mem_cons_of_mem _ (ih h)

private theorem get_cleared {held : Table Bytes Issued} {count now : Nat} {k : Bytes} {one : Issued}
    (h : (cleared held count now).get k = some one) : held.get k = some one := by
  unfold cleared at h
  split at h
  · rw [Table.get_keep] at h
    exact (Option.filter_eq_some_iff.1 h).1
  · exact h

/-! ### Every nonce spent, and what it was spent for -/

/-- The request something under way is of. -/
def Op.request : Op → Option Nat
  | .issuing .. => none
  | .vouching request .. | .spending request .. => some request
  | .possessed v | .unknown v _ | .verified v _ _ | .known v _ _ => some v.request

/-- What is under way once a nonce was spent for it. -/
def Op.justs : Op → Option Vouching
  | .issuing .. | .vouching .. | .spending .. => none
  | .possessed v | .unknown v _ | .verified v _ _ | .known v _ _ => some v

/-- Everything a nonce justifies: callers vouched for, and requests for one that spent theirs. -/
def Node.justs (n : Node) : List Vouching := n.ops.filterMap Op.justs ++ n.grants.map Grant.toVouching

variable (c) in
structure Node.Accounted (n : Node) : Prop where
  numbered : n.issued.map Issued.serial = List.range n.issued.length
  held : ∀ k one, n.held.get k = some one → one.nonce = k ∧ one ∈ n.issued ∧ ∀ x ∈ n.spent, x.1.serial ≠ one.serial
  lengths : ∀ one ∈ n.issued, one.nonce.length = nonceLength
  spentOnce : (n.spent.map fun x => x.1.serial).Nodup
  spent : ∀ x ∈ n.spent, x.1 ∈ n.issued ∧ x.2.1 < n.asked
  once : (n.justs.map fun v => v.one.serial).Nodup
  justified : ∀ v ∈ n.justs, v.Justified c n
  requests : (n.ops.filterMap Op.request).Nodup
  asked : ∀ r ∈ n.ops.filterMap Op.request, r < n.asked
  before : ∀ op ∈ n.ops, op.justs = none → ∀ r ∈ op.request, ∀ x ∈ n.spent, x.2.1 ≠ r
  proved : ∀ request through proof nonces now, .spending request through proof nonces now ∈ n.ops →
    ∃ transcript, c.possessed transcript nonces = .ok proof
  unspent : ∀ r ∈ n.unspent, r < n.asked ∧ r ∉ n.ops.filterMap Op.request ∧ ∀ x ∈ n.spent, x.2.1 ≠ r

theorem Vouching.Justified.mono {v : Vouching} (h : v.Justified c n) (hissued : ∀ one ∈ n.issued, one ∈ n'.issued)
    (hspent : ∀ x ∈ n.spent, x ∈ n'.spent) : v.Justified c n' :=
  ⟨hissued _ h.issued, h.own, h.fresh, h.listener, h.handed, h.proved, hspent _ h.spent⟩

/-- Issued nonces of one number are one. -/
private theorem eq_of_serial (h : n.issued.map Issued.serial = List.range n.issued.length) {one one' : Issued}
    (hone : one ∈ n.issued) (hone' : one' ∈ n.issued) (heq : one.serial = one'.serial) : one = one' :=
  List.inj_on_of_nodup_map (h ▸ List.nodup_range) hone hone' heq

private theorem eq_of_spent (h : n.Accounted c) {x y : Issued × Nat × String} (hx : x ∈ n.spent) (hy : y ∈ n.spent)
    (heq : x.1.serial = y.1.serial) : x = y :=
  List.inj_on_of_nodup_map h.spentOnce hx hy heq

theorem Node.Accounted.goodOnce (h : n.Accounted c) : n.GoodOnce c := by
  have hgrants : ∀ g ∈ n.grants, g.toVouching.Justified c n := fun g hg =>
    h.justified _ (List.mem_append_right _ (List.mem_map.2 ⟨g, hg, rfl⟩))
  refine ⟨h.numbered, ?_, hgrants, h.spentOnce, ?_, ?_, fun r hr => (h.unspent r hr).2.2, ?_⟩
  · have honce := h.once
    unfold justs at honce
    rw [List.map_append, List.nodup_append] at honce
    simpa [List.map_map, Function.comp_def] using honce.2.1
  · intro x hx
    refine ⟨fun k one hone heq => (h.held k one hone).2.2 x hx heq.symm, ?_⟩
    intro g hg heq
    have hj := hgrants g hg
    obtain rfl := eq_of_spent h hj.spent hx heq
    exact ⟨hj.own.symm, rfl⟩
  · intro i request through proof nonces now rest n' hp hstep one hone hmem
    have hspent : (one, request, through) ∈
        n.spent ++ (spend through now nonces n.held).2.1.map fun one => (one, request, through) :=
      List.mem_append_right _
        (List.mem_map.2 ⟨one, mem_spend hone (h.lengths one (h.held _ one hone).2.1) hmem, rfl⟩)
    simp only [step, proves, hp] at hstep
    split at hstep
    · split at hstep
      · cases hstep
        exact hspent
      · cases hstep
        exact hspent
    · cases hstep
      exact hspent
  · intro i n' hstep
    simp only [step, proves] at hstep
    split at hstep
    · split at hstep
      · cases hstep
        exact ⟨rfl, rfl⟩
      · cases hstep
        exact ⟨rfl, rfl⟩
    · cases hstep

/-! ### What is under way, one of them changed -/

private theorem filterMap_replaced {α : Type} {f : Op → Option α} {op op' : Op} {rest : List Op} {i : Nat}
    (h : pick n.ops i = some (op, rest)) (hf : f op' = f op) :
    ((rest ++ [op']).filterMap f).Perm (n.ops.filterMap f) := by
  have hlast : [op'].filterMap f = [op].filterMap f := by
    rw [List.filterMap_cons, List.filterMap_cons, hf]
  have hall : (op :: rest).filterMap f = [op].filterMap f ++ rest.filterMap f := by
    rw [← List.filterMap_append]
    rfl
  refine List.Perm.trans ?_ ((pick_perm h).filterMap f)
  rw [List.filterMap_append, hlast, hall]
  exact List.perm_append_comm

private theorem filterMap_removed {α : Type} {f : Op → Option α} {op : Op} {rest : List Op} {i : Nat}
    (h : pick n.ops i = some (op, rest)) : (rest.filterMap f).Subperm (n.ops.filterMap f) := by
  have hperm := (pick_perm h).filterMap f
  exact (((List.sublist_cons_self op rest).filterMap f).subperm).trans hperm.subperm

/-- What is under way is the one taken out and the others. -/
private theorem filterMap_perm {α : Type} {f : Op → Option α} {a : α} {op : Op} {rest : List Op} {i : Nat}
    (h : pick n.ops i = some (op, rest)) (ha : f op = some a) : (a :: rest.filterMap f).Perm (n.ops.filterMap f) := by
  have hperm := (pick_perm h).filterMap f
  rwa [List.filterMap_cons_some ha] at hperm

private theorem nodup_map_of_subperm {α β : Type} {l l' : List α} {f : α → β} (h : l.Subperm l')
    (hnd : (l'.map f).Nodup) : (l.map f).Nodup := by
  obtain ⟨m, hperm, hsub⟩ := h
  exact (hperm.map f).nodup_iff.1 (hnd.sublist (hsub.map f))

/-- One under way goes on, for the same request and under the same nonce. -/
private theorem accounted_replaced (h : n.Accounted c) {op : Op} {rest : List Op} {i : Nat}
    (hp : pick n.ops i = some (op, rest)) (op' : Op) (hrequest : op'.request = op.request) (hjusts : op'.justs = op.justs)
    (hproved : ∀ request through proof nonces now, op' = .spending request through proof nonces now →
      ∃ transcript, c.possessed transcript nonces = .ok proof) (known : Table (List Bytes) (AuthenticatedIdentity × Int)) :
    { n with known, ops := rest ++ [op'] }.Accounted c := by
  have hreqs : ((rest ++ [op']).filterMap Op.request).Perm (n.ops.filterMap Op.request) := filterMap_replaced hp hrequest
  have hj : ((rest ++ [op']).filterMap Op.justs ++ n.grants.map Grant.toVouching).Perm n.justs :=
    (filterMap_replaced hp hjusts).append_right _
  refine ⟨h.numbered, h.held, h.lengths, h.spentOnce, h.spent, ?_, ?_, ?_, ?_, ?_, ?_, ?_⟩
  · exact (hj.map _).nodup_iff.2 h.once
  · intro v hv
    exact (h.justified v (hj.mem_iff.1 hv)).mono (fun _ h => h) fun _ h => h
  · exact hreqs.nodup_iff.2 h.requests
  · exact fun r hr => h.asked r (hreqs.mem_iff.1 hr)
  · intro q hq hnone
    rcases List.mem_append.1 hq with hq | hq
    · exact h.before q (mem_of_mem_pick hp hq) hnone
    · rw [List.mem_singleton.1 hq] at hnone ⊢
      rw [hrequest]
      exact h.before op (mem_of_pick hp) (hjusts ▸ hnone)
  · intro request through proof nonces now hmem
    rcases List.mem_append.1 hmem with hmem | hmem
    · exact h.proved _ _ _ _ _ (mem_of_mem_pick hp hmem)
    · exact hproved _ _ _ _ _ (List.mem_singleton.1 hmem).symm
  · intro r hr
    obtain ⟨hlt, hnot, hspent⟩ := h.unspent r hr
    exact ⟨hlt, fun hmem => hnot (hreqs.mem_iff.1 hmem), hspent⟩

/-- One under way ends, with nothing more to do. -/
private theorem accounted_removed (h : n.Accounted c) {op : Op} {rest : List Op} {i : Nat}
    (hp : pick n.ops i = some (op, rest)) (vouched : Table Nat Vouched) :
    { n with vouched, ops := rest }.Accounted c := by
  have hreqs : (rest.filterMap Op.request).Subperm (n.ops.filterMap Op.request) := filterMap_removed hp
  have hj : (rest.filterMap Op.justs ++ n.grants.map Grant.toVouching).Subperm n.justs :=
    (filterMap_removed hp).append (List.Subperm.refl _)
  refine ⟨h.numbered, h.held, h.lengths, h.spentOnce, h.spent, ?_, ?_, ?_, ?_, ?_, ?_, ?_⟩
  · exact nodup_map_of_subperm hj h.once
  · intro v hv
    exact (h.justified v (hj.subset hv)).mono (fun _ h => h) fun _ h => h
  · have hids := nodup_map_of_subperm (f := id) hreqs
    rw [List.map_id, List.map_id] at hids
    exact hids h.requests
  · exact fun r hr => h.asked r (hreqs.subset hr)
  · exact fun q hq => h.before q (mem_of_mem_pick hp hq)
  · exact fun _ _ _ _ _ hmem => h.proved _ _ _ _ _ (mem_of_mem_pick hp hmem)
  · intro r hr
    obtain ⟨hlt, hnot, hspent⟩ := h.unspent r hr
    exact ⟨hlt, fun hmem => hnot (hreqs.subset hmem), hspent⟩

/-- One more is under way, of no request and under no nonce. -/
private theorem accounted_more (h : n.Accounted c) {op : Op} (hrequest : op.request = none) (hjusts : op.justs = none)
    (hnot : ∀ request through proof nonces now, op ≠ .spending request through proof nonces now) :
    { n with ops := n.ops ++ [op] }.Accounted c := by
  have hreqs : (n.ops ++ [op]).filterMap Op.request = n.ops.filterMap Op.request := by
    rw [List.filterMap_append, List.filterMap_cons, hrequest]
    simp
  have hj : (n.ops ++ [op]).filterMap Op.justs = n.ops.filterMap Op.justs := by
    rw [List.filterMap_append, List.filterMap_cons, hjusts]
    simp
  refine ⟨h.numbered, h.held, h.lengths, h.spentOnce, h.spent, ?_, ?_, ?_, ?_, ?_, ?_, ?_⟩
  · show ((_ ++ n.grants.map Grant.toVouching).map _).Nodup
    rw [hj]
    exact h.once
  · intro v hv
    refine (h.justified v ?_).mono (fun _ h => h) fun _ h => h
    unfold Node.justs at hv ⊢
    dsimp only at hv
    rw [hj] at hv
    exact hv
  · dsimp only
    rw [hreqs]
    exact h.requests
  · dsimp only
    rw [hreqs]
    exact h.asked
  · intro q hq hnone
    rcases List.mem_append.1 hq with hq | hq
    · exact h.before q hq hnone
    · rw [List.mem_singleton.1 hq, hrequest]
      intro r hr
      cases hr
  · intro request through proof nonces now hmem
    rcases List.mem_append.1 hmem with hmem | hmem
    · exact h.proved _ _ _ _ _ hmem
    · exact absurd (List.mem_singleton.1 hmem).symm (hnot _ _ _ _ _)
  · intro r hr
    obtain ⟨hlt, hout, hspent⟩ := h.unspent r hr
    refine ⟨hlt, ?_, hspent⟩
    dsimp only
    rw [hreqs]
    exact hout

namespace Node

/-! ### What each step leaves of it -/

private theorem issues_accounted {a : Action} (h : n.Accounted c) (hs : n.issues c a = some n') : n'.Accounted c := by
  cases a with
  | nonces connection listener count now =>
    simp only [issues] at hs
    split at hs
    · split at hs
      · split at hs
        · cases hs
          exact accounted_more h rfl rfl fun _ _ _ _ _ h => (by cases h)
        · cases hs
          exact h
      · cases hs
        exact h
    · cases hs
      exact h
  | issue i drawn =>
    simp only [issues] at hs
    split at hs
    · rename_i through listener count now rest hp
      split at hs
      · rename_i hfor
        cases hs
        have hdrawn : ∀ nonce ∈ drawn, nonce.length = nonceLength := by
          intro nonce hnonce
          simp only [drawnFor, Bool.and_eq_true, List.all_eq_true] at hfor
          exact of_decide_eq_true (hfor.2 nonce hnonce).1
        have hrem := accounted_removed h hp n.vouched
        have hserials : (issuedFrom through listener now n.issued.length drawn).map Issued.serial =
            List.range' n.issued.length drawn.length := issuedFrom_serial ..
        -- A number newly given is of none issued before.
        have hnew : ∀ one ∈ issuedFrom through listener now n.issued.length drawn, n.issued.length ≤ one.serial := by
          intro one hone
          have : one.serial ∈ List.range' n.issued.length drawn.length := by
            rw [← hserials]
            exact List.mem_map.2 ⟨one, hone, rfl⟩
          exact (List.mem_range'_1.1 this).1
        have hold : ∀ one ∈ n.issued, one.serial < n.issued.length := by
          intro one hone
          have : one.serial ∈ List.range n.issued.length := by
            rw [← h.numbered]
            exact List.mem_map.2 ⟨one, hone, rfl⟩
          exact List.mem_range.1 this
        refine ⟨?_, ?_, ?_, h.spentOnce, ?_, hrem.once, ?_, hrem.requests, hrem.asked, hrem.before, hrem.proved,
          hrem.unspent⟩
        · dsimp only
          rw [List.map_append, h.numbered, hserials, List.length_append, issuedFrom_length, List.range_eq_range',
            List.range_eq_range', ← List.range'_append_1, Nat.zero_add]
        · intro k one hone
          rcases get_putAll hone with ⟨hmem, hk⟩ | hone
          · refine ⟨hk, List.mem_append_right _ hmem, fun x hx => ?_⟩
            have h₁ := hold x.1 (h.spent x hx).1
            have h₂ := hnew one hmem
            omega
          · obtain ⟨hk, hmem, hspent⟩ := h.held k one (get_cleared hone)
            exact ⟨hk, List.mem_append_left _ hmem, hspent⟩
        · intro one hone
          rcases List.mem_append.1 hone with hone | hone
          · exact h.lengths one hone
          · exact hdrawn one.nonce (issuedFrom_nonce hone)
        · exact fun x hx => ⟨List.mem_append_left _ (h.spent x hx).1, (h.spent x hx).2⟩
        · exact fun v hv => (hrem.justified v hv).mono (fun _ hone => List.mem_append_left _ hone) fun _ h => h
      · cases hs
    · cases hs
  | tick | vouch | check | spend | lookUp | verify | keep | hold | unvouch | call => cases hs

private theorem spend_accounted (h : n.Accounted c) {i request now : Nat} {through : String} {proof : Handshake}
    {nonces : List Bytes} {rest : List Op}
    (hp : pick n.ops i = some (.spending request through proof nonces now, rest)) :
    { n with
      held := (spend through now nonces n.held).2.2
      spent := n.spent ++ (spend through now nonces n.held).2.1.map fun one => (one, request, through)
      ops := rest }.Accounted c := by
  obtain ⟨hspent, hnodup, hrest, -⟩ := spend_spec through now nonces
    fun k one hone => (h.held k one hone).1
  have hrem := accounted_removed h hp n.vouched
  generalize hlist : (spend through now nonces n.held).2.1 = spent at hspent hnodup
  have hheld (one : Issued) (hone : one ∈ spent) := h.held one.nonce one (hspent one hone).1
  have hasked : request < n.asked := h.asked request (List.mem_filterMap.2 ⟨_, mem_of_pick hp, rfl⟩)
  -- The request is under way no more, and no other is of its number.
  have hother : ∀ q ∈ rest, ∀ r ∈ q.request, r ≠ request := by
    rintro q hq r hr rfl
    have hreqs := (filterMap_perm (f := Op.request) hp rfl).nodup_iff.2 h.requests
    exact (List.nodup_cons.1 hreqs).1 (List.mem_filterMap.2 ⟨q, hq, hr⟩)
  have hserials : (spent.map Issued.serial).Nodup := by
    refine List.Nodup.map_on ?_ (hnodup.of_map _)
    intro one hone one' hone' heq
    exact eq_of_serial h.numbered (hheld one hone).2.1 (hheld one' hone').2.1 heq
  refine ⟨h.numbered, ?_, h.lengths, ?_, ?_, hrem.once, ?_, hrem.requests, hrem.asked, ?_, hrem.proved, ?_⟩
  · intro k one hone
    obtain ⟨hk, hmem, hwas⟩ := h.held k one (hrest k one hone)
    refine ⟨hk, hmem, fun x hx => ?_⟩
    rcases List.mem_append.1 hx with hx | hx
    · exact hwas x hx
    · obtain ⟨one', hone', rfl⟩ := List.mem_map.1 hx
      intro heq
      obtain rfl := eq_of_serial h.numbered (hheld one' hone').2.1 hmem heq
      have hgone := (hspent one' hone').2.2
      rw [hk] at hgone
      exact absurd (hone.symm.trans hgone) (by simp)
  · dsimp only
    rw [List.map_append, List.nodup_append]
    refine ⟨h.spentOnce, ?_, ?_⟩
    · rw [List.map_map]
      exact hserials
    · intro a ha b hb
      obtain ⟨x, hx, rfl⟩ := List.mem_map.1 ha
      obtain ⟨y, hy, rfl⟩ := List.mem_map.1 hb
      obtain ⟨one, hone, rfl⟩ := List.mem_map.1 hy
      exact (hheld one hone).2.2 x hx
  · intro x hx
    rcases List.mem_append.1 hx with hx | hx
    · exact h.spent x hx
    · obtain ⟨one, hone, rfl⟩ := List.mem_map.1 hx
      exact ⟨(hheld one hone).2.1, hasked⟩
  · exact fun v hv => (hrem.justified v hv).mono (fun _ h => h) fun _ hx => List.mem_append_left _ hx
  · intro q hq hnone r hr x hx
    rcases List.mem_append.1 hx with hx | hx
    · exact hrem.before q hq hnone r hr x hx
    · obtain ⟨one, -, rfl⟩ := List.mem_map.1 hx
      exact (hother q hq r hr).symm
  · intro r hr
    obtain ⟨hlt, hnot, hwas⟩ := hrem.unspent r hr
    refine ⟨hlt, hnot, fun x hx => ?_⟩
    rcases List.mem_append.1 hx with hx | hx
    · exact hwas x hx
    · obtain ⟨one, -, rfl⟩ := List.mem_map.1 hx
      rintro rfl
      exact (h.unspent _ hr).2.1 (List.mem_filterMap.2 ⟨_, mem_of_pick hp, rfl⟩)

/-- A browser's handshake is handed over, under a request of its own. -/
private theorem vouching_accounted (h : n.Accounted c) (through : String) (transcript : Except String Bytes)
    (nonces : List Bytes) :
    { n with asked := n.asked + 1, ops := n.ops ++ [Op.vouching n.asked through transcript nonces] }.Accounted c := by
  have hj : (n.ops ++ [Op.vouching n.asked through transcript nonces]).filterMap Op.justs =
      n.ops.filterMap Op.justs := by
    rw [List.filterMap_append]
    simp [Op.justs]
  have hreqs : (n.ops ++ [Op.vouching n.asked through transcript nonces]).filterMap Op.request =
      n.ops.filterMap Op.request ++ [n.asked] := by
    rw [List.filterMap_append]
    rfl
  refine ⟨h.numbered, h.held, h.lengths, h.spentOnce, ?_, ?_, ?_, ?_, ?_, ?_, ?_, ?_⟩
  · exact fun x hx => ⟨(h.spent x hx).1, Nat.lt_succ_of_lt (h.spent x hx).2⟩
  · show ((_ ++ n.grants.map Grant.toVouching).map _).Nodup
    rw [hj]
    exact h.once
  · intro v hv
    refine (h.justified v ?_).mono (fun _ h => h) fun _ h => h
    unfold justs at hv ⊢
    dsimp only at hv
    rw [hj] at hv
    exact hv
  · dsimp only
    rw [hreqs, List.nodup_append]
    refine ⟨h.requests, List.nodup_singleton _, ?_⟩
    intro r hr r' hr' heq
    rw [List.mem_singleton.1 hr'] at heq
    have := h.asked r hr
    omega
  · intro r hr
    dsimp only at hr ⊢
    rw [hreqs] at hr
    rcases List.mem_append.1 hr with hr | hr
    · exact Nat.lt_succ_of_lt (h.asked r hr)
    · rw [List.mem_singleton.1 hr]
      exact Nat.lt_succ_self _
  · intro q hq hnone r hr x hx
    rcases List.mem_append.1 hq with hq | hq
    · exact h.before q hq hnone r hr x hx
    · rw [List.mem_singleton.1 hq] at hr
      cases hr
      exact Nat.ne_of_lt (h.spent x hx).2
  · intro request through proof nonces now hmem
    rcases List.mem_append.1 hmem with hmem | hmem
    · exact h.proved _ _ _ _ _ hmem
    · cases List.mem_singleton.1 hmem
  · intro r hr
    obtain ⟨hlt, hnot, hwas⟩ := h.unspent r hr
    refine ⟨Nat.lt_succ_of_lt hlt, ?_, hwas⟩
    dsimp only
    rw [hreqs, List.mem_append, List.mem_singleton]
    rintro (hmem | rfl)
    · exact hnot hmem
    · exact absurd hlt (Nat.lt_irrefl _)

/-- A handshake that proves nothing ends, its nonces unspent. -/
private theorem unproved_accounted (h : n.Accounted c) {i request : Nat} {through : String} {transcript : Except String Bytes}
    {nonces : List Bytes} {rest : List Op}
    (hp : pick n.ops i = some (.vouching request through transcript nonces, rest)) :
    { n with ops := rest, unspent := n.unspent ++ [request] }.Accounted c := by
  have hrem := accounted_removed h hp n.vouched
  refine ⟨hrem.numbered, hrem.held, hrem.lengths, hrem.spentOnce, hrem.spent, hrem.once, ?_, hrem.requests, hrem.asked,
    hrem.before, hrem.proved, ?_⟩
  · exact fun v hv => (hrem.justified v hv).mono (fun _ h => h) fun _ h => h
  · intro r hr
    rcases List.mem_append.1 hr with hr | hr
    · exact hrem.unspent r hr
    · obtain rfl := List.mem_singleton.1 hr
      refine ⟨h.asked r (List.mem_filterMap.2 ⟨_, mem_of_pick hp, rfl⟩), ?_,
        h.before _ (mem_of_pick hp) rfl r rfl⟩
      exact (List.nodup_cons.1 ((filterMap_perm (f := Op.request) hp rfl).nodup_iff.2 h.requests)).1

/-- Its nonces are spent, one of them found good: what it justifies goes on. -/
private theorem possessed_accounted (h : n.Accounted c) {i request : Nat} {through : String} {proof : Handshake}
    {nonces : List Bytes} {now : Nat} {rest : List Op} {one : Issued}
    (hp : pick n.ops i = some (.spending request through proof nonces now, rest))
    (hspend : { n with
      held := (spend through now nonces n.held).2.2
      spent := n.spent ++ (spend through now nonces n.held).2.1.map fun one => (one, request, through)
      ops := rest }.Accounted c)
    (hfound : (spend through now nonces n.held).1 = some one) (hleaf : proof.serverLeaf = one.listener) :
    { n with
      held := (spend through now nonces n.held).2.2
      spent := n.spent ++ (spend through now nonces n.held).2.1.map fun one => (one, request, through)
      ops := rest ++ [Op.possessed ⟨request, through, proof, nonces, one, now⟩] }.Accounted c := by
  obtain ⟨hspent, -, -, hown⟩ := spend_spec through now nonces
    fun k one hone => (h.held k one hone).1
  obtain ⟨hmem, hthrough, hfresh⟩ := hown one hfound
  obtain ⟨hget, hnonce, -⟩ := hspent one hmem
  -- The one it found was held until now, so nothing was justified by it before.
  have hnew : ∀ v ∈ n.justs, v.one.serial ≠ one.serial := fun v hv =>
    (h.held _ one hget).2.2 _ (h.justified v hv).spent
  have hrestJusts : ∀ v ∈ rest.filterMap Op.justs ++ n.grants.map Grant.toVouching, v ∈ n.justs := by
    intro v hv
    exact ((filterMap_removed hp).append (List.Subperm.refl _)).subset hv
  have hlast {α : Type} (f : Op → Option α) (op : Op) {a : α} (hf : f op = some a) :
      (rest ++ [op]).filterMap f = rest.filterMap f ++ [a] := by
    rw [List.filterMap_append, List.filterMap_cons_some hf]
    rfl
  have hjs := hlast Op.justs (.possessed ⟨request, through, proof, nonces, one, now⟩) rfl
  have hreqs := hlast Op.request (.possessed ⟨request, through, proof, nonces, one, now⟩) rfl
  have hsame : ((rest.filterMap Op.request) ++ [request]).Perm (n.ops.filterMap Op.request) :=
    (List.perm_append_singleton ..).trans (filterMap_perm (f := Op.request) hp rfl)
  refine ⟨hspend.numbered, hspend.held, hspend.lengths, hspend.spentOnce, hspend.spent, ?_, ?_, ?_, ?_, ?_, ?_, ?_⟩
  · show ((((rest ++ [_]).filterMap Op.justs) ++ n.grants.map Grant.toVouching).map _).Nodup
    rw [hjs]
    have hcons (v : Vouching) : ((rest.filterMap Op.justs ++ [v]) ++ n.grants.map Grant.toVouching).Perm
        (v :: (rest.filterMap Op.justs ++ n.grants.map Grant.toVouching)) := by
      rw [List.append_assoc]
      exact List.perm_middle
    refine ((hcons _).map _).nodup_iff.2 ?_
    rw [List.map_cons, List.nodup_cons]
    refine ⟨?_, hspend.once⟩
    intro hmem
    obtain ⟨v, hv, heq⟩ := List.mem_map.1 hmem
    exact hnew v (hrestJusts v hv) heq
  · intro v hv
    unfold justs at hv
    dsimp only at hv
    rw [hjs, List.append_assoc] at hv
    rcases List.mem_append.1 hv with hv | hv
    · exact (hspend.justified v (List.mem_append_left _ hv)).mono (fun _ h => h) fun _ h => h
    · rcases List.mem_append.1 hv with hv | hv
      · obtain rfl := List.mem_singleton.1 hv
        exact ⟨(h.held _ one hget).2.1, hthrough, hfresh, hleaf, hnonce, h.proved _ _ _ _ _ (mem_of_pick hp),
          List.mem_append_right _ (List.mem_map.2 ⟨one, hmem, rfl⟩)⟩
      · exact (hspend.justified v (List.mem_append_right _ hv)).mono (fun _ h => h) fun _ h => h
  · dsimp only
    rw [hreqs]
    exact hsame.nodup_iff.2 h.requests
  · intro r hr
    dsimp only at hr
    rw [hreqs] at hr
    exact h.asked r (hsame.mem_iff.1 hr)
  · intro q hq hnone
    rcases List.mem_append.1 hq with hq | hq
    · exact hspend.before q hq hnone
    · rw [List.mem_singleton.1 hq] at hnone
      cases hnone
  · intro request' through' proof' nonces' now' hmem'
    rcases List.mem_append.1 hmem' with hmem' | hmem'
    · exact hspend.proved _ _ _ _ _ hmem'
    · cases List.mem_singleton.1 hmem'
  · intro r hr
    obtain ⟨hlt, -, hwas⟩ := hspend.unspent r hr
    refine ⟨hlt, ?_, hwas⟩
    dsimp only
    rw [hreqs]
    exact fun hmem' => (h.unspent r hr).2.1 (hsame.mem_iff.1 hmem')

private theorem proves_accounted {a : Action} (h : n.Accounted c) (hs : n.proves c a = some n') : n'.Accounted c := by
  cases a with
  | vouch connection transcript nonces =>
    simp only [proves] at hs
    split at hs
    · cases hs
      exact vouching_accounted h ..
    · cases hs
      exact h
  | check i =>
    simp only [proves] at hs
    split at hs
    · rename_i request through transcript nonces rest hp
      split at hs
      · rename_i proof hproof
        cases hs
        refine accounted_replaced h hp (.spending request through proof nonces n.now) rfl rfl ?_ n.known
        intro request' through' proof' nonces' now' heq
        cases heq
        exact ⟨transcript, hproof⟩
      · cases hs
        exact unproved_accounted h hp
    · cases hs
  | spend i =>
    simp only [proves] at hs
    split at hs
    · rename_i request through proof nonces now rest hp
      have hspend := spend_accounted h hp
      split at hs
      · rename_i one hfound
        split at hs
        · rename_i hleaf
          cases hs
          exact possessed_accounted h hp hspend hfound hleaf
        · cases hs
          exact hspend
      · cases hs
        exact hspend
    · cases hs
  | tick | nonces | issue | lookUp | verify | keep | hold | unvouch | call => cases hs

private theorem holds_accounted {a : Action} (h : n.Accounted c) (hs : n.holds c a = some n') : n'.Accounted c := by
  cases a with
  | lookUp i now now' =>
    simp only [holds] at hs
    split at hs
    · rename_i v rest hp
      split at hs
      · cases hs
        exact accounted_replaced h hp (.known v now _) rfl rfl (fun _ _ _ _ _ he => (by cases he)) _
      · cases hs
        exact accounted_replaced h hp (.unknown v now) rfl rfl (fun _ _ _ _ _ he => (by cases he)) _
    · cases hs
  | verify i at_ =>
    simp only [holds] at hs
    split at hs
    · rename_i v now rest hp
      split at hs
      · cases hs
        exact accounted_replaced h hp (.verified v now _) rfl rfl (fun _ _ _ _ _ he => (by cases he)) n.known
      · cases hs
        exact accounted_removed h hp n.vouched
    · cases hs
  | keep i =>
    simp only [holds] at hs
    split at hs
    · rename_i v now verified rest hp
      cases hs
      exact accounted_replaced h hp (.known v now verified) rfl rfl (fun _ _ _ _ _ he => (by cases he)) _
    · cases hs
  | hold i handle =>
    simp only [holds] at hs
    split at hs
    · rename_i v now known rest hp
      generalize roomed n.vouched now = vouched at hs
      split at hs
      · cases hs
        exact accounted_removed h hp vouched
      · split at hs
        · cases hs
        · cases hs
          have hrem := accounted_removed h hp n.vouched
          -- The request becomes the caller vouched for, under the nonce it spent.
          have hj : (rest.filterMap Op.justs ++ v :: n.grants.map Grant.toVouching).Perm n.justs := by
            have hperm : (v :: rest.filterMap Op.justs).Perm (n.ops.filterMap Op.justs) := filterMap_perm hp rfl
            exact List.perm_middle.trans (hperm.append_right _)
          refine ⟨hrem.numbered, hrem.held, hrem.lengths, hrem.spentOnce, hrem.spent, ?_, ?_, hrem.requests, hrem.asked,
            hrem.before, hrem.proved, hrem.unspent⟩
          · exact (hj.map _).nodup_iff.2 h.once
          · exact fun v' hv' => (h.justified v' (hj.mem_iff.1 hv')).mono (fun _ h => h) fun _ h => h
    · cases hs
  | tick | nonces | issue | vouch | check | spend | unvouch | call => cases hs

private theorem answers_accounted {a : Action} (h : n.Accounted c) (hs : n.answers c a = some n') : n'.Accounted c := by
  have hlog : ∀ vouched (log : List Event), (log.filterMap fun
      | .vouched g => some g
      | .unvouched _ => none) = n.grants → { n with vouched, log }.Accounted c := by
    intro vouched log hgrants
    have hj : Node.justs { n with vouched, log } = n.justs := by
      unfold justs Node.grants at *
      dsimp only
      rw [hgrants]
    refine ⟨h.numbered, h.held, h.lengths, h.spentOnce, h.spent, ?_, ?_, h.requests, h.asked, h.before, h.proved, h.unspent⟩
    · rw [hj]
      exact h.once
    · intro v hv
      rw [hj] at hv
      exact (h.justified v hv).mono (fun _ h => h) fun _ h => h
  cases a with
  | unvouch connection handle =>
    simp only [answers] at hs
    split at hs
    · cases hs
      exact hlog _ _ rfl
    · cases hs
      exact h
  | call connection handle now =>
    cases hs
    exact hlog _ _ rfl
  | tick | nonces | issue | vouch | check | spend | lookUp | verify | keep | hold => cases hs

private theorem step_accounted {a : Action} (h : n.Accounted c) (hs : n.step c a = some n') : n'.Accounted c := by
  have hissues (hs : n.issues c a = some n') : n'.Accounted c := issues_accounted h hs
  have hproves (hs : n.proves c a = some n') : n'.Accounted c := proves_accounted h hs
  have hholds (hs : n.holds c a = some n') : n'.Accounted c := holds_accounted h hs
  have hanswers (hs : n.answers c a = some n') : n'.Accounted c := answers_accounted h hs
  cases a with
  | tick by_ =>
    cases hs
    exact ⟨h.numbered, h.held, h.lengths, h.spentOnce, h.spent, h.once,
      fun v hv => (h.justified v hv).mono (fun _ h => h) fun _ h => h, h.requests, h.asked, h.before, h.proved, h.unspent⟩
  | nonces | issue => exact hissues hs
  | vouch | check | spend => exact hproves hs
  | lookUp | verify | keep | hold => exact hholds hs
  | unvouch | call => exact hanswers hs

private theorem starting_accounted (h : Starts n) : n.Accounted c := by
  subst h
  refine ⟨rfl, fun _ _ h => (by cases h), fun _ h => (by cases h), List.nodup_nil, fun _ h => (by cases h),
    List.nodup_nil, fun _ h => (by cases h), List.nodup_nil, fun _ h => (by cases h), fun _ h => (by cases h),
    fun _ _ _ _ _ h => (by cases h), fun _ h => (by cases h)⟩

/-- In every run a nonce is good once, for the relay and the listener it was issued for. -/
theorem goodOnce_of_reach (h : Reach (Node.step c) Always Starts n) : n.GoodOnce c := by
  have hs : n.Accounted c :=
    Reach.invariant (fun _ h => starting_accounted h) (fun _ _ _ hs _ h => step_accounted hs h) h
  exact hs.goodOnce

private def firstDrawn : Bytes := List.replicate nonceLength 1

private def secondDrawn : Bytes := List.replicate nonceLength 2

/-- A handshake bound to each of two nonces, made with one listener by one browser; and two relays. -/
private def browsers : Settings Unit Unit where
  proved transcript :=
    if transcript = [1] then .ok ⟨firstDrawn ++ firstDrawn, [10], [[20]]⟩
    else if transcript = [2] then .ok ⟨secondDrawn ++ secondDrawn, [10], [[20]]⟩
    else .error "no handshake"
  bindingLength := nonceLength
  binding nonces := nonces.flatten.take nonceLength
  fromDer _ := .ok ()
  verify _ _ _ := .ok ()
  notAfter _ := .ok 1000
  certificate leaf := .ok ⟨if leaf = [10] then "gui" else "alice", .proven⟩
  relays who := who = "gui" || who = "other"

private def gui : Connection := ⟨⟨"gui", .proven⟩, true⟩

private def other : Connection := ⟨⟨"other", .proven⟩, true⟩

/-- Of two nonces issued to one relay, the first is spent by another, which is vouched no caller under it; the second
vouches one; and the first vouches none then. -/
theorem goodOnce_of_twoRelays : ∃ n : Node, n.GoodOnce browsers ∧ n.grants.map (fun g => g.one.serial) = [1] ∧
    n.spent.map (fun x => (x.1.serial, x.2)) = [(0, 0, "other"), (1, 1, "gui")] ∧ n.unspent = [3] := by
  obtain ⟨n, hn, hp⟩ := Reach.exists_of_runWhere (Node.step browsers) Always (show Starts Node.starting from rfl)
    [.nonces gui [10] 2 5, .issue 0 [firstDrawn, secondDrawn], .tick 100,
      .vouch other (.ok [1]) [firstDrawn], .check 0, .spend 0,
      .vouch gui (.ok [2]) [secondDrawn], .check 0, .spend 0, .lookUp 0 6 6, .verify 0 6, .keep 0, .hold 0 77,
      .vouch gui (.ok [1]) [firstDrawn], .check 0, .spend 0,
      .vouch gui (.ok [9]) [secondDrawn], .check 0]
    (fun n => decide (n.grants.map (fun g => g.one.serial) = [1]) &&
      (decide (n.spent.map (fun x => (x.1.serial, x.2)) = [(0, 0, "other"), (1, 1, "gui")]) && decide (n.unspent = [3])))
    (by decide +kernel)
  simp only [Bool.and_eq_true, decide_eq_true_eq] at hp
  exact ⟨n, goodOnce_of_reach hn, hp⟩

end Node

end Relaying
