import XmipRuntime.Plane.Callers

/-!
# Every node handle is told ended once

A Proof carries the handle each node it was vouched to issued.  One that is replaced is told ended by the thread that
replaced it, and the rest are told when the Proof goes, with the last reference to it.  Each node handle ever vouched is
in one place: carried by its Proof as long as that is referred to and no newer one replaced it, and after that about to
be told or told, once (`toldOnce_of_reach`).
-/

namespace Plane

open Library

/-- The node handles it is about to tell ended. -/
def Op.tells : Op → List Vouch
  | .telling vouches => vouches
  | .found _ | .making _ _ | .act _ | .letting _ => []

namespace World

/-- The node handles about to be told ended. -/
def telling (w : World) : List Vouch := w.ops.flatMap Op.tells

/-- A newer handle of the same node replaced it. -/
def Superseded (w : World) (v : Vouch) : Prop :=
  ∃ v' ∈ w.issued, v'.proof = v.proof ∧ v'.node = v.node ∧ v.serial < v'.serial

/-- Each node handle vouched is told ended once: when it was replaced or its Proof is gone, and not before; and a Proof
referred to carries at most one of a node that is not ended, and carries no other. -/
structure ToldOnce (w : World) : Prop where
  ended : ∀ v ∈ w.issued, w.Superseded v ∨ v.proof ∉ w.refs → w.told.count v + w.telling.count v = 1
  notBefore : ∀ v ∈ w.issued, ¬ w.Superseded v → v.proof ∈ w.refs → v ∉ w.told ∧ v ∉ w.telling
  carried : ∀ p proof, w.proofs.get p = some proof → ∀ v, v ∈ proof.vouched ↔
    v ∈ w.issued ∧ v.proof = p ∧ v ∉ w.told ∧ v ∉ w.telling
  onePerNode : ∀ p proof, w.proofs.get p = some proof → (proof.vouched.map Vouch.node).Nodup
  idle : w.ops = [] → ∀ v ∈ w.issued, w.Superseded v ∨ v.proof ∉ w.refs → w.told.count v = 1

variable {w w' : World}

/-! ### A Proof is kept as long as it is referred to -/

theorem mem_refs {p : Nat} : p ∈ w.refs ↔
    (∃ k x, w.holding.callers.get k = some x ∧ x.proof = p) ∨ ∃ op ∈ w.ops, p ∈ op.refs := by
  unfold refs
  rw [List.mem_append, List.mem_flatMap, List.mem_map]
  refine or_congr_left ?_
  constructor
  · rintro ⟨x, hx, rfl⟩
    exact ⟨x.1, x.2, Table.mem_iff_get.1 hx, rfl⟩
  · rintro ⟨k, x, hx, rfl⟩
    exact ⟨(k, x), Table.mem_iff_get.2 hx, rfl⟩

/-- Every Proof there is is referred to. -/
def Referred (w : World) : Prop := ∀ p, (w.proofs.get p).isSome → p ∈ w.refs

/-- Nothing referred to is lost sight of: a handle's Proof is still a handle's or about to be let go of, and so is what
is under way. -/
theorem Referred.of_refs (h : w.Referred) (hproofs : w'.proofs = w.proofs)
    (hcallers : ∀ k x, w.holding.callers.get k = some x → x.proof ∈ w'.refs)
    (hops : ∀ op ∈ w.ops, ∀ p ∈ op.refs, p ∈ w'.refs) : w'.Referred := by
  intro p hp
  rw [hproofs] at hp
  rcases mem_refs.1 (h p hp) with ⟨k, x, hx, rfl⟩ | ⟨op, hop, hp⟩
  · exact hcallers k x hx
  · exact hops op hop p hp

private theorem refs_caller {k : Nat} {x : Held} (h : w.holding.callers.get k = some x) : x.proof ∈ w.refs :=
  mem_refs.2 (.inl ⟨k, x, h, rfl⟩)

private theorem refs_op {op : Op} {p : Nat} (h : op ∈ w.ops) (hp : p ∈ op.refs) : p ∈ w.refs :=
  mem_refs.2 (.inr ⟨op, h, hp⟩)

/-- One that was under way goes on as another, with the references it had. -/
private theorem Referred.replaced (h : w.Referred) {i : Nat} {op new : Op} {rest : List Op}
    (hp : pick w.ops i = some (op, rest)) (hnew : ∀ p ∈ op.refs, p ∈ new.refs) :
    { w with ops := rest ++ [new] }.Referred := by
  refine h.of_refs rfl (fun k x hx => refs_caller hx) ?_
  intro op' hop' p hp'
  rcases List.mem_cons.1 ((pick_perm hp).mem_iff.2 hop') with rfl | hop'
  · exact refs_op (List.mem_append.2 (.inr (List.mem_singleton.2 rfl))) (hnew p hp')
  · exact refs_op (List.mem_append.2 (.inl hop')) hp'

/-- More is under way than before. -/
private theorem Referred.more (h : w.Referred) (hproofs : w'.proofs = w.proofs) (hhold : w'.holding = w.holding)
    (hops : ∀ op ∈ w.ops, op ∈ w'.ops) : w'.Referred := by
  refine h.of_refs hproofs (fun k x hx => refs_caller (k := k) (hhold ▸ hx)) ?_
  exact fun op hop p hp => refs_op (hops op hop) hp

private theorem insert_referred (h : w.Referred) {m : Making} {at_ : Int} {i handle : Nat} {rest : List Op}
    {x : World × List Nat} (hp : pick w.ops i = some (.making m at_, rest))
    (hx : w.insert m at_ handle = some x) : { x.1 with ops := rest ++ [Op.letting x.2] }.Referred := by
  -- What was under way: the handle's own Proof has to be somewhere, the rest is as it was.
  have hops : ∀ w' : World, w'.ops = rest ++ [Op.letting x.2] → m.proof ∈ w'.refs →
      ∀ op ∈ w.ops, ∀ p ∈ op.refs, p ∈ w'.refs := by
    intro w' hw' hm op hop p hp'
    rcases List.mem_cons.1 ((pick_perm hp).mem_iff.2 hop) with rfl | hop
    · rwa [List.mem_singleton.1 hp']
    · exact refs_op (by rw [hw']; exact List.mem_append.2 (.inl hop)) hp'
  have hlet : ∀ w' : World, w'.ops = rest ++ [Op.letting x.2] → ∀ p ∈ x.2, p ∈ w'.refs := by
    intro w' hw' p hp'
    refine mem_refs.2 (.inr ⟨Op.letting x.2, ?_, hp'⟩)
    rw [hw']
    exact List.mem_append.2 (.inr (List.mem_singleton.2 rfl))
  have hended : ∀ k y, w.holding.callers.get k = some y → (liveAt w.holding.callers at_).get k = some y ∨
      y.proof ∈ endedAt w.holding.callers at_ := by
    intro k y hy
    unfold liveAt endedAt
    cases hl : live y.heldUntil at_ with
    | true =>
      left
      rw [Table.get_keep, hy, Option.filter_some, if_pos hl]
    | false =>
      right
      exact List.mem_map.2 ⟨(k, y), List.mem_filter.2 ⟨Table.mem_iff_get.2 hy, by simp [hl]⟩, rfl⟩
  unfold insert at hx
  split at hx
  · cases hx
    refine h.of_refs rfl (fun k y hy => refs_caller hy) (hops _ rfl (hlet _ rfl _ (List.mem_singleton.2 rfl)))
  · by_cases hfull : Plane.most ≤ w.holding.callers.size
    · simp only [hfull, decide_true, if_true] at hx
      split at hx
      · cases hx
        refine h.of_refs rfl ?_ (hops _ rfl (hlet _ rfl _ (List.mem_cons_self ..)))
        intro k y hy
        rcases hended k y hy with hy | hy
        · exact refs_caller (k := k) hy
        · exact hlet _ rfl _ (List.mem_cons_of_mem _ hy)
      · split at hx
        · cases hx
        · rename_i hdrawn
          cases hx
          refine h.of_refs rfl ?_ (hops _ rfl (refs_caller (k := handle)
            (x := ⟨m.proof, m.heldUntil, m.provedBy⟩) (Table.get_put_self ..)))
          intro k y hy
          rcases hended k y hy with hy | hy
          · refine refs_caller (k := k) ((Table.get_put_of_ne _ ?_ _).trans hy)
            rintro rfl
            exact hdrawn (.inr (.inr (by rw [hy]; rfl)))
          · exact hlet _ rfl _ hy
    · simp only [hfull, decide_false, Bool.false_eq_true, if_false] at hx
      split at hx
      · cases hx
      · rename_i hdrawn
        cases hx
        refine h.of_refs rfl ?_ (hops _ rfl (refs_caller (k := handle)
            (x := ⟨m.proof, m.heldUntil, m.provedBy⟩) (Table.get_put_self ..)))
        intro k y hy
        refine refs_caller (k := k) ((Table.get_put_of_ne _ ?_ _).trans hy)
        rintro rfl
        exact hdrawn (.inr (.inr (by rw [hy]; rfl)))

private theorem dropped_referred (h : w.Referred) {i p : Nat} {ps : List Nat} {rest : List Op}
    (hp : pick w.ops i = some (.letting (p :: ps), rest)) :
    (w.dropped (rest ++ [.letting ps]) p).Referred := by
  -- Only the one reference went: any other Proof is referred to as before.
  have hothers : ∀ q ∈ w.refs, q ≠ p → q ∈ { w with ops := rest ++ [Op.letting ps] }.refs := by
    intro q hq hne
    rcases mem_refs.1 hq with ⟨k, x, hx, rfl⟩ | ⟨op, hop, hq⟩
    · exact refs_caller hx
    · rcases List.mem_cons.1 ((pick_perm hp).mem_iff.2 hop) with rfl | hop
      · refine mem_refs.2 (.inr ⟨Op.letting ps, List.mem_append.2 (.inr (List.mem_singleton.2 rfl)), ?_⟩)
        exact (List.mem_cons.1 hq).resolve_left hne
      · exact refs_op (List.mem_append.2 (.inl hop)) hq
  unfold dropped
  dsimp only
  split
  · rename_i hmem
    intro q hq
    by_cases hqp : q = p
    · rw [hqp]
      exact hmem
    · exact hothers q (h q hq) hqp
  · intro q hq
    rw [Table.get_drop] at hq
    split at hq
    · cases hq
    · rename_i hqp
      rcases mem_refs.1 (hothers q (h q hq) hqp) with ⟨k, x, hx, rfl⟩ | ⟨op, hop, hq⟩
      · exact refs_caller (k := k) hx
      · exact refs_op (List.mem_append.2 (.inl hop)) hq

/-- What is under way of nothing goes, all else as it was. -/
private theorem Referred.without (h : w.Referred) {i : Nat} {op : Op} {rest : List Op} (hp : pick w.ops i = some (op, rest))
    (hop : op.refs = []) : { w with ops := rest }.Referred := by
  refine h.of_refs rfl (fun k x hx => refs_caller hx) ?_
  intro op' hop' p hp'
  rcases List.mem_cons.1 ((pick_perm hp).mem_iff.2 hop') with rfl | hop'
  · rw [hop] at hp'
    cases hp'
  · exact refs_op hop' hp'

theorem hold_referred (h : w.Referred) (identity : AuthenticatedIdentity) (heldUntil : Option Int) (provedBy : Option Nat)
    (leaf : Option (List UInt8)) : (w.hold identity heldUntil provedBy leaf).Referred := by
  unfold hold
  split
  · exact h
  · intro p hp
    rw [Table.get_put] at hp
    split at hp
    · rename_i hpm
      refine mem_refs.2 (.inr ⟨_, List.mem_append.2 (.inr (List.mem_singleton.2 rfl)), ?_⟩)
      exact List.mem_singleton.2 hpm
    · rcases mem_refs.1 (h p hp) with ⟨k, x, hx, rfl⟩ | ⟨op, hop, hp⟩
      · exact refs_caller (k := k) hx
      · exact refs_op (List.mem_append.2 (.inl hop)) hp

theorem lookUp_referred (h : w.Referred) (handle : Nat) : (w.lookUp handle).Referred := by
  unfold lookUp
  split
  · exact h
  · split
    · rename_i x hx
      split
      · exact h.more rfl rfl fun op hop => List.mem_append.2 (.inl hop)
      · refine h.of_refs rfl ?_ fun op hop p hp => refs_op (List.mem_append.2 (.inl hop)) hp
        intro k y hy
        by_cases hk : k = handle
        · rw [hk, hx] at hy
          cases hy
          refine mem_refs.2 (.inr ⟨_, List.mem_append.2 (.inr (List.mem_singleton.2 rfl)), ?_⟩)
          exact List.mem_singleton.2 rfl
        · exact refs_caller (k := k) ((Table.get_drop_of_ne _ hk).trans hy)
    · exact h

theorem vouched_referred (h : w.Referred) {p : Nat} {proof : Proof} (hproof : w.proofs.get p = some proof)
    (node handle : Nat) : (w.vouched p proof node handle).Referred := by
  intro q hq
  have hq : (w.proofs.get q).isSome := by
    unfold vouched at hq
    dsimp only at hq
    rw [Table.get_put] at hq
    split at hq
    · rename_i hqp
      rw [hqp, hproof]
      rfl
    · exact hq
  rcases mem_refs.1 (h q hq) with ⟨k, x, hx, rfl⟩ | ⟨op, hop, hq⟩
  · exact refs_caller (k := k) hx
  · exact refs_op (List.mem_append.2 (.inl hop)) hq

theorem Referred.step (h : w.Referred) {a : Action} (hs : w.step a = some w') : w'.Referred := by
  cases taken_of_step hs with
  | tick by_ => exact h
  | hold identity heldUntil provedBy leaf => exact hold_referred h identity heldUntil provedBy leaf
  | again handle =>
    unfold again
    split
    · split
      · exact h.more rfl rfl fun op hop => List.mem_append.2 (.inl hop)
      · exact h
    · exact h
  | sampled hp _ => exact h.replaced hp fun p hp => hp
  | stale hp _ => exact h.replaced hp fun p hp => hp
  | insert hp hx => exact insert_referred h hp hx
  | lookUp handle => exact lookUp_referred h handle
  | release handle =>
    refine h.of_refs rfl ?_ fun op hop p hp => refs_op (List.mem_append.2 (.inl hop)) hp
    intro k y hy
    by_cases hk : k = handle
    · refine mem_refs.2 (.inr ⟨_, List.mem_append.2 (.inr (List.mem_singleton.2 rfl)), ?_⟩)
      exact List.mem_map.2 ⟨y, Option.mem_toList.2 (hk ▸ hy), rfl⟩
    · exact refs_caller (k := k) ((Table.get_drop_of_ne _ hk).trans hy)
  | revoke prover =>
    refine h.of_refs rfl ?_ fun op hop p hp => refs_op (List.mem_append.2 (.inl hop)) hp
    intro k y hy
    by_cases hb : y.provedBy = some prover
    · refine mem_refs.2 (.inr ⟨_, List.mem_append.2 (.inr (List.mem_singleton.2 rfl)), ?_⟩)
      exact List.mem_map.2 ⟨(k, y), List.mem_filter.2 ⟨Table.mem_iff_get.2 hy, by simpa using hb⟩, rfl⟩
    · refine refs_caller (k := k) ((Table.get_keep ..).trans ?_)
      rw [hy, Option.filter_some, if_pos (by simpa using hb)]
  | clone hp => exact h.more rfl rfl fun op hop => List.mem_append.2 (.inl hop)
  | vouched node handle hp hproof => exact vouched_referred h hproof node handle
  | done hp => exact h.replaced hp fun p hp => hp
  | letAll hp => exact h.without hp rfl
  | letGo hp => exact dropped_referred h hp
  | toldAll hp => exact h.without hp rfl
  | @tell i vouch vouches rest hp =>
    have hsame : { w with ops := rest ++ [Op.telling vouches] }.Referred := h.replaced hp (by simp [Op.refs])
    exact hsame.of_refs rfl (fun k x hx => refs_caller (k := k) hx) fun op hop p hp => refs_op hop hp

/-! ### Where each node handle is -/

/-- Every node handle vouched has a number of its own, and is in one place: carried by its Proof, or, replaced or its
Proof gone, about to be told or told, once. -/
structure Accounted (w : World) : Prop where
  serial : ∀ v ∈ w.issued, v.serial < w.issued.length
  own : ∀ v ∈ w.issued, ∀ v' ∈ w.issued, v.serial = v'.serial → v = v'
  minted : ∀ v ∈ w.issued, v.proof < w.minted
  issued : ∀ v, v ∈ w.told ∨ v ∈ w.telling → v ∈ w.issued
  carried : ∀ p proof, w.proofs.get p = some proof → ∀ v, v ∈ proof.vouched ↔
    v ∈ w.issued ∧ v.proof = p ∧ ¬ w.Superseded v
  nodes : ∀ p proof, w.proofs.get p = some proof → (proof.vouched.map Vouch.node).Nodup
  finished : ∀ v ∈ w.issued, w.Superseded v ∨ w.proofs.get v.proof = none → w.told.count v + w.telling.count v = 1
  still : ∀ v ∈ w.issued, ¬ w.Superseded v → (w.proofs.get v.proof).isSome → w.told.count v + w.telling.count v = 0

/-- A step that neither vouches nor tells nor ends a Proof. -/
private theorem Accounted.same (h : w.Accounted) (hp : w'.proofs = w.proofs) (hi : w'.issued = w.issued)
    (ht : w'.told = w.told) (hm : w.minted ≤ w'.minted) (htell : w'.telling.Perm w.telling) : w'.Accounted := by
  have hsup : ∀ v, w'.Superseded v ↔ w.Superseded v := fun v => by unfold Superseded; rw [hi]
  have hcount : ∀ v, w'.telling.count v = w.telling.count v := fun v => htell.count_eq v
  constructor
  · rw [hi]; exact h.serial
  · rw [hi]; exact h.own
  · rw [hi]; exact fun v hv => Nat.lt_of_lt_of_le (h.minted v hv) hm
  · intro v hv
    rw [ht, htell.mem_iff] at hv
    rw [hi]
    exact h.issued v hv
  · intro p proof hproof v
    rw [hp] at hproof
    rw [hi, hsup]
    exact h.carried p proof hproof v
  · rw [hp]; exact h.nodes
  · intro v hv hover
    rw [hi] at hv
    rw [hsup, hp] at hover
    rw [ht, hcount]
    exact h.finished v hv hover
  · intro v hv hnot hsome
    rw [hi] at hv
    rw [hsup] at hnot
    rw [hp] at hsome
    rw [ht, hcount]
    exact h.still v hv hnot hsome

private theorem telling_snoc (w : World) (op : Op) :
    { w with ops := w.ops ++ [op] }.telling = w.telling ++ op.tells := by
  simp [telling]

private theorem telling_pick {i : Nat} {op : Op} {rest : List Op} (hp : pick w.ops i = some (op, rest)) :
    w.telling.Perm (op.tells ++ rest.flatMap Op.tells) := by
  have := ((pick_perm hp).flatMap_right Op.tells).symm
  rwa [List.flatMap_cons] at this

/-- What tells nothing goes on as another that tells nothing. -/
private theorem telling_replaced {i : Nat} {op new : Op} {rest : List Op} (hp : pick w.ops i = some (op, rest))
    (hold : op.tells = []) (hnew : new.tells = []) : ((rest ++ [new]).flatMap Op.tells).Perm w.telling := by
  have := telling_pick hp
  rw [hold, List.nil_append] at this
  simpa [hnew] using this.symm

private theorem mem_eraseP_node {l : List Vouch} {node : Nat} (hnd : (l.map Vouch.node).Nodup) {v : Vouch} :
    v ∈ l.eraseP (fun v => decide (v.node = node)) ↔ v ∈ l ∧ v.node ≠ node := by
  induction l with
  | nil => simp
  | cons u l ih =>
    rw [List.map_cons, List.nodup_cons] at hnd
    by_cases hu : u.node = node
    · rw [List.eraseP_cons_of_pos (by simpa using hu)]
      constructor
      · intro hv
        refine ⟨List.mem_cons_of_mem _ hv, ?_⟩
        intro hvn
        exact hnd.1 (List.mem_map.2 ⟨v, hv, hvn.trans hu.symm⟩)
      · rintro ⟨hv, hvn⟩
        rcases List.mem_cons.1 hv with rfl | hv
        · exact absurd hu hvn
        · exact hv
    · rw [List.eraseP_cons_of_neg (by simpa using hu), List.mem_cons, List.mem_cons, ih hnd.2]
      constructor
      · rintro (rfl | ⟨hv, hvn⟩)
        · exact ⟨.inl rfl, hu⟩
        · exact ⟨.inr hv, hvn⟩
      · rintro ⟨rfl | hv, hvn⟩
        · exact .inl rfl
        · exact .inr ⟨hv, hvn⟩

/-- The one of `l` at `node`, where there is one. -/
private theorem mem_find_node {l : List Vouch} {node : Nat} (hnd : (l.map Vouch.node).Nodup) {v : Vouch} :
    v ∈ (l.find? fun v => decide (v.node = node)).toList ↔ v ∈ l ∧ v.node = node := by
  rw [Option.mem_toList]
  constructor
  · intro hv
    exact ⟨List.mem_of_find?_eq_some hv, by simpa using List.find?_some hv⟩
  · rintro ⟨hv, hvn⟩
    cases hf : l.find? fun v => decide (v.node = node) with
    | none =>
      have := List.find?_eq_none.1 hf v hv
      simp [hvn] at this
    | some u =>
      have hun : u.node = node := by simpa using List.find?_some hf
      have := List.inj_on_of_nodup_map hnd (List.mem_of_find?_eq_some hf) hv (hun.trans hvn.symm)
      rw [this]

private theorem count_find_le (l : List Vouch) (p : Vouch → Bool) (v : Vouch) : ((l.find? p).toList).count v ≤ 1 := by
  cases l.find? p with
  | none => simp
  | some u => exact List.count_le_length.trans (by simp)

/-- What vouching leaves: the node handle `v₀` issued, carried by its Proof in the place of the one of its node, which is to
be told. -/
private structure Vouches (w w' : World) (v₀ : Vouch) (proof : Proof) : Prop where
  issued : w'.issued = v₀ :: w.issued
  told : w'.told = w.told
  minted : w'.minted = w.minted
  proofs : ∀ q, w'.proofs.get q = if q = v₀.proof then
    some { proof with vouched := proof.vouched.eraseP (fun v => decide (v.node = v₀.node)) ++ [v₀] }
    else w.proofs.get q
  telling : w'.telling = w.telling ++ (proof.vouched.find? fun v => decide (v.node = v₀.node)).toList
  serial : v₀.serial = w.issued.length
  was : w.proofs.get v₀.proof = some proof

private theorem vouches_of_vouched {p node handle : Nat} {proof : Proof} (hp : w.proofs.get p = some proof) :
    Vouches w (w.vouched p proof node handle) ⟨w.issued.length, p, node, handle⟩ proof where
  issued := rfl
  told := rfl
  minted := rfl
  proofs _ := Table.get_put ..
  telling := telling_snoc w _
  serial := rfl
  was := hp

section Vouches

variable {v₀ : Vouch} {proof : Proof}

/-- The new one supersedes every earlier one of its node on its Proof. -/
private theorem Vouches.superseded_iff (hv : Vouches w w' v₀ proof) (h : w.Accounted) {v : Vouch} (hmem : v ∈ w.issued) :
    w'.Superseded v ↔ w.Superseded v ∨ v.proof = v₀.proof ∧ v.node = v₀.node := by
  unfold Superseded
  rw [hv.issued]
  constructor
  · rintro ⟨u, hu, hup, hun, hlt⟩
    rcases List.mem_cons.1 hu with rfl | hu
    · exact .inr ⟨hup.symm, hun.symm⟩
    · exact .inl ⟨u, hu, hup, hun, hlt⟩
  · rintro (⟨u, hu, hrest⟩ | ⟨hvp, hvn⟩)
    · exact ⟨u, List.mem_cons_of_mem _ hu, hrest⟩
    · exact ⟨v₀, List.mem_cons_self .., hvp.symm, hvn.symm, by rw [hv.serial]; exact h.serial v hmem⟩

/-- And nothing supersedes it. -/
private theorem Vouches.not_superseded (hv : Vouches w w' v₀ proof) (h : w.Accounted) : ¬ w'.Superseded v₀ := by
  rintro ⟨u, hu, -, -, hlt⟩
  have hserial := hv.serial
  rw [hv.issued] at hu
  rcases List.mem_cons.1 hu with rfl | hu
  · omega
  · have := h.serial u hu
    omega

private theorem Vouches.not_issued (hv : Vouches w w' v₀ proof) (h : w.Accounted) : v₀ ∉ w.issued := by
  intro hmem
  have hserial := hv.serial
  have := h.serial v₀ hmem
  omega

/-- What it replaces was carried by its Proof, for its node. -/
private theorem Vouches.mem_replaced (hv : Vouches w w' v₀ proof) (h : w.Accounted) {v : Vouch} :
    v ∈ (proof.vouched.find? fun v => decide (v.node = v₀.node)).toList ↔
      (v ∈ w.issued ∧ v.proof = v₀.proof ∧ ¬ w.Superseded v) ∧ v.node = v₀.node := by
  rw [mem_find_node (h.nodes _ proof hv.was), h.carried _ proof hv.was]

private theorem Vouches.count (hv : Vouches w w' v₀ proof) (v : Vouch) :
    w'.told.count v + w'.telling.count v = w.told.count v + w.telling.count v +
      ((proof.vouched.find? fun v => decide (v.node = v₀.node)).toList).count v := by
  rw [hv.told, hv.telling, List.count_append]
  omega

private theorem Vouches.carried (hv : Vouches w w' v₀ proof) (h : w.Accounted) {q : Nat} {proof' : Proof}
    (hq : w'.proofs.get q = some proof') (v : Vouch) :
    v ∈ proof'.vouched ↔ v ∈ w'.issued ∧ v.proof = q ∧ ¬ w'.Superseded v := by
  rw [hv.proofs] at hq
  rw [hv.issued]
  split at hq
  · rename_i hqp
    cases hq
    subst hqp
    rw [List.mem_append, mem_eraseP_node (h.nodes _ proof hv.was), h.carried _ proof hv.was, List.mem_singleton,
      List.mem_cons]
    constructor
    · rintro (⟨⟨hmem, hvp, hns⟩, hvn⟩ | rfl)
      · refine ⟨.inr hmem, hvp, ?_⟩
        rw [hv.superseded_iff h hmem]
        rintro (hs | ⟨-, hs⟩)
        · exact hns hs
        · exact hvn hs
      · exact ⟨.inl rfl, rfl, hv.not_superseded h⟩
    · rintro ⟨rfl | hmem, hvp, hns⟩
      · exact .inr rfl
      · rw [hv.superseded_iff h hmem, not_or, not_and] at hns
        exact .inl ⟨⟨hmem, hvp, hns.1⟩, hns.2 hvp⟩
  · rename_i hqp
    rw [h.carried q proof' hq, List.mem_cons]
    constructor
    · rintro ⟨hmem, rfl, hns⟩
      refine ⟨.inr hmem, rfl, ?_⟩
      rw [hv.superseded_iff h hmem]
      rintro (hs | ⟨hs, -⟩)
      · exact hns hs
      · exact hqp hs
    · rintro ⟨rfl | hmem, rfl, hns⟩
      · exact absurd rfl hqp
      · rw [hv.superseded_iff h hmem, not_or] at hns
        exact ⟨hmem, rfl, hns.1⟩

private theorem Vouches.nodes (hv : Vouches w w' v₀ proof) (h : w.Accounted) {q : Nat} {proof' : Proof}
    (hq : w'.proofs.get q = some proof') : (proof'.vouched.map Vouch.node).Nodup := by
  have hnodes := h.nodes _ proof hv.was
  rw [hv.proofs] at hq
  split at hq
  · cases hq
    show ((proof.vouched.eraseP (fun v => decide (v.node = v₀.node)) ++ [v₀]).map Vouch.node).Nodup
    rw [List.map_append, List.map_singleton, List.nodup_append]
    refine ⟨hnodes.sublist (List.eraseP_sublist.map _), by simp, ?_⟩
    intro n hn n' hn'
    obtain ⟨v, hmem, rfl⟩ := List.mem_map.1 hn
    rw [List.mem_singleton.1 hn']
    exact ((mem_eraseP_node hnodes).1 hmem).2
  · exact h.nodes q proof' hq

/-- Replaced just now, or over before: the one replaced was carried, and so was not told yet. -/
private theorem Vouches.finished (hv : Vouches w w' v₀ proof) (h : w.Accounted) {v : Vouch} (hmem : v ∈ w.issued)
    (hover : w'.Superseded v ∨ w'.proofs.get v.proof = none) : w'.told.count v + w'.telling.count v = 1 := by
  have hgone : w'.proofs.get v.proof = none → w.proofs.get v.proof = none := by
    rw [hv.proofs]
    split
    · intro hs
      cases hs
    · exact id
  rw [hv.count]
  by_cases hbefore : w.Superseded v ∨ w.proofs.get v.proof = none
  · rw [h.finished v hmem hbefore, List.count_eq_zero_of_not_mem]
    intro hfound
    obtain ⟨⟨-, hvp, hns⟩, -⟩ := (hv.mem_replaced h).1 hfound
    rcases hbefore with hs | hs
    · exact hns hs
    · rw [hvp, hv.was] at hs
      cases hs
  · rw [not_or] at hbefore
    have hrep : v.proof = v₀.proof ∧ v.node = v₀.node := by
      rcases hover with hs | hs
      · exact ((hv.superseded_iff h hmem).1 hs).resolve_left hbefore.1
      · exact absurd (hgone hs) hbefore.2
    have hfound := (hv.mem_replaced h).2 ⟨⟨hmem, hrep.1, hbefore.1⟩, hrep.2⟩
    have hle := count_find_le proof.vouched (fun v => decide (v.node = v₀.node)) v
    have hpos := List.count_pos_iff.2 hfound
    have := h.still v hmem hbefore.1 (by rw [hrep.1, hv.was]; rfl)
    omega

private theorem Vouches.still (hv : Vouches w w' v₀ proof) (h : w.Accounted) {v : Vouch} (hmem : v ∈ w.issued)
    (hns : ¬ w'.Superseded v) (hsome : (w'.proofs.get v.proof).isSome) : w'.told.count v + w'.telling.count v = 0 := by
  rw [hv.superseded_iff h hmem, not_or] at hns
  have hwas : (w.proofs.get v.proof).isSome := by
    rw [hv.proofs] at hsome
    split at hsome
    · rename_i hvp
      rw [hvp, hv.was]
      rfl
    · exact hsome
  rw [hv.count, h.still v hmem hns.1 hwas, List.count_eq_zero_of_not_mem]
  intro hfound
  obtain ⟨⟨-, hvp, -⟩, hvn⟩ := (hv.mem_replaced h).1 hfound
  exact hns.2 ⟨hvp, hvn⟩

/-- The new one is neither told nor to be. -/
private theorem Vouches.count_new (hv : Vouches w w' v₀ proof) (h : w.Accounted) :
    w'.told.count v₀ + w'.telling.count v₀ = 0 := by
  have hnew := hv.not_issued h
  rw [hv.count, List.count_eq_zero_of_not_mem fun hmem => hnew (h.issued v₀ (.inl hmem)),
    List.count_eq_zero_of_not_mem fun hmem => hnew (h.issued v₀ (.inr hmem)),
    List.count_eq_zero_of_not_mem fun hmem => hnew ((hv.mem_replaced h).1 hmem).1.1]

private theorem Vouches.accounted (hv : Vouches w w' v₀ proof) (h : w.Accounted) (hminted : v₀.proof < w.minted) :
    w'.Accounted := by
  have hserial := hv.serial
  constructor
  · intro v hmem
    rw [hv.issued] at hmem
    rw [hv.issued, List.length_cons]
    rcases List.mem_cons.1 hmem with rfl | hmem
    · omega
    · have := h.serial v hmem
      omega
  · intro v hmem u hu heq
    rw [hv.issued] at hmem hu
    rcases List.mem_cons.1 hmem with hmem | hmem
    · rcases List.mem_cons.1 hu with hu | hu
      · rw [hmem, hu]
      · have := h.serial u hu
        rw [hmem] at heq
        omega
    · rcases List.mem_cons.1 hu with hu | hu
      · have := h.serial v hmem
        rw [hu] at heq
        omega
      · exact h.own v hmem u hu heq
  · intro v hmem
    rw [hv.issued] at hmem
    rw [hv.minted]
    rcases List.mem_cons.1 hmem with rfl | hmem
    · exact hminted
    · exact h.minted v hmem
  · intro v hmem
    rw [hv.issued]
    rw [hv.told, hv.telling, List.mem_append] at hmem
    rcases hmem with hmem | hmem | hmem
    · exact List.mem_cons_of_mem _ (h.issued v (.inl hmem))
    · exact List.mem_cons_of_mem _ (h.issued v (.inr hmem))
    · exact List.mem_cons_of_mem _ ((hv.mem_replaced h).1 hmem).1.1
  · exact fun q proof' hq v => hv.carried h hq v
  · exact fun q proof' hq => hv.nodes h hq
  · intro v hmem hover
    rw [hv.issued] at hmem
    rcases List.mem_cons.1 hmem with rfl | hmem
    · rcases hover with hs | hs
      · exact absurd hs (hv.not_superseded h)
      · rw [hv.proofs, if_pos rfl] at hs
        cases hs
    · exact hv.finished h hmem hover
  · intro v hmem hns hsome
    rw [hv.issued] at hmem
    rcases List.mem_cons.1 hmem with rfl | hmem
    · exact hv.count_new h
    · exact hv.still h hmem hns hsome

end Vouches

private theorem vouched_accounted (h : w.Accounted) {p node handle : Nat} {proof : Proof}
    (hp : w.proofs.get p = some proof) (hpm : p < w.minted) : (w.vouched p proof node handle).Accounted :=
  (vouches_of_vouched hp).accounted h hpm

/-- A Proof ends: what it carried is to be told. -/
private theorem ended_accounted (h : w.Accounted) {p : Nat} {proof : Proof} (hp : w.proofs.get p = some proof)
    (hproofs : ∀ q, w'.proofs.get q = if q = p then none else w.proofs.get q) (hi : w'.issued = w.issued)
    (ht : w'.told = w.told) (hm : w'.minted = w.minted)
    (htell : w'.telling.Perm (w.telling ++ proof.vouched)) : w'.Accounted := by
  have hsup : ∀ v, w'.Superseded v ↔ w.Superseded v := fun v => by unfold Superseded; rw [hi]
  have hcarried := h.carried p proof hp
  have hcount : ∀ v, w'.told.count v + w'.telling.count v =
      w.told.count v + w.telling.count v + proof.vouched.count v := by
    intro v
    rw [ht, htell.count_eq, List.count_append]
    omega
  constructor
  · rw [hi]; exact h.serial
  · rw [hi]; exact h.own
  · rw [hi, hm]; exact h.minted
  · intro v hv
    rw [hi]
    rw [ht, htell.mem_iff, List.mem_append] at hv
    rcases hv with hv | hv | hv
    · exact h.issued v (.inl hv)
    · exact h.issued v (.inr hv)
    · exact ((hcarried v).1 hv).1
  · intro q proof' hq v
    rw [hproofs] at hq
    rw [hi, hsup]
    split at hq
    · cases hq
    · exact h.carried q proof' hq v
  · intro q proof' hq
    rw [hproofs] at hq
    split at hq
    · cases hq
    · exact h.nodes q proof' hq
  · intro v hv hover
    rw [hi] at hv
    rw [hsup, hproofs] at hover
    rw [hcount]
    by_cases hmem : v ∈ proof.vouched
    · obtain ⟨-, hvp, hns⟩ := (hcarried v).1 hmem
      have hone : proof.vouched.count v = 1 := List.count_eq_one_of_mem (h.nodes p proof hp).of_map hmem
      rw [h.still v hv hns (by rw [hvp, hp]; rfl), hone]
    · rw [List.count_eq_zero_of_not_mem hmem]
      refine h.finished v hv ?_
      by_cases hs : w.Superseded v
      · exact .inl hs
      · right
        have hvp : v.proof ≠ p := fun hvp => hmem ((hcarried v).2 ⟨hv, hvp, hs⟩)
        have := hover.resolve_left hs
        rwa [if_neg hvp] at this
  · intro v hv hns hsome
    rw [hi] at hv
    rw [hsup] at hns
    rw [hproofs] at hsome
    split at hsome
    · cases hsome
    · rename_i hvp
      rw [hcount, h.still v hv hns hsome, List.count_eq_zero_of_not_mem]
      exact fun hmem => hvp ((hcarried v).1 hmem).2.1

private theorem hold_accounted (h : w.Accounted) (identity : AuthenticatedIdentity) (heldUntil : Option Int)
    (provedBy : Option Nat) (leaf : Option (List UInt8)) : (w.hold identity heldUntil provedBy leaf).Accounted := by
  unfold hold
  split
  · exact h
  · generalize hw' : ({ w with
      minted := w.minted + 1
      proofs := w.proofs.put w.minted ⟨identity, leaf, []⟩
      ops := w.ops ++ [.making ⟨w.minted, heldUntil, provedBy, none⟩ w.now] } : World) = w'
    have hget : ∀ p, w'.proofs.get p = if p = w.minted then some ⟨identity, leaf, []⟩ else w.proofs.get p := by
      subst hw'
      exact fun p => Table.get_put ..
    have hi : w'.issued = w.issued := by subst hw'; rfl
    have ht : w'.told = w.told := by subst hw'; rfl
    have hm : w'.minted = w.minted + 1 := by subst hw'; rfl
    have htell : w'.telling = w.telling := by
      subst hw'
      exact (telling_snoc w _).trans (List.append_nil _)
    have hsup : ∀ v, w'.Superseded v ↔ w.Superseded v := fun v => by unfold Superseded; rw [hi]
    -- Nothing was vouched on the new Proof yet.
    have hold : ∀ v ∈ w.issued, w'.proofs.get v.proof = w.proofs.get v.proof := by
      intro v hv
      have := h.minted v hv
      rw [hget, if_neg (by omega)]
    constructor
    · rw [hi]; exact h.serial
    · rw [hi]; exact h.own
    · intro v hv
      rw [hi] at hv
      have := h.minted v hv
      omega
    · rw [ht, htell, hi]; exact h.issued
    · intro p proof hp v
      rw [hget] at hp
      rw [hi, hsup]
      split at hp
      · rename_i hpm
        cases hp
        constructor
        · intro hv
          cases hv
        · rintro ⟨hv, hvp, -⟩
          have := h.minted v hv
          omega
      · exact h.carried p proof hp v
    · intro p proof hp
      rw [hget] at hp
      split at hp
      · cases hp
        exact List.nodup_nil
      · exact h.nodes p proof hp
    · intro v hv hover
      rw [hi] at hv
      rw [hsup, hold v hv] at hover
      rw [ht, htell]
      exact h.finished v hv hover
    · intro v hv hns hsome
      rw [hi] at hv
      rw [hsup] at hns
      rw [hold v hv] at hsome
      rw [ht, htell]
      exact h.still v hv hns hsome

private theorem dropped_accounted (h : w.Accounted) {i p : Nat} {ps : List Nat} {rest : List Op}
    (hp : pick w.ops i = some (.letting (p :: ps), rest)) (hsome : (w.idOf p).isSome) :
    (w.dropped (rest ++ [.letting ps]) p).Accounted := by
  have htell : ((rest ++ [Op.letting ps]).flatMap Op.tells).Perm w.telling := telling_replaced hp rfl rfl
  unfold dropped
  dsimp only
  split
  · exact h.same rfl rfl rfl (Nat.le_refl _) htell
  · obtain ⟨proof, hproof⟩ := Option.isSome_iff_exists.1 (by simpa [idOf] using hsome)
    refine ended_accounted h hproof (fun q => Table.get_drop ..) rfl rfl rfl ?_
    refine (List.Perm.of_eq (telling_snoc { w with ops := rest ++ [Op.letting ps] } _)).trans ?_
    rw [hproof]
    exact htell.append_right _

private theorem tell_accounted (h : w.Accounted) {i : Nat} {v : Vouch} {vs : List Vouch} {rest : List Op}
    (hp : pick w.ops i = some (.telling (v :: vs), rest)) :
    { w with ops := rest ++ [Op.telling vs], told := v :: w.told }.Accounted := by
  -- One of those about to be told is told now.
  have htell : w.telling.Perm (v :: (rest ++ [Op.telling vs]).flatMap Op.tells) := by
    refine (telling_pick hp).trans ?_
    show (v :: vs ++ rest.flatMap Op.tells).Perm _
    rw [List.flatMap_append, List.cons_append]
    refine List.Perm.cons v (List.perm_append_comm.trans (List.Perm.append_left _ ?_))
    simp [Op.tells]
  have hcount : ∀ u, (v :: w.told).count u + ((rest ++ [Op.telling vs]).flatMap Op.tells).count u =
      w.told.count u + w.telling.count u := by
    intro u
    rw [htell.count_eq, List.count_cons, List.count_cons]
    omega
  refine ⟨h.serial, h.own, h.minted, ?_, h.carried, h.nodes, ?_, ?_⟩
  · intro u hu
    apply h.issued
    rcases hu with hu | hu
    · rcases List.mem_cons.1 hu with rfl | hu
      · exact .inr (htell.mem_iff.2 (List.mem_cons_self ..))
      · exact .inl hu
    · exact .inr (htell.mem_iff.2 (List.mem_cons_of_mem _ hu))
  · exact fun u hu hover => (hcount u).trans (h.finished u hu hover)
  · exact fun u hu hns hsome => (hcount u).trans (h.still u hu hns hsome)

private theorem insert_keeps {m : Making} {at_ : Int} {handle : Nat} {x : World × List Nat}
    (hx : w.insert m at_ handle = some x) :
    x.1.proofs = w.proofs ∧ x.1.issued = w.issued ∧ x.1.told = w.told ∧ x.1.minted = w.minted := by
  unfold insert at hx
  split at hx
  · cases hx
    exact ⟨rfl, rfl, rfl, rfl⟩
  · by_cases hfull : Plane.most ≤ w.holding.callers.size
    · simp only [hfull, decide_true, if_true] at hx
      split at hx
      · cases hx
        exact ⟨rfl, rfl, rfl, rfl⟩
      · obtain ⟨-, hx⟩ := Option.ite_none_left_eq_some.1 hx
        cases hx
        exact ⟨rfl, rfl, rfl, rfl⟩
    · simp only [hfull, decide_false, Bool.false_eq_true, if_false] at hx
      obtain ⟨-, hx⟩ := Option.ite_none_left_eq_some.1 hx
      cases hx
      exact ⟨rfl, rfl, rfl, rfl⟩

/-- What is under way grows by what tells nothing. -/
private theorem Accounted.more (h : w.Accounted) {op : Op} (hop : op.tells = []) (hp : w'.proofs = w.proofs)
    (hi : w'.issued = w.issued) (ht : w'.told = w.told) (hm : w'.minted = w.minted) (hops : w'.ops = w.ops ++ [op]) :
    w'.Accounted := by
  refine h.same hp hi ht (Nat.le_of_eq hm.symm) (List.Perm.of_eq ?_)
  unfold telling
  simp [hops, hop]

theorem Accounted.step (h : w.Accounted) (ha : w.Agrees) {a : Action} (hs : w.step a = some w') : w'.Accounted := by
  cases taken_of_step hs with
  | tick by_ => exact h.same rfl rfl rfl (Nat.le_refl _) (.refl _)
  | hold => exact hold_accounted h ..
  | again handle =>
    unfold again
    split
    · split
      · exact h.more rfl rfl rfl rfl rfl rfl
      · exact h
    · exact h
  | sampled hp _ => exact h.same rfl rfl rfl (Nat.le_refl _) (telling_replaced hp rfl rfl)
  | stale hp _ => exact h.same rfl rfl rfl (Nat.le_refl _) (telling_replaced hp rfl rfl)
  | insert hp hx =>
    obtain ⟨hproofs, hissued, htold, hminted⟩ := insert_keeps hx
    exact h.same hproofs hissued htold (Nat.le_of_eq hminted.symm) (telling_replaced hp rfl rfl)
  | lookUp handle =>
    unfold lookUp
    split
    · exact h
    · split
      · split
        · exact h.more rfl rfl rfl rfl rfl rfl
        · exact h.more rfl rfl rfl rfl rfl rfl
      · exact h
  | release handle => exact h.more rfl rfl rfl rfl rfl rfl
  | revoke prover => exact h.more rfl rfl rfl rfl rfl rfl
  | clone hp => exact h.more rfl rfl rfl rfl rfl rfl
  | vouched node handle hp hproof => exact vouched_accounted h hproof (ha.lt_minted (ha.ops _ (mem_of_pick hp)))
  | done hp => exact h.same rfl rfl rfl (Nat.le_refl _) (telling_replaced hp rfl rfl)
  | letAll hp => exact h.same rfl rfl rfl (Nat.le_refl _) (telling_pick hp).symm
  | letGo hp => exact dropped_accounted h hp ((ha.ops _ (mem_of_pick hp)).idOf_isSome (List.mem_cons_self ..))
  | toldAll hp => exact h.same rfl rfl rfl (Nat.le_refl _) (telling_pick hp).symm
  | tell hp => exact tell_accounted h hp

theorem starting_accounted (now : Int) : (starting now).Accounted := by
  refine ⟨?_, ?_, ?_, ?_, ?_, ?_, ?_, ?_⟩ <;> simp [starting, telling]

theorem referred_of_reach (h : Reach World.step Always Starts w) : w.Referred := by
  refine h.invariant ?_ fun _ _ _ hw _ hs => hw.step hs
  rintro _ ⟨now, rfl⟩
  simp [Referred, starting]

theorem accounted_of_reach (h : Reach World.step Always Starts w) : w.Accounted := by
  induction h with
  | start hs =>
    obtain ⟨now, rfl⟩ := hs
    exact starting_accounted now
  | next hr _ hs ih => exact ih.step (agrees_of_reach hr) hs

end World

/-- In every state any order of holds, handles taken again, releases, ends, node handles replaced and references let go
of leads to, each node handle vouched is told ended once it is replaced or its Proof is gone, once, and not before. -/
theorem toldOnce_of_reach {w : World} (h : Reach World.step Always World.Starts w) : w.ToldOnce := by
  have ha := World.agrees_of_reach h
  have hr := World.referred_of_reach h
  have hc := World.accounted_of_reach h
  -- A Proof is there exactly as long as it is referred to.
  have hthere : ∀ p, p ∈ w.refs ↔ (w.proofs.get p).isSome :=
    fun p => ⟨fun hp => by simpa [World.idOf] using ha.idOf_isSome hp, hr p⟩
  have hgone : ∀ p, p ∉ w.refs ↔ w.proofs.get p = none := by
    intro p
    rw [hthere]
    simp
  have hended : ∀ v ∈ w.issued, w.Superseded v ∨ v.proof ∉ w.refs → w.told.count v + w.telling.count v = 1 := by
    intro v hv hover
    rw [hgone] at hover
    exact hc.finished v hv hover
  have hnot : ∀ v ∈ w.issued, ¬ w.Superseded v → v.proof ∈ w.refs → v ∉ w.told ∧ v ∉ w.telling := by
    intro v hv hns hmem
    have := hc.still v hv hns ((hthere _).1 hmem)
    rw [← List.count_eq_zero, ← List.count_eq_zero]
    omega
  refine ⟨hended, hnot, ?_, hc.nodes, ?_⟩
  · intro p proof hp v
    rw [hc.carried p proof hp]
    constructor
    · rintro ⟨hv, rfl, hns⟩
      exact ⟨hv, rfl, hnot v hv hns ((hthere _).2 (by rw [hp]; rfl))⟩
    · rintro ⟨hv, rfl, htold, htelling⟩
      refine ⟨hv, rfl, fun hs => ?_⟩
      have := hended v hv (.inl hs)
      rw [List.count_eq_zero_of_not_mem htold, List.count_eq_zero_of_not_mem htelling] at this
      cases this
  · intro hidle v hv hover
    have := hended v hv hover
    simpa [World.telling, hidle] using this

/-- A caller vouched to one node twice while its handle is released: the first node handle is told at once, the second
with the last reference. -/
theorem toldOnce_releasedMeanwhile :
    ∃ w : World, Reach World.step Always World.Starts w ∧ w.ToldOnce ∧ w.ops = [] ∧ w.issued.length = 2 ∧
      w.told.map Vouch.handle = [43, 42] := by
  obtain ⟨w, hw, hp⟩ := Reach.exists_of_runWhere World.step Always (World.starts_starting 0)
    [.hold ⟨"CN=a", .proven⟩ none none (some [1]), .insert 0 5, .letGo 0, .lookUp 5, .vouched 0 7 42, .tell 1, .release 5,
      .vouched 0 7 43, .letGo 1, .letGo 2, .tell 1, .tell 1, .done 0, .letGo 0, .letGo 0, .tell 0, .tell 0]
    (fun w => w.ops.isEmpty && decide (w.issued.length = 2) && decide (w.told.map Vouch.handle = [43, 42]))
    (by decide +kernel)
  simp only [Bool.and_eq_true, decide_eq_true_eq, List.isEmpty_iff] at hp
  exact ⟨w, hw, toldOnce_of_reach hw, hp.1.1, hp.1.2, hp.2⟩

end Plane
