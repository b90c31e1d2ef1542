import XmipRuntime.Plane.Held

/-!
# Held callers are the live proofs

What a handle answers is compared with what was done: `Kept` says of the log of everything given out, released and
revoked that a handle was given out last for a caller, and that nothing since took it back.  A handle answers its caller
exactly where that is so and its time has not passed (`exact_of_reach`), through every race of a revocation or an end
with a handle on its way out: the lock is taken after the clock is read, and what proved the caller is asked for under
it.
-/

namespace Plane

open Library

/-! ### What the log says of a handle -/

/-- `g` was given out, and since then nothing else under its handle, its release or its prover's revocation. -/
def Kept (log : List Event) (g : Grant) : Prop :=
  ∃ since before t, log = since ++ .given g t :: before ∧ (∀ g' t', .given g' t' ∈ since → g'.handle ≠ g.handle) ∧
    .released g.handle ∉ since ∧ ∀ b, g.provedBy = some b → .revoked b ∉ since

theorem not_kept_nil (g : Grant) : ¬ Kept [] g := by
  rintro ⟨since, before, t, h, -⟩
  cases since <;> cases h

theorem kept_given {log : List Event} {g g' : Grant} {t : Int} :
    Kept (.given g' t :: log) g ↔ g' = g ∨ g'.handle ≠ g.handle ∧ Kept log g := by
  constructor
  · rintro ⟨since, before, t', h, hgiven, hrel, hrev⟩
    cases since with
    | nil =>
      cases h
      exact .inl rfl
    | cons e since =>
      cases h
      refine .inr ⟨hgiven g' t (List.mem_cons_self ..), since, before, t', rfl, ?_, ?_, ?_⟩
      · exact fun x t hx => hgiven x t (List.mem_cons_of_mem _ hx)
      · exact fun hx => hrel (List.mem_cons_of_mem _ hx)
      · exact fun b hb hx => hrev b hb (List.mem_cons_of_mem _ hx)
  · rintro (rfl | ⟨hne, since, before, t', rfl, hgiven, hrel, hrev⟩)
    · exact ⟨[], log, t, rfl, by simp, by simp, by simp⟩
    · refine ⟨.given g' t :: since, before, t', rfl, ?_, by simpa using hrel, by simpa using hrev⟩
      intro x t'' hx
      rcases List.mem_cons.1 hx with hx | hx
      · cases hx
        exact hne
      · exact hgiven x t'' hx

/-- An event that gives nothing out either ends the grant or leaves it as it was. -/
private theorem kept_cons {log : List Event} {g : Grant} {e : Event} (he : ∀ g' t, e ≠ .given g' t) :
    Kept (e :: log) g ↔ (e ≠ .released g.handle ∧ ∀ b, g.provedBy = some b → e ≠ .revoked b) ∧ Kept log g := by
  constructor
  · rintro ⟨since, before, t', h, hgiven, hrel, hrev⟩
    cases since with
    | nil =>
      cases h
      exact absurd rfl (he g t')
    | cons e' since =>
      cases h
      refine ⟨⟨fun h => hrel (h ▸ List.mem_cons_self ..), fun b hb h => hrev b hb (h ▸ List.mem_cons_self ..)⟩,
        since, before, t', rfl, ?_, ?_, ?_⟩
      · exact fun x t hx => hgiven x t (List.mem_cons_of_mem _ hx)
      · exact fun hx => hrel (List.mem_cons_of_mem _ hx)
      · exact fun b hb hx => hrev b hb (List.mem_cons_of_mem _ hx)
  · rintro ⟨⟨hnr, hnv⟩, since, before, t', rfl, hgiven, hrel, hrev⟩
    refine ⟨e :: since, before, t', rfl, ?_, ?_, ?_⟩
    · intro x t hx
      rcases List.mem_cons.1 hx with hx | hx
      · exact absurd hx.symm (he x t)
      · exact hgiven x t hx
    · intro hx
      rcases List.mem_cons.1 hx with hx | hx
      · exact hnr hx.symm
      · exact hrel hx
    · intro b hb hx
      rcases List.mem_cons.1 hx with hx | hx
      · exact hnv b hb hx.symm
      · exact hrev b hb hx

theorem kept_found {log : List Event} {g : Grant} {h : Nat} {t : Int} : Kept (.found h t :: log) g ↔ Kept log g := by
  rw [kept_cons (by simp)]
  simp

theorem kept_released {log : List Event} {g : Grant} {h : Nat} :
    Kept (.released h :: log) g ↔ g.handle ≠ h ∧ Kept log g := by
  rw [kept_cons (by simp)]
  simp [eq_comm]

theorem kept_revoked {log : List Event} {g : Grant} {b : Nat} :
    Kept (.revoked b :: log) g ↔ g.provedBy ≠ some b ∧ Kept log g := by
  rw [kept_cons (by simp)]
  refine and_congr_left fun _ => ?_
  constructor
  · rintro ⟨-, h⟩ hb
    exact h b hb rfl
  · intro h
    refine ⟨by simp, fun b' hb' he => ?_⟩
    cases he
    exact h hb'

/-- A handle is kept for one caller at most. -/
theorem Kept.unique {log : List Event} {g g' : Grant} (h : Kept log g) (h' : Kept log g')
    (heq : g.handle = g'.handle) : g = g' := by
  induction log with
  | nil => exact absurd h (not_kept_nil g)
  | cons e log ih =>
    cases e with
    | given g₀ t =>
      rw [kept_given] at h h'
      rcases h with rfl | ⟨hne, h⟩
      · rcases h' with rfl | ⟨hne', -⟩
        · rfl
        · exact absurd heq hne'
      · rcases h' with rfl | ⟨-, h'⟩
        · exact absurd heq.symm hne
        · exact ih h h'
    | found => exact ih (kept_found.1 h) (kept_found.1 h')
    | released => exact ih (kept_released.1 h).2 (kept_released.1 h').2
    | revoked => exact ih (kept_revoked.1 h).2 (kept_revoked.1 h').2

/-! ### The property -/

/-- A handle made from `source` for `identity`, for as long and proved by the same: `again` found `source` live, kept
for that caller. -/
def MadeFrom (log : List Event) (source : Nat) (identity : AuthenticatedIdentity) (heldUntil : Option Int)
    (provedBy : Option Nat) : Prop :=
  ∃ newer past t, log = newer ++ .found source t :: past ∧ live heldUntil t = true ∧
    ∃ g, Kept past g ∧ g.handle = source ∧ g.identity = identity ∧ g.heldUntil = heldUntil ∧ g.provedBy = provedBy

/-- What is so of `g`, given out at `t` after `before`: its caller was proven; what proved it was not revoked; no live
handle is the same; and made from another, it is of that one's caller and ends with it. -/
structure GivenRight (before : List Event) (g : Grant) (t : Int) : Prop where
  verified : g.identity.verified = .proven
  unrevoked : ∀ b, g.provedBy = some b → .revoked b ∉ before
  drawn : ∀ g', Kept before g' → g'.handle = g.handle → live g'.heldUntil t = false
  source : ∀ h, g.source = some h → MadeFrom before h g.identity g.heldUntil g.provedBy

def AllGivenRight (log : List Event) : Prop :=
  ∀ newer before g t, log = newer ++ .given g t :: before → GivenRight before g t

/-- The handles held are exactly the live proofs. -/
structure Exact (w : World) : Prop where
  proven : ∀ h identity, w.proven h = some identity ↔
    ∃ g, Kept w.log g ∧ g.handle = h ∧ g.identity = identity ∧ live g.heldUntil w.now = true
  unrevoked : ∀ g, Kept w.log g → ∀ b, g.provedBy = some b → .revoked b ∉ w.log
  given : AllGivenRight w.log
  most : w.holding.callers.size ≤ most

/-! ### What every step keeps -/

theorem live_of_le {heldUntil : Option Int} {s t : Int} (hst : s ≤ t) (h : live heldUntil s = false) :
    live heldUntil t = false := by
  cases heldUntil with
  | none => cases h
  | some u =>
    simp only [live, Option.all_some, decide_eq_false_iff_not] at h ⊢
    omega

theorem MadeFrom.mono {log log' : List Event} {source : Nat} {identity : AuthenticatedIdentity}
    {heldUntil : Option Int} {provedBy : Option Nat} (h : MadeFrom log source identity heldUntil provedBy)
    (hlog : log <:+ log') : MadeFrom log' source identity heldUntil provedBy := by
  obtain ⟨newer, past, t, rfl, hrest⟩ := h
  obtain ⟨more, rfl⟩ := hlog
  exact ⟨more ++ newer, past, t, by simp, hrest⟩

theorem allGivenRight_cons {log : List Event} {e : Event} (h : AllGivenRight log)
    (he : ∀ g t, e = .given g t → GivenRight log g t) : AllGivenRight (e :: log) := by
  intro newer before g t hsplit
  cases newer with
  | nil =>
    cases hsplit
    exact he g t rfl
  | cons e' newer =>
    cases hsplit
    exact h newer before g t rfl

theorem Kept.right {log : List Event} {g : Grant} (hk : Kept log g) (h : AllGivenRight log) :
    ∃ before t, GivenRight before g t := by
  obtain ⟨since, before, t, hlog, -⟩ := hk
  exact ⟨before, t, h since before g t hlog⟩

theorem Kept.unrevoked {log : List Event} {g : Grant} (hk : Kept log g) (h : AllGivenRight log) {b : Nat}
    (hb : g.provedBy = some b) : .revoked b ∉ log := by
  obtain ⟨since, before, t, rfl, -, -, hrev⟩ := hk
  have hright := h since before g t rfl
  simp only [List.mem_append, List.mem_cons, reduceCtorEq, false_or, not_or]
  exact ⟨hrev b hb, hright.unrevoked b hb⟩

namespace World

/-- Whom the Proof `p` is of. -/
def idOf (w : World) (p : Nat) : Option AuthenticatedIdentity := (w.proofs.get p).map Proof.identity

/-- What is about to be given out is of a proven caller, and made from another it is of that one's. -/
def MakingRight (w : World) (m : Making) : Prop :=
  ∃ identity, w.idOf m.proof = some identity ∧ identity.verified = .proven ∧
    ∀ h, m.source = some h → MadeFrom w.log h identity m.heldUntil m.provedBy

def OpRight (w : World) : Op → Prop
  | .found m => w.MakingRight m
  | .making m at_ => w.MakingRight m ∧ at_ ≤ w.now
  | .act p => (w.idOf p).isSome
  | .letting ps => ∀ p ∈ ps, (w.idOf p).isSome
  | .telling _ => True

/-- The callers agree with the log. -/
structure Agrees (w : World) : Prop where
  held : ∀ h x, w.holding.callers.get h = some x → ∃ g, Kept w.log g ∧ g.handle = h ∧ g.heldUntil = x.heldUntil ∧
    g.provedBy = x.provedBy ∧ w.idOf x.proof = some g.identity
  kept : ∀ g, Kept w.log g → (w.holding.callers.get g.handle).isSome ∨ live g.heldUntil w.now = false
  revoked : ∀ b, .revoked b ∈ w.log → b ∈ w.holding.revoked
  given : AllGivenRight w.log
  zero : w.holding.callers.get 0 = none
  most : w.holding.callers.size ≤ Plane.most
  ops : ∀ op ∈ w.ops, w.OpRight op
  minted : ∀ p, w.minted ≤ p → w.proofs.get p = none

variable {w w' : World}

theorem MakingRight.mono {m : Making} (h : w.MakingRight m) (hlog : w.log <:+ w'.log)
    (hid : w'.idOf m.proof = w.idOf m.proof) : w'.MakingRight m := by
  obtain ⟨identity, hi, hv, hs⟩ := h
  exact ⟨identity, hid.trans hi, hv, fun h' hh => (hs h' hh).mono hlog⟩

theorem OpRight.mono {op : Op} (h : w.OpRight op) (hlog : w.log <:+ w'.log) (hnow : w.now ≤ w'.now)
    (hid : ∀ p ∈ op.refs, w'.idOf p = w.idOf p) : w'.OpRight op := by
  cases op with
  | found m => exact MakingRight.mono h hlog (hid _ (List.mem_singleton.2 rfl))
  | making m at_ => exact ⟨MakingRight.mono h.1 hlog (hid _ (List.mem_singleton.2 rfl)), Int.le_trans h.2 hnow⟩
  | act p =>
    show (w'.idOf p).isSome
    rw [hid p (List.mem_singleton.2 rfl)]
    exact h
  | letting ps =>
    intro p hp
    rw [hid p hp]
    exact h p hp
  | telling => trivial

/-- Whatever is referred to by what is under way is there. -/
theorem OpRight.idOf_isSome {op : Op} (h : w.OpRight op) {p : Nat} (hp : p ∈ op.refs) : (w.idOf p).isSome := by
  cases op with
  | found m =>
    obtain ⟨identity, hi, -⟩ := h
    rw [List.mem_singleton.1 hp, hi]
    rfl
  | making m at_ =>
    obtain ⟨⟨identity, hi, -⟩, -⟩ := h
    rw [List.mem_singleton.1 hp, hi]
    rfl
  | act q =>
    rw [List.mem_singleton.1 hp]
    exact h
  | letting ps => exact h p hp
  | telling => cases hp

theorem Agrees.idOf_isSome (h : w.Agrees) {p : Nat} (hp : p ∈ w.refs) : (w.idOf p).isSome := by
  rcases List.mem_append.1 hp with hp | hp
  · obtain ⟨x, hx, rfl⟩ := List.mem_map.1 hp
    obtain ⟨g, -, -, -, -, hid⟩ := h.held x.1 x.2 (Table.mem_iff_get.1 hx)
    rw [hid]
    rfl
  · obtain ⟨op, hop, hp⟩ := List.mem_flatMap.1 hp
    exact (h.ops op hop).idOf_isSome hp

theorem Agrees.lt_minted (h : w.Agrees) {p : Nat} (hp : (w.idOf p).isSome) : p < w.minted := by
  by_contra hle
  simp [idOf, h.minted p (by omega)] at hp

/-- Only what is under way changed, or a Proof nobody refers to any more. -/
theorem Agrees.of_ops (h : w.Agrees) (hnow : w'.now = w.now) (hhold : w'.holding = w.holding) (hlog : w'.log = w.log)
    (hmint : ∀ p, w'.minted ≤ p → w'.proofs.get p = none)
    (hid : ∀ p ∈ w.holding.callers.entries.map (fun x => x.2.proof), w'.idOf p = w.idOf p)
    (hops : ∀ op ∈ w'.ops, w'.OpRight op) : w'.Agrees where
  held := by
    intro k x hx
    rw [hhold] at hx
    obtain ⟨g, hk, hg, hu, hb, hi⟩ := h.held k x hx
    refine ⟨g, hlog ▸ hk, hg, hu, hb, ?_⟩
    rw [hid x.proof (List.mem_map.2 ⟨(k, x), Table.mem_iff_get.2 hx, rfl⟩), hi]
  kept := by
    rw [hlog, hhold, hnow]
    exact h.kept
  revoked := by
    rw [hlog, hhold]
    exact h.revoked
  given := hlog ▸ h.given
  zero := hhold ▸ h.zero
  most := hhold ▸ h.most
  ops := hops
  minted := hmint

/-- The Proofs are as they were: what is under way is right if it was or if it is new and right. -/
theorem Agrees.with_ops (h : w.Agrees) {ops : List Op} (hops : ∀ op ∈ ops, op ∈ w.ops ∨ w.OpRight op) :
    { w with ops }.Agrees := by
  refine h.of_ops rfl rfl rfl h.minted (fun _ _ => rfl) ?_
  intro op hop
  have hright : w.OpRight op := (hops op hop).elim (h.ops op) id
  exact hright.mono (List.suffix_refl _) (Int.le_refl _) fun _ _ => rfl

private theorem mem_snoc {ops rest : List Op} {new op : Op} (hsub : ∀ op ∈ rest, op ∈ ops)
    (hop : op ∈ rest ++ [new]) : op ∈ ops ∨ op = new := by
  rcases List.mem_append.1 hop with hop | hop
  · exact .inl (hsub op hop)
  · exact .inr (List.mem_singleton.1 hop)

private theorem tick_agrees (h : w.Agrees) (by_ : Nat) : { w with now := w.now + by_ }.Agrees where
  held := h.held
  kept := fun g hg => (h.kept g hg).imp id (live_of_le (by show w.now ≤ w.now + by_; omega))
  revoked := h.revoked
  given := h.given
  zero := h.zero
  most := h.most
  ops := fun op hop => (h.ops op hop).mono (List.suffix_refl _) (by show w.now ≤ w.now + by_; omega) fun _ _ => rfl
  minted := h.minted

private theorem hold_agrees (h : w.Agrees) (identity : AuthenticatedIdentity) (heldUntil : Option Int)
    (provedBy : Option Nat) (leaf : Option (List UInt8)) : (w.hold identity heldUntil provedBy leaf).Agrees := by
  unfold hold
  split
  · exact h
  · rename_i hproven
    simp only [Bool.or_eq_true, Bool.not_eq_true', not_or, Bool.not_eq_false] at hproven
    generalize hw' : ({ w with
      minted := w.minted + 1
      proofs := w.proofs.put w.minted ⟨identity, leaf, []⟩
      ops := w.ops ++ [.making ⟨w.minted, heldUntil, provedBy, none⟩ w.now] } : World) = w'
    have hget : ∀ p, w'.proofs.get p = if p = w.minted then some ⟨identity, leaf, []⟩ else w.proofs.get p := by
      subst hw'
      exact fun p => Table.get_put ..
    -- A Proof anybody refers to is older than the new one.
    have hid : ∀ p, (w.idOf p).isSome → w'.idOf p = w.idOf p := by
      intro p hp
      have := h.lt_minted hp
      unfold idOf
      rw [hget, if_neg (by omega)]
    have hmint : w'.minted = w.minted + 1 := by subst hw'; rfl
    have hops : w'.ops = w.ops ++ [.making ⟨w.minted, heldUntil, provedBy, none⟩ w.now] := by subst hw'; rfl
    have hnow : w'.now = w.now := by subst hw'; rfl
    have hlog : w'.log = w.log := by subst hw'; rfl
    have hhold : w'.holding = w.holding := by subst hw'; rfl
    refine h.of_ops hnow hhold hlog ?_ ?_ ?_
    · intro p hp
      rw [hget, if_neg (by omega)]
      exact h.minted p (by omega)
    · exact fun p hp => hid p (h.idOf_isSome (List.mem_append.2 (.inl hp)))
    · intro op hop
      rw [hops] at hop
      rcases mem_snoc (fun _ h => h) hop with hop | rfl
      · exact (h.ops op hop).mono (by rw [hlog]) (by rw [hnow]) fun p hp => hid p ((h.ops op hop).idOf_isSome hp)
      · refine ⟨⟨identity, ?_, ?_, by simp⟩, by rw [hnow]⟩
        · simp [idOf, hget]
        · have := hproven.1
          cases hv : identity.verified <;> simp_all [Verified.isProven]

private theorem again_agrees (h : w.Agrees) (handle : Nat) : (w.again handle).Agrees := by
  unfold again
  split
  · rename_i x hx
    split
    · rename_i hlive
      obtain ⟨g, hk, hg, hu, hb, hi⟩ := h.held handle x hx
      obtain ⟨before, t, hright⟩ := hk.right h.given
      refine ⟨?_, ?_, ?_, ?_, h.zero, h.most, ?_, h.minted⟩
      · intro k y hy
        obtain ⟨g', hk', hrest⟩ := h.held k y hy
        exact ⟨g', kept_found.2 hk', hrest⟩
      · exact fun g' hg' => h.kept g' (kept_found.1 hg')
      · intro b hb'
        rcases List.mem_cons.1 hb' with hb' | hb'
        · cases hb'
        · exact h.revoked b hb'
      · exact allGivenRight_cons h.given (by simp)
      · intro op hop
        rcases mem_snoc (fun _ h => h) hop with hop | rfl
        · exact (h.ops op hop).mono (List.suffix_cons ..) (Int.le_refl _) fun _ _ => rfl
        · refine ⟨g.identity, hi, hright.verified, ?_⟩
          intro h' hh'
          cases hh'
          exact ⟨[], w.log, w.now, rfl, hlive, g, hk, hg, rfl, hu, hb⟩
    · exact h
  · exact h

/-- Some callers are let go of, each of them ended or taken back by what is written down. -/
private theorem Agrees.of_callers (h : w.Agrees) {callers : Table Nat Held} (revoked : Finset Nat) {ops : List Op}
    {log : List Event} (hsub : ∀ k x, callers.get k = some x → w.holding.callers.get k = some x)
    (hsize : callers.size ≤ w.holding.callers.size) (hkept : ∀ g, Kept log g → Kept w.log g)
    (hheld : ∀ g, Kept w.log g → (callers.get g.handle).isSome → Kept log g)
    (hgone : ∀ g, Kept log g → (w.holding.callers.get g.handle).isSome → (callers.get g.handle).isSome ∨
      live g.heldUntil w.now = false)
    (hrev : ∀ b, .revoked b ∈ log → b ∈ revoked) (hgiven : AllGivenRight log) (hlog : w.log <:+ log)
    (hops : ∀ op ∈ ops, op ∈ w.ops ∨ w.OpRight op) :
    { w with holding := ⟨callers, revoked⟩, ops, log }.Agrees where
  held := by
    intro k x hx
    obtain ⟨g, hk, hg, hrest⟩ := h.held k x (hsub k x hx)
    refine ⟨g, hheld g hk ?_, hg, hrest⟩
    show (callers.get g.handle).isSome
    rw [hg, show callers.get k = some x from hx]
    rfl
  kept := by
    intro g hg
    rcases h.kept g (hkept g hg) with hs | hs
    · exact hgone g hg hs
    · exact .inr hs
  revoked := hrev
  given := hgiven
  zero := by
    show callers.get 0 = none
    cases hz : callers.get 0 with
    | none => rfl
    | some x =>
      have := hsub 0 x hz
      rw [h.zero] at this
      cases this
  most := Nat.le_trans hsize h.most
  ops := fun op hop =>
    ((hops op hop).elim (h.ops op) id).mono hlog (Int.le_refl _) fun _ _ => rfl
  minted := h.minted

/-- What a caller's handle was given out for, where it is held. -/
private theorem Agrees.kept_eq (h : w.Agrees) {g : Grant} (hg : Kept w.log g) {x : Held}
    (hx : w.holding.callers.get g.handle = some x) : g.heldUntil = x.heldUntil ∧ g.provedBy = x.provedBy := by
  obtain ⟨g', hk', hg', hu, hb, -⟩ := h.held _ x hx
  rw [hg.unique hk' hg'.symm]
  exact ⟨hu, hb⟩

private theorem Agrees.caller_isSome (h : w.Agrees) {k : Nat} {x : Held} (hx : w.holding.callers.get k = some x) :
    (w.idOf x.proof).isSome := by
  obtain ⟨g, -, -, -, -, hi⟩ := h.held k x hx
  rw [hi]
  rfl

private theorem lookUp_agrees (h : w.Agrees) (handle : Nat) : (w.lookUp handle).Agrees := by
  unfold lookUp
  split
  · exact h
  · split
    · rename_i x hx
      split
      · refine h.with_ops fun op hop => (mem_snoc (fun _ h => h) hop).imp id ?_
        rintro rfl
        exact h.caller_isSome hx
      · rename_i hlive
        refine h.of_callers w.holding.revoked ?_ (Table.size_drop_le ..) (fun _ h => h) (fun _ h _ => h) ?_
          h.revoked h.given (List.suffix_refl _) ?_
        · intro k y hy
          rw [Table.get_drop] at hy
          split at hy
          · cases hy
          · exact hy
        · intro g hg hs
          by_cases hk : g.handle = handle
          · right
            rw [(h.kept_eq hg (hk ▸ hx)).1]
            simpa using hlive
          · left
            rwa [Table.get_drop_of_ne _ hk]
        · intro op hop
          refine (mem_snoc (fun _ h => h) hop).imp id ?_
          rintro rfl p hp
          rw [List.mem_singleton.1 hp]
          exact h.caller_isSome hx
    · exact h

private theorem release_agrees (h : w.Agrees) (handle : Nat) : (w.release handle).Agrees := by
  refine h.of_callers w.holding.revoked ?_ (Table.size_drop_le ..) (fun _ hg => (kept_released.1 hg).2) ?_ ?_ ?_
    (allGivenRight_cons h.given (by simp)) (List.suffix_cons ..) ?_
  · intro k x hx
    rw [Table.get_drop] at hx
    split at hx
    · cases hx
    · exact hx
  · intro g hg hs
    refine kept_released.2 ⟨?_, hg⟩
    rintro rfl
    rw [Table.get_drop_self] at hs
    cases hs
  · intro g hg hs
    left
    rwa [Table.get_drop_of_ne _ (kept_released.1 hg).1]
  · intro b hb
    rcases List.mem_cons.1 hb with hb | hb
    · cases hb
    · exact h.revoked b hb
  · intro op hop
    refine (mem_snoc (fun _ h => h) hop).imp id ?_
    rintro rfl p hp
    obtain ⟨x, hx, rfl⟩ := List.mem_map.1 hp
    exact h.caller_isSome (Option.mem_toList.1 hx)

private theorem revoke_agrees (h : w.Agrees) (prover : Nat) : (w.revoke prover).Agrees := by
  have hget : ∀ k, (w.holding.callers.keep fun held => decide (held.provedBy ≠ some prover)).get k =
      (w.holding.callers.get k).filter fun held => decide (held.provedBy ≠ some prover) := fun k => Table.get_keep ..
  refine h.of_callers _ ?_ (List.length_filter_le ..) (fun _ hg => (kept_revoked.1 hg).2) ?_ ?_ ?_
    (allGivenRight_cons h.given (by simp)) (List.suffix_cons ..) ?_
  · intro k x hx
    rw [hget] at hx
    exact (Option.filter_eq_some_iff.1 hx).1
  · intro g hg hs
    refine kept_revoked.2 ⟨?_, hg⟩
    obtain ⟨x, hx⟩ := Option.isSome_iff_exists.1 hs
    rw [hget] at hx
    obtain ⟨hx, hne⟩ := Option.filter_eq_some_iff.1 hx
    rw [(h.kept_eq hg hx).2]
    simpa using hne
  · intro g hg hs
    left
    obtain ⟨x, hx⟩ := Option.isSome_iff_exists.1 hs
    obtain ⟨hne, hg⟩ := kept_revoked.1 hg
    rw [(h.kept_eq hg hx).2] at hne
    rw [hget, hx, Option.filter_some, if_pos (by simpa using hne)]
    rfl
  · intro b hb
    rcases List.mem_cons.1 hb with hb | hb
    · cases hb
      exact Finset.mem_insert_self ..
    · exact Finset.mem_insert_of_mem (h.revoked b hb)
  · intro op hop
    refine (mem_snoc (fun _ h => h) hop).imp id ?_
    rintro rfl p hp
    obtain ⟨x, hx, rfl⟩ := List.mem_map.1 hp
    exact h.caller_isSome (Table.mem_iff_get.1 (List.mem_filter.1 hx).1)

/-! ### A handle given out -/

private theorem get_liveAt {callers : Table Nat Held} {at_ : Int} {k : Nat} {x : Held} :
    (liveAt callers at_).get k = some x ↔ callers.get k = some x ∧ live x.heldUntil at_ = true := by
  unfold liveAt
  rw [Table.get_keep, Option.filter_eq_some_iff]

/-- The ended dropped: what is still held was, and what is not had ended. -/
private theorem dropEnded_agrees (h : w.Agrees) {at_ : Int} (hat : at_ ≤ w.now) {ops : List Op}
    (hops : ∀ op ∈ ops, op ∈ w.ops ∨ w.OpRight op) :
    { w with holding := { w.holding with callers := liveAt w.holding.callers at_ }, ops }.Agrees := by
  refine h.of_callers w.holding.revoked ?_ (List.length_filter_le ..) (fun _ h => h) (fun _ h _ => h) ?_ h.revoked
    h.given (List.suffix_refl _) hops
  · exact fun k x hx => (get_liveAt.1 hx).1
  · intro g hg hs
    obtain ⟨x, hx⟩ := Option.isSome_iff_exists.1 hs
    cases hl : live x.heldUntil at_ with
    | true =>
      left
      rw [get_liveAt.2 ⟨hx, hl⟩]
      rfl
    | false =>
      right
      rw [(h.kept_eq hg hx).1]
      exact live_of_le hat hl

private theorem endedAt_isSome (h : w.Agrees) {at_ : Int} {p : Nat} (hp : p ∈ endedAt w.holding.callers at_) :
    (w.idOf p).isSome := by
  obtain ⟨x, hx, rfl⟩ := List.mem_map.1 hp
  exact h.caller_isSome (Table.mem_iff_get.1 (List.mem_filter.1 hx).1)

/-- A handle entered that nobody held, of a prover not revoked. -/
private theorem given_agrees (h : w.Agrees) {m : Making} {handle : Nat} (hm : w.MakingRight m)
    (hrev : ∀ b, m.provedBy = some b → b ∉ w.holding.revoked) (hsize : w.holding.callers.size < Plane.most)
    (hzero : handle ≠ 0) (hfree : w.holding.callers.get handle = none) :
    (w.given w.holding.callers m handle).Agrees := by
  obtain ⟨identity, hi, hv, hsource⟩ := hm
  obtain ⟨proof, hproof, rfl⟩ := Option.map_eq_some_iff.1 hi
  have hlog : (w.given w.holding.callers m handle).log =
      .given ⟨handle, proof.identity, m.heldUntil, m.provedBy, m.source⟩ w.now :: w.log := by
    simp [given, hproof]
  have hget : ∀ k, (w.given w.holding.callers m handle).holding.callers.get k =
      if k = handle then some ⟨m.proof, m.heldUntil, m.provedBy⟩ else w.holding.callers.get k :=
    fun k => Table.get_put ..
  -- Nothing is kept under the handle drawn but what has ended.
  have hdrawn : ∀ g, Kept w.log g → g.handle = handle → live g.heldUntil w.now = false := by
    rintro g hg rfl
    rcases h.kept g hg with hs | hs
    · rw [hfree] at hs
      cases hs
    · exact hs
  constructor
  · intro k x hx
    rw [hget] at hx
    rw [hlog]
    split at hx
    · rename_i hk
      cases hx
      exact ⟨_, kept_given.2 (.inl rfl), hk.symm, rfl, rfl, hi⟩
    · rename_i hk
      obtain ⟨g, hg, rfl, hrest⟩ := h.held k x hx
      exact ⟨g, kept_given.2 (.inr ⟨fun he => hk he.symm, hg⟩), rfl, hrest⟩
  · intro g hg
    rw [hlog, kept_given] at hg
    rw [hget]
    rcases hg with rfl | ⟨hne, hg⟩
    · left
      rw [if_pos rfl]
      rfl
    · rw [if_neg fun he => hne he.symm]
      exact h.kept g hg
  · intro b hb
    rw [hlog] at hb
    rcases List.mem_cons.1 hb with hb | hb
    · cases hb
    · exact h.revoked b hb
  · rw [hlog]
    apply allGivenRight_cons h.given
    intro g t he
    cases he
    exact ⟨hv, fun b hb hmem => hrev b hb (h.revoked b hmem), fun g hg he => hdrawn g hg he, hsource⟩
  · rw [hget, if_neg (Ne.symm hzero)]
    exact h.zero
  · show (w.holding.callers.put handle _).size ≤ _
    have := Table.size_put_le w.holding.callers handle ⟨m.proof, m.heldUntil, m.provedBy⟩
    omega
  · intro op hop
    refine (h.ops op hop).mono ?_ (Int.le_refl _) fun _ _ => rfl
    rw [hlog]
    exact List.suffix_cons ..
  · exact h.minted

private theorem insert_agrees (h : w.Agrees) {m : Making} {at_ : Int} {handle : Nat} {rest : List Op}
    {x : World × List Nat} (hm : w.MakingRight m) (hat : at_ ≤ w.now) (hrest : ∀ op ∈ rest, op ∈ w.ops)
    (hx : w.insert m at_ handle = some x) : { x.1 with ops := rest ++ [Op.letting x.2] }.Agrees := by
  have hproof : (w.idOf m.proof).isSome := by
    obtain ⟨identity, hi, -⟩ := hm
    rw [hi]
    rfl
  have hops : ∀ ps : List Nat, (∀ p ∈ ps, (w.idOf p).isSome) →
      ∀ op ∈ rest ++ [Op.letting ps], op ∈ w.ops ∨ w.OpRight op := by
    intro ps hps op hop
    refine (mem_snoc hrest hop).imp id ?_
    rintro rfl
    exact hps
  unfold insert at hx
  split at hx
  · cases hx
    exact h.with_ops (hops [m.proof] (by simpa using hproof))
  · rename_i hrev
    have hunrev : ∀ b, m.provedBy = some b → b ∉ w.holding.revoked := by
      intro b hb hmem
      exact hrev (by simp [hb, hmem])
    by_cases hfull : Plane.most ≤ w.holding.callers.size
    · -- The pool is full: the ended are dropped first.
      simp only [hfull, decide_true, if_true] at hx
      split at hx
      · cases hx
        refine dropEnded_agrees h hat (hops _ ?_)
        intro p hp
        rcases List.mem_cons.1 hp with rfl | hp
        · exact hproof
        · exact endedAt_isSome h hp
      · rename_i hless
        split at hx
        · cases hx
        · rename_i hdrawn
          simp only [not_or, Bool.not_eq_true, Option.isSome_eq_false_iff, Option.isNone_iff_eq_none] at hdrawn
          cases hx
          have hdrop := dropEnded_agrees h hat (hops (endedAt w.holding.callers at_) fun p hp => endedAt_isSome h hp)
          exact given_agrees hdrop hm hunrev (by simpa using hless) hdrawn.1 hdrawn.2.2
    · simp only [hfull, decide_false, Bool.false_eq_true, if_false] at hx
      split at hx
      · cases hx
      · rename_i hdrawn
        simp only [not_or, Bool.not_eq_true, Option.isSome_eq_false_iff, Option.isNone_iff_eq_none] at hdrawn
        cases hx
        have hsame : { w with ops := rest ++ [Op.letting []] }.Agrees := h.with_ops (hops [] (by simp))
        exact given_agrees hsame hm hunrev (by simpa using hfull) hdrawn.1 hdrawn.2.2

private theorem dropped_agrees (h : w.Agrees) {ops : List Op} {p : Nat} (hops : ∀ op ∈ ops, op ∈ w.ops ∨ w.OpRight op) :
    (w.dropped ops p).Agrees := by
  have hsame := h.with_ops hops
  unfold dropped
  dsimp only
  split
  · exact hsame
  · rename_i hp
    have hid : ∀ q ∈ { w with ops }.refs, (({ w with ops }).proofs.drop p).get q = w.proofs.get q := by
      intro q hq
      apply Table.get_drop_of_ne
      rintro rfl
      exact hp hq
    refine hsame.of_ops rfl rfl rfl ?_ ?_ ?_
    · intro q hq
      rw [Table.get_drop]
      split
      · rfl
      · exact h.minted q hq
    · intro q hq
      exact congrArg _ (hid q (List.mem_append.2 (.inl hq)))
    · intro op hop
      rcases mem_snoc (fun _ h => h) hop with hop | rfl
      · refine (hsame.ops op hop).mono (List.suffix_refl _) (Int.le_refl _) ?_
        intro q hq
        exact congrArg _ (hid q (List.mem_append.2 (.inr (List.mem_flatMap.2 ⟨op, hop, hq⟩))))
      · trivial

private theorem vouched_agrees (h : w.Agrees) {p node handle : Nat} {proof : Proof} (hp : w.proofs.get p = some proof) :
    (w.vouched p proof node handle).Agrees := by
  -- The Proof's caller is as it was, and so is every other Proof.
  have hid : ∀ q, (w.vouched p proof node handle).idOf q = w.idOf q := by
    intro q
    unfold idOf vouched
    dsimp only
    rw [Table.get_put]
    split
    · rename_i hq
      rw [hq, hp]
      rfl
    · rfl
  refine h.of_ops rfl rfl rfl ?_ (fun q _ => hid q) ?_
  · intro q hq
    unfold vouched
    dsimp only
    rw [Table.get_put, if_neg]
    · exact h.minted q hq
    · rintro rfl
      rw [h.minted q hq] at hp
      cases hp
  · intro op hop
    rcases mem_snoc (fun _ h => h) hop with hop | rfl
    · exact (h.ops op hop).mono (List.suffix_refl _) (Int.le_refl _) fun q _ => hid q
    · trivial

theorem Agrees.step (h : w.Agrees) {a : Action} (hs : w.step a = some w') : w'.Agrees := by
  cases taken_of_step hs with
  | tick by_ => exact tick_agrees h by_
  | hold => exact hold_agrees h ..
  | again handle => exact again_agrees h handle
  | sampled hp _ =>
    refine h.with_ops fun op hop => (mem_snoc (fun _ => mem_of_mem_pick hp) hop).imp id ?_
    rintro rfl
    exact ⟨h.ops _ (mem_of_pick hp), Int.le_refl _⟩
  | stale hp _ =>
    refine h.with_ops fun op hop => (mem_snoc (fun _ => mem_of_mem_pick hp) hop).imp id ?_
    rintro rfl p hp'
    exact (h.ops _ (mem_of_pick hp)).idOf_isSome hp'
  | @insert i handle m at_ rest x hp hx =>
    have hm : w.OpRight (.making m at_) := h.ops _ (mem_of_pick hp)
    exact insert_agrees h hm.1 hm.2 (fun op => mem_of_mem_pick hp) hx
  | lookUp handle => exact lookUp_agrees h handle
  | release handle => exact release_agrees h handle
  | revoke prover => exact revoke_agrees h prover
  | clone hp =>
    refine h.with_ops fun op hop => (mem_snoc (fun _ h => h) hop).imp id ?_
    rintro rfl
    exact h.ops _ (mem_of_pick hp)
  | vouched node handle hp hproof => exact vouched_agrees h hproof
  | done hp =>
    refine h.with_ops fun op hop => (mem_snoc (fun _ => mem_of_mem_pick hp) hop).imp id ?_
    rintro rfl q hq
    exact (h.ops _ (mem_of_pick hp)).idOf_isSome hq
  | letAll hp => exact h.with_ops fun op hop => .inl (mem_of_mem_pick hp hop)
  | @letGo i p ps rest hp =>
    refine dropped_agrees h fun op hop => (mem_snoc (fun _ => mem_of_mem_pick hp) hop).imp id ?_
    rintro rfl q hq
    have hall : w.OpRight (.letting (p :: ps)) := h.ops _ (mem_of_pick hp)
    exact hall q (List.mem_cons_of_mem _ hq)
  | toldAll hp => exact h.with_ops fun op hop => .inl (mem_of_mem_pick hp hop)
  | @tell i vouch vouches rest hp =>
    have hsame : { w with ops := rest ++ [Op.telling vouches] }.Agrees := by
      refine h.with_ops fun op hop => (mem_snoc (fun _ => mem_of_mem_pick hp) hop).imp id ?_
      rintro rfl
      trivial
    exact hsame.of_ops rfl rfl rfl hsame.minted (fun _ _ => rfl) hsame.ops

theorem starts_starting (now : Int) : (starting now).Starts := ⟨now, rfl⟩

theorem starting_agrees (now : Int) : (starting now).Agrees where
  held := by
    intro k x hx
    cases hx
  kept := fun g hg => absurd hg (not_kept_nil g)
  revoked := by
    intro b hb
    cases hb
  given := by
    intro newer before g t h
    cases newer <;> cases h
  zero := rfl
  most := Nat.zero_le _
  ops := by
    intro op hop
    cases hop
  minted := fun _ _ => rfl

theorem Agrees.exact (h : w.Agrees) : Exact w where
  proven := by
    intro k identity
    constructor
    · intro hp
      obtain ⟨p, hp, hid⟩ := Option.bind_eq_some_iff.1 hp
      unfold proofOf at hp
      obtain ⟨-, hp⟩ := Option.ite_none_left_eq_some.1 hp
      obtain ⟨x, hx, hp⟩ := Option.bind_eq_some_iff.1 hp
      obtain ⟨hlive, hp⟩ := Option.ite_none_right_eq_some.1 hp
      cases hp
      obtain ⟨g, hk, hg, hu, -, hi⟩ := h.held k x hx
      have hsame : some g.identity = some identity := hi.symm.trans hid
      exact ⟨g, hk, hg, Option.some.inj hsame, by rw [hu]; exact hlive⟩
    · rintro ⟨g, hk, rfl, rfl, hlive⟩
      rcases h.kept g hk with hs | hs
      · obtain ⟨x, hx⟩ := Option.isSome_iff_exists.1 hs
        obtain ⟨g', hk', hg', hu, -, hi⟩ := h.held _ x hx
        have hsame : g = g' := hk.unique hk' hg'.symm
        have hzero : g.handle ≠ 0 := by
          intro hz
          rw [hz, h.zero] at hx
          cases hx
        have hproof : w.proofOf g.handle = some x.proof := by
          unfold proofOf
          rw [if_neg hzero, hx, Option.bind_some, ← hu, ← hsame, if_pos hlive]
        unfold proven
        rw [hproof, Option.bind_some, hsame]
        exact hi
      · rw [hs] at hlive
        cases hlive
  unrevoked := fun g hk b hb => hk.unrevoked h.given hb
  given := h.given
  most := h.most

theorem agrees_of_reach (h : Reach World.step Always Starts w) : w.Agrees := by
  refine h.invariant ?_ fun _ _ _ hw _ hs => hw.step hs
  rintro _ ⟨now, rfl⟩
  exact starting_agrees now

end World

/-- In every state any order of holds, handles taken again, lookups, releases, revocations and ends leads to, a handle
answers its caller exactly where it was last given out for that caller and nothing since took it back or ended it. -/
theorem exact_of_reach {w : World} (h : Reach World.step Always World.Starts w) : Exact w :=
  (World.agrees_of_reach h).exact

/-- A listener's caller held, taken again, and the listener stopped while a third handle is on its way out. -/
theorem exact_revokedInBetween :
    ∃ w : World, Reach World.step Always World.Starts w ∧ Exact w ∧ w.holding.callers.size = 1 ∧ w.proven 5 = none ∧
      w.proven 8 = some ⟨"CN=b", .proven⟩ := by
  obtain ⟨w, hw, hp⟩ := Reach.exists_of_runWhere World.step Always (World.starts_starting 0)
    [.hold ⟨"CN=a", .proven⟩ (some 10) (some 1) none, .insert 0 5, .again 5, .sample 1, .insert 1 6, .again 6, .sample 2,
      .hold ⟨"CN=b", .proven⟩ none (some 2) none, .revoke 1, .insert 2 7, .insert 2 8, .tick 3]
    (fun w => decide (w.holding.callers.size = 1) && decide (w.proven 5 = none) &&
      decide (w.proven 8 = some ⟨"CN=b", .proven⟩)) (by decide +kernel)
  simp only [Bool.and_eq_true, decide_eq_true_eq] at hp
  exact ⟨w, hw, exact_of_reach hw, hp.1.1, hp.1.2, hp.2⟩

end Plane
