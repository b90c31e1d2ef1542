import XmipRuntime.SendStep.Renewed

/-!
# Surely held

A node tries a Location only while it surely holds the claim: a lease from when the request that last confirmed it was asked,
which Xmip Storage counts from its own later now.  What is surely held until then is live at least as long, unless its own
holder ended it (`Storage.Sure`).  The standing is kept by the Journey, not by the claim: where no Message is owned while
the node still owns it (`Sys.Unowned`) it is the pass's own, and a pass that reads it holds has the one live claim.
-/

namespace Claiming

open Library SendStep

variable {c : Nat → Settings} {s s' : Sys} {a : Action}

namespace Storage

variable {st st' : Storage} {now now' id token u u' : Nat}

/-- The claim `token` on the Journey `id` is held until `u`: it is live at least as long, or that time is past, or its own
holder ended it. -/
def Sure (st : Storage) (now id token u : Nat) : Prop :=
  (∃ l, st.live.get id = some l ∧ l.token = token ∧ u ≤ l.heldUntil) ∨ u ≤ now ∨ token ∈ st.ended

theorem Sure.goes (h : st.Sure now id token u) (hgoes : st.Goes now st' now') : st'.Sure now' id token u := by
  rcases h with ⟨l, hl, rfl, hu⟩ | h | h
  · rcases hgoes.live id l hl with ⟨l', hl', htoken, hle⟩ | ⟨-, hle⟩ | h
    · exact .inl ⟨l', hl', htoken, Nat.le_trans hu hle⟩
    · exact .inr (.inl (Nat.le_trans hu hle))
    · exact .inr (.inr h)
  · exact .inr (.inl (Nat.le_trans h hgoes.time))
  · exact .inr (.inr (hgoes.ended _ h))

theorem Sure.later (h : st.Sure now id token u) (h' : st.Sure now id token u') : st.Sure now id token (max u u') := by
  rcases Nat.le_total u u' with hle | hle
  · rwa [Nat.max_eq_right hle]
  · rwa [Nat.max_eq_left hle]

/-- Whose a live claim is does not change. -/
theorem live_of_prolong {t : Nat} {live : Table Nat Live} {id' : Nat} {l' : Live}
    (h : (prolong t live id token).get id' = some l') : ∃ l, live.get id' = some l ∧ l.token = l'.token ∧ l.node = l'.node := by
  cases hl : live.get id' with
  | some l =>
    obtain ⟨l₁, h₁, htoken, hnode, -⟩ := get_prolong t id token hl
    obtain rfl := Option.some.inj (h.symm.trans h₁)
    exact ⟨l, rfl, htoken.symm, hnode.symm⟩
  | none =>
    unfold prolong at h
    split at h
    · rename_i l₀ hl₀
      split at h
      · have hne : id' ≠ id := by
          rintro rfl
          rw [hl] at hl₀
          cases hl₀
        rw [Table.get_put_of_ne _ hne, hl] at h
        cases h
      · rw [hl] at h
        cases h
    · rw [hl] at h
      cases h

theorem live_of_prolongs {t : Nat} {l' : Live} (claims : List Claim) {live : Table Nat Live}
    (h : (claims.foldl (fun live claim => prolong t live claim.journey claim.token) live).get id = some l') :
    ∃ l, live.get id = some l ∧ l.token = l'.token ∧ l.node = l'.node := by
  induction claims generalizing live with
  | nil => exact ⟨l', h, rfl, rfl⟩
  | cons claim claims ih =>
    obtain ⟨l₁, h₁, htoken₁, hnode₁⟩ := ih h
    obtain ⟨l₀, h₀, htoken₀, hnode₀⟩ := live_of_prolong h₁
    exact ⟨l₀, h₀, htoken₀.trans htoken₁, hnode₀.trans hnode₁⟩

theorem live_of_drop {live : Table Nat Live} {id' : Nat} {l : Live} (h : (live.drop id).get id' = some l) :
    live.get id' = some l := by
  rw [Table.get_drop] at h
  split at h
  · cases h
  · exact h

end Storage

namespace Sys

/-- A live claim is one there was, or one just granted. -/
theorem Taken.live (ht : s.Taken c a s') {id : Nat} {l' : Live} (hl' : s'.storage.live.get id = some l') :
    (∃ l, s.storage.live.get id = some l ∧ l.token = l'.token ∧ l.node = l'.node) ∨
      ∃ i r rest, a = .grants i ∧ pick s.requests i = some (r, rest) ∧ l'.token = r.token ∧ l'.node = r.node := by
  cases ht with
  | lapse h =>
    obtain ⟨l, -, -, rfl⟩ := Storage.lapse_eq h
    exact .inl ⟨l', Storage.live_of_drop hl', rfl, rfl⟩
  | @grants i r rest granted storage hp hstage hclaim =>
    unfold Storage.claim at hclaim
    split at hclaim
    · obtain ⟨-, rfl⟩ := Prod.mk.inj hclaim
      rw [Table.get_put] at hl'
      split at hl'
      · obtain rfl := Option.some.inj hl'
        exact .inr ⟨i, r, rest, rfl, hp, rfl, rfl⟩
      · exact .inl ⟨l', hl', rfl, rfl⟩
    · obtain ⟨-, rfl⟩ := Prod.mk.inj hclaim
      exact .inl ⟨l', hl', rfl, rfl⟩
  | moves _ _ hkeep =>
    obtain ⟨-, rfl⟩ := Prod.mk.inj hkeep
    exact .inl (Storage.live_of_prolong hl')
  | @gives i reaches r rest hp =>
    cases reaches with
    | false => exact .inl ⟨l', hl', rfl, rfl⟩
    | true =>
      have hl' : (s.storage.finish r.id r.token).2.live.get id = some l' := hl'
      rcases Storage.finish_cases (Prod.eta (s.storage.finish r.id r.token)).symm with ⟨-, -, he⟩ | ⟨-, he⟩
      · rw [he] at hl'
        exact .inl ⟨l', Storage.live_of_drop hl', rfl, rfl⟩
      · rw [he] at hl'
        exact .inl ⟨l', hl', rfl, rfl⟩
  | ends hp hfinish =>
    rcases Storage.finish_cases hfinish with ⟨-, -, rfl⟩ | ⟨-, rfl⟩
    · exact .inl ⟨l', Storage.live_of_drop hl', rfl, rfl⟩
    · exact .inl ⟨l', hl', rfl, rfl⟩
  | renews _ _ _ hrenew =>
    obtain ⟨-, rfl⟩ := Prod.mk.inj hrenew
    exact .inl (Storage.live_of_prolongs _ hl')
  | _ => exact .inl ⟨l', hl', rfl, rfl⟩

/-! ### Every time a node goes by -/

/-- A request answered yes. -/
def Answered (r : Request) : Prop := r.stage = .granted ∨ r.stage = .moved

/-- Every time a node takes a claim for held until is sure, and a live claim is of the node whose token it has. -/
structure Surely (c : Nat → Settings) (s : Sys) : Prop extends Accountable s where
  asked : ∀ r ∈ s.requests, r.asked ≤ s.now
  answered : ∀ r ∈ s.requests, Answered r → s.storage.Sure s.now r.id r.token (r.asked + (c r.node).lease)
  stands : ∀ node id o, (s.steps node).owned.get id = some o →
    s.storage.Sure s.now id o.claim.token o.standing.heldUntil
  renewals : ∀ node round asked, s.rounds node = some round → round.asked = some asked → asked ≤ s.now ∧
    ∀ claim ∈ round.left, ∀ answer claim', round.answer = some answer → answerFor answer claim = .held claim' →
      s.storage.Sure s.now claim.journey claim.token (asked + (c node).lease)
  live : ∀ id l, s.storage.live.get id = some l → l.token < s.minted ∧ (∀ r ∈ s.requests, r.token = l.token → r.node = l.node) ∧
    ∀ p ∈ s.passes, p.token = l.token → p.node = l.node

theorem Taken.time (ht : s.Taken c a s') : s.now ≤ s'.now := ht.goes.time

theorem asked_of_taken (h : s.Surely c) (ht : s.Taken c a s') : ∀ r ∈ s'.requests, r.asked ≤ s'.now := by
  have hsame : ∀ r ∈ s.requests, r.asked ≤ s'.now := fun r hr => Nat.le_trans (h.asked r hr) ht.time
  have hmoved : ∀ {i : Nat} {r r' : Request} {rest : List Request}, pick s.requests i = some (r, rest) → r'.asked ≤ s'.now →
      ∀ r₁ ∈ rest ++ [r'], r₁.asked ≤ s'.now := by
    intro i r r' rest hp hr' r₁ hr₁
    rcases List.mem_append.1 hr₁ with hr₁ | hr₁
    · exact hsame r₁ (mem_of_mem_pick hp hr₁)
    · rw [List.mem_singleton.1 hr₁]
      exact hr'
  cases ht with
  | asks node id kind takers _ =>
    intro r hr
    rcases List.mem_append.1 hr with hr | hr
    · exact hsame r hr
    · exact Nat.le_of_eq (by rw [List.mem_singleton.1 hr])
  | @grants i r rest granted storage hp hstage hclaim => exact hmoved hp (h.asked r (mem_of_pick hp))
  | moving hp _ => exact hmoved hp (Nat.le_refl _)
  | @moves i r rest moved storage hp hstage hkeep => exact hmoved hp (h.asked r (mem_of_pick hp))
  | owns hp _ => exact fun r hr => hsame r (mem_of_mem_pick hp hr)
  | gives hp => exact fun r hr => hsame r (mem_of_mem_pick hp hr)
  | _ => exact hsame

theorem answered_of_taken (h : s.Surely c) (ht : s.Taken c a s') :
    ∀ r ∈ s'.requests, Answered r → s'.storage.Sure s'.now r.id r.token (r.asked + (c r.node).lease) := by
  have hgoes := ht.goes
  have hsame : ∀ r ∈ s.requests, Answered r → s'.storage.Sure s'.now r.id r.token (r.asked + (c r.node).lease) :=
    fun r hr hanswered => (h.answered r hr hanswered).goes hgoes
  have hmoved : ∀ {i : Nat} {r r' : Request} {rest : List Request}, pick s.requests i = some (r, rest) →
      (Answered r' → s'.storage.Sure s'.now r'.id r'.token (r'.asked + (c r'.node).lease)) →
      ∀ r₁ ∈ rest ++ [r'], Answered r₁ → s'.storage.Sure s'.now r₁.id r₁.token (r₁.asked + (c r₁.node).lease) := by
    intro i r r' rest hp hr' r₁ hr₁ hanswered
    rcases List.mem_append.1 hr₁ with hr₁ | hr₁
    · exact hsame r₁ (mem_of_mem_pick hp hr₁) hanswered
    · rw [List.mem_singleton.1 hr₁] at hanswered ⊢
      exact hr' hanswered
  cases ht with
  | asks node id kind takers _ =>
    intro r hr hanswered
    rcases List.mem_append.1 hr with hr | hr
    · exact hsame r hr hanswered
    · rw [List.mem_singleton.1 hr] at hanswered
      rcases hanswered with hs | hs <;> cases hs
  | @grants i r rest granted storage hp hstage hclaim =>
    refine hmoved hp fun hanswered => ?_
    -- Xmip Storage counts the lease from its own now, no earlier than it was asked.
    have hasked := h.asked r (mem_of_pick hp)
    unfold Storage.claim at hclaim
    split at hclaim
    · obtain ⟨-, rfl⟩ := Prod.mk.inj hclaim
      exact .inl ⟨_, Table.get_put_self .., rfl, by simp only; omega⟩
    · obtain ⟨rfl, -⟩ := Prod.mk.inj hclaim
      rcases hanswered with hs | hs <;> cases hs
  | moving hp _ =>
    refine hmoved hp fun hanswered => ?_
    rcases hanswered with hs | hs <;> cases hs
  | @moves i r rest moved storage hp hstage hkeep =>
    refine hmoved hp fun hanswered => ?_
    have hasked := h.asked r (mem_of_pick hp)
    obtain ⟨rfl, rfl⟩ := Prod.mk.inj hkeep
    by_cases hheld : s.storage.Held r.id r.token
    · obtain ⟨l, hl, htoken⟩ := Storage.held_iff.1 hheld
      obtain ⟨l', hl', htoken', -, -, hmax⟩ := Storage.get_prolong (s.now + (c r.node).lease) r.id r.token hl
      have hle := hmax rfl htoken
      exact .inl ⟨l', hl', htoken'.trans htoken, by simp only; omega⟩
    · rcases hanswered with hs | hs <;> simp [hheld] at hs
  | owns hp _ => exact fun r hr => hsame r (mem_of_mem_pick hp hr)
  | gives hp => exact fun r hr => hsame r (mem_of_mem_pick hp hr)
  | _ => exact hsame

/-- What is ready to be owned was answered yes. -/
theorem answered_of_ready {r : Request} (h : r.ready = true) : Answered r := by
  unfold Request.ready at h
  split at h
  · exact .inl (of_decide_eq_true h)
  · exact .inl (of_decide_eq_true h)
  · exact .inr (of_decide_eq_true h)
  · cases h

theorem stands_of_taken (h : s.Surely c) (ht : s.Taken c a s') :
    ∀ node id o, (s'.steps node).owned.get id = some o → s'.storage.Sure s'.now id o.claim.token o.standing.heldUntil := by
  intro node id o' ho'
  have hgoes := ht.goes
  cases ht.entered ho' with
  | kept ho _ => exact (h.stands node id o' ho).goes hgoes
  | @owned i r rest journey port queue fence ha hp hready hnode hid =>
    subst hid
    exact (h.answered r (mem_of_pick hp) (answered_of_ready hready)).goes hgoes
  | @renewed o round asked answer claim left ho hround hasked hanswer hleft hid htoken ha =>
    have hclaim : claim ∈ round.left := by
      rw [hleft]
      exact List.mem_cons_self ..
    have hwas := h.stands node id o ho
    rw [(renewed_claim htoken).1]
    refine Storage.Sure.goes ?_ hgoes
    cases hr : answerFor answer claim with
    | held claim' =>
      have hnew := (h.renewals node round asked hround hasked).2 claim hclaim answer claim' hanswer hr
      rw [← hid, ← htoken] at hnew
      exact hwas.later hnew
    | lost => exact hwas
    | unanswered => exact hwas

theorem renewals_of_taken (h : s.Surely c) (ht : s.Taken c a s') :
    ∀ node round asked, s'.rounds node = some round → round.asked = some asked → asked ≤ s'.now ∧
      ∀ claim ∈ round.left, ∀ answer claim', round.answer = some answer → answerFor answer claim = .held claim' →
        s'.storage.Sure s'.now claim.journey claim.token (asked + (c node).lease) := by
  have hgoes := ht.goes
  have hsame : ∀ node round asked, s.rounds node = some round → round.asked = some asked → asked ≤ s'.now ∧
      ∀ claim ∈ round.left, ∀ answer claim', round.answer = some answer → answerFor answer claim = .held claim' →
        s'.storage.Sure s'.now claim.journey claim.token (asked + (c node).lease) := by
    intro node round asked hround hasked
    obtain ⟨hle, hheld⟩ := h.renewals node round asked hround hasked
    refine ⟨Nat.le_trans hle ht.time, fun claim hclaim answer claim' hanswer hr => ?_⟩
    exact (hheld claim hclaim answer claim' hanswer hr).goes hgoes
  cases ht with
  | @clones node hnone =>
    intro node' round' asked' hround' hasked'
    rcases round_of_update hround' with ⟨rfl, he⟩ | hround'
    · obtain rfl := Option.some.inj he
      cases hasked'
    · exact hsame node' round' asked' hround' hasked'
  | @round node round hround hanswer =>
    intro node' round' asked' hround' hasked'
    rcases round_of_update hround' with ⟨rfl, he⟩ | hround'
    · obtain rfl := Option.some.inj he
      obtain rfl := Option.some.inj hasked'
      refine ⟨Nat.le_refl _, fun claim hclaim answer claim' hanswer' hr => ?_⟩
      rw [hanswer] at hanswer'
      cases hanswer'
    · exact hsame node' round' asked' hround' hasked'
  | @renews node arrives round held storage hround hasked hanswer hrenew =>
    intro node' round' asked' hround' hasked'
    rcases round_of_update hround' with ⟨rfl, he⟩ | hround'
    · obtain rfl := Option.some.inj he
      have hle := (h.renewals node round asked' hround hasked').1
      refine ⟨hle, fun claim hclaim answer claim' hanswer' hr => ?_⟩
      obtain rfl := Option.some.inj hanswer'
      cases arrives with
      | false => cases hr
      | true =>
        obtain ⟨held', he, hmem, hjourney, htoken⟩ := answerFor_held hr
        obtain rfl := Option.some.inj he
        obtain ⟨rfl, rfl⟩ := Prod.mk.inj hrenew
        have hheld : s.storage.Held claim'.journey claim'.token := by simpa using (List.mem_filter.1 hmem).2
        rw [hjourney, htoken] at hheld
        obtain ⟨l, hl, hltoken⟩ := Storage.held_iff.1 hheld
        obtain ⟨l', hl', htoken', -, -, hmax⟩ := Storage.get_prolongs (s.now + (c node).lease) round.left hl
        have hlater := hmax ⟨claim, hclaim, rfl, hltoken.symm⟩
        exact .inl ⟨l', hl', htoken'.trans hltoken, by omega⟩
    · exact hsame node' round' asked' hround' hasked'
  | @unanswered node round hround hanswer =>
    intro node' round' asked' hround' hasked'
    rcases round_of_update hround' with ⟨rfl, he⟩ | hround'
    · obtain rfl := Option.some.inj he
      refine ⟨(h.renewals node round asked' hround hasked').1, fun claim hclaim answer claim' hanswer' hr => ?_⟩
      obtain rfl := Option.some.inj hanswer'
      cases hr
    · exact hsame node' round' asked' hround' hasked'
  | applied =>
    intro node' round' asked' hround' hasked'
    rcases round_of_update hround' with ⟨rfl, he⟩ | hround'
    · cases he
    · exact hsame node' round' asked' hround' hasked'
  | @applies node round asked answer claim left hround hasked hanswer hleft =>
    intro node' round' asked' hround' hasked'
    rcases round_of_update hround' with ⟨rfl, he⟩ | hround'
    · obtain rfl := Option.some.inj he
      obtain ⟨hle, hheld⟩ := hsame node round asked' hround hasked'
      exact ⟨hle, fun claim' hclaim' => hheld claim' (hleft ▸ List.mem_cons_of_mem _ hclaim')⟩
    · exact hsame node' round' asked' hround' hasked'
  | _ => exact hsame

/-- A request or a pass of a step has its token from one before it, or the next token. -/
theorem nodes_of_taken (ht : s.Taken c a s') : ∀ t k, t < s.minted →
    (∀ r ∈ s.requests, r.token = t → r.node = k) → (∀ p ∈ s.passes, p.token = t → p.node = k) →
    (∀ r ∈ s'.requests, r.token = t → r.node = k) ∧ ∀ p ∈ s'.passes, p.token = t → p.node = k := by
  intro t k hlt hr hp
  have hmoved : ∀ {i : Nat} {r r' : Request} {rest : List Request}, pick s.requests i = some (r, rest) →
      r'.token = r.token → r'.node = r.node → ∀ r₁ ∈ rest ++ [r'], r₁.token = t → r₁.node = k := by
    intro i r r' rest hpick htoken hnode r₁ hr₁ ht₁
    rcases List.mem_append.1 hr₁ with hr₁ | hr₁
    · exact hr r₁ (mem_of_mem_pick hpick hr₁) ht₁
    · rw [List.mem_singleton.1 hr₁] at ht₁ ⊢
      rw [hnode]
      exact hr r (mem_of_pick hpick) (htoken.symm.trans ht₁)
  have hended : ∀ {i : Nat} {p p' : Pass} {rest : List Pass}, pick s.passes i = some (p, rest) →
      p'.token = p.token → p'.node = p.node → ∀ p₁ ∈ rest ++ [p'], p₁.token = t → p₁.node = k := by
    intro i p p' rest hpick htoken hnode p₁ hp₁ ht₁
    rcases List.mem_append.1 hp₁ with hp₁ | hp₁
    · exact hp p₁ (mem_of_mem_pick hpick hp₁) ht₁
    · rw [List.mem_singleton.1 hp₁] at ht₁ ⊢
      rw [hnode]
      exact hp p (mem_of_pick hpick) (htoken.symm.trans ht₁)
  cases ht with
  | asks node id kind takers _ =>
    refine ⟨fun r hr' htoken => ?_, hp⟩
    rcases List.mem_append.1 hr' with hr' | hr'
    · exact hr r hr' htoken
    · rw [List.mem_singleton.1 hr'] at htoken
      exact absurd htoken.symm (Nat.ne_of_lt hlt)
  | grants hpick _ _ => exact ⟨hmoved hpick rfl rfl, hp⟩
  | moving hpick _ => exact ⟨hmoved hpick rfl rfl, hp⟩
  | moves hpick _ _ => exact ⟨hmoved hpick rfl rfl, hp⟩
  | @owns i r rest journey port queue fence hpick _ =>
    refine ⟨fun r₁ hr₁ => hr r₁ (mem_of_mem_pick hpick hr₁), fun p hp' htoken => ?_⟩
    rcases List.mem_append.1 hp' with hp' | hp'
    · exact hp p hp' htoken
    · rw [List.mem_singleton.1 hp'] at htoken ⊢
      exact hr r (mem_of_pick hpick) htoken
  | gives hpick => exact ⟨fun r₁ hr₁ => hr r₁ (mem_of_mem_pick hpick hr₁), hp⟩
  | ends hpick _ => exact ⟨hr, hended hpick rfl rfl⟩
  | stops hpick => exact ⟨hr, hended hpick rfl rfl⟩
  | settles hpick _ => exact ⟨hr, fun p hp' => hp p (mem_of_mem_pick hpick hp')⟩
  | _ => exact ⟨hr, hp⟩

theorem minted_of_taken (ht : s.Taken c a s') : s.minted ≤ s'.minted := by
  cases ht with
  | asks _ _ _ _ _ => exact Nat.le_succ _
  | _ => exact Nat.le_refl _

theorem live_of_taken (h : s.Surely c) (ht : s.Taken c a s') : ∀ id l, s'.storage.live.get id = some l →
    l.token < s'.minted ∧ (∀ r ∈ s'.requests, r.token = l.token → r.node = l.node) ∧
      ∀ p ∈ s'.passes, p.token = l.token → p.node = l.node := by
  intro id l' hl'
  have hminted := minted_of_taken ht
  rcases ht.live hl' with ⟨l, hl, htoken, hnode⟩ | ⟨i, r, rest, ha, hpick, htoken, hnode⟩
  · obtain ⟨hlt, hr, hp⟩ := h.live id l hl
    rw [htoken] at hlt hr hp
    rw [hnode] at hr hp
    exact ⟨Nat.lt_of_lt_of_le hlt hminted, nodes_of_taken ht l'.token l'.node hlt hr hp⟩
  · -- The token granted is of one request only, and of no pass.
    have hperm := tokens_of_pick hpick
    have hfresh := (List.nodup_cons.1 (hperm.nodup_iff.2 h.unique)).1
    have hlt : l'.token < s.minted := htoken ▸ h.minted _ (.inl (hperm.mem_iff.1 (List.mem_cons_self ..)))
    refine ⟨Nat.lt_of_lt_of_le hlt hminted, nodes_of_taken ht l'.token l'.node hlt ?_ ?_⟩
    · intro r₁ hr₁ htoken₁
      rcases eq_or_mem_of_pick hpick hr₁ with rfl | hr₁
      · exact hnode.symm
      · exact absurd (List.mem_append_left _ ((htoken₁.trans htoken) ▸ List.mem_map_of_mem hr₁)) hfresh
    · intro p hp htoken₁
      exact absurd (List.mem_append_right _ ((htoken₁.trans htoken) ▸ List.mem_map_of_mem hp)) hfresh

theorem Surely.step (h : s.Surely c) (ht : s.Taken c a s') : s'.Surely c :=
  { h.toAccountable.step ht with
    asked := asked_of_taken h ht
    answered := answered_of_taken h ht
    stands := stands_of_taken h ht
    renewals := renewals_of_taken h ht
    live := live_of_taken h ht }

theorem surely_of_starts (h : s.Starts) : s.Surely c := by
  have hacc := accountable_of_starts h
  obtain ⟨served, rfl⟩ := h
  exact { hacc with
    asked := by simp [starting]
    answered := by simp [starting]
    stands := by simp [starting, State.starting]
    renewals := by simp [starting]
    live := by simp [starting] }

/-! ### The standing of a pass's own claim -/

/-- No Message is owned while the node still owns it. -/
def Unowned (s : Sys) : Action → Prop
  | .owns i _ _ _ _ => ((pick s.requests i).all fun x => ((s.steps x.1.node).owned.get x.1.id).isNone) = true
  | _ => True

instance (s : Sys) : (a : Action) → Decidable (s.Unowned a)
  | .owns i _ _ _ _ => inferInstanceAs (Decidable ((pick s.requests i).all _ = true))
  | .tick | .lapse _ | .read .. | .asks _ | .begins .. | .grants _ | .moving _ | .moves _ | .gives .. | .ends .. | .settles ..
  | .clones _ | .round _ | .renews .. | .unanswered _ | .applies _ => inferInstanceAs (Decidable True)

/-- What is owned of a pass's Message is owned under the pass's own claim. -/
def Matched (s : Sys) : Prop :=
  ∀ p ∈ s.passes, ∃ o, (s.steps p.node).owned.get p.departure.id = some o ∧ o.claim.token = p.token

theorem renewed_stays {settings : Settings} {step : State} {claim : Claim} {asked now id : Nat}
    {answer : Option (List Claim)} {o : Owned} (h : step.owned.get id = some o) :
    ∃ o', (step.renewed settings claim asked now (answerFor answer claim)).owned.get id = some o' ∧
      o'.claim.token = o.claim.token := by
  unfold State.renewed
  split
  · rename_i o₀ ho₀
    split
    · rename_i htoken
      by_cases hid : id = claim.journey
      · subst hid
        obtain rfl := Option.some.inj (ho₀.symm.trans h)
        exact ⟨_, Table.get_put_self .., (renewed_claim htoken).1⟩
      · exact ⟨o, (Table.get_put_of_ne _ hid _).trans h, rfl⟩
    · exact ⟨o, h, rfl⟩
  · exact ⟨o, h, rfl⟩

/-- What is owned stays under its claim, until it is settled or owned again. -/
theorem Taken.owned_stays (ht : s.Taken c a s') {node id : Nat} {o : Owned} (ho : (s.steps node).owned.get id = some o) :
    (∃ o', (s'.steps node).owned.get id = some o' ∧ o'.claim.token = o.claim.token) ∨
    (∃ i ended p rest, a = .settles i ended ∧ pick s.passes i = some (p, rest) ∧ s'.passes = rest ∧ p.node = node ∧
      p.departure.id = id) ∨
    ∃ i journey port queue fence r rest, a = .owns i journey port queue fence ∧ pick s.requests i = some (r, rest) ∧
      r.node = node ∧ r.id = id := by
  cases ht with
  | @read node' id' queue place hk =>
    refine .inl ⟨o, ?_, rfl⟩
    show (s.stepped node' (·.mark id') node).owned.get id = some o
    rwa [owned_stepped_of_eq node (f := (·.mark id')) fun _ => rfl]
  | @gives i reaches r rest hp =>
    refine .inl ⟨o, ?_, rfl⟩
    show (s.stepped r.node (givenBack r) node).owned.get id = some o
    rwa [owned_stepped_of_eq node (owned_givenBack r)]
  | @owns i r rest journey port queue fence hp hready =>
    by_cases hsame : r.node = node ∧ r.id = id
    · exact .inr (.inr ⟨i, journey, port, queue, fence, r, rest, rfl, hp, hsame.1, hsame.2⟩)
    · refine .inl ⟨o, ?_, rfl⟩
      show (s.stepped r.node (owning r (r.departure c journey port queue fence)) node).owned.get id = some o
      rw [owned_stepped]
      split
      · rename_i hnode
        subst hnode
        have hne : id ≠ r.id := fun hid => hsame ⟨rfl, hid.symm⟩
        rw [owned_owning]
        exact (Table.get_put_of_ne _ hne _).trans ho
      · exact ho
  | @settles i ended p rest hp hended =>
    by_cases hsame : p.node = node ∧ p.departure.id = id
    · exact .inr (.inl ⟨i, ended, p, rest, rfl, hp, rfl, hsame.1, hsame.2⟩)
    · refine .inl ⟨o, ?_, rfl⟩
      show (s.stepped p.node (·.settle p.departure s.now ended) node).owned.get id = some o
      rw [owned_stepped]
      split
      · rename_i hnode
        subst hnode
        have hne : id ≠ p.departure.id := fun hid => hsame ⟨rfl, hid.symm⟩
        rw [State.settle_owned]
        exact (Table.get_drop_of_ne _ hne).trans ho
      · exact ho
  | @applies node' round asked answer claim left hround hasked hanswer hleft =>
    left
    show ∃ o', (s.stepped node' (fun step => step.renewed (c node') claim asked s.now (answerFor answer claim)) node
      ).owned.get id = some o' ∧ _
    rw [owned_stepped]
    split
    · rename_i hnode
      subst hnode
      exact renewed_stays ho
    · exact ⟨o, ho, rfl⟩
  | _ => exact .inl ⟨o, ho, rfl⟩

/-- Where a pass comes from. -/
theorem Taken.pass_from (ht : s.Taken c a s') {p' : Pass} (hp' : p' ∈ s'.passes) :
    (∃ p ∈ s.passes, p.node = p'.node ∧ p.departure = p'.departure) ∨
    ∃ i r rest journey port queue fence, a = .owns i journey port queue fence ∧ pick s.requests i = some (r, rest) ∧
      p' = ⟨r.node, r.departure c journey port queue fence, none⟩ ∧
      (s'.steps r.node).owned.get r.id = some (.of (r.departure c journey port queue fence)) := by
  cases ht with
  | @owns i r rest journey port queue fence hp hready =>
    rcases List.mem_append.1 hp' with hp' | hp'
    · exact .inl ⟨p', hp', rfl, rfl⟩
    · refine .inr ⟨i, r, rest, journey, port, queue, fence, rfl, hp, List.mem_singleton.1 hp', ?_⟩
      show (s.stepped r.node (owning r (r.departure c journey port queue fence)) r.node).owned.get r.id = _
      rw [owned_stepped, if_pos rfl, owned_owning]
      exact Table.get_put_self ..
  | @ends i p rest finished storage hp hfinish =>
    rcases List.mem_append.1 hp' with hp' | hp'
    · exact .inl ⟨p', mem_of_mem_pick hp hp', rfl, rfl⟩
    · rw [List.mem_singleton.1 hp']
      exact .inl ⟨p, mem_of_pick hp, rfl, rfl⟩
  | @stops i p rest hp =>
    rcases List.mem_append.1 hp' with hp' | hp'
    · exact .inl ⟨p', mem_of_mem_pick hp hp', rfl, rfl⟩
    · rw [List.mem_singleton.1 hp']
      exact .inl ⟨p, mem_of_pick hp, rfl, rfl⟩
  | settles hp _ => exact .inl ⟨p', mem_of_mem_pick hp hp', rfl, rfl⟩
  | _ => exact .inl ⟨p', hp', rfl, rfl⟩

theorem Matched.step (h : s.Matched) (hacc : s.Accountable) (hok : s.Unowned a) (ht : s.Taken c a s') : s'.Matched := by
  intro p' hp'
  rcases ht.pass_from hp' with ⟨p, hp, hnode, hdeparture⟩ | ⟨i, r, rest, journey, port, queue, fence, -, -, rfl, ho⟩
  · have htoken : p.token = p'.token := by rw [Pass.token, hdeparture, Pass.token]
    obtain ⟨o, ho, hotoken⟩ := h p hp
    rcases ht.owned_stays ho with ⟨o', ho', htoken'⟩ | ⟨i, ended, q, rest, rfl, hq, hrest, hqnode, hqid⟩ |
      ⟨i, journey, port, queue, fence, r, rest, rfl, hr, hrnode, hrid⟩
    · rw [hnode, hdeparture] at ho'
      exact ⟨o', ho', htoken'.trans (hotoken.trans htoken)⟩
    · -- The pass settled is owned as this one is: it would be this one.
      obtain ⟨oq, hoq, hoqtoken⟩ := h q (mem_of_pick hq)
      rw [hqnode, hqid] at hoq
      obtain rfl := Option.some.inj (ho.symm.trans hoq)
      have hfresh := (List.nodup_cons.1 ((tokens_of_pick_pass hq).nodup_iff.2 hacc.unique)).1
      have hsame : p'.token = q.token := (hotoken.trans htoken).symm.trans hoqtoken
      exact absurd (List.mem_append_right _ (hsame ▸ List.mem_map_of_mem (hrest ▸ hp'))) hfresh
    · have hnone : ((s.steps r.node).owned.get r.id).isNone = true := by
        have hok : ((pick s.requests i).all fun x => ((s.steps x.1.node).owned.get x.1.id).isNone) = true := hok
        rw [hr] at hok
        exact hok
      rw [hrnode, hrid, ho] at hnone
      cases hnone
  · exact ⟨_, ho, rfl⟩

/-! ### Safety -/

/-- Whenever a pass that has not made its last write reads that it holds its Message, its own claim is the live one.  It
reads the clock first and then takes the lock: this is of a reading made as the lock is taken, and what an earlier one
answers is of the moment of that reading, since when the lease may have run out. -/
def Safe (s : Sys) : Prop :=
  ∀ p ∈ s.passes, p.ended = none → (s.steps p.node).holds p.departure.id s.now = true →
    ∃ l, s.storage.live.get p.departure.id = some l ∧ l.token = p.token ∧ l.node = p.node

theorem safe_of_matched (h : s.Surely c) (hmatched : s.Matched) : s.Safe := by
  intro p hp hended hholds
  obtain ⟨o, ho, htoken⟩ := hmatched p hp
  have hstanding : o.standing.holds s.now = true := by
    simpa [State.holds, ho] using hholds
  have hlater : s.now < o.standing.heldUntil := by
    simp only [Standing.holds, Bool.and_eq_true, decide_eq_true_eq] at hstanding
    exact hstanding.2
  rcases h.stands p.node p.departure.id o ho with ⟨l, hl, hltoken, -⟩ | hpast | hown
  · have hl' : l.token = p.token := hltoken.trans htoken
    exact ⟨l, hl, hl', ((h.live _ l hl).2.2 p hp hl'.symm).symm⟩
  · omega
  · have hsaid := h.passes p hp (htoken ▸ hown)
    rw [hended] at hsaid
    cases hsaid

/-- In every run that owns no Message the node still owns, a pass tries a Location only under the one live claim, its own. -/
theorem safe_of_reach (h : Reach (step c) Unowned Starts s) : s.Safe := by
  have hboth : s.Surely c ∧ s.Matched := by
    refine @Reach.invariant _ _ _ _ _ (fun s => s.Surely c ∧ s.Matched) (fun s hs => ⟨surely_of_starts hs, ?_⟩)
      (fun s a s' hinv hok hs => ?_) s h
    · obtain ⟨served, rfl⟩ := hs
      exact fun p hp => absurd hp List.not_mem_nil
    · have ht := taken_of_step hs
      exact ⟨hinv.1.step ht, hinv.2.step hinv.1.toAccountable hok ht⟩
  exact safe_of_matched hboth.1 hboth.2

/-- Nodes with a lease of two. -/
private def leasing (node : Nat) : Settings := ⟨node, 8, 2, fun _ => 0, fun _ => true, fun _ => false⟩

/-- A Journey bound for a Send Port. -/
private def leaving : Ledger.Journey := ⟨.active, none, [], none, some "orders", none, 0, []⟩

/-- A Message is sent under a claim renewed past its first lease, while another node's scan is refused it. -/
theorem safe_of_renewal : ∃ s, (s.passes.all fun p => (s.steps p.node).holds p.departure.id s.now) = true ∧
    s.passes.length = 1 ∧ s.now = 2 ∧ Reach (step leasing) Unowned Starts s ∧ s.Safe := by
  obtain ⟨s, hs, hp⟩ := Reach.exists_of_runWhere (step leasing) Unowned
    (show Starts (starting fun _ => [0]) from ⟨_, rfl⟩)
    [.read 0 7 0 0, .asks 0, .grants 0, .owns 0 leaving "orders" 0 0, .clones 0, .tick, .round 0, .renews 0 true,
      .applies 0, .tick, .read 1 7 0 0, .asks 0, .grants 0]
    (fun s => (s.passes.all fun p => (s.steps p.node).holds p.departure.id s.now) = true ∧ s.passes.length = 1 ∧ s.now = 2)
    (by decide +kernel)
  obtain ⟨hholds, hlength, hnow⟩ := of_decide_eq_true hp
  exact ⟨s, hholds, hlength, hnow, hs, safe_of_reach hs⟩

/-- A pick-up's answer comes after its claim's lease: its pass begins as a scan of the same node takes the Message up again,
reads the scan's standing for its own, and goes on when the scan's pass has handed on and another node has the claim. -/
theorem holds_by_another : ∃ s, Reach (step leasing) Always Starts s ∧ ¬ s.Safe := by
  obtain ⟨s, hs, hp⟩ := Reach.exists_of_runWhere (step leasing) Always (show Starts (starting fun _ => [0]) from ⟨_, rfl⟩)
    [.begins 0 7 .pickUp, .grants 0, .moving 0, .moves 0, .tick, .tick, .lapse 7, .read 0 7 0 0, .asks 0, .grants 1,
      .owns 0 leaving "orders" 0 0, .owns 0 leaving "orders" 0 0, .ends 1 true, .read 1 7 0 0, .asks 0, .grants 0]
    (fun s => s.passes.any fun p => decide (p.ended = none ∧ (s.steps p.node).holds p.departure.id s.now = true ∧
      s.storage.live.get p.departure.id = some ⟨2, 1, 4⟩ ∧ p.node = 0)) (by decide +kernel)
  obtain ⟨p, hmem, hp⟩ := List.any_eq_true.1 hp
  obtain ⟨hended, hholds, hlive, hnode⟩ := of_decide_eq_true hp
  refine ⟨s, hs, fun hsafe => ?_⟩
  obtain ⟨l, hl, -, hlnode⟩ := hsafe p hmem hended hholds
  obtain rfl := Option.some.inj (hlive.symm.trans hl)
  rw [hnode] at hlnode
  cases hlnode

end Sys

end Claiming
