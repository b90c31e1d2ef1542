import XmipRuntime.SendStep.Claims

/-!
# A renewal's loss

A round of renewals clones the claims, asks without the lock and keeps the answers one by one.  A claim it is answered
nothing for was live once, so its lease was over or its own pass ended it.  The pass ends it while its Message is still
owned, and is settled in a later hold of the lock: an answer kept between the two marks the claim another's that no other
ever had.  Kept outside of that (`Sys.Outside`), a claim is marked only where its lease was over.
-/

namespace Claiming

open Library SendStep

variable {c : Nat → Settings} {s s' : Sys} {a : Action}

/-! ### Tokens -/

namespace Sys

/-- The tokens of what is asked for and of what is owned. -/
def tokens (s : Sys) : List Nat := s.requests.map Request.token ++ s.passes.map Pass.token

/-- Every claim has a token of its own, and only the pass it is of ends it. -/
structure Tokens (s : Sys) : Prop where
  unique : s.tokens.Nodup
  minted : ∀ t, t ∈ s.tokens ∨ t ∈ s.storage.ended → t < s.minted
  requests : ∀ r ∈ s.requests, r.token ∉ s.storage.ended
  passes : ∀ p ∈ s.passes, p.token ∈ s.storage.ended → p.ended = some true

theorem tokens_of_pick {i : Nat} {r : Request} {rest : List Request} (h : pick s.requests i = some (r, rest)) :
    (r.token :: (rest.map Request.token ++ s.passes.map Pass.token)).Perm s.tokens :=
  ((pick_perm h).map Request.token).append_right _

theorem tokens_of_pick_pass {i : Nat} {p : Pass} {rest : List Pass} (h : pick s.passes i = some (p, rest)) :
    (p.token :: (s.requests.map Request.token ++ rest.map Pass.token)).Perm s.tokens :=
  List.perm_middle.symm.trans (((pick_perm h).map Pass.token).append_left _)

/-- A step that asks for no claim: what is left has its token from before, and a token it ends is of a request it takes out
or of a pass that then says so. -/
theorem Tokens.kept (h : s.Tokens) (htokens : s'.tokens.Subperm s.tokens) (hminted : s'.minted = s.minted)
    (hended : ∀ t ∈ s'.storage.ended, t ∈ s.storage.ended ∨
      t ∈ s.tokens ∧ t ∉ s'.requests.map Request.token ∧ ∀ p ∈ s'.passes, p.token = t → p.ended = some true)
    (hrequests : ∀ r ∈ s'.requests, ∃ r₀ ∈ s.requests, r₀.token = r.token)
    (hpasses : ∀ p ∈ s'.passes, (∃ p₀ ∈ s.passes, p₀.token = p.token ∧ (p₀.ended = some true → p.ended = some true)) ∨
      ∃ r₀ ∈ s.requests, r₀.token = p.token) : s'.Tokens where
  unique := by
    obtain ⟨l, hperm, hsub⟩ := htokens
    exact hperm.nodup_iff.1 (h.unique.sublist hsub)
  minted := by
    intro t ht
    rw [hminted]
    rcases ht with ht | ht
    · exact h.minted t (.inl (htokens.subset ht))
    · rcases hended t ht with ht | ⟨ht, -⟩
      · exact h.minted t (.inr ht)
      · exact h.minted t (.inl ht)
  requests := by
    intro r hr ht
    rcases hended _ ht with ht | ⟨-, hnot, -⟩
    · obtain ⟨r₀, hr₀, htoken⟩ := hrequests r hr
      exact h.requests r₀ hr₀ (htoken ▸ ht)
    · exact hnot (List.mem_map_of_mem hr)
  passes := by
    intro p hp ht
    rcases hended _ ht with ht | ⟨-, -, hsaid⟩
    · rcases hpasses p hp with ⟨p₀, hp₀, htoken, hkept⟩ | ⟨r₀, hr₀, htoken⟩
      · exact hkept (h.passes p₀ hp₀ (htoken ▸ ht))
      · exact absurd (htoken ▸ ht) (h.requests r₀ hr₀)
    · exact hsaid p hp rfl

/-- A request moved on, with its token. -/
theorem Tokens.moved (h : s.Tokens) {i : Nat} {r r' : Request} {rest : List Request} (hp : pick s.requests i = some (r, rest))
    (hrequests : s'.requests = rest ++ [r']) (htoken : r'.token = r.token) (hpasses : s'.passes = s.passes)
    (hminted : s'.minted = s.minted) (hended : s'.storage.ended = s.storage.ended) : s'.Tokens := by
  refine h.kept ?_ hminted (fun t ht => .inl (hended ▸ ht)) ?_ ?_
  · refine List.Perm.subperm (List.Perm.trans ?_ (tokens_of_pick hp))
    unfold tokens
    rw [hrequests, hpasses, List.map_append, List.map_singleton, htoken, List.append_assoc]
    exact List.perm_middle
  · intro r₁ hr₁
    rw [hrequests] at hr₁
    rcases List.mem_append.1 hr₁ with hr₁ | hr₁
    · exact ⟨r₁, mem_of_mem_pick hp hr₁, rfl⟩
    · exact ⟨r, mem_of_pick hp, by rw [List.mem_singleton.1 hr₁, htoken]⟩
  · intro p hp'
    exact .inl ⟨p, hpasses ▸ hp', rfl, fun h => h⟩

/-- A pass that ends, with its token. -/
theorem Tokens.ended (h : s.Tokens) {i : Nat} {p p' : Pass} {rest : List Pass} (hp : pick s.passes i = some (p, rest))
    (hpasses : s'.passes = rest ++ [p']) (htoken : p'.token = p.token) (hkept : p.ended = some true → p'.ended = some true)
    (hrequests : s'.requests = s.requests) (hminted : s'.minted = s.minted)
    (hended : s'.storage.ended = s.storage.ended ∨ s'.storage.ended = p.token :: s.storage.ended ∧ p'.ended = some true) :
    s'.Tokens := by
  have hperm := tokens_of_pick_pass hp
  refine h.kept ?_ hminted ?_ (fun r hr => ⟨r, hrequests ▸ hr, rfl⟩) ?_
  · refine List.Perm.subperm (List.Perm.trans ?_ hperm)
    unfold tokens
    rw [hrequests, hpasses, List.map_append, List.map_singleton, htoken, ← List.append_assoc]
    exact List.perm_append_singleton ..
  · intro t ht
    rcases hended with hended | ⟨hended, hsaid⟩
    · exact .inl (hended ▸ ht)
    · rw [hended] at ht
      rcases List.mem_cons.1 ht with rfl | ht
      · have hfresh := (List.nodup_cons.1 (hperm.nodup_iff.2 h.unique)).1
        refine .inr ⟨hperm.mem_iff.1 (List.mem_cons_self ..), ?_, fun q hq hq' => ?_⟩
        · rw [hrequests]
          exact fun hmem => hfresh (List.mem_append_left _ hmem)
        · rw [hpasses] at hq
          rcases List.mem_append.1 hq with hq | hq
          · exact absurd (List.mem_append_right _ (hq' ▸ List.mem_map_of_mem hq)) hfresh
          · exact List.mem_singleton.1 hq ▸ hsaid
      · exact .inl ht
  · intro q hq
    rw [hpasses] at hq
    rcases List.mem_append.1 hq with hq | hq
    · exact .inl ⟨q, mem_of_mem_pick hp hq, rfl, fun h => h⟩
    · rw [List.mem_singleton.1 hq]
      exact .inl ⟨p, mem_of_pick hp, htoken.symm, hkept⟩

theorem ended_of_claim {st st' : Storage} {id : Nat} {l : Live} {granted : Bool} (h : st.claim id l = (granted, st')) :
    st'.ended = st.ended := by
  unfold Storage.claim at h
  split at h
  · obtain ⟨-, rfl⟩ := Prod.mk.inj h
    rfl
  · obtain ⟨-, rfl⟩ := Prod.mk.inj h
    rfl

theorem Tokens.step (h : s.Tokens) (ht : s.Taken c a s') : s'.Tokens := by
  cases ht with
  | lapse hl =>
    obtain ⟨l, -, -, rfl⟩ := Storage.lapse_eq hl
    exact ⟨h.unique, h.minted, h.requests, h.passes⟩
  | asks node id kind takers _ =>
    have hnew : s.minted ∉ s.tokens := fun hmem => Nat.lt_irrefl _ (h.minted _ (.inl hmem))
    have hperm : (s.minted :: s.tokens).Perm
        ((s.requests ++ [Request.mk node id kind s.minted s.now .asked]).map Request.token ++ s.passes.map Pass.token) := by
      rw [List.map_append, List.map_singleton, List.append_assoc]
      exact List.perm_middle.symm
    refine ⟨hperm.nodup_iff.1 (List.nodup_cons.2 ⟨hnew, h.unique⟩), ?_, ?_, h.passes⟩
    · intro t ht
      rcases ht with ht | ht
      · rcases List.mem_cons.1 (hperm.mem_iff.2 ht) with rfl | ht
        · exact Nat.lt_succ_self _
        · exact Nat.lt_succ_of_lt (h.minted t (.inl ht))
      · exact Nat.lt_succ_of_lt (h.minted t (.inr ht))
    · intro r hr
      rcases List.mem_append.1 hr with hr | hr
      · exact h.requests r hr
      · rw [List.mem_singleton.1 hr]
        exact fun hmem => Nat.lt_irrefl _ (h.minted _ (.inr hmem))
  | grants hp _ hclaim => exact h.moved hp rfl rfl rfl rfl (ended_of_claim hclaim)
  | moving hp _ => exact h.moved hp rfl rfl rfl rfl rfl
  | moves hp _ hkeep =>
    obtain ⟨-, rfl⟩ := Prod.mk.inj hkeep
    exact h.moved hp rfl rfl rfl rfl rfl
  | @owns i r rest journey port queue fence hp hready =>
    refine h.kept ?_ rfl (fun t ht => .inl ht) (fun r₁ hr₁ => ⟨r₁, mem_of_mem_pick hp hr₁, rfl⟩) ?_
    · refine List.Perm.subperm (List.Perm.trans ?_ (tokens_of_pick hp))
      show (rest.map Request.token ++ (s.passes ++ [_]).map Pass.token).Perm _
      rw [List.map_append, List.map_singleton, ← List.append_assoc]
      exact List.perm_append_singleton ..
    · intro p hp'
      rcases List.mem_append.1 hp' with hp' | hp'
      · exact .inl ⟨p, hp', rfl, fun h => h⟩
      · rw [List.mem_singleton.1 hp']
        exact .inr ⟨r, mem_of_pick hp, rfl⟩
  | @gives i reaches r rest hp =>
    have hperm := tokens_of_pick hp
    refine h.kept ((List.sublist_cons_self ..).subperm.trans hperm.subperm) rfl ?_
      (fun r₁ hr₁ => ⟨r₁, mem_of_mem_pick hp hr₁, rfl⟩) (fun p hp' => .inl ⟨p, hp', rfl, fun h => h⟩)
    intro t ht
    have hfresh := (List.nodup_cons.1 (hperm.nodup_iff.2 h.unique)).1
    cases reaches with
    | false => exact .inl ht
    | true =>
      rcases Storage.finish_cases (Prod.eta (s.storage.finish r.id r.token)).symm with ⟨-, -, he⟩ | ⟨-, he⟩
      · have ht : t ∈ (s.storage.finish r.id r.token).2.ended := ht
        rw [he] at ht
        rcases List.mem_cons.1 ht with rfl | ht
        · refine .inr ⟨hperm.mem_iff.1 (List.mem_cons_self ..), fun hmem => hfresh (List.mem_append_left _ hmem), ?_⟩
          intro p hp' hp''
          exact absurd (List.mem_append_right _ (hp'' ▸ List.mem_map_of_mem hp')) hfresh
        · exact .inl ht
      · have ht : t ∈ (s.storage.finish r.id r.token).2.ended := ht
        rw [he] at ht
        exact .inl ht
  | @ends i p rest finished storage hp hfinish =>
    refine h.ended hp rfl rfl (fun he => by simp [he]) rfl rfl ?_
    rcases Storage.finish_cases hfinish with ⟨rfl, -, rfl⟩ | ⟨-, rfl⟩
    · exact .inr ⟨rfl, by simp⟩
    · exact .inl rfl
  | @stops i p rest hp =>
    exact h.ended hp rfl rfl (fun he => by simp [he]) rfl rfl (.inl rfl)
  | @settles i ended p rest hp hended =>
    refine h.kept ((List.sublist_cons_self ..).subperm.trans (tokens_of_pick_pass hp).subperm) rfl (fun t ht => .inl ht)
      (fun r hr => ⟨r, hr, rfl⟩) (fun q hq => .inl ⟨q, mem_of_mem_pick hp hq, rfl, fun h => h⟩)
  | renews _ _ _ hrenew =>
    obtain ⟨-, rfl⟩ := Prod.mk.inj hrenew
    exact ⟨h.unique, h.minted, h.requests, h.passes⟩
  | _ => exact ⟨h.unique, h.minted, h.requests, h.passes⟩

/-! ### Every claim owned -/

/-- Every claim owned is of a pass of the node, and was granted. -/
structure Accountable (s : Sys) : Prop extends Tokens s where
  granted : ∀ r ∈ s.requests, r.stage ≠ .asked → r.stage ≠ .refused → s.storage.Once r.id r.token
  owned : ∀ node id o, (s.steps node).owned.get id = some o → o.claim.journey = id ∧ s.storage.Once id o.claim.token ∧
    ∃ p ∈ s.passes, p.node = node ∧ p.departure.id = id ∧ p.token = o.claim.token
  rounds : ∀ node round, s.rounds node = some round → ∀ claim ∈ round.left, s.storage.Once claim.journey claim.token ∧
    ∀ answer, round.answer = some answer → answerFor answer claim = .lost →
      claim.token ∈ s.storage.lapsed ∨ claim.token ∈ s.storage.ended

/-- A request moved on is granted where it was, or where Xmip Storage granted it. -/
theorem granted_of_moved {i : Nat} {r r' : Request} {rest : List Request} (h : s.Accountable)
    (hgoes : s.storage.Goes s.now s'.storage s'.now) (hp : pick s.requests i = some (r, rest))
    (hr' : r'.stage ≠ .asked → r'.stage ≠ .refused → s'.storage.Once r'.id r'.token) :
    ∀ r₁ ∈ rest ++ [r'], r₁.stage ≠ .asked → r₁.stage ≠ .refused → s'.storage.Once r₁.id r₁.token := by
  intro r₁ hr₁ hasked hrefused
  rcases List.mem_append.1 hr₁ with hr₁ | hr₁
  · exact (h.granted r₁ (mem_of_mem_pick hp hr₁) hasked hrefused).goes hgoes
  · rw [List.mem_singleton.1 hr₁] at hasked hrefused ⊢
    exact hr' hasked hrefused

theorem granted_of_taken (h : s.Accountable) (ht : s.Taken c a s') :
    ∀ r ∈ s'.requests, r.stage ≠ .asked → r.stage ≠ .refused → s'.storage.Once r.id r.token := by
  have hgoes := ht.goes
  have hsame : ∀ r ∈ s.requests, r.stage ≠ .asked → r.stage ≠ .refused → s'.storage.Once r.id r.token :=
    fun r hr hasked hrefused => (h.granted r hr hasked hrefused).goes hgoes
  cases ht with
  | asks node id kind takers _ =>
    intro r hr hasked hrefused
    rcases List.mem_append.1 hr with hr | hr
    · exact hsame r hr hasked hrefused
    · rw [List.mem_singleton.1 hr] at hasked
      exact absurd rfl hasked
  | @grants i r rest granted storage hp hstage hclaim =>
    refine granted_of_moved h hgoes hp fun _ hrefused => .inl ?_
    unfold Storage.claim at hclaim
    split at hclaim
    · obtain ⟨-, rfl⟩ := Prod.mk.inj hclaim
      exact ⟨_, Table.get_put_self .., rfl⟩
    · obtain ⟨rfl, -⟩ := Prod.mk.inj hclaim
      exact absurd rfl hrefused
  | @moving i r rest hp hstage =>
    refine granted_of_moved h hgoes hp fun _ _ => ?_
    exact hsame r (mem_of_pick hp) (by simp [hstage]) (by simp [hstage])
  | @moves i r rest moved storage hp hstage hkeep =>
    refine granted_of_moved h hgoes hp fun _ _ => ?_
    exact hsame r (mem_of_pick hp) (by simp [hstage]) (by simp [hstage])
  | owns hp hready => exact fun r hr => hsame r (mem_of_mem_pick hp hr)
  | gives hp => exact fun r hr => hsame r (mem_of_mem_pick hp hr)
  | _ => exact hsame

/-- What is ready to be owned was granted. -/
theorem once_of_ready (h : s.Accountable) {r : Request} (hr : r ∈ s.requests) (hready : r.ready = true) :
    s.storage.Once r.id r.token := by
  unfold Request.ready at hready
  refine h.granted r hr ?_ ?_ <;> intro hstage <;> simp only [hstage] at hready <;> split at hready <;> simp at hready

theorem owned_of_taken (h : s.Accountable) (ht : s.Taken c a s') :
    ∀ node id o, (s'.steps node).owned.get id = some o → o.claim.journey = id ∧ s'.storage.Once id o.claim.token ∧
      ∃ p ∈ s'.passes, p.node = node ∧ p.departure.id = id ∧ p.token = o.claim.token := by
  intro node id o' ho'
  have hsame : ∀ o, (s.steps node).owned.get id = some o →
      (∀ i ended p rest, a = .settles i ended → pick s.passes i = some (p, rest) → p.node = node → p.departure.id ≠ id) →
      o.claim.journey = id ∧ s'.storage.Once id o.claim.token ∧
        ∃ p ∈ s'.passes, p.node = node ∧ p.departure.id = id ∧ p.token = o.claim.token := by
    intro o ho hsettled
    obtain ⟨hjourney, honce, p, hp, hnode, hid, htoken⟩ := h.owned node id o ho
    refine ⟨hjourney, honce.goes ht.goes, ?_⟩
    rcases ht.pass_stays hp with ⟨q, hq, hqnode, hqdeparture⟩ | ⟨i, ended, rest, ha, hpick⟩
    · exact ⟨q, hq, hqnode.trans hnode, by rw [hqdeparture, hid], by rw [Pass.token, hqdeparture]; exact htoken⟩
    · exact absurd hid (hsettled i ended p rest ha hpick hnode)
  cases ht.entered ho' with
  | kept ho hsettled => exact hsame o' ho hsettled
  | @renewed o round asked answer claim left ho hround hasked hanswer hleft hid htoken ha =>
    obtain ⟨hjourney, honce, hpass⟩ := hsame o ho (by simp [ha])
    obtain ⟨htoken', hjourney'⟩ := @renewed_claim o claim (c node).lease asked s.now answer htoken
    rw [htoken']
    exact ⟨(hjourney' (hjourney.trans hid)).trans hjourney, honce, hpass⟩
  | @owned i r rest journey port queue fence ha hp hready hnode hid =>
    subst hid hnode ha
    refine ⟨rfl, (once_of_ready h (mem_of_pick hp) hready).goes ht.goes, ?_⟩
    cases ht with
    | asks _ _ _ _ ha => simp at ha
    | owns hp' _ =>
      obtain ⟨rfl, rfl⟩ := Prod.mk.inj (Option.some.inj (hp.symm.trans hp'))
      exact ⟨_, List.mem_append_right _ (List.mem_singleton_self _), rfl, rfl, rfl⟩

/-- A claim a renewal is answered nothing for is not live. -/
theorem not_held_of_lost {st st' : Storage} {claims held : List Claim} {t : Nat} (h : st.renew claims t = (held, st'))
    {claim : Claim} (hmem : claim ∈ claims) (hlost : answerFor (some held) claim = .lost) :
    ¬ st.Held claim.journey claim.token := by
  intro hheld
  obtain ⟨rfl, -⟩ := Prod.mk.inj h
  have hfound : (heldAs (claims.filter fun claim => st.Held claim.journey claim.token) claim).isSome = true := by
    unfold heldAs
    rw [List.find?_isSome]
    exact ⟨claim, List.mem_filter.2 ⟨hmem, by simpa using hheld⟩, by simp⟩
  obtain ⟨kept, hkept⟩ := Option.isSome_iff_exists.1 hfound
  simp [answerFor, hkept] at hlost

theorem round_of_update {rounds : Nat → Option Round} {node node' : Nat} {r : Option Round} {round : Round}
    (h : Function.update rounds node r node' = some round) :
    (node = node' ∧ r = some round) ∨ rounds node' = some round := by
  rw [Function.update_apply] at h
  split at h
  · rename_i hnode
    exact .inl ⟨hnode.symm, h⟩
  · exact .inr h

theorem rounds_of_taken (h : s.Accountable) (ht : s.Taken c a s') :
    ∀ node round, s'.rounds node = some round → ∀ claim ∈ round.left, s'.storage.Once claim.journey claim.token ∧
      ∀ answer, round.answer = some answer → answerFor answer claim = .lost →
        claim.token ∈ s'.storage.lapsed ∨ claim.token ∈ s'.storage.ended := by
  have hgoes := ht.goes
  have hsame : ∀ node round, s.rounds node = some round → ∀ claim ∈ round.left,
      s'.storage.Once claim.journey claim.token ∧ ∀ answer, round.answer = some answer → answerFor answer claim = .lost →
        claim.token ∈ s'.storage.lapsed ∨ claim.token ∈ s'.storage.ended := by
    intro node round hround claim hclaim
    obtain ⟨honce, hlost⟩ := h.rounds node round hround claim hclaim
    refine ⟨honce.goes hgoes, fun answer hanswer hr => ?_⟩
    exact (hlost answer hanswer hr).imp (hgoes.lapsed _) (hgoes.ended _)
  cases ht with
  | @clones node hnone =>
    intro node' round' hround'
    rcases round_of_update hround' with ⟨rfl, he⟩ | hround'
    · obtain rfl := Option.some.inj he
      intro claim hclaim
      obtain ⟨x, hx, rfl⟩ := List.mem_map.1 hclaim
      obtain ⟨hjourney, honce, -⟩ := h.owned node x.1 x.2 (Table.mem_iff_get.1 (List.mem_filter.1 hx).1)
      exact ⟨hjourney ▸ honce, by simp⟩
    · exact hsame node' round' hround'
  | @round node round hround hanswer =>
    intro node' round' hround'
    rcases round_of_update hround' with ⟨rfl, he⟩ | hround'
    · obtain rfl := Option.some.inj he
      exact hsame node round hround
    · exact hsame node' round' hround'
  | @renews node arrives round held storage hround hasked hanswer hrenew =>
    intro node' round' hround'
    rcases round_of_update hround' with ⟨rfl, he⟩ | hround'
    · obtain rfl := Option.some.inj he
      intro claim hclaim
      have honce := (h.rounds node round hround claim hclaim).1
      refine ⟨honce.goes hgoes, fun answer hanswer' hlost => ?_⟩
      obtain rfl := Option.some.inj hanswer'
      cases arrives with
      | false => cases hlost
      | true =>
        rcases honce with hlive | hover
        · exact absurd (Storage.held_iff.2 hlive) (not_held_of_lost hrenew hclaim hlost)
        · exact hover.imp (hgoes.lapsed _) (hgoes.ended _)
    · exact hsame node' round' hround'
  | @unanswered node round hround hanswer =>
    intro node' round' hround'
    rcases round_of_update hround' with ⟨rfl, he⟩ | hround'
    · obtain rfl := Option.some.inj he
      intro claim hclaim
      refine ⟨(hsame node round hround claim hclaim).1, fun answer hanswer' hlost => ?_⟩
      obtain rfl := Option.some.inj hanswer'
      cases hlost
    · exact hsame node' round' hround'
  | applied =>
    intro node' round' hround'
    rcases round_of_update hround' with ⟨rfl, he⟩ | hround'
    · cases he
    · exact hsame node' round' hround'
  | @applies node round asked answer claim left hround hasked hanswer hleft =>
    intro node' round' hround'
    rcases round_of_update hround' with ⟨rfl, he⟩ | hround'
    · obtain rfl := Option.some.inj he
      intro claim' hclaim'
      exact hsame node round hround claim' (hleft ▸ List.mem_cons_of_mem _ hclaim')
    · exact hsame node' round' hround'
  | _ => exact hsame

theorem Accountable.step (h : s.Accountable) (ht : s.Taken c a s') : s'.Accountable :=
  { h.toTokens.step ht with
    granted := granted_of_taken h ht
    owned := owned_of_taken h ht
    rounds := rounds_of_taken h ht }

theorem accountable_of_starts (h : s.Starts) : s.Accountable := by
  obtain ⟨served, rfl⟩ := h
  refine ⟨⟨List.nodup_nil, by simp [starting, tokens], by simp [starting], by simp [starting]⟩, by simp [starting],
    by simp [starting, State.starting], by simp [starting]⟩

/-! ### Marked lost -/

/-- No answer is kept for a claim that its own pass's hand-on or release ended and that is not yet settled. -/
def Outside (s : Sys) : Action → Prop
  | .applies node => ((s.rounds node).all fun round => round.left.head?.all fun claim =>
      s.passes.all fun p => decide (p.token = claim.token → p.ended ≠ some true)) = true
  | _ => True

instance (s : Sys) : (a : Action) → Decidable (s.Outside a)
  | .applies node => inferInstanceAs (Decidable ((s.rounds node).all _ = true))
  | .tick | .lapse _ | .read .. | .asks _ | .begins .. | .grants _ | .moving _ | .moves _ | .owns .. | .gives .. | .ends ..
  | .settles .. | .clones _ | .round _ | .renews .. | .unanswered _ => inferInstanceAs (Decidable True)

/-- A claim is marked another's only where its lease was over. -/
def Truthful (s : Sys) : Prop := ∀ t ∈ s.marked, t ∈ s.storage.lapsed

theorem marked_of_taken (ht : s.Taken c a s') : s'.marked = s.marked ∨ ∃ node round answer claim left,
    a = .applies node ∧ s.rounds node = some round ∧ round.answer = some answer ∧ round.left = claim :: left ∧
      marks (s.steps node) claim (answerFor answer claim) = true ∧ s'.marked = claim.token :: s.marked := by
  cases ht with
  | @applies node round asked answer claim left hround hasked hanswer hleft =>
    by_cases hmarks : marks (s.steps node) claim (answerFor answer claim) = true
    · exact .inr ⟨node, round, answer, claim, left, rfl, hround, hanswer, hleft, hmarks, if_pos hmarks⟩
    · exact .inl (if_neg hmarks)
  | _ => exact .inl rfl

/-- A claim marked was granted and is not live: its lease was over, or its pass ended it and is not settled. -/
theorem lapsed_of_marks (h : s.Accountable) {node : Nat} {round : Round} {answer : Option (List Claim)} {claim : Claim}
    {left : List Claim} (hround : s.rounds node = some round) (hanswer : round.answer = some answer)
    (hleft : round.left = claim :: left) (hmarks : marks (s.steps node) claim (answerFor answer claim) = true)
    (houtside : ∀ p ∈ s.passes, p.token = claim.token → p.ended ≠ some true) : claim.token ∈ s.storage.lapsed := by
  simp only [marks, Bool.and_eq_true, decide_eq_true_eq, Option.any_eq_true] at hmarks
  obtain ⟨hlost, o, ho, htoken, -⟩ := hmarks
  obtain ⟨-, -, p, hp, -, -, hptoken⟩ := h.owned node claim.journey o ho
  have hclaim : claim ∈ round.left := by rw [hleft]; exact List.mem_cons_self ..
  rcases (h.rounds node round hround claim hclaim).2 answer hanswer hlost with hlapsed | hended
  · exact hlapsed
  · have htokens : p.token = claim.token := hptoken.trans htoken
    exact absurd (h.passes p hp (htokens ▸ hended)) (houtside p hp htokens)

/-- In every run that keeps its renewals' answers outside of a pass's last write and its settling, a claim is marked
another's only where its lease was over. -/
theorem truthful_of_reach (h : Reach (step c) Outside Starts s) : s.Truthful := by
  have hboth : s.Accountable ∧ s.Truthful := by
    refine @Reach.invariant _ _ _ _ _ (fun s => s.Accountable ∧ s.Truthful)
      (fun s hs => ⟨accountable_of_starts hs, ?_⟩) (fun s a s' hinv hok hs => ?_) s h
    · obtain ⟨served, rfl⟩ := hs
      exact fun t ht => absurd ht List.not_mem_nil
    · obtain ⟨hacc, htrue⟩ := hinv
      have ht := taken_of_step hs
      refine ⟨hacc.step ht, fun t hmem => ?_⟩
      rcases marked_of_taken ht with he | ⟨node, round, answer, claim, left, rfl, hround, hanswer, hleft, hmarks, he⟩
      · exact ht.goes.lapsed t (htrue t (he ▸ hmem))
      · rw [he] at hmem
        rcases List.mem_cons.1 hmem with rfl | hmem
        · have houtside : ∀ p ∈ s.passes, p.token = claim.token → p.ended ≠ some true := by
            simpa [Outside, hround, hleft, imp_iff_not_or] using hok
          exact ht.goes.lapsed _ (lapsed_of_marks hacc hround hanswer hleft hmarks houtside)
        · exact ht.goes.lapsed t (htrue t hmem)
  exact hboth.2

/-- Nodes with a lease of two, sending from one queue. -/
private def sending (node : Nat) : Settings := ⟨node, 8, 2, fun _ => 0, fun _ => true, fun _ => false⟩

/-- A Journey bound for a Send Port, as the scan reads it. -/
private def bound : Ledger.Journey := ⟨.active, none, [], none, some "orders", none, 0, []⟩

/-- Claimed by a scan and owned, and a round of renewals begun. -/
private def claimed : List Action :=
  [.read 0 7 0 0, .asks 0, .grants 0, .owns 0 bound "orders" 0 0, .clones 0, .round 0]

theorem truthful_of_lapse : ∃ s, s.marked = [0] ∧ Reach (step sending) Outside Starts s ∧ s.Truthful := by
  obtain ⟨s, hs, hp⟩ := Reach.exists_of_runWhere (step sending) Outside (show Starts (starting fun _ => [0]) from ⟨_, rfl⟩)
    (List.flatten [claimed, [.tick, .tick, .lapse 7, .renews 0 true, .applies 0]]) (fun s => s.marked = [0])
    (by decide +kernel)
  exact ⟨s, of_decide_eq_true hp, hs, truthful_of_reach hs⟩

/-- A pass's hand-on ends its claim, the round begun before it is answered no claim, and the answer is kept before the pass
is settled: marked another's, where nobody else ever had it. -/
theorem marked_by_own_handOn : ∃ s, Reach (step sending) Always Starts s ∧ ¬ s.Truthful := by
  obtain ⟨s, hs, hp⟩ := Reach.exists_of_runWhere (step sending) Always (show Starts (starting fun _ => [0]) from ⟨_, rfl⟩)
    (List.flatten [claimed, [.ends 0 true, .renews 0 true, .applies 0]]) (fun s => s.marked = [0] ∧ s.storage.lapsed = [])
    (by decide +kernel)
  obtain ⟨hmarked, hlapsed⟩ := of_decide_eq_true hp
  refine ⟨s, hs, fun htrue => ?_⟩
  have hmem := htrue 0 (by simp [hmarked])
  rw [hlapsed] at hmem
  cases hmem

end Sys

end Claiming
