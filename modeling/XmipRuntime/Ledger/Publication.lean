import XmipRuntime.Pickup.Cases
import XmipRuntime.SendStep.State

/-!
# A Publication's one write

What a Publication opens, holds, lines up and claims, and what it does once Xmip Storage answers
(`src/ledger/publication.rs`, `src/message_path.rs`): three passes over the Journeys it opens — the pickup's decision,
the admission to the Send pool and the building of the write — that agree Journey by Journey, and whose effects in
memory the refusal of the write undoes.  Each pass is one hold of a lock of its own, so each is said of whatever state
it finds; other threads may have been at it since the pass before.

A sequence's places are in the same write, in queues of their own.
-/

namespace Publication

open Library Ledger SendStep

/-! ### What it opens -/

/-- How routing answered for one Subscription. -/
structure Evaluation where
  subscription : String
  destination : String
  matched : Bool

/-- A Journey a Publication opens: the Subscription that matched and where the Message leads on it. -/
structure Opened where
  id : Nat
  journey : Journey
  subscription : String
  leads : String
  deriving DecidableEq

/-- Where the Messages the Subscription `name` matches lead, one Journey each: every Send Port it reaches, or, where it
reaches none, `destination` itself. -/
def reaches (ports : String → List String) (name destination : String) : List String :=
  if (ports name).isEmpty then [destination] else ports name

/-- A Journey for every Subscription matched and every Send Port it reaches, in the order they were asked, its
identifier minted by `ids`. -/
def opened (ports : String → List String) (evaluations : List Evaluation) (ids : Nat → Nat)
    (record : Nat → String → String → Journey) : List Opened :=
  let matched := evaluations.filter fun e => e.matched
  let led := matched.flatMap fun e =>
    (reaches ports e.subscription e.destination).map fun leads => (e.subscription, leads)
  led.zipIdx.map fun x => ⟨ids x.2, record (ids x.2) x.1.1 x.1.2, x.1.1, x.1.2⟩

/-- What the pickup reads of it. -/
def Opened.matched (one : Opened) : Pickup.Opened := ⟨one.id, one.subscription⟩

/-! ### What it writes -/

/-- The one write: the Journeys, the places they take, the claims, or the Dead Message Queue entry's body. -/
structure Write where
  journeys : List (Nat × Journey)
  held : List Pickup.Hold
  claims : List Claim
  dead : Option (List UInt8)

/-- A Publication as it asks Xmip Storage. -/
structure Prepared where
  holding : Pickup.Holding
  lined : LinedUp
  write : Write

/-- Of the Journeys `opened`, those whose Message no Subscription holds, each with where it leads. -/
def departing (holding : Pickup.Holding) (opened : List Opened) : List (Nat × String) :=
  let held (name : String) := holding.held.any fun x => x.2 == name
  (opened.filter fun one => !held one.subscription).map fun one => (one.id, one.leads)

variable (c : Settings)

/-- What a Publication asks Xmip Storage for, and the send step once its places are admitted: held where `pickup` says a
Subscription holds it, else lined up, with the `places` of its sequences; or, where nothing matched, kept in the Dead
Message Queue. -/
def prepare (pickup : Pickup.State) (send : State) (opened : List Opened) (body : List UInt8)
    (places : List Pickup.Hold) (mint : Nat → Nat) (now : Nat) : Prepared × State :=
  if opened.isEmpty then (⟨.none, ⟨[], [], [], 0, none⟩, ⟨[], [], [], some body⟩⟩, send)
  else
    let holding := pickup.held (opened.map Opened.matched) body false
    let lined := send.lineUp c (departing holding opened) mint now
    let held := holding.holds ++ lined.1.holds.map (fun h => ⟨h.queue, h.journey, body⟩) ++ places
    (⟨holding, lined.1, ⟨opened.map fun one => (one.id, one.journey), held, lined.1.claims, none⟩⟩, lined.2)

/-- What Xmip Storage answers a Publication: refused, or taken, with the claims it says this node holds. -/
inductive Answer where
  | refused
  | taken (holds : List Claim)

/-- What the answer does to the send step: the places of a refused Publication given back; of one taken the places of
the claims this node does not hold, and the rest handed to the Send pool. -/
def Prepared.answered (p : Prepared) (send : State) (now : Nat) : Answer → State
  | .refused => send.withdraw p.lined.admitted
  | .taken holds =>
    let confirmed := p.lined.confirmed holds
    let send := send.withdraw confirmed.2
    if p.write.journeys.isEmpty then send.withdraw confirmed.1.admitted
    else send.handing c confirmed.1 p.write.journeys now

/-- What the pickup counts of it: what it picked up and holds, once it was taken and is durable. -/
def Prepared.counted (p : Prepared) (pickup : Pickup.State) (durable : Bool) : Answer → Pickup.State
  | .refused => pickup
  | .taken _ => if durable then pickup.published p.holding else pickup

/-! ### What is claimed of it -/

/-- The queue of the Subscription `name`, where this node is configured with it. -/
def queueOf (pickup : Pickup.State) (name : String) : Option Nat :=
  (pickup.index name).bind fun i => pickup[i]?.map Pickup.Entry.queue

/-- How often `held` keeps the Journey `id` in the queue `q`. -/
def timesIn (held : List Pickup.Hold) (q : Option Nat) (id : Nat) : Nat :=
  held.countP fun h => decide (some h.queue = q ∧ h.journey = id)

/-- The queues are told apart: a Subscription's, a destination's and a sequence's are named by URIs of three kinds. -/
structure Apart (pickup : Pickup.State) (opened : List Opened) (places : List Pickup.Hold) : Prop where
  destination : ∀ one ∈ opened, queueOf pickup one.subscription ≠ some (c.queue one.leads)
  places : ∀ h ∈ places, ∀ one ∈ opened, some h.queue ≠ queueOf pickup one.subscription ∧ h.queue ≠ c.queue one.leads

/-- A Publication partitions its Journeys. -/
structure Partitions (pickup : Pickup.State) (send : State) (opened : List Opened) (body : List UInt8)
    (places : List Pickup.Hold) (mint : Nat → Nat) (now : Nat) : Prop where
  /-- Each is written into exactly one of its Subscription's queue and its destination's. -/
  once : ∀ one ∈ opened,
    let held := (prepare c pickup send opened body places mint now).1.write.held
    timesIn held (queueOf pickup one.subscription) one.id + timesIn held (some (c.queue one.leads)) one.id = 1
  /-- None is claimed twice. -/
  claims : ((prepare c pickup send opened body places mint now).1.write.claims.map Claim.journey).Nodup
  /-- Each claimed is lined up for a destination this node serves that is not sequential. -/
  here : ∀ claim ∈ (prepare c pickup send opened body places mint now).1.write.claims, ∃ one ∈ opened,
    one.id = claim.journey ∧ c.serves one.leads = true ∧ c.sequential one.leads = false ∧
      timesIn (prepare c pickup send opened body places mint now).1.write.held (some (c.queue one.leads)) one.id = 1
  /-- A place was admitted for each, and for no more than there was room for. -/
  admitted : (prepare c pickup send opened body places mint now).2.admitted =
      send.admitted + (prepare c pickup send opened body places mint now).1.write.claims.length ∧
    (prepare c pickup send opened body places mint now).1.write.claims.length ≤ send.room c
  /-- Taken, exactly the claims Xmip Storage says this node holds are handed to the pool and owned, and no place
  admitted for it is left. -/
  taken : ∀ send' holds now', ∃ handed,
    let p := (prepare c pickup send opened body places mint now).1
    (p.answered c send' now' (.taken holds)).handed = send'.handed ++ handed ∧
      handed.map Departure.claim = p.write.claims.filterMap (heldAs holds) ∧
      (∀ d ∈ handed, (p.answered c send' now' (.taken holds)).owned.get d.id = some (.of d)) ∧
      ∀ others, send'.admitted = others + p.write.claims.length →
        (p.answered c send' now' (.taken holds)).admitted = others
  /-- Refused, nothing of it is counted, owned or handed, and no place admitted for it is left. -/
  refused : ∀ pickup' send' now' durable,
    let p := (prepare c pickup send opened body places mint now).1
    p.counted pickup' durable .refused = pickup' ∧ (p.answered c send' now' .refused).owned = send'.owned ∧
      (p.answered c send' now' .refused).handed = send'.handed ∧
      ∀ others, send'.admitted = others + p.write.claims.length → (p.answered c send' now' .refused).admitted = others

/-! ### Counting a Journey's places -/

/-- What one element contributes, where nothing else has its key. -/
private theorem countP_filterMap {α β : Type} (key : α → Nat) {l : List α} (hnd : (l.map key).Nodup) (f : α → Option β)
    (P : β → Bool) {a : α} (ha : a ∈ l) (hP : ∀ b ∈ l, ∀ y, f b = some y → P y = true → key b = key a) :
    (l.filterMap f).countP P = if (f a).any P then 1 else 0 := by
  have hnone : ∀ l : List α, (∀ b ∈ l, ∀ y, f b = some y → P y = false) → (l.filterMap f).countP P = 0 := by
    intro l hl
    rw [List.countP_eq_zero]
    intro y hy
    obtain ⟨b, hb, hfb⟩ := List.mem_filterMap.1 hy
    simp [hl b hb y hfb]
  induction l with
  | nil => cases ha
  | cons b l ih =>
    rw [List.map_cons, List.nodup_cons] at hnd
    have hcons : ((b :: l).filterMap f).countP P = (if (f b).any P then 1 else 0) + (l.filterMap f).countP P := by
      rcases hb : f b with _ | y
      · simp [hb]
      · simp [hb, List.countP_cons, Nat.add_comm]
    rw [hcons]
    rcases List.mem_cons.1 ha with rfl | ha
    · -- the rest have other keys
      rw [hnone l, Nat.add_zero]
      intro d hd y hy
      by_contra hPy
      have := hP d (List.mem_cons_of_mem _ hd) y hy (by simpa using hPy)
      exact hnd.1 (this ▸ List.mem_map_of_mem hd)
    · rw [ih hnd.2 ha fun d hd => hP d (List.mem_cons_of_mem _ hd)]
      have hzero : (f b).any P = false := by
        rcases hb : f b with _ | y
        · rfl
        · by_contra hPy
          have := hP b (List.mem_cons_self ..) y hb (by simpa using hPy)
          exact hnd.1 (this ▸ List.mem_map_of_mem ha)
      simp [hzero]

private theorem map_filter_eq {α β : Type} (p : α → Bool) (f : α → β) (l : List α) :
    (l.filter p).map f = l.filterMap fun a => if p a then some (f a) else none := by
  induction l with
  | nil => rfl
  | cons a l ih =>
    rw [List.filter_cons, List.filterMap_cons]
    by_cases ha : p a = true
    · simp [ha, ih]
    · simp [ha, ih]

theorem queueOf_of_holder {pickup : Pickup.State} {every : Bool} {name : String} {i : Nat} {e : Pickup.Entry}
    (h : pickup.holder every name = some (i, e)) : queueOf pickup name = some e.queue := by
  unfold Pickup.State.holder at h
  obtain ⟨j, hj, h⟩ := Option.bind_eq_some_iff.1 h
  obtain ⟨d, hd, h⟩ := Option.bind_eq_some_iff.1 h
  split at h
  · cases h
  · cases h
    simp [queueOf, hj, hd]

/-- What departs is what no entry holds, with where it leads. -/
theorem departing_eq (pickup : Pickup.State) (opened : List Opened) (body : List UInt8) :
    departing (pickup.held (opened.map Opened.matched) body false) opened = opened.filterMap fun one =>
      if (pickup.holder false one.subscription).isNone then some (one.id, one.leads) else none := by
  have hheld : ∀ one ∈ opened, ((pickup.held (opened.map Opened.matched) body false).held.any fun x =>
      x.2 == one.subscription) = (pickup.holder false one.subscription).isSome := by
    intro one hone
    rw [(Pickup.held_eq ..).2, Bool.eq_iff_iff]
    simp only [List.any_eq_true, List.mem_filterMap, List.mem_map, beq_iff_eq]
    constructor
    · rintro ⟨x, ⟨o, ⟨other, -, rfl⟩, hx⟩, heq⟩
      obtain ⟨y, hy, rfl⟩ := Option.map_eq_some_iff.1 hx
      change pickup.holder false other.subscription = some y at hy
      change other.subscription = one.subscription at heq
      rw [← heq, hy]
      rfl
    · intro hsome
      obtain ⟨y, hy⟩ := Option.isSome_iff_exists.1 hsome
      exact ⟨(y.1, one.subscription), ⟨one.matched, ⟨one, hone, rfl⟩, by simp [Opened.matched, hy]⟩, rfl⟩
  have hfilter : (opened.filter fun one => !(pickup.held (opened.map Opened.matched) body false).held.any fun x =>
      x.2 == one.subscription) = opened.filter fun one => (pickup.holder false one.subscription).isNone := by
    refine List.filter_congr fun one hone => ?_
    rw [hheld one hone]
    cases pickup.holder false one.subscription <;> rfl
  show (opened.filter _).map _ = _
  rw [hfilter, map_filter_eq]

/-- The write's three parts, each a pass over the Journeys opened but the last. -/
theorem held_prepare {pickup : Pickup.State} {send : State} {opened : List Opened} {body : List UInt8}
    {places : List Pickup.Hold} {mint : Nat → Nat} {now : Nat} (hopened : opened ≠ []) :
    (prepare c pickup send opened body places mint now).1.write.held =
      opened.filterMap (fun one =>
        (pickup.holder false one.subscription).map fun x => ⟨x.2.queue, one.id, body⟩) ++
      opened.filterMap (fun one => if (pickup.holder false one.subscription).isNone then
        some ⟨c.queue one.leads, one.id, body⟩ else none) ++ places := by
  have hne : opened.isEmpty = false := by simpa using hopened
  simp only [prepare, hne, Bool.false_eq_true, if_false]
  rw [(Pickup.held_eq ..).1, List.filterMap_map]
  simp only [State.lineUp, List.map_map]
  rw [departing_eq, List.map_filterMap]
  congr 2
  refine List.filterMap_congr fun one _ => ?_
  split <;> rfl

section Partition

variable {c} {pickup : Pickup.State} {opened : List Opened} {places : List Pickup.Hold}

/-- Whether a Journey is in its Subscription's queue, and whether it is in its destination's: the one just where the
other is not. -/
theorem timesIn_prepare (hids : (opened.map Opened.id).Nodup) (hapart : Apart c pickup opened places) {one : Opened}
    (hone : one ∈ opened) (send : State) (body : List UInt8) (mint : Nat → Nat) (now : Nat) :
    let held := (prepare c pickup send opened body places mint now).1.write.held
    timesIn held (queueOf pickup one.subscription) one.id =
        (if (pickup.holder false one.subscription).isSome then 1 else 0) ∧
      timesIn held (some (c.queue one.leads)) one.id =
        if (pickup.holder false one.subscription).isSome then 0 else 1 := by
  simp only
  have hne : opened ≠ [] := by
    rintro rfl
    cases hone
  have hdest := hapart.destination one hone
  have hplaces : ∀ q, q = queueOf pickup one.subscription ∨ q = some (c.queue one.leads) →
      places.countP (fun h => decide (some h.queue = q ∧ h.journey = one.id)) = 0 := by
    intro q hq
    rw [List.countP_eq_zero]
    intro h hh
    obtain ⟨h₁, h₂⟩ := hapart.places h hh one hone
    simp only [decide_eq_true_eq, not_and]
    intro heq
    rcases hq with rfl | rfl
    · exact absurd heq h₁
    · exact absurd (Option.some.inj heq) h₂
  -- a hold's Journey says which Journey opened it is of
  have hsame : ∀ {b : Opened} {h : Pickup.Hold} {q : Option Nat}, h.journey = b.id →
      decide (some h.queue = q ∧ h.journey = one.id) = true → b.id = one.id := by
    intro b h q hj hP
    simp only [decide_eq_true_eq] at hP
    exact hj.symm.trans hP.2
  rw [held_prepare c hne]
  unfold timesIn
  simp only [List.countP_append]
  rw [hplaces _ (.inl rfl), hplaces _ (.inr rfl)]
  rw [countP_filterMap Opened.id hids _ _ hone, countP_filterMap Opened.id hids _ _ hone,
    countP_filterMap Opened.id hids _ _ hone, countP_filterMap Opened.id hids _ _ hone]
  · rcases hh : pickup.holder false one.subscription with _ | ⟨i, e⟩
    · have hdest' : ¬ some (c.queue one.leads) = queueOf pickup one.subscription := fun h => hdest h.symm
      simp [hdest']
    · have hq := queueOf_of_holder hh
      rw [hq] at hdest
      have hdest' : ¬ e.queue = c.queue one.leads := fun h => hdest (congrArg some h)
      simp [hq, hdest']
  all_goals
    intro b _ y hy hP
    first
      | (obtain ⟨x, -, rfl⟩ := Option.map_eq_some_iff.1 hy
         exact hsame rfl hP)
      | (split at hy
         · exact hsame (Option.some.inj hy ▸ rfl) hP
         · cases hy)

/-! ### Its claims -/

variable {send : State} {body : List UInt8} {mint : Nat → Nat} {now : Nat}

/-- What a Publication claims and the places it was admitted: one for each, where there was room. -/
theorem claims_prepare (pickup : Pickup.State) (opened : List Opened) (places : List Pickup.Hold) (send : State)
    (body : List UInt8) (mint : Nat → Nat) (now : Nat) :
    let p := prepare c pickup send opened body places mint now
    p.1.write.claims = p.1.lined.claimed.map Claimed.claim ∧ p.1.lined.admitted = p.1.write.claims.length ∧
      p.2.admitted = send.admitted + p.1.write.claims.length ∧ p.1.write.claims.length ≤ send.room c := by
  by_cases hempty : opened.isEmpty = true
  · simp [prepare, hempty]
  · have hlen := lineUp_claimed c send
      (departing (pickup.held (opened.map Opened.matched) body false) opened) mint now
    simp only [prepare, hempty, Bool.false_eq_true, if_false]
    have hclaims : (send.lineUp c (departing (pickup.held (opened.map Opened.matched) body false) opened) mint
        now).1.claims = (send.lineUp c (departing (pickup.held (opened.map Opened.matched) body false) opened) mint
        now).1.claimed.map Claimed.claim := rfl
    rw [hclaims, List.length_map, hlen]
    exact ⟨rfl, rfl, rfl, Nat.min_le_right ..⟩

/-- Each Message claimed is of a Journey opened that no Subscription holds, led where this node sends. -/
theorem mem_claimed {one : Claimed} (h : one ∈ (prepare c pickup send opened body places mint now).1.lined.claimed) :
    one.claim.journey = one.journey ∧ ∃ o ∈ opened, o.id = one.journey ∧
      pickup.holder false o.subscription = none ∧ c.sentHere o.leads = true := by
  by_cases hempty : opened.isEmpty = true
  · simp [prepare, hempty] at h
  · simp only [prepare, hempty, Bool.false_eq_true, if_false] at h
    obtain ⟨hmem, hsent, hclaim⟩ := mem_linedClaims c h
    refine ⟨hclaim, ?_⟩
    rw [departing_eq, List.mem_filterMap] at hmem
    obtain ⟨o, ho, hsome⟩ := hmem
    split at hsome
    · rename_i hnone
      obtain ⟨hid, hleads⟩ := Prod.mk.inj (Option.some.inj hsome)
      exact ⟨o, ho, hid, by simpa using hnone, hleads ▸ hsent⟩
    · cases hsome

theorem nodup_claimed (hids : (opened.map Opened.id).Nodup) :
    ((prepare c pickup send opened body places mint now).1.lined.claimed.map Claimed.journey).Nodup := by
  by_cases hempty : opened.isEmpty = true
  · simp [prepare, hempty]
  · simp only [prepare, hempty, Bool.false_eq_true, if_false]
    refine List.Nodup.sublist (linedClaims_sublist c mint _ _) ?_
    refine List.Nodup.sublist ?_ hids
    rw [departing, List.map_map]
    exact List.filter_sublist.map _

/-! ### What the answer does -/

/-- What is confirmed is what Xmip Storage says this node holds, Journey by Journey. -/
private theorem confirmed_claimed (lined : LinedUp) (holds : List Claim) :
    (lined.confirmed holds).1.claimed.map Claimed.claim = (lined.claimed.map Claimed.claim).filterMap (heldAs holds) ∧
      ((lined.confirmed holds).1.claimed.map Claimed.journey).Sublist (lined.claimed.map Claimed.journey) := by
  simp only [LinedUp.confirmed]
  generalize lined.claimed = claimed
  induction claimed with
  | nil => exact ⟨rfl, List.Sublist.refl _⟩
  | cons one claimed ih =>
    rcases hh : heldAs holds one.claim with _ | kept
    · simp only [List.filterMap_cons, hh, Option.map_none, List.map_cons]
      exact ⟨ih.1, ih.2.cons _⟩
    · simp only [List.filterMap_cons, hh, Option.map_some, List.map_cons]
      exact ⟨congrArg _ ih.1, ih.2.cons_cons _⟩

private theorem withdrawn_handed (s : State) (n : Nat) : (s.withdraw n).handed = s.handed := by
  unfold State.withdraw
  split <;> rfl

/-- A Publication taken, where each Message it claimed is of a Journey of its own among those it wrote, and it was
admitted a place for each: what is confirmed goes to the pool, and no place is left. -/
theorem answered_taken {p : Prepared} (hjourneys : p.write.journeys ≠ [])
    (hclaims : p.write.claims = p.lined.claimed.map Claimed.claim) (hadmitted : p.lined.admitted = p.write.claims.length)
    (hnd : (p.lined.claimed.map Claimed.journey).Nodup)
    (hfound : ∀ one ∈ p.lined.claimed, one.journey ∈ p.write.journeys.map Prod.fst) (send : State)
    (holds : List Claim) (now : Nat) :
    ∃ handed, (p.answered c send now (.taken holds)).handed = send.handed ++ handed ∧
      handed.map Departure.claim = p.write.claims.filterMap (heldAs holds) ∧
      (∀ d ∈ handed, (p.answered c send now (.taken holds)).owned.get d.id = some (.of d)) ∧
      ∀ others, send.admitted = others + p.write.claims.length →
        (p.answered c send now (.taken holds)).admitted = others := by
  obtain ⟨hkept, hsub⟩ := confirmed_claimed p.lined holds
  have hlen : p.lined.claimed.length = p.lined.admitted := by rw [hadmitted, hclaims, List.length_map]
  have hgone := (LinedUp.confirmed_gone holds hlen).1
  have hanswered : p.answered c send now (.taken holds) =
      (send.withdraw (p.lined.confirmed holds).2).handing c (p.lined.confirmed holds).1 p.write.journeys now := by
    simp [Prepared.answered, hjourneys]
  rw [hanswered]
  obtain ⟨handed, hhanded, hof, howned⟩ := State.handing_handed (c := c) (s := send.withdraw (p.lined.confirmed holds).2)
    (p.lined.confirmed holds).1 p.write.journeys now (hnd.sublist hsub) (by
      intro one hone
      obtain ⟨was, hwas, heq⟩ := List.mem_map.1 (hsub.subset (List.mem_map_of_mem hone))
      exact heq ▸ hfound was hwas)
  refine ⟨handed, ?_, ?_, howned, ?_⟩
  · rw [hhanded, withdrawn_handed]
  · rw [hof, hkept, hclaims]
  · intro others hothers
    rw [State.handing_admitted, State.withdraw_admitted, LinedUp.confirmed_admitted]
    omega

theorem taken_prepare (hids : (opened.map Opened.id).Nodup) (send' : State) (holds : List Claim) (now' : Nat) :
    ∃ handed,
      let p := (prepare c pickup send opened body places mint now).1
      (p.answered c send' now' (.taken holds)).handed = send'.handed ++ handed ∧
        handed.map Departure.claim = p.write.claims.filterMap (heldAs holds) ∧
        (∀ d ∈ handed, (p.answered c send' now' (.taken holds)).owned.get d.id = some (.of d)) ∧
        ∀ others, send'.admitted = others + p.write.claims.length →
          (p.answered c send' now' (.taken holds)).admitted = others := by
  by_cases hempty : opened.isEmpty = true
  · -- nothing matched: nothing was claimed, and what is given back is nothing
    refine ⟨[], ?_⟩
    simp [prepare, hempty, Prepared.answered, LinedUp.confirmed, State.withdraw]
  · obtain ⟨hclaims, hadmitted, -, -⟩ := claims_prepare (c := c) pickup opened places send body mint now
    have hwritten : (prepare c pickup send opened body places mint now).1.write.journeys =
        opened.map fun one => (one.id, one.journey) := by
      simp only [prepare, hempty, Bool.false_eq_true, if_false]
    refine answered_taken ?_ hclaims hadmitted (nodup_claimed hids) ?_ send' holds now'
    · rw [hwritten]
      simpa using hempty
    · intro one hone
      obtain ⟨-, o, ho, hid, -, -⟩ := mem_claimed hone
      rw [hwritten, List.map_map]
      exact List.mem_map.2 ⟨o, ho, hid⟩

/-! ### The partition -/

/-- Each Journey opened has an identifier of its own, where each minted is. -/
theorem nodup_opened (ports : String → List String) (evaluations : List Evaluation) {ids : Nat → Nat}
    (hids : Function.Injective ids) (record : Nat → String → String → Journey) :
    ((Publication.opened ports evaluations ids record).map Opened.id).Nodup := by
  have hled : ∀ led : List (String × String),
      ((led.zipIdx.map fun x => (⟨ids x.2, record (ids x.2) x.1.1 x.1.2, x.1.1, x.1.2⟩ : Opened)).map Opened.id).Nodup := by
    intro led
    have hmap : (led.zipIdx.map fun x => (⟨ids x.2, record (ids x.2) x.1.1 x.1.2, x.1.1, x.1.2⟩ : Opened)).map Opened.id =
        (led.zipIdx.map Prod.snd).map ids := by
      rw [List.map_map, List.map_map]
      rfl
    rw [hmap, List.zipIdx_map_snd]
    exact List.Nodup.map hids List.nodup_range'
  exact hled _

end Partition

/-- A Publication partitions the Journeys it opens, whatever the pickup says of its Subscriptions, whichever
destinations this node serves and however much room the pool has: in each of its passes over them, in every state it
finds, and after either answer. -/
theorem partitions_of_apart (ports : String → List String) (evaluations : List Evaluation) {ids : Nat → Nat}
    (hids : Function.Injective ids) (record : Nat → String → String → Journey) (pickup : Pickup.State) (send : State)
    (body : List UInt8) (places : List Pickup.Hold) (mint : Nat → Nat) (now : Nat)
    (hapart : Apart c pickup (opened ports evaluations ids record) places) :
    Partitions c pickup send (opened ports evaluations ids record) body places mint now := by
  have hnd := nodup_opened ports evaluations hids record
  generalize opened ports evaluations ids record = opened at hnd hapart
  obtain ⟨hclaims, hadmitted, hsum, hroom⟩ := claims_prepare (c := c) pickup opened places send body mint now
  refine ⟨?_, ?_, ?_, ⟨hsum, hroom⟩, taken_prepare hnd, ?_⟩
  · intro one hone
    obtain ⟨hheld, hlined⟩ := timesIn_prepare hnd hapart hone send body mint now
    simp only
    rw [hheld, hlined]
    split <;> rfl
  · have hjourney : (prepare c pickup send opened body places mint now).1.lined.claimed.map
        (Claim.journey ∘ Claimed.claim) =
        (prepare c pickup send opened body places mint now).1.lined.claimed.map Claimed.journey :=
      List.map_congr_left fun one hone => (mem_claimed hone).1
    rw [hclaims, List.map_map, hjourney]
    exact nodup_claimed hnd
  · intro claim hclaim
    rw [hclaims] at hclaim
    obtain ⟨one, hone, rfl⟩ := List.mem_map.1 hclaim
    obtain ⟨hjourney, o, ho, hid, hnone, hsent⟩ := mem_claimed hone
    rw [Settings.sentHere, Bool.and_eq_true, Bool.not_eq_true'] at hsent
    refine ⟨o, ho, hid.trans hjourney.symm, hsent.1, hsent.2, ?_⟩
    rw [(timesIn_prepare hnd hapart ho send body mint now).2, hnone]
    rfl
  · intro pickup' send' now' durable
    refine ⟨rfl, State.withdraw_owned _, withdrawn_handed _ _, ?_⟩
    intro others hothers
    show (send'.withdraw _).admitted = others
    rw [State.withdraw_admitted]
    omega

/-! A Message two Subscriptions match, one of them paused, at a node with room for one more. -/

private def aNode : Settings := ⟨7, 1, 30, fun port => if port = "Billing" then 10 else 11, fun _ => true, fun _ => false⟩

private def oneHeldOnePicked : Pickup.State :=
  [⟨"orders", 1, ⟨true, "ops", 3⟩, 2, 0, 0, ∅, false, none⟩, ⟨"invoices", 2, ⟨false, "", 3⟩, 0, 0, 0, ∅, false, none⟩]

private def bothMatched : List Evaluation := [⟨"orders", "Archive", true⟩, ⟨"invoices", "Billing", true⟩]

private def newJourney (_ : Nat) (_ leads : String) : Journey :=
  ⟨.active, none, [], none, some leads, none, 0, []⟩

theorem partitions_oneHeld :
    Apart aNode oneHeldOnePicked (opened (fun _ => []) bothMatched (· + 100) newJourney) [] ∧
      Partitions aNode oneHeldOnePicked (.starting [10, 11]) (opened (fun _ => []) bothMatched (· + 100) newJourney)
        [1, 2] [] (· + 1000) 5 := by
  have hapart : Apart aNode oneHeldOnePicked (opened (fun _ => []) bothMatched (· + 100) newJourney) [] :=
    ⟨by decide, by simp⟩
  exact ⟨hapart, partitions_of_apart aNode (fun _ => []) bothMatched (fun _ _ h => Nat.add_right_cancel h) newJourney
    oneHeldOnePicked (.starting [10, 11]) [1, 2] [] (· + 1000) 5 hapart⟩

end Publication
