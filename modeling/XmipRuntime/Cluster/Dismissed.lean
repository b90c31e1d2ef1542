import XmipRuntime.Cluster.Path

/-!
# A blocked sequence unblocked

A Message that failed keeps its place in a sequence whose `on_failure` is `block`, and everything of its key stands behind
it until an operator acts.  `Waiting` is the cluster with the queue each Journey's Message waits in beside it: where it leads,
or the Subscription that holds it; the Send step, the Work Processes and the pick-up loop each take what waits in their own
queues.  `act` is an operator's act (`src/send_step/message_act.rs`), Xmip Storage answering and nobody writing in between:
it takes a Message of a Send Port the node sends, and no other.
-/

namespace Cluster

open Library Ledger

/-! ### Where a Message waits -/

inductive Subscriber where
  | sendPort (name : String)
  | workProcess (name : String)
  deriving DecidableEq

/-- What a Journey that leads to it is told of its Send Port. -/
def Subscriber.port : Subscriber → Option String
  | .sendPort name => some name
  | .workProcess _ => none

/-- Where a Journey's Message waits: in the queue of where it leads, or, until it is picked up, of the Subscription that
holds it. -/
structure Waits where
  destination : Subscriber
  heldBy : Option String
  deriving DecidableEq

/-- What a write does to where its Journey's Message waits: one sent or done with lets go of its queue, a held one is moved
to where it leads, and one dismissed lets go of the queue of the Send Port it is told. -/
def Write.after (w : Write) (waits : Table Nat Waits) : Table Nat Waits :=
  match w.kind with
  | .send | .turn => if w.result.state = .completed then waits.drop w.journey else waits
  | .pickUp =>
    match waits.get w.journey with
    | some v => waits.put w.journey ⟨(w.base.sendPort.map Subscriber.sendPort).getD v.destination, none⟩
    | none => waits
  | .act .retry => waits
  | .act .dismiss =>
    if waits.get w.journey = w.base.sendPort.map (fun port => ⟨.sendPort port, none⟩) then waits.drop w.journey else waits

/-- The write a step from `s` to `s'` made. -/
def Sys.wrote (s s' : Sys) : Option Write := if s'.writes.length = s.writes.length then none else s'.writes.head?

/-- The Journeys a step from `s` to `s'` opened. -/
def Sys.born (s s' : Sys) : List (Nat × Journey) :=
  s'.storage.journeys.entries.filter fun x => (s.storage.journeys.get x.1).isNone

structure Waiting where
  sys : Sys
  waits : Table Nat Waits

namespace Waiting

/-- Whether a thread finds its Journey in a queue its step reads: a Send Port's, a Work Process's or a Subscription's. -/
def reads (x : Waiting) : Action → Bool
  | .call _ _ .send id => (x.waits.get id).any fun v => v.heldBy.isNone && v.destination.port.isSome
  | .call _ _ .turn id => (x.waits.get id).any fun v => v.heldBy.isNone && v.destination.port.isNone
  | .call _ _ .pickUp id => (x.waits.get id).any fun v => v.heldBy.isSome
  | _ => true

def told (x : Waiting) (sys : Sys) : Table Nat Waits := ((x.sys.wrote sys).map fun w => w.after x.waits).getD x.waits

/-- A step of the cluster, with where the Messages of the Journeys it opens wait: each leads to the Send Port its record is
told, or to a Work Process. -/
def step (x : Waiting) (a : Action × (Nat → Waits)) : Option Waiting :=
  if x.reads a.1 then
    (x.sys.step a.1).bind fun sys =>
      if (x.sys.born sys).all fun y => decide ((a.2 y.1).destination.port = y.2.sendPort) then
        some ⟨sys, (x.sys.born sys).foldl (fun waits y => waits.put y.1 (a.2 y.1)) (x.told sys)⟩
      else none
  else none

def Opening (x : Waiting) : Prop := Cluster.Opening x.sys ∧ x.waits.entries = []

/-! ### The invariant -/

/-- What every step keeps: a Journey that has not ended waits, and leads where its record says; what failed, and what a send
or a turn is at, waits where it leads. -/
structure Stands (x : Waiting) : Prop where
  path : InPath False x.sys
  known : ∀ id v, x.waits.get id = some v → ∃ r, x.sys.storage.journeys.get id = some r ∧ v.destination.port = r.sendPort
  stands : ∀ id r, x.sys.storage.journeys.get id = some r → unfinished r = true → (x.waits.get id).isSome
  threads : ∀ p t, x.sys.threads.get p = some t → t.kind = .send ∨ t.kind = .turn →
    (∃ r, x.sys.storage.journeys.get t.journey = some r) ∧ ∀ v, x.waits.get t.journey = some v → v.heldBy = none
  failed : ∀ id r, x.sys.storage.journeys.get id = some r → r.state = .failed →
    ∀ v, x.waits.get id = some v → v.heldBy = none

theorem stands_of_opening {x : Waiting} (h : x.Opening) : x.Stands := by
  obtain ⟨hopening, hwaits⟩ := h
  have hget : ∀ id, x.sys.storage.journeys.get id = none := fun id => by unfold Table.get; rw [hopening.journeys]; rfl
  have hnone : ∀ id, x.waits.get id = none := fun id => by unfold Table.get; rw [hwaits]; rfl
  have hthreads : ∀ p, x.sys.threads.get p = none := fun p => by unfold Table.get; rw [hopening.threads]; rfl
  exact ⟨inPath_of_opening hopening, by simp [hnone], by simp [hget], by simp [hthreads], by simp [hget]⟩

end Waiting

/-! ### What a step writes and opens -/

/-- Every Journey a hand-on makes of another, and every one it opens, is told the Send Port it was. -/
theorem Thread.Makes.sendPort {c : Config} {s : Storage} {t : Thread} {base : Journey} {hand : HandOn}
    (hm : t.Makes c s base hand) : hand.result.sendPort = base.sendPort := by
  cases hm with
  | sent | turned | turnFailed | moved => rfl
  | acted =>
    rename_i act _ _ _
    cases act <;> rfl
  | late =>
    show (c.takenLate t.journey base).1.sendPort = base.sendPort
    unfold Config.takenLate Config.groupPlaced Config.placed
    repeat' split
    all_goals rfl

/-- What a hand-on opens is still to be sent or taken a turn of. -/
theorem Thread.Makes.opens {c : Config} {s : Storage} {t : Thread} {base : Journey} {hand : HandOn}
    (hm : t.Makes c s base hand) : ∀ x ∈ hand.next, x.2.live = true := by
  intro x hx
  cases hm with
  | turned _ _ _ hf =>
    obtain ⟨y, hy, rfl⟩ := List.mem_map.1 hx
    exact (newborn_following hf y hy).live
  | sent | turnFailed | acted | late | moved => cases hx

/-- What failed was written so by a send or a turn. -/
theorem Thread.Makes.kind_of_failed {c : Config} {s : Storage} {t : Thread} {base : Journey} {hand : HandOn}
    (hm : t.Makes c s base hand) (ht : t.Sound c s) (hfailed : hand.result.state = .failed) :
    t.kind = .send ∨ t.kind = .turn := by
  cases hm with
  | sent hk => exact .inl hk
  | turned hk => exact .inr hk
  | turnFailed hk => exact .inr hk
  | acted =>
    rename_i act _ _ _
    cases act <;> cases hfailed
  | late hs =>
    have hact : t.isAct = false := by simpa only [Thread.Placed, hs] using ht.placed
    have hlive := ht.live hact base (by rw [hs]; rfl)
    change (c.takenLate t.journey base).1.state = .failed at hfailed
    rw [takenLate_state] at hfailed
    simp [Journey.live, hfailed] at hlive
  | moved hk hs =>
    have hlive := ht.live (by unfold Thread.isAct; rw [hk]) base (by rw [hs]; rfl)
    simp [Journey.live, show base.state = .failed from hfailed] at hlive

/-- A step writes one Journey under its claim, or none; every other record stays. -/
theorem Sound.wrote {s s' : Sys} {a : Action} (h : Sound s) (hs : s.step a = some s') :
    s.wrote s' = none ∧ (∀ id r, s.storage.journeys.get id = some r → s'.storage.journeys.get id = some r) ∨
    ∃ p t base hand, s.threads.get p = some t ∧ t.Makes s.config s.storage base hand ∧
      s.storage.journeys.get t.journey = some base ∧ s'.storage.journeys.get t.journey = some hand.result ∧
      s.wrote s' = some ⟨t.journey, t.kind, base, some base, hand.result⟩ ∧
      ∀ id r, id ≠ t.journey → s.storage.journeys.get id = some r → s'.storage.journeys.get id = some r := by
  have hquiet : s'.writes = s.writes → s.wrote s' = none := fun heq => by unfold Sys.wrote; rw [heq, if_pos rfl]
  cases Sys.steps_of_step hs with
  | call | lapse => exact .inl ⟨hquiet rfl, fun _ _ hr => hr⟩
  | publish hf _ =>
    rename_i received routed _
    refine .inl ⟨hquiet ?_, fun _ _ hr => get_published hf hr⟩
    rw [(s.publish_storage received routed).1]
  | replay hf _ => exact .inl ⟨hquiet rfl, fun _ _ hr => get_publish hf.opened hr⟩
  | run hp hf hout =>
    rename_i p choice t out
    have ht := h.threads p t hp
    have hstep := Thread.step_of_next ht.placed hf hout
    rw [stepped_storage]
    rcases stepped_writes s p t out with heq | ⟨base, hand, he, hc, heq⟩
    · refine .inl ⟨hquiet heq, fun id r hr => ?_⟩
      rcases effect_cases s.storage out.effect with ⟨hj, -⟩ | ⟨base, hand, he, hc, -⟩
      · rw [hj]
        exact hr
      · -- a hand-on under its claim would be a write more
        unfold Sys.stepped Sys.effect at heq
        simp [he, hc] at heq
    · have hm := hstep.makes he
      have hclaimed := hc
      rw [hm.journey, hm.token] at hclaimed
      have hbase := ht.makes hm hclaimed
      have hst : out.effect.storage s.storage = s.storage.written hand := by
        rw [he]
        simp [Effect.storage, Storage.handOn, hc]
      rw [hst]
      refine .inr ⟨p, t, base, hand, hp, hm, hbase, ?_, ?_, ?_⟩
      · have hself := get_journeys_self hm.fresh (hm.journey ▸ hbase)
        rw [hm.journey] at hself
        exact hself
      · unfold Sys.wrote
        rw [heq, if_neg (by simp), hm.journey, hbase]
        rfl
      · intro id r hne hr
        exact get_journeys_of_ne hm.fresh (hm.journey ▸ hne) hr

/-- A Journey that was not there before a step is still to be sent or taken a turn of. -/
theorem Sound.born_live {s s' : Sys} {a : Action} (h : Sound s) (hs : s.step a = some s') {id : Nat} {r : Journey}
    (hnone : s.storage.journeys.get id = none) (hr : s'.storage.journeys.get id = some r) : r.live = true := by
  cases Sys.steps_of_step hs with
  | call | lapse => rw [hnone] at hr; cases hr
  | publish hf _ =>
    rename_i received routed _
    rcases (s.publish_storage received routed).2 with hst | hst <;> rw [hst] at hr
    · rw [hnone] at hr; cases hr
    · rcases Birth.records hr with hr | ⟨x, hx, heq⟩
      · rw [hnone] at hr; cases hr
      · have := (newborn_published hf x hx).live
        rwa [heq] at this
  | replay hf _ =>
    rcases get_foldl_put_cases hr with hr | hr
    · obtain ⟨one, -, j, -, heq⟩ := mem_opened hr
      cases heq
      rfl
    · rw [hnone] at hr; cases hr
  | run hp hf hout =>
    rename_i p choice t out
    have ht := h.threads p t hp
    rw [stepped_storage] at hr
    rcases effect_cases s.storage out.effect with ⟨hj, -⟩ | ⟨base, hand, he, hc, hst⟩
    · rw [hj, hnone] at hr
      cases hr
    · have hm := (Thread.step_of_next ht.placed hf hout).makes he
      rw [hst] at hr
      rcases get_foldl_put_cases hr with hr | hr
      · exact hm.opens _ hr
      · rw [hm.journey, hm.token] at hc
        have hbase := ht.makes hm hc
        rw [Table.get_put, hm.journey] at hr
        split at hr
        · rename_i hid
          rw [hid, hbase] at hnone
          cases hnone
        · rw [hnone] at hr
          cases hr

/-- A step leaves a thread what it is and at its Journey; a pick-up whose Message is sent here goes on as a send. -/
theorem Thread.Step.kind {c : Config} {s : Storage} {known : List Place} {t t' : Thread} {out : Out}
    (h : t.Step c s known out) (ht : out.thread = some t') :
    t'.kind = t.kind ∨ t.kind = .pickUp ∧ ∃ base, out.effect = .handOn base (t.moveHandOn base true) ∧
      s.Claimed t.journey t.token := by
  cases h with
  | ends => cases ht
  | remembers | moves | claims | settles | asks => cases ht; exact .inl rfl
  | writes _ _ hl =>
    cases hl with
    | gone => cases ht
    | headed | late => cases ht; exact .inl rfl
    | moved _ heq hk hc =>
      cases ht
      exact .inr ⟨hk, _, by rw [heq], hc⟩

/-! ### Where a Message waits after a write -/

theorem Write.after_of_ne (w : Write) (waits : Table Nat Waits) {id : Nat} (h : id ≠ w.journey) :
    (w.after waits).get id = waits.get id := by
  unfold Write.after
  repeat' split
  all_goals simp [h]

/-- What a write leaves of where its Message waits: it as it was, or, a held one, where it leads. -/
theorem Write.after_some (w : Write) (waits : Table Nat Waits) {v' : Waits} (h : (w.after waits).get w.journey = some v') :
    ∃ v, waits.get w.journey = some v ∧ (v' = v ∨
      v'.heldBy = none ∧ (v.destination.port = w.base.sendPort → v'.destination.port = w.base.sendPort)) := by
  unfold Write.after at h
  split at h
  · split at h
    · simp at h
    · exact ⟨v', h, .inl rfl⟩
  · split at h
    · simp at h
    · exact ⟨v', h, .inl rfl⟩
  · split at h
    · rename_i v hv
      simp only [Table.get_put_self, Option.some.injEq] at h
      refine ⟨v, hv, .inr ⟨by rw [← h], fun hport => ?_⟩⟩
      rw [← h]
      cases hsend : w.base.sendPort with
      | none => simpa [hsend] using hport
      | some port => rfl
    · rename_i hnone
      rw [hnone] at h
      cases h
  · exact ⟨v', h, .inl rfl⟩
  · split at h
    · simp at h
    · exact ⟨v', h, .inl rfl⟩

/-- A Message whose Journey has not ended by a write waits on. -/
theorem Thread.Makes.waits_on {c : Config} {s : Storage} {t : Thread} {base : Journey} {hand : HandOn}
    (hm : t.Makes c s base hand) (ht : t.Sound c s) (hopen : unfinished hand.result = true) (waits : Table Nat Waits)
    (h : (waits.get t.journey).isSome) :
    ((Write.after ⟨t.journey, t.kind, base, some base, hand.result⟩ waits).get t.journey).isSome := by
  have hcompleted : hand.result.state ≠ .completed := fun heq => by simp [unfinished, heq] at hopen
  unfold Write.after
  split
  · simpa [hcompleted] using h
  · simpa [hcompleted] using h
  · split
    · simp
    · exact h
  · exact h
  · rename_i hk
    -- what a Dismiss writes has ended
    have hdismissed : hand.result.state = .dismissed := by
      simp only at hk
      cases hm with
      | acted hk' =>
        rw [hk] at hk'
        cases hk'
        rfl
      | late hs =>
        have hact : t.isAct = false := by simpa only [Thread.Placed, hs] using ht.placed
        simp [Thread.isAct, hk] at hact
      | sent hk' => rw [hk] at hk'; cases hk'
      | turned hk' => rw [hk] at hk'; cases hk'
      | turnFailed hk' => rw [hk] at hk'; cases hk'
      | moved hk' => rw [hk] at hk'; cases hk'
    simp [unfinished, hdismissed] at hopen

/-! ### Every step keeps it -/

namespace Waiting

theorem get_putAll (l : List (Nat × Journey)) (leads : Nat → Waits) (waits : Table Nat Waits) (id : Nat) :
    (l.foldl (fun waits y => waits.put y.1 (leads y.1)) waits).get id =
      if id ∈ l.map Prod.fst then some (leads id) else waits.get id := by
  induction l generalizing waits with
  | nil => rfl
  | cons y l ih =>
    rw [List.foldl_cons, ih, Table.get_put, List.map_cons]
    by_cases hid : id = y.1
    · simp [hid]
    · by_cases hl : id ∈ l.map Prod.fst
      · rw [if_pos hl, if_pos (List.mem_cons_of_mem _ hl)]
      · rw [if_neg hl, if_neg hid, if_neg fun hm => (List.mem_cons.1 hm).elim hid hl]

theorem mem_born {s s' : Sys} {id : Nat} :
    id ∈ (s.born s').map Prod.fst ↔ s.storage.journeys.get id = none ∧ ∃ r, s'.storage.journeys.get id = some r := by
  unfold Sys.born
  constructor
  · intro h
    obtain ⟨y, hy, rfl⟩ := List.mem_map.1 h
    obtain ⟨hy, hnone⟩ := List.mem_filter.1 hy
    exact ⟨by simpa using hnone, y.2, Table.mem_iff_get.1 hy⟩
  · rintro ⟨hnone, r, hr⟩
    exact List.mem_map.2 ⟨(id, r), List.mem_filter.2 ⟨Table.mem_iff_get.2 hr, by simp [hnone]⟩, rfl⟩

variable {x x' : Waiting} {a : Action × (Nat → Waits)}

/-- What a step is: one of the cluster's, its writer's Message told where it waits and what it opens where it leads. -/
theorem step_cases (hs : x.step a = some x') : ∃ sys, x.reads a.1 = true ∧ x.sys.step a.1 = some sys ∧
    x'.sys = sys ∧
    (∀ id r, x.sys.storage.journeys.get id = none → sys.storage.journeys.get id = some r →
      x'.waits.get id = some (a.2 id) ∧ (a.2 id).destination.port = r.sendPort) ∧
    ∀ id, (x.sys.storage.journeys.get id = none → sys.storage.journeys.get id = none) →
      x'.waits.get id = (x.told sys).get id := by
  unfold step at hs
  split at hs
  · rename_i hreads
    obtain ⟨sys, hsys, hs⟩ := Option.bind_eq_some_iff.1 hs
    split at hs
    · rename_i hleads
      cases hs
      refine ⟨sys, hreads, hsys, rfl, ?_, ?_⟩
      · intro id r hnone hr
        have hborn := List.all_eq_true.1 hleads (id, r) (List.mem_filter.2 ⟨Table.mem_iff_get.2 hr, by simp [hnone]⟩)
        refine ⟨?_, by simpa using hborn⟩
        rw [get_putAll, if_pos (mem_born.2 ⟨hnone, r, hr⟩)]
      · intro id hold
        rw [get_putAll, if_neg]
        intro hborn
        obtain ⟨hnone, r, hr⟩ := mem_born.1 hborn
        rw [hold hnone] at hr
        cases hr
    · cases hs
  · cases hs

/-- Where a Message waits once its Journey is written, or not. -/
theorem told_cases (h : Sound x.sys) {action : Action} {sys : Sys} (hs : x.sys.step action = some sys) (id : Nat) :
    (x.told sys).get id = x.waits.get id ∧
      (∀ r, x.sys.storage.journeys.get id = some r → sys.storage.journeys.get id = some r) ∨
    ∃ p t base hand, x.sys.threads.get p = some t ∧ t.Makes x.sys.config x.sys.storage base hand ∧ t.journey = id ∧
      x.sys.storage.journeys.get id = some base ∧ sys.storage.journeys.get id = some hand.result ∧
      x.told sys = Write.after ⟨t.journey, t.kind, base, some base, hand.result⟩ x.waits := by
  unfold told
  rcases h.wrote hs with ⟨hnone, hkeeps⟩ | ⟨p, t, base, hand, hp, hm, hbase, hnew, hwrote, hkeeps⟩
  · exact .inl ⟨by rw [hnone]; rfl, hkeeps id⟩
  · rw [hwrote]
    by_cases hid : id = t.journey
    · subst hid
      exact .inr ⟨p, t, base, hand, hp, hm, rfl, hbase, hnew, rfl⟩
    · exact .inl ⟨Write.after_of_ne _ _ hid, fun r => hkeeps id r hid⟩

/-- A Journey there was: its Message waits as it did, or, held, where it leads. -/
theorem Stands.waits_kept (h : x.Stands) (hs : x.step a = some x') {id : Nat} {r : Journey}
    (hr : x.sys.storage.journeys.get id = some r) {v' : Waits} (hv : x'.waits.get id = some v') :
    ∃ v, x.waits.get id = some v ∧ (v' = v ∨
      v'.heldBy = none ∧ (v.destination.port = r.sendPort → v'.destination.port = r.sendPort)) := by
  obtain ⟨sys, -, hsys, -, -, hwaits⟩ := step_cases hs
  rw [hwaits id (by simp [hr])] at hv
  rcases told_cases h.path.sound hsys id with ⟨htold, -⟩ | ⟨p, t, base, hand, -, -, rfl, hbase, -, htold⟩
  · exact ⟨v', htold ▸ hv, .inl rfl⟩
  · rw [hr] at hbase
    cases hbase
    rw [htold] at hv
    exact Write.after_some _ _ hv

/-- A Journey there was is there still, and is told the same Send Port. -/
theorem Stands.record_kept (h : x.Stands) (hs : x.step a = some x') {id : Nat} {r : Journey}
    (hr : x.sys.storage.journeys.get id = some r) :
    ∃ r', x'.sys.storage.journeys.get id = some r' ∧ r'.sendPort = r.sendPort := by
  obtain ⟨sys, -, hsys, hsys', -, -⟩ := step_cases hs
  rw [hsys']
  rcases told_cases h.path.sound hsys id with ⟨-, hkeeps⟩ | ⟨p, t, base, hand, -, hm, -, hbase, hnew, -⟩
  · exact ⟨r, hkeeps r hr, rfl⟩
  · rw [hr] at hbase
    cases hbase
    exact ⟨hand.result, hnew, hm.sendPort⟩

theorem Stands.known_step (h : x.Stands) (hs : x.step a = some x') : ∀ id v', x'.waits.get id = some v' →
    ∃ r, x'.sys.storage.journeys.get id = some r ∧ v'.destination.port = r.sendPort := by
  intro id v' hv
  obtain ⟨sys, -, hsys, hsys', hborn, hwaits⟩ := step_cases hs
  rcases hr : x.sys.storage.journeys.get id with _ | r
  · rcases hr' : sys.storage.journeys.get id with _ | r
    · -- nobody writes a Journey that is not there
      rw [hwaits id fun _ => hr'] at hv
      rcases told_cases h.path.sound hsys id with ⟨htold, -⟩ | ⟨p, t, base, hand, -, -, -, hbase, -, -⟩
      · obtain ⟨r, hr', -⟩ := h.known id v' (htold ▸ hv)
        rw [hr] at hr'
        cases hr'
      · rw [hr] at hbase
        cases hbase
    · obtain ⟨hput, hport⟩ := hborn id r hr hr'
      rw [hput] at hv
      cases hv
      exact ⟨r, hsys' ▸ hr', hport⟩
  · obtain ⟨r', hr', hport⟩ := h.record_kept hs hr
    obtain ⟨v, hv, hsame⟩ := h.waits_kept hs hr hv
    obtain ⟨r₀, hr₀, hv₀⟩ := h.known id v hv
    rw [hr] at hr₀
    cases hr₀
    refine ⟨r', hr', ?_⟩
    rcases hsame with rfl | ⟨-, hkeeps⟩
    · exact hv₀.trans hport.symm
    · exact (hkeeps hv₀).trans hport.symm

theorem Stands.stands_step (h : x.Stands) (hs : x.step a = some x') : ∀ id r, x'.sys.storage.journeys.get id = some r →
    unfinished r = true → (x'.waits.get id).isSome := by
  intro id r' hr' hopen
  obtain ⟨sys, -, hsys, hsys', hborn, hwaits⟩ := step_cases hs
  rw [hsys'] at hr'
  rcases hr : x.sys.storage.journeys.get id with _ | r
  · rw [(hborn id r' hr hr').1]
    rfl
  · rw [hwaits id (by simp [hr])]
    rcases told_cases h.path.sound hsys id with ⟨htold, hkeeps⟩ | ⟨p, t, base, hand, hp, hm, rfl, hbase, hnew, htold⟩
    · have := hkeeps _ hr
      rw [hr'] at this
      cases this
      rw [htold]
      exact h.stands id _ hr hopen
    · rw [hr'] at hnew
      cases hnew
      have ht := h.path.sound.threads p t hp
      have hbefore : unfinished base = true := by
        have hmade := ht.madeOf hm
        unfold MadeOf at hmade
        split at hmade
        · simp [unfinished, hmade]
        · exact unfinished_of_live hmade
      rw [htold]
      exact hm.waits_on ht hopen x.waits (h.stands _ base hbase hbefore)

/-- A Message that waits where it leads is not held again. -/
theorem Stands.atPoint_step (h : x.Stands) (hs : x.step a = some x') {id : Nat} {r : Journey}
    (hr : x.sys.storage.journeys.get id = some r) (hpoint : ∀ v, x.waits.get id = some v → v.heldBy = none) :
    ∀ v, x'.waits.get id = some v → v.heldBy = none := by
  intro v' hv
  obtain ⟨v, hv, rfl | ⟨hnone, -⟩⟩ := h.waits_kept hs hr hv
  · exact hpoint v' hv
  · exact hnone

theorem Stands.failed_step (h : x.Stands) (hs : x.step a = some x') : ∀ id r, x'.sys.storage.journeys.get id = some r →
    r.state = .failed → ∀ v, x'.waits.get id = some v → v.heldBy = none := by
  intro id r' hr' hfailed
  obtain ⟨sys, -, hsys, hsys', -, -⟩ := step_cases hs
  rcases hr : x.sys.storage.journeys.get id with _ | r
  · have hlive := h.path.sound.born_live hsys hr (hsys' ▸ hr')
    simp [Journey.live, hfailed] at hlive
  · refine h.atPoint_step hs hr ?_
    rw [hsys'] at hr'
    rcases told_cases h.path.sound hsys id with ⟨-, hkeeps⟩ | ⟨p, t, base, hand, hp, hm, rfl, -, hnew, -⟩
    · have := hkeeps _ hr
      rw [hr'] at this
      cases this
      exact h.failed id _ hr hfailed
    · rw [hr'] at hnew
      cases hnew
      exact (h.threads p t hp (hm.kind_of_failed (h.path.sound.threads p t hp) hfailed)).2

/-- A pick-up whose move was taken left its Message where it leads. -/
theorem told_of_move {p : Nat} {t : Thread} {out : Out} {base : Journey} {here : Bool}
    (he : out.effect = .handOn base (t.moveHandOn base here)) (hk : t.kind = .pickUp)
    (hc : x.sys.storage.Claimed t.journey t.token) {v : Waits}
    (hv : (x.told (x.sys.stepped p t out)).get t.journey = some v) : v.heldBy = none := by
  have hc' : x.sys.storage.Claimed (t.moveHandOn base here).journey (t.moveHandOn base here).token := hc
  have hwrites : (x.sys.stepped p t out).writes =
      ⟨t.journey, t.kind, base, x.sys.storage.journeys.get t.journey, base⟩ :: x.sys.writes := by
    unfold Sys.stepped Sys.effect
    rw [he]
    simp only [if_pos hc']
    rfl
  have hwrote : x.sys.wrote (x.sys.stepped p t out) =
      some ⟨t.journey, t.kind, base, x.sys.storage.journeys.get t.journey, base⟩ := by
    unfold Sys.wrote
    rw [hwrites, if_neg (by simp)]
    rfl
  unfold told at hv
  rw [hwrote] at hv
  simp only [Option.map_some, Option.getD_some, Write.after, hk] at hv
  split at hv
  · simp only [Table.get_put_self, Option.some.injEq] at hv
    rw [← hv]
  · rename_i hnone
    rw [hnone] at hv
    cases hv

theorem Stands.threads_step (h : x.Stands) (hs : x.step a = some x') : ∀ p t, x'.sys.threads.get p = some t →
    t.kind = .send ∨ t.kind = .turn → (∃ r, x'.sys.storage.journeys.get t.journey = some r) ∧
      ∀ v, x'.waits.get t.journey = some v → v.heldBy = none := by
  intro q u hu hkind
  obtain ⟨sys, hreads, hsys, hsys', -, hwaits⟩ := step_cases hs
  -- what is at its place with a record of its own stays so
  have hkept : ∀ id r, x.sys.storage.journeys.get id = some r → (∀ v, x.waits.get id = some v → v.heldBy = none) →
      (∃ r, x'.sys.storage.journeys.get id = some r) ∧ ∀ v, x'.waits.get id = some v → v.heldBy = none := by
    intro id r hr hpoint
    obtain ⟨r', hr', -⟩ := h.record_kept hs hr
    exact ⟨⟨r', hr'⟩, h.atPoint_step hs hr hpoint⟩
  have hold : ∀ p t, x.sys.threads.get p = some t → t.kind = .send ∨ t.kind = .turn →
      (∃ r, x'.sys.storage.journeys.get t.journey = some r) ∧ ∀ v, x'.waits.get t.journey = some v → v.heldBy = none := by
    intro p t hp hk
    obtain ⟨⟨r, hr⟩, hpoint⟩ := h.threads p t hp hk
    exact hkept _ r hr hpoint
  rw [hsys'] at hu
  obtain ⟨action, leads⟩ := a
  simp only at hsys hreads
  cases Sys.steps_of_step hsys with
  | lapse | replay => exact hold q u hu hkind
  | publish =>
    rename_i received routed _ _
    rw [(x.sys.publish_storage received routed).1] at hu
    exact hold q u hu hkind
  | call =>
    rename_i p node kind id _
    rw [Table.get_put] at hu
    split at hu
    · cases hu
      -- it is read from the queue it waits in
      obtain ⟨v, hv, hnone⟩ : ∃ v, x.waits.get id = some v ∧ v.heldBy = none := by
        rcases hkind with hk | hk <;>
        · simp only at hk
          subst hk
          simp only [reads, Option.any_eq_true, Bool.and_eq_true, Option.isNone_iff_eq_none] at hreads
          obtain ⟨v, hv, hnone, -⟩ := hreads
          exact ⟨v, hv, hnone⟩
      obtain ⟨r, hr, -⟩ := h.known id v hv
      refine hkept id r hr fun v' hv' => ?_
      rw [hv] at hv'
      cases hv'
      exact hnone
    · exact hold q u hu hkind
  | run hp hf hout =>
    rename_i p choice t out
    rcases stepped_threads hu with ⟨rfl, hout'⟩ | ⟨-, hu⟩
    · have ht := h.path.sound.threads _ t hp
      have hstep := Thread.step_of_next ht.placed hf hout
      rw [(hstep.same hout').1]
      rcases hstep.kind hout' with hk | ⟨hk, base, he, hc⟩
      · exact hold _ t hp (hk ▸ hkind)
      · have hbase := ht.makes (hstep.makes he) hc
        obtain ⟨r', hr', -⟩ := h.record_kept hs hbase
        refine ⟨⟨r', hr'⟩, fun v hv => ?_⟩
        rw [hwaits _ (by simp [hbase])] at hv
        exact told_of_move he hk hc hv
    · exact hold q u hu hkind

theorem Stands.step (h : x.Stands) (hs : x.step a = some x') : x'.Stands where
  path := by
    obtain ⟨sys, -, hsys, hsys', -, -⟩ := step_cases hs
    rw [hsys']
    exact h.path.step (fun hf => hf.elim) hsys
  known := h.known_step hs
  stands := h.stands_step hs
  threads := h.threads_step hs
  failed := h.failed_step hs

theorem stands_of_reach {ok : Waiting → Action × (Nat → Waits) → Prop} (h : Reach Waiting.step ok Opening x) :
    x.Stands :=
  h.invariant (fun _ => stands_of_opening) fun _ _ _ hi _ hs => hi.step hs

end Waiting

/-! ### An operator's act -/

/-- What a node is configured with: the Send Ports it sends, each with whether a Message of it that failed blocks its
sequence, and the Work Processes it runs. -/
structure Node where
  name : String
  ports : List (String × Bool)
  processes : List String

def Node.Serves (node : Node) : Subscriber → Prop
  | .sendPort name => (node.ports.lookup name).isSome
  | .workProcess name => name ∈ node.processes

instance (node : Node) : (s : Subscriber) → Decidable (node.Serves s)
  | .sendPort name => inferInstanceAs (Decidable ((node.ports.lookup name).isSome))
  | .workProcess name => inferInstanceAs (Decidable (name ∈ node.processes))

def stateWord : JourneyState → String
  | .active => "Active"
  | .recovering => "Recovering"
  | .waiting => "Waiting"
  | .completed => "Completed"
  | .failed => "Failed"
  | .dismissed => "Dismissed"

def Act.word : Act → String
  | .retry => "retry"
  | .dismiss => "dismiss"

/-- The Send Port the Message of `kept` waits in, and whether one of it that failed blocks its sequence: refused, in words,
where `kept` has not failed or the node does not send its Port. -/
def Node.takenBy (node : Node) (id : Nat) (kept : Journey) : Except String (String × Bool) :=
  if kept.state ≠ .failed then
    .error ("REFUSED: the Journey " ++ toString id ++ " is " ++ stateWord kept.state
      ++ ", not Failed; only a Message that failed is retried or dismissed")
  else match kept.sendPort with
    | none => .error ("REFUSED: the Message of the Journey " ++ toString id ++ " leads to no Send Port")
    | some port =>
      match node.ports.lookup port with
      | none => .error ("REFUSED: " ++ node.name ++ " sends no Send Port " ++ port ++ "; act on the node that sends it")
      | some blocks => .ok (port, blocks)

/-- What an act says once it is written. -/
def Act.said (act : Act) (id : Nat) (who port : String) : String :=
  match act with
  | .retry => "The Message of the Journey " ++ toString id ++ " retried by " ++ who ++ "; sent again from " ++ port
      ++ "'s queue"
  | .dismiss => "The Message of the Journey " ++ toString id ++ " dismissed by " ++ who ++ "; its history is kept"

/-- The hand-on of an act: its Journey and the sequences it leaves, and, of the queue of its Send Port, whether it lets go of
its place, goes to the end, and is taken out of the index of what failed. -/
structure ActHandOn where
  write : HandOn
  leaves : List Subscriber
  requeued : List Subscriber
  cleared : List Subscriber

def Act.handOn (act : Act) (id token : Nat) (kept : Journey) (port : String) (blocks : Bool) (entry : JourneyEntry) :
    ActHandOn where
  write := (Thread.mk 0 (.act act) id token (.taken kept) none).actHandOn kept act entry
  leaves := if act = .retry then [] else [.sendPort port]
  requeued := if act = .retry ∧ blocks = false then [.sendPort port] else []
  cleared := [.sendPort port]

/-- A Message in the queue of `point` out of it. -/
def leave (id : Nat) (waits : Table Nat Waits) (point : Subscriber) : Table Nat Waits :=
  if waits.get id = some ⟨point, none⟩ then waits.drop id else waits

namespace Waiting

/-- An operator's act on the Journey `id` by `who`, Xmip Storage answering and nobody writing it meanwhile: what it leaves
and what it says.  The Journey read again under the claim is what it was. -/
def act (x : Waiting) (node : Node) (id execution : Nat) (act : Act) (who : String) : Waiting × Except String String :=
  match x.sys.storage.journeys.get id with
  | none => (x, .error ("REFUSED: no Journey " ++ toString id ++ " is in the Ledger"))
  | some kept =>
    if act = .dismiss ∧ kept.state = .dismissed then
      (x, .ok ("The Message of the Journey " ++ toString id ++ " was dismissed already"))
    else match node.takenBy id kept with
      | .error refused => (x, .error refused)
      | .ok (port, blocks) =>
        if x.sys.storage.claims.get id ≠ none then
          (x, .error ("REFUSED: the Message of the Journey " ++ toString id
            ++ " is claimed by another; act again once it is free"))
        else
          let said := act.said id who port
          let h := act.handOn id x.sys.minted kept port blocks ⟨execution, act.word, said⟩
          let storage := (x.sys.storage.claim id x.sys.minted).handOn h.write
          (⟨{ x.sys with storage, minted := x.sys.minted + 1 }, h.leaves.foldl (leave id) x.waits⟩, .ok said)

/-! ### The act is its thread's, run alone -/

section

variable {x : Waiting} {id : Nat} {r : Journey} {node : Node} {port : String} {blocks : Bool}

theorem takenBy_ok (h : node.takenBy id r = .ok (port, blocks)) :
    r.state = .failed ∧ r.sendPort = some port ∧ node.ports.lookup port = some blocks := by
  unfold Node.takenBy at h
  split at h
  · cases h
  · rename_i hfailed
    split at h
    · cases h
    · rename_i name hport
      split at h
      · cases h
      · rename_i hsends
        cases h
        exact ⟨not_not.1 hfailed, hport, hsends⟩

/-- The steps of an act's thread, called `p` on the node `n`, that nobody disturbs. -/
def acting (p n : Nat) (act : Act) (id : Nat) (entry : JourneyEntry) : List Action :=
  [.call p n (.act act) id, .run p (.go true), .run p (.go true), .run p (.go true), .run p (.acts entry true)]

/-- An act that is taken leaves Xmip Storage as its thread does, run from its call to its end. -/
theorem act_eq_run (hr : x.sys.storage.journeys.get id = some r) (hfree : x.sys.storage.claims.get id = none)
    (htaken : node.takenBy id r = .ok (port, blocks)) {p : Nat} (hp : x.sys.threads.get p = none) (n execution : Nat)
    (act : Act) (who : String) :
    (runWhere Sys.step Always x.sys (acting p n act id ⟨execution, act.word, act.said id who port⟩)).map Sys.storage =
      some (x.act node id execution act who).1.sys.storage := by
  obtain ⟨hfailed, hport, -⟩ := takenBy_ok htaken
  simp [acting, runWhere, Always, Sys.step, hp, Thread.next, Thread.goOn, Choice.answer, Choice.Fresh, Thread.fromCalled, hr,
    hfailed, hport, Sys.stepped, Sys.effect, Thread.on, Thread.asksClaim, hfree, Thread.readUnderClaim, Thread.fromTaken,
    Storage.claim, Storage.Claimed, Waiting.act, htaken, Act.handOn, Thread.actHandOn]

/-- And its Message where a write of its thread leaves it. -/
theorem act_waits (hr : x.sys.storage.journeys.get id = some r) (hfree : x.sys.storage.claims.get id = none)
    (htaken : node.takenBy id r = .ok (port, blocks)) (execution : Nat) (act : Act) (who : String) (was : Option Journey)
    (result : Journey) :
    (x.act node id execution act who).1.waits = Write.after ⟨id, .act act, r, was, result⟩ x.waits := by
  obtain ⟨hfailed, hport, -⟩ := takenBy_ok htaken
  cases act with
  | retry => simp [Waiting.act, hr, hfailed, htaken, hfree, Act.handOn, Write.after]
  | dismiss => simp [Waiting.act, hr, hfailed, htaken, hfree, Act.handOn, Write.after, hport, leave]

end

/-! ### What a Dismiss lets go of -/

/-- Nothing of the Journey `id` stands in anybody's way: it holds no place of its own, keeps none it shares open, and is in
no queue. -/
structure Freed (x : Waiting) (id : Nat) : Prop where
  places : ∀ q, ¬ x.sys.storage.Holds (q, .journey id)
  shared : ∀ r, x.sys.storage.journeys.get id = some r → ∀ m, r.openFor m = false
  queue : x.waits.get id = none

variable {x : Waiting}

/-- A Dismiss of a Message of a Send Port the node sends is taken, and lets go of everything. -/
theorem Stands.freed (h : x.Stands) {id : Nat} {r : Journey} (hr : x.sys.storage.journeys.get id = some r)
    (hfailed : r.state = .failed) (hfree : x.sys.storage.claims.get id = none) {node : Node} {port : String} {blocks : Bool}
    (hport : r.sendPort = some port) (hsends : node.ports.lookup port = some blocks) (execution : Nat) (who : String) :
    (x.act node id execution .dismiss who).2 = .ok (Act.dismiss.said id who port) ∧
      Freed (x.act node id execution .dismiss who).1 id := by
  have htaken : node.takenBy id r = .ok (port, blocks) := by simp [Node.takenBy, hfailed, hport, hsends]
  have hact : x.act node id execution .dismiss who =
      (⟨{ x.sys with
          storage := (x.sys.storage.claim id x.sys.minted).handOn (Act.dismiss.handOn id x.sys.minted r port blocks
            ⟨execution, "dismiss", Act.dismiss.said id who port⟩).write
          minted := x.sys.minted + 1 }, leave id x.waits (.sendPort port)⟩, .ok (Act.dismiss.said id who port)) := by
    simp [act, hr, hfailed, htaken, hfree, Act.handOn, Act.word]
  rw [hact]
  generalize hentry : (⟨execution, "dismiss", Act.dismiss.said id who port⟩ : JourneyEntry) = entry
  generalize hhand : (Act.dismiss.handOn id x.sys.minted r port blocks entry).write = hand
  have hstorage : (x.sys.storage.claim id x.sys.minted).handOn hand =
      (x.sys.storage.claim id x.sys.minted).written hand := by
    subst hhand
    unfold Storage.handOn
    rw [if_pos]
    show (x.sys.storage.claim id x.sys.minted).claims.get id = some x.sys.minted
    simp [Storage.claim, hfree]
  refine ⟨rfl, ?_, ?_, ?_⟩
  · intro q hq
    change ((x.sys.storage.claim id x.sys.minted).handOn hand).Holds (q, .journey id) at hq
    rw [hstorage, written_holds] at hq
    obtain ⟨hheld | hqueued, hkept⟩ := hq
    · -- what it holds it was told, and what it was told it leaves
      have hheld' : x.sys.storage.Holds (q, .journey id) := by
        simpa [Storage.Holds, Storage.claim, hfree] using hheld
      obtain ⟨n, hn⟩ := hheld'
      obtain ⟨r', hr', hplace⟩ := h.path.lined.told hn rfl
      change x.sys.storage.journeys.get id = some r' at hr'
      rw [hr] at hr'
      cases hr'
      obtain ⟨sequenced, hsequenced, heq⟩ := List.mem_map.1 hplace
      have hleaves : q ∈ hand.leaves := by
        subst hhand
        exact List.mem_map.2 ⟨sequenced, hsequenced, (Prod.mk.inj heq).1⟩
      have hjourney : hand.journey = id := by
        subst hhand
        rfl
      simp [HandOn.letsGo, hleaves, hjourney] at hkept
    · subst hhand
      cases hqueued
  · intro r' hr' m
    change ((x.sys.storage.claim id x.sys.minted).handOn hand).journeys.get id = some r' at hr'
    have hresult : r' = r.append entry .dismissed := by
      rw [hstorage] at hr'
      subst hhand
      simpa [Storage.written, HandOn.journeys, Act.handOn, Thread.actHandOn] using hr'.symm
    rw [hresult]
    simp [Journey.openFor, Journey.append, Journey.isOpen]
  · obtain ⟨v, hv⟩ := Option.isSome_iff_exists.1 (h.stands id r hr (by simp [unfinished, hfailed]))
    have hpoint := h.failed id r hr hfailed v hv
    obtain ⟨r', hr', hto⟩ := h.known id v hv
    rw [hr] at hr'
    cases hr'
    have hwaits : v = ⟨.sendPort port, none⟩ := by
      obtain ⟨destination, heldBy⟩ := v
      cases destination with
      | sendPort name => simp_all [Subscriber.port]
      | workProcess name => simp [Subscriber.port, hport] at hto
    show (leave id x.waits (.sendPort port)).get id = none
    simp [leave, hv, hwaits]

/-- A Message that leads to no Send Port is refused, and everything stays as it was. -/
theorem act_of_no_sendPort {id : Nat} {r : Journey} (hr : x.sys.storage.journeys.get id = some r) (hfailed : r.state = .failed)
    (hport : r.sendPort = none) (node : Node) (execution : Nat) (act : Act) (who : String) :
    x.act node id execution act who =
      (x, .error ("REFUSED: the Message of the Journey " ++ toString id ++ " leads to no Send Port")) := by
  have htaken : node.takenBy id r =
      .error ("REFUSED: the Message of the Journey " ++ toString id ++ " leads to no Send Port") := by
    simp [Node.takenBy, hfailed, hport]
  simp [Waiting.act, hr, hfailed, htaken]

/-- **A blocked sequence is unblocked at a Send Port, and nowhere else.**  In every state reached, a Dismiss of a Message that
failed, on a node that serves where it leads, its claim free, is taken and lets go of every place and of its queue exactly
where it waits at a Send Port: one that failed at a Work Process is refused. -/
theorem freed_iff_sendPort (h : Reach Waiting.step Always Opening x) {id : Nat} {r : Journey}
    (hr : x.sys.storage.journeys.get id = some r) (hfailed : r.state = .failed) (hfree : x.sys.storage.claims.get id = none)
    {node : Node} (hserves : ∀ v, x.waits.get id = some v → node.Serves v.destination) (execution : Nat) (who : String) :
    ((∃ said, (x.act node id execution .dismiss who).2 = .ok said) ∧ Freed (x.act node id execution .dismiss who).1 id) ↔
      ∃ v port, x.waits.get id = some v ∧ v.destination = .sendPort port := by
  have hstands := stands_of_reach h
  obtain ⟨v, hv⟩ := Option.isSome_iff_exists.1 (hstands.stands id r hr (by simp [unfinished, hfailed]))
  obtain ⟨r', hr', hport⟩ := hstands.known id v hv
  rw [hr] at hr'
  cases hr'
  have hnode := hserves v hv
  cases hto : v.destination with
  | sendPort port =>
    rw [hto] at hport hnode
    obtain ⟨blocks, hsends⟩ := Option.isSome_iff_exists.1 hnode
    obtain ⟨hsaid, hfreed⟩ := hstands.freed hr hfailed hfree hport.symm hsends execution who
    exact ⟨fun _ => ⟨v, port, hv, hto⟩, fun _ => ⟨⟨_, hsaid⟩, hfreed⟩⟩
  | workProcess name =>
    rw [hto] at hport
    constructor
    · rintro ⟨⟨said, hsaid⟩, -⟩
      rw [act_of_no_sendPort hr hfailed hport.symm] at hsaid
      cases hsaid
    · rintro ⟨v', port, hv', hto'⟩
      rw [hv] at hv'
      cases hv'
      rw [hto] at hto'
      cases hto'

/-! ### One failed at a Send Port, one at a Work Process -/

/-- A cluster with nothing in it, every destination naming a Correlation of one key that blocks. -/
def blocking : Waiting := ⟨{ Sys.unsequenced with config := ⟨fun _ => [⟨7, false⟩], fun _ => 0⟩ }, Table.empty⟩

private theorem opening_blocking : Opening blocking := ⟨⟨rfl, rfl, rfl, fun _ => rfl, rfl, rfl, rfl, rfl, rfl⟩, rfl⟩

/-- A Message published to `destination`, taken up there and let through its place in the sequence. -/
def letIn (destination : Subscriber) (kind : Kind) : List (Action × (Nat → Waits)) :=
  ([.publish ⟨1, [], false⟩ [⟨none, [(11, destination.port)]⟩], .call 1 0 kind 11, .run 1 (.go true), .run 1 (.go true),
    .run 1 (.go true), .run 1 (.go true), .run 1 (.go true), .run 1 (.go true), .run 1 (.go true)] : List Action).map
    fun a => (a, fun _ => ⟨destination, none⟩)

def node : Node := ⟨"node-1", [("Out", true)], ["Billing"]⟩

/-- Failed at its Send Port, the Message blocks its key until it is dismissed. -/
theorem freed_at_a_sendPort : ∃ x, Reach Waiting.step Always Opening x ∧ x.sys.storage.Holds (.point 7, .journey 11) ∧
    (∃ said, (x.act node 11 3 .dismiss "op").2 = .ok said) ∧ Freed (x.act node 11 3 .dismiss "op").1 11 := by
  obtain ⟨x, hx, hp⟩ := Reach.exists_of_runWhere Waiting.step Always opening_blocking
    (letIn (.sendPort "Out") .send ++ [(.run 1 (.sent .failed 1 ⟨1, "send", "refused"⟩), fun _ => ⟨.sendPort "Out", none⟩)])
    (fun x => decide ((∃ r ∈ x.sys.storage.journeys.get 11, r.state = .failed) ∧ x.sys.storage.claims.get 11 = none ∧
      x.waits.get 11 = some ⟨.sendPort "Out", none⟩ ∧ x.sys.storage.Holds (.point 7, .journey 11))) (by decide +kernel)
  obtain ⟨⟨r, hr, hfailed⟩, hfree, hwaits, hplace⟩ := of_decide_eq_true hp
  refine ⟨x, hx, hplace, (freed_iff_sendPort hx hr hfailed hfree ?_ 3 "op").2 ⟨_, "Out", hwaits, rfl⟩⟩
  intro v hv
  rw [hwaits] at hv
  cases hv
  decide

/-- Failed at its Work Process, the Message is no operator's to dismiss: it holds its place on. -/
theorem blocked_at_a_workProcess : ∃ x, Reach Waiting.step Always Opening x ∧
    x.sys.storage.Holds (.point 7, .journey 11) ∧ (∃ r ∈ x.sys.storage.journeys.get 11, r.state = .failed) ∧
    x.sys.storage.claims.get 11 = none ∧ (∀ v ∈ x.waits.get 11, node.Serves v.destination) ∧
    x.act node 11 3 .dismiss "op" = (x, .error "REFUSED: the Message of the Journey 11 leads to no Send Port") := by
  obtain ⟨x, hx, hp⟩ := Reach.exists_of_runWhere Waiting.step Always opening_blocking
    (letIn (.workProcess "Billing") .turn ++ [(.run 1 (.turned .failed [] "Billing"), fun _ => ⟨.workProcess "Billing", none⟩)])
    (fun x => decide ((∃ r ∈ x.sys.storage.journeys.get 11, r.state = .failed ∧ r.sendPort = none) ∧
      x.sys.storage.claims.get 11 = none ∧ (∀ v ∈ x.waits.get 11, node.Serves v.destination) ∧
      x.sys.storage.Holds (.point 7, .journey 11))) (by decide +kernel)
  obtain ⟨⟨r, hr, hfailed, hport⟩, hfree, hserves, hplace⟩ := of_decide_eq_true hp
  refine ⟨x, hx, hplace, ⟨r, hr, hfailed⟩, hfree, hserves, ?_⟩
  exact act_of_no_sendPort hr hfailed hport node 3 .dismiss "op"

end Waiting

end Cluster
