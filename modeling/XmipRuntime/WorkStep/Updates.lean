import XmipRuntime.WorkStep.Runs

/-!
# An Instance never loses an update

Every Instance's state written is what one Message's events make of the state written last before it, whatever turns
interleave, on any number of nodes, and whether the Instance ended in between and was started again.  Two things carry
it.  What a turn read of its own Journey stays so while its claim stands, since only a turn under the claim writes it
(`Sound`).  And a turn's number only ever grows, so a record with the number a turn read is the record it read
(`Lineage`).
-/

namespace WorkStep

open Library Ledger

variable {σ μ β : Type} (c : Setup σ μ β)

/-! ### What a turn knows of its Journey -/

/-- A turn under way: what it read of its Message, and of its Journey while its claim stands. -/
structure Turning.Sound (s : Sys β) (t : Turning β) : Prop where
  minted : t.claim.token < s.minted
  message : s.storage.messages.get t.claim.journey = some t.message
  live : ∀ journey, t.phase.journey? = some journey → journey.live = true
  stands : s.storage.Claimed t.claim → ∀ journey, t.phase.journey? = some journey →
    ∃ j, s.storage.journeys.get t.claim.journey = some j ∧ j.state = journey.state
  computed : ∀ journey r, t.phase = .ready journey r → t.Computes c journey r

structure Sound (s : Sys β) : Prop where
  turning : ∀ t ∈ s.turning, t.Sound c s
  tokens : (s.turning.map fun t => t.claim.token).Nodup
  claims : ∀ id token, s.storage.claims.get id = some token → token < s.minted
  known : ∀ id m, s.storage.messages.get id = some m → ∃ j, s.storage.journeys.get id = some j

variable {c} {s s' : Sys β} {rest : List (Turning β)} {t : Turning β}

/-- A turn a step is not of: its Message is as it was, and where its claim stands, it stood and its Journey is in the
state it was in. -/
theorem Turning.Sound.of_kept (ht : t.Sound c s) (hminted : s.minted ≤ s'.minted)
    (hmessage : s'.storage.messages.get t.claim.journey = s.storage.messages.get t.claim.journey)
    (hstands : s'.storage.Claimed t.claim → s.storage.Claimed t.claim ∧
      ∀ j, s.storage.journeys.get t.claim.journey = some j →
        ∃ j', s'.storage.journeys.get t.claim.journey = some j' ∧ j'.state = j.state) : t.Sound c s' where
  minted := Nat.lt_of_lt_of_le ht.minted hminted
  message := hmessage.trans ht.message
  live := ht.live
  stands := by
    intro hclaimed journey hjourney
    obtain ⟨hwas, hkept⟩ := hstands hclaimed
    obtain ⟨j, hj, hstate⟩ := ht.stands hwas journey hjourney
    obtain ⟨j', hj', hstate'⟩ := hkept j hj
    exact ⟨j', hj', hstate'.trans hstate⟩
  computed := ht.computed

/-- The turns but the one a step is of have other tokens. -/
theorem Sound.other (hs : Sound c s) {n : Nat} (hpick : pick s.turning n = some (t, rest)) :
    t.Sound c s ∧ (∀ u ∈ rest, u.Sound c s ∧ u.claim.token ≠ t.claim.token) ∧
      (rest.map fun u => u.claim.token).Nodup := by
  have hnd : (((t :: rest).map fun u => u.claim.token)).Nodup := ((pick_perm hpick).map _).nodup_iff.2 hs.tokens
  rw [List.map_cons, List.nodup_cons] at hnd
  refine ⟨hs.turning t (mem_of_pick hpick), ?_, hnd.2⟩
  intro u hu
  refine ⟨hs.turning u (mem_of_mem_pick hpick hu), ?_⟩
  intro heq
  exact hnd.1 (heq ▸ List.mem_map_of_mem (f := fun u : Turning β => u.claim.token) hu)

/-- A claim on the Journey of the turn `t`, whose claim stands, is `t`'s. -/
private theorem not_claimed_of_token {u : Turning β} (ht : s.storage.Claimed t.claim)
    (htoken : u.claim.token ≠ t.claim.token) (hu : s.storage.Claimed u.claim) :
    u.claim.journey ≠ t.claim.journey := by
  intro heq
  unfold Storage.Claimed at ht hu
  rw [heq, ht] at hu
  exact htoken (Option.some.inj hu).symm

/-- A Journey handed on under `t`'s claim: every other turn is as sound as it was. -/
private theorem Sound.handedOn (hs : Sound c s) {n : Nat} (hpick : pick s.turning n = some (t, rest)) {h : HandOn}
    (hjourney : h.journey = t.claim.journey) (hfresh : s.storage.Fresh h.next) {storage : Storage β}
    (hjourneys : storage.journeys = (s.storage.handedOn c h).journeys)
    (hmessages : storage.messages = (s.storage.handedOn c h).messages)
    (hclaims : storage.claims = (s.storage.handedOn c h).claims) (log : List (Write β)) :
    Sound c { s with storage, turning := rest, log } := by
  obtain ⟨ht, hrest, hnd⟩ := hs.other hpick
  have hget : ∀ id token, storage.claims.get id = some token → id ≠ t.claim.journey ∧
      s.storage.claims.get id = some token := by
    intro id token hid
    rw [hclaims, Storage.handedOn_claims, hjourney, Table.get_drop] at hid
    split at hid
    · cases hid
    · exact ⟨‹_›, hid⟩
  refine ⟨?_, hnd, ?_, ?_⟩
  · intro u hu
    obtain ⟨j, hj⟩ := hs.known _ _ (hrest u hu).1.message
    refine (hrest u hu).1.of_kept (Nat.le_refl _) ?_ ?_
    · show storage.messages.get _ = _
      rw [hmessages]
      exact (Storage.handedOn_known hfresh hj).2.1
    · intro hclaimed
      obtain ⟨hne, hwas⟩ := hget _ _ hclaimed
      refine ⟨hwas, ?_⟩
      intro j hj
      refine ⟨j, ?_, rfl⟩
      show storage.journeys.get _ = _
      rw [hjourneys, (Storage.handedOn_known hfresh hj).1, hjourney, if_neg hne]
  · exact fun id token hid => hs.claims id token (hget id token hid).2
  · intro id m hm
    show ∃ j, storage.journeys.get id = some j
    change storage.messages.get id = some m at hm
    rw [hjourneys]
    rw [hmessages] at hm
    rcases Storage.handedOn_get (c := c) (s := s.storage) h id with ⟨o, -, -, hj, -⟩ | ⟨-, hj, hmsg, -⟩
    · exact ⟨o.journey, hj⟩
    · rw [hmsg] at hm
      obtain ⟨j, hknown⟩ := hs.known id m hm
      rw [hj, hknown]
      split
      · exact ⟨h.result, rfl⟩
      · exact ⟨j, rfl⟩

/-- A turn that goes on: what it reads is so. -/
private theorem Turning.Sound.goesOn (ht : t.Sound c s) {phase : Phase β} (h : t.Enters c s.storage phase)
    (turning : List (Turning β)) : ({ t with phase } : Turning β).Sound c { s with turning } := by
  cases phase with
  | claimed => exact h.elim
  | read journey =>
    refine ⟨ht.minted, ht.message, ?_, ?_, fun _ _ hr => by cases hr⟩
    · rintro _ ⟨⟩
      exact h.2
    · rintro - _ ⟨⟩
      exact ⟨journey, h.1, rfl⟩
  | looking journey _ _ =>
    refine ⟨ht.minted, ht.message, ?_, ?_, fun _ _ hr => by cases hr⟩
    · rintro _ ⟨⟩
      exact ht.live journey h
    · rintro hclaimed _ ⟨⟩
      exact ht.stands hclaimed journey h
  | found journey _ _ =>
    refine ⟨ht.minted, ht.message, ?_, ?_, fun _ _ hr => by cases hr⟩
    · rintro _ ⟨⟩
      exact ht.live journey h
    · rintro hclaimed _ ⟨⟩
      exact ht.stands hclaimed journey h
  | failing journey _ =>
    refine ⟨ht.minted, ht.message, ?_, ?_, fun _ _ hr => by cases hr⟩
    · rintro _ ⟨⟩
      exact ht.live journey h
    · rintro hclaimed _ ⟨⟩
      exact ht.stands hclaimed journey h
  | ready journey r =>
    refine ⟨ht.minted, ht.message, ?_, ?_, ?_⟩
    · rintro _ ⟨⟩
      exact ht.live journey h.1
    · rintro hclaimed _ ⟨⟩
      exact ht.stands hclaimed journey h.1
    · rintro _ _ ⟨⟩
      exact h.2.2

theorem Turning.Computes.claim {journey : Journey} {r : Ready β} (h : t.Computes c journey r) :
    r.turn.handOn.journey = t.claim.journey ∧ r.turn.handOn.token = t.claim.token := by
  obtain ⟨keys, htake, -⟩ := h
  obtain ⟨_, _, _, -, -, -, hturn⟩ := take_cases htake
  rw [hturn]
  exact ⟨rfl, rfl⟩

theorem Sound.moved (hs : Sound c s) {n : Nat} (hpick : pick s.turning n = some (t, rest)) {move : Move}
    (h : Moved c s rest t move s') : Sound c s' := by
  obtain ⟨ht, hrest, hnd⟩ := hs.other hpick
  have htokens : ∀ phase : Phase β,
      (({ t with phase } :: rest).map fun u : Turning β => u.claim.token).Nodup := by
    intro phase
    rw [List.map_cons, List.nodup_cons]
    refine ⟨?_, hnd⟩
    intro hm
    obtain ⟨u, hu, heq⟩ := List.mem_map.1 hm
    exact (hrest u hu).2 heq
  cases h with
  | goesOn h =>
    refine ⟨?_, htokens _, hs.claims, hs.known⟩
    intro u hu
    rcases List.mem_cons.1 hu with rfl | hu
    · exact ht.goesOn h _
    · exact (hrest u hu).1.of_kept (Nat.le_refl _) rfl fun hclaimed => ⟨hclaimed, fun j hj => ⟨j, hj, rfl⟩⟩
  | leaves h =>
    rename_i storage
    have hkept : storage.journeys = s.storage.journeys ∧ storage.messages = s.storage.messages ∧
        ∀ id token, storage.claims.get id = some token → s.storage.claims.get id = some token := by
      rcases h with rfl | rfl
      · exact ⟨rfl, rfl, fun _ _ hid => hid⟩
      · rw [Storage.release_eq]
        exact ⟨rfl, rfl, fun _ _ hid => Storage.release_claims hid⟩
    refine ⟨?_, hnd, fun id token hid => hs.claims id token (hkept.2.2 id token hid), ?_⟩
    · intro u hu
      refine (hrest u hu).1.of_kept (Nat.le_refl _) (by rw [hkept.2.1]) ?_
      intro hclaimed
      exact ⟨hkept.2.2 _ _ hclaimed, fun j hj => ⟨j, by rw [hkept.1, hj], rfl⟩⟩
    · rw [hkept.1, hkept.2.1]
      exact hs.known
  | placed hphase hclaimed =>
    rename_i journey sequences
    have hjourney : t.phase.journey? = some journey := by rw [hphase]; rfl
    refine ⟨?_, htokens _, hs.claims, ?_⟩
    · intro u hu
      rcases List.mem_cons.1 hu with rfl | hu
      · refine ⟨ht.minted, ht.message, ?_, ?_, fun _ _ hr => by cases hr⟩
        · rintro _ ⟨⟩
          exact ht.live journey hjourney
        · rintro - _ ⟨⟩
          exact ⟨_, Table.get_put_self .., rfl⟩
      · refine (hrest u hu).1.of_kept (Nat.le_refl _) rfl ?_
        intro hu'
        refine ⟨hu', fun j hj => ⟨j, ?_, rfl⟩⟩
        show (s.storage.journeys.put _ _).get _ = _
        rw [Table.get_put_of_ne _ (not_claimed_of_token hclaimed (hrest u hu).2 hu')]
        exact hj
    · intro id m hm
      show ∃ j, (s.storage.journeys.put _ _).get id = some j
      rw [Table.get_put]
      split
      · exact ⟨_, rfl⟩
      · exact hs.known id m hm
  | written hphase haccepts hfresh =>
    refine hs.handedOn hpick (ht.computed _ _ hphase).claim.1 hfresh ?_ ?_ ?_ _ <;> rfl
  | failed hphase hclaimed =>
    rename_i journey why
    exact hs.handedOn hpick (h := Taking.fail ⟨t.claim, journey, t.message⟩ (c.running t.message.process) why) rfl
      ⟨List.nodup_nil, fun o ho => by cases ho⟩ rfl rfl rfl _

/-- A Message that arrives is none of those in a turn. -/
theorem Sound.arrived (hs : Sound c s) {o : Opened} (h : s.step c (.arrive o) = some s') : Sound c s' := by
  simp only [Sys.step, Sys.arrive] at h
  split at h
  · rename_i hfresh
    cases h
    have hnew := (hfresh.2 o (List.mem_cons_self ..)).1
    have hne : ∀ id j, s.storage.journeys.get id = some j → id ≠ o.id := by
      rintro id j hid rfl
      rw [hnew] at hid
      cases hid
    refine ⟨?_, hs.tokens, hs.claims, ?_⟩
    · intro u hu
      obtain ⟨j, hj⟩ := hs.known _ _ (hs.turning u hu).message
      have hu' := hne _ j hj
      refine (hs.turning u hu).of_kept (Nat.le_refl _) (Table.get_put_of_ne _ hu' _) ?_
      intro hclaimed
      exact ⟨hclaimed, fun j hj => ⟨j, (Table.get_put_of_ne _ hu' _).trans hj, rfl⟩⟩
    · intro id m hm
      show ∃ j, (s.storage.journeys.put _ _).get id = some j
      change (s.storage.messages.put _ _).get id = some m at hm
      rw [Table.get_put] at hm ⊢
      split
      · exact ⟨_, rfl⟩
      · rw [if_neg ‹_›] at hm
        exact hs.known id m hm
  · cases h

/-- A claim is granted under a token minted for it. -/
theorem Sound.claimed (hs : Sound c s) {id : Nat} (h : s.step c (.claim id) = some s') : Sound c s' := by
  simp only [Sys.step, Sys.claim] at h
  split at h
  · rename_i message hmessage hclaims
    cases h
    refine ⟨?_, ?_, ?_, hs.known⟩
    · intro u hu
      rcases List.mem_cons.1 hu with rfl | hu
      · exact ⟨Nat.lt_succ_self _, hmessage, fun _ hj => (by cases hj), fun _ _ hj => (by cases hj),
          fun _ _ hr => (by cases hr)⟩
      · refine (hs.turning u hu).of_kept (Nat.le_succ _) rfl ?_
        intro hclaimed
        refine ⟨?_, fun j hj => ⟨j, hj, rfl⟩⟩
        change (s.storage.claims.put id s.minted).get u.claim.journey = _ at hclaimed
        rw [Table.get_put] at hclaimed
        split at hclaimed
        · have := (hs.turning u hu).minted
          have := Option.some.inj hclaimed
          omega
        · exact hclaimed
    · show (s.minted :: s.turning.map fun u => u.claim.token).Nodup
      rw [List.nodup_cons]
      refine ⟨?_, hs.tokens⟩
      intro hm
      obtain ⟨u, hu, heq⟩ := List.mem_map.1 hm
      have := (hs.turning u hu).minted
      omega
    · intro k token hk
      change (s.storage.claims.put id s.minted).get k = _ at hk
      show token < s.minted + 1
      rw [Table.get_put] at hk
      split at hk
      · have := Option.some.inj hk
        omega
      · have := hs.claims k token hk
        omega
  · cases h

theorem Sound.step (hs : Sound c s) {a : Action} (h : s.step c a = some s') : Sound c s' := by
  cases a with
  | arrive o => exact hs.arrived h
  | claim id => exact hs.claimed h
  | lapse id =>
    cases h
    have hget : ∀ k token, (s.storage.claims.drop id).get k = some token → s.storage.claims.get k = some token := by
      intro k token hk
      rw [Table.get_drop] at hk
      split at hk
      · cases hk
      · exact hk
    refine ⟨?_, hs.tokens, fun k token hk => hs.claims k token (hget k token hk), hs.known⟩
    intro u hu
    exact (hs.turning u hu).of_kept (Nat.le_refl _) rfl fun hclaimed =>
      ⟨hget _ _ hclaimed, fun j hj => ⟨j, hj, rfl⟩⟩
  | turn n move =>
    obtain ⟨⟨t, rest⟩, hpick, hmove⟩ := Option.bind_eq_some_iff.1 h
    exact hs.moved hpick (turns_cases hmove)

theorem sound_of_starting (h : Starting s) : Sound c s := by
  subst h
  exact ⟨fun t ht => (by cases ht), List.nodup_nil, fun _ _ h => (by cases h), fun _ _ h => (by cases h)⟩

/-! ### What is written over what -/

/-- The record of the Instance `id` written last in `log`, the latest first. -/
def lastOf (log : List (Write β)) (id : Nat) : Option (InstanceRecord β) :=
  (log.find? fun w => decide (w.id = id)).map Write.record

/-- The turn a record was written at; 0 where there is none. -/
def turnOf (record : Option (InstanceRecord β)) : Nat := record.elim 0 InstanceRecord.turns

variable (c) in
/-- `w` is one Message's events applied to the state `base`, under a greater number. -/
structure Write.Applies (w : Write β) (base : Option (InstanceRecord β)) : Prop where
  read : w.base = base
  /-- The event is the Message's: its timer's, or its arrival. -/
  event : w.event = .due ∨
    ∃ keys arrival, (c.running w.message.process).arrival w.message keys = .ok arrival ∧ w.event = .arrived arrival
  /-- The state written is what the unit made of `base`, or of a new Instance where there is none or it ended. -/
  result : ∃ i, c.begins base = .ok i ∧
    w.record.body = c.form.write (advance (c.running w.message.process).flow c.acts
      (c.acts.starting w.message w.claim.token) i w.event w.now).instance_
  further : turnOf base < w.record.turns

variable (c) in
/-- Each write is of the state written last before it. -/
def Lineage : List (Write β) → Prop
  | [] => True
  | w :: log => w.Applies c (lastOf log w.id) ∧ Lineage log

variable (c) in
/-- No update of an Instance is lost. -/
structure NoLostUpdate (s : Sys β) : Prop where
  lineage : Lineage c s.log
  /-- What is kept is what was written last. -/
  kept : ∀ id, s.storage.instances.get id = lastOf s.log id
  /-- A turn is written once. -/
  once : (s.log.map fun w => w.claim.token).Nodup
  /-- A Message's arrival is applied to one state. -/
  arrivals : ((s.log.filter fun w => w.event.isArrival).map fun w => w.claim.journey).Nodup

/-- Of two records of one Instance written, the later has the greater number. -/
theorem Lineage.turns {log : List (Write β)} (h : Lineage c log) {w : Write β} (hw : w ∈ log) :
    ∃ last, lastOf log w.id = some last ∧ w.record.turns ≤ last.turns ∧ (w.record.turns = last.turns → w.record = last) := by
  induction log with
  | nil => cases hw
  | cons v log ih =>
    obtain ⟨hv, hlog⟩ := h
    by_cases hid : v.id = w.id
    · have hlast : lastOf (v :: log) w.id = some v.record := by simp [lastOf, hid]
      refine ⟨v.record, hlast, ?_⟩
      rcases List.mem_cons.1 hw with rfl | hw
      · exact ⟨Nat.le_refl _, fun _ => rfl⟩
      · obtain ⟨last, hbase, hle, -⟩ := ih hlog hw
        have hfurther := hv.further
        rw [hid, hbase] at hfurther
        change last.turns < v.record.turns at hfurther
        exact ⟨by omega, fun heq => by omega⟩
    · rcases List.mem_cons.1 hw with rfl | hw
      · exact absurd rfl hid
      · have hlast : lastOf (v :: log) w.id = lastOf log w.id := by simp [lastOf, hid]
        rw [hlast]
        exact ih hlog hw

theorem Lineage.pos {log : List (Write β)} (h : Lineage c log) {id : Nat} {record : InstanceRecord β}
    (hlast : lastOf log id = some record) : 0 < record.turns := by
  induction log with
  | nil => cases hlast
  | cons v log ih =>
    obtain ⟨hv, hlog⟩ := h
    by_cases hid : v.id = id
    · have : lastOf (v :: log) id = some v.record := by simp [lastOf, hid]
      rw [this] at hlast
      cases hlast
      exact Nat.lt_of_le_of_lt (Nat.zero_le _) hv.further
    · have : lastOf (v :: log) id = lastOf log id := by simp [lastOf, hid]
      exact ih hlog (this ▸ hlast)

/-! ### Its invariant -/

/-- A Journey whose Message's arrival was taken: no longer as it was opened. -/
def Begun (j : Journey) : Prop := j.state ≠ .active ∧ j.state ≠ .recovering

variable (c) in
structure Kept (s : Sys β) : Prop where
  sound : Sound c s
  updates : NoLostUpdate c s
  /-- What a turn read of its Instance was written. -/
  based : ∀ t ∈ s.turning, ∀ journey r, t.phase = .ready journey r → ∀ record, r.base = some record →
    ∃ w ∈ s.log, w.id = r.turn.id ∧ w.record = record
  /-- A turn written is over. -/
  spent : ∀ w ∈ s.log, w.claim.token < s.minted ∧ ∀ t ∈ s.turning, t.claim.token ≠ w.claim.token
  begun : ∀ w ∈ s.log, w.event.isArrival = true →
    ∃ j, s.storage.journeys.get w.claim.journey = some j ∧ Begun j

/-- What a ready turn writes over is the record it read, where Xmip Storage takes it. -/
theorem Kept.base_eq (hs : Kept c s) (ht : t ∈ s.turning) {journey : Journey} {r : Ready β}
    (hphase : t.phase = .ready journey r) (haccepts : s.storage.Accepts r.turn) :
    r.base = lastOf s.log r.turn.id := by
  obtain ⟨keys, htake, -⟩ := (hs.sound.turning t ht).computed _ _ hphase
  obtain ⟨_, _, _, -, -, -, hturn⟩ := take_cases htake
  have hread : r.turn.read = turnOf r.base := by
    rw [hturn]
    rfl
  have hturns : turnOf (lastOf s.log r.turn.id) = turnOf r.base := by
    rw [← hread, ← hs.updates.kept]
    exact haccepts.2.1
  cases hbase : r.base with
  | none =>
    cases hlast : lastOf s.log r.turn.id with
    | none => rfl
    | some last =>
      have hpos := hs.updates.lineage.pos hlast
      rw [hlast, hbase] at hturns
      change last.turns = 0 at hturns
      omega
  | some record =>
    obtain ⟨w, hw, hid, rfl⟩ := hs.based t ht _ _ hphase _ hbase
    obtain ⟨last, hlast, -, heq⟩ := hs.updates.lineage.turns hw
    rw [hid] at hlast
    rw [hlast, hbase] at hturns
    rw [hlast, heq hturns.symm]

private theorem event_cases {t : Taking} {running : Running σ} {keys : List (Nat × String)} {event : Event}
    (h : t.event running keys = .ok event) :
    t.journey.state = .waiting ∧ event = .due ∨
      t.journey.state ≠ .waiting ∧ ∃ arrival, running.arrival t.message keys = .ok arrival ∧ event = .arrived arrival := by
  unfold Taking.event at h
  split at h
  · rename_i hwaiting
    cases h
    exact .inl ⟨hwaiting, rfl⟩
  · rename_i hwaiting
    refine .inr ⟨hwaiting, ?_⟩
    cases harrival : running.arrival t.message keys with
    | error why => rw [harrival] at h; cases h
    | ok arrival =>
      rw [harrival] at h
      cases h
      exact ⟨arrival, rfl, rfl⟩

/-- The write of a ready turn applies its Message's events to what it read. -/
private theorem Kept.applies (hs : Kept c s) (ht : t ∈ s.turning) {journey : Journey} {r : Ready β}
    (hphase : t.phase = .ready journey r) (haccepts : s.storage.Accepts r.turn) :
    Write.Applies c ⟨t.claim, t.message, r.event, r.now, r.base, r.turn.id, r.turn.record⟩
      (lastOf s.log r.turn.id) := by
  have hbase := hs.base_eq ht hphase haccepts
  obtain ⟨keys, htake, hevent⟩ := (hs.sound.turning t ht).computed _ _ hphase
  obtain ⟨i, event, ended, hi, hevent', -, hturn⟩ := take_cases htake
  rw [hevent] at hevent'
  cases hevent'
  rw [← hbase]
  refine ⟨rfl, ?_, ⟨i, hi, ?_⟩, ?_⟩
  · rcases event_cases hevent with ⟨-, hdue⟩ | ⟨-, arrival, harrival, hevent⟩
    · exact .inl hdue
    · exact .inr ⟨keys, arrival, harrival, hevent⟩
  · show r.turn.record.body = _
    rw [hturn]
    rfl
  · show _ < r.turn.record.turns
    rw [hturn]
    exact Nat.lt_of_lt_of_le (Nat.lt_succ_self _) (Nat.le_max_right ..)

/-- A turn's Journey is as it was opened where the event its turn takes is its arrival, and its claim stands. -/
private theorem not_begun_of_arrival (ht : t.Sound c s) {journey : Journey} {r : Ready β}
    (hphase : t.phase = .ready journey r) (hclaimed : s.storage.Claimed t.claim) (harrival : r.event.isArrival = true) :
    ∃ j, s.storage.journeys.get t.claim.journey = some j ∧ ¬ Begun j := by
  have hjourney : t.phase.journey? = some journey := by rw [hphase]; rfl
  obtain ⟨j, hj, hstate⟩ := ht.stands hclaimed journey hjourney
  refine ⟨j, hj, ?_⟩
  have hlive := ht.live journey hjourney
  obtain ⟨keys, -, hevent⟩ := ht.computed _ _ hphase
  rcases event_cases hevent with ⟨-, hdue⟩ | ⟨hwaiting, -⟩
  · rw [hdue] at harrival
    cases harrival
  · unfold Begun
    rw [hstate]
    change journey.state ≠ .waiting at hwaiting
    revert hlive hwaiting
    unfold Journey.live
    cases journey.state <;> simp

private theorem begun_of_stateOf {j : Journey} {ended : Option Outcome} {due : Option Int}
    (h : j.state = stateOf ended due) : Begun j := by
  unfold Begun
  rw [h]
  unfold stateOf
  split <;> simp

private theorem mem_of_lastOf {log : List (Write β)} {id : Nat} {record : InstanceRecord β}
    (h : lastOf log id = some record) : ∃ w ∈ log, w.id = id ∧ w.record = record := by
  obtain ⟨w, hw, rfl⟩ := Option.map_eq_some_iff.1 h
  exact ⟨w, List.mem_of_find?_eq_some hw, by simpa using List.find?_some hw, rfl⟩

theorem NoLostUpdate.of_same (h : NoLostUpdate c s) (hlog : s'.log = s.log)
    (hinstances : s'.storage.instances = s.storage.instances) : NoLostUpdate c s' := by
  refine ⟨?_, ?_, ?_, ?_⟩
  · exact hlog ▸ h.lineage
  · rw [hlog, hinstances]
    exact h.kept
  · rw [hlog]
    exact h.once
  · rw [hlog]
    exact h.arrivals

/-- A Journey begun stays begun, whatever is handed on that leaves its own so. -/
private theorem begun_handedOn {h : HandOn} (hfresh : s.storage.Fresh h.next) (hresult : Begun h.result) {id : Nat}
    (hid : ∃ j, s.storage.journeys.get id = some j ∧ Begun j) :
    ∃ j, (s.storage.handedOn c h).journeys.get id = some j ∧ Begun j := by
  obtain ⟨j, hj, hbegun⟩ := hid
  rw [(Storage.handedOn_known hfresh hj).1]
  split
  · exact ⟨_, rfl, hresult⟩
  · exact ⟨j, rfl, hbegun⟩

/-- A turn written: its write joins the lineage. -/
private theorem Kept.written (hs : Kept c s) {n : Nat} (hpick : pick s.turning n = some (t, rest)) {journey : Journey}
    {r : Ready β} (hphase : t.phase = .ready journey r) (haccepts : s.storage.Accepts r.turn)
    (hfresh : s.storage.Fresh r.turn.handOn.next) :
    Kept c
      { s with
        storage := s.storage.turned c r.turn
        turning := rest
        log := ⟨t.claim, t.message, r.event, r.now, r.base, r.turn.id, r.turn.record⟩ :: s.log } := by
  have ht := mem_of_pick hpick
  have hsound := hs.sound.turning t ht
  have hcomputes := hsound.computed _ _ hphase
  have hclaimed : s.storage.Claimed t.claim := by
    have := haccepts.1
    rwa [hcomputes.claim.1, hcomputes.claim.2] at this
  have hresult : Begun r.turn.handOn.result := by
    obtain ⟨keys, htake, -⟩ := hcomputes
    obtain ⟨_, _, _, -, -, -, hturn⟩ := take_cases htake
    rw [hturn]
    exact begun_of_stateOf rfl
  refine ⟨hs.sound.moved hpick (.written hphase haccepts hfresh), ⟨?_, ?_, ?_, ?_⟩, ?_, ?_, ?_⟩
  · exact ⟨hs.applies ht hphase haccepts, hs.updates.lineage⟩
  · intro id
    show (s.storage.instances.put r.turn.id r.turn.record).get id = _
    rw [Table.get_put]
    by_cases hid : id = r.turn.id
    · rw [if_pos hid]
      simp [lastOf, hid]
    · have : ¬ r.turn.id = id := fun h => hid h.symm
      rw [if_neg hid, hs.updates.kept]
      simp [lastOf, this]
  · rw [List.map_cons, List.nodup_cons]
    refine ⟨?_, hs.updates.once⟩
    intro hm
    obtain ⟨w, hw, heq⟩ := List.mem_map.1 hm
    exact (hs.spent w hw).2 t ht heq.symm
  · rw [List.filter_cons]
    split
    · rename_i harrival
      rw [List.map_cons, List.nodup_cons]
      refine ⟨?_, hs.updates.arrivals⟩
      intro hm
      obtain ⟨w, hw, heq⟩ := List.mem_map.1 hm
      obtain ⟨hw, hwarrival⟩ := List.mem_filter.1 hw
      obtain ⟨j, hj, hbegun⟩ := hs.begun w hw hwarrival
      obtain ⟨j', hj', hnot⟩ := not_begun_of_arrival hsound hphase hclaimed harrival
      change w.claim.journey = t.claim.journey at heq
      rw [heq, hj'] at hj
      exact hnot (Option.some.inj hj ▸ hbegun)
    · exact hs.updates.arrivals
  · intro u hu journey' r' hr' record hrecord
    obtain ⟨w, hw, hrest⟩ := hs.based u (mem_of_mem_pick hpick hu) _ _ hr' _ hrecord
    exact ⟨w, List.mem_cons_of_mem _ hw, hrest⟩
  · intro w hw
    rcases List.mem_cons.1 hw with rfl | hw
    · exact ⟨hsound.minted, fun u hu => ((hs.sound.other hpick).2.1 u hu).2⟩
    · exact ⟨(hs.spent w hw).1, fun u hu => (hs.spent w hw).2 u (mem_of_mem_pick hpick hu)⟩
  · intro w hw harrival
    rcases List.mem_cons.1 hw with rfl | hw
    · obtain ⟨j, hj, -⟩ := not_begun_of_arrival hsound hphase hclaimed harrival
      refine ⟨r.turn.handOn.result, ?_, hresult⟩
      show (s.storage.handedOn c r.turn.handOn).journeys.get t.claim.journey = _
      rw [(Storage.handedOn_known hfresh hj).1, if_pos hcomputes.claim.1.symm]
    · exact begun_handedOn hfresh hresult (hs.begun w hw harrival)

private theorem Kept.moved (hs : Kept c s) {n : Nat} (hpick : pick s.turning n = some (t, rest)) {move : Move}
    (h : Moved c s rest t move s') : Kept c s' := by
  have hsound := hs.sound.moved hpick h
  have ht := mem_of_pick hpick
  have hspent : ∀ phase : Phase β, ∀ w ∈ s.log, w.claim.token < s.minted ∧
      ∀ u ∈ ({ t with phase } :: rest : List (Turning β)), u.claim.token ≠ w.claim.token := by
    intro phase w hw
    refine ⟨(hs.spent w hw).1, ?_⟩
    intro u hu
    rcases List.mem_cons.1 hu with rfl | hu
    · exact (hs.spent w hw).2 t ht
    · exact (hs.spent w hw).2 u (mem_of_mem_pick hpick hu)
  cases h with
  | goesOn h =>
    refine ⟨hsound, hs.updates.of_same rfl rfl, ?_, hspent _, hs.begun⟩
    intro u hu journey r hr record hrecord
    rcases List.mem_cons.1 hu with rfl | hu
    · -- it just read its Instance, whose record is the one written last
      change _ = Phase.ready journey r at hr
      subst hr
      rw [h.2.1, hs.updates.kept] at hrecord
      exact mem_of_lastOf hrecord
    · exact hs.based u (mem_of_mem_pick hpick hu) _ _ hr _ hrecord
  | leaves h =>
    rename_i storage
    have hkept : storage.instances = s.storage.instances ∧ storage.journeys = s.storage.journeys := by
      rcases h with rfl | rfl
      · exact ⟨rfl, rfl⟩
      · rw [Storage.release_eq]
        exact ⟨rfl, rfl⟩
    refine ⟨hsound, hs.updates.of_same rfl hkept.1, ?_, ?_, ?_⟩
    · exact fun u hu => hs.based u (mem_of_mem_pick hpick hu)
    · exact fun w hw => ⟨(hs.spent w hw).1, fun u hu => (hs.spent w hw).2 u (mem_of_mem_pick hpick hu)⟩
    · rw [hkept.2]
      exact hs.begun
  | placed hphase hclaimed =>
    rename_i journey sequences
    refine ⟨hsound, hs.updates.of_same rfl rfl, ?_, hspent _, ?_⟩
    · intro u hu journey' r hr record hrecord
      rcases List.mem_cons.1 hu with rfl | hu
      · cases hr
      · exact hs.based u (mem_of_mem_pick hpick hu) _ _ hr _ hrecord
    · intro w hw harrival
      obtain ⟨j, hj, hbegun⟩ := hs.begun w hw harrival
      show ∃ j, (s.storage.journeys.put _ _).get _ = some j ∧ Begun j
      rw [Table.get_put]
      split
      · rename_i heq
        obtain ⟨j', hj', hstate⟩ :=
          (hs.sound.turning t ht).stands hclaimed journey (by rw [hphase]; rfl)
        rw [heq, hj'] at hj
        cases hj
        refine ⟨_, rfl, ?_⟩
        unfold Begun at hbegun ⊢
        rw [hstate] at hbegun
        exact hbegun
      · exact ⟨j, hj, hbegun⟩
  | written hphase haccepts hfresh => exact hs.written hpick hphase haccepts hfresh
  | failed hphase hclaimed =>
    rename_i journey why
    refine ⟨hsound, hs.updates.of_same rfl (Storage.handedOn_instances _), ?_, ?_, ?_⟩
    · exact fun u hu => hs.based u (mem_of_mem_pick hpick hu)
    · exact fun w hw => ⟨(hs.spent w hw).1, fun u hu => (hs.spent w hw).2 u (mem_of_mem_pick hpick hu)⟩
    · intro w hw harrival
      refine begun_handedOn (c := c) (h := Taking.fail ⟨t.claim, journey, t.message⟩ (c.running t.message.process) why)
        ⟨List.nodup_nil, fun o ho => (by cases ho)⟩ ?_ (hs.begun w hw harrival)
      exact ⟨by simp [Taking.fail, Taking.handOn], by simp [Taking.fail, Taking.handOn]⟩

theorem Kept.step (hs : Kept c s) {a : Action} (h : s.step c a = some s') : Kept c s' := by
  have hsound := hs.sound.step h
  cases a with
  | arrive o =>
    simp only [Sys.step, Sys.arrive] at h
    split at h
    · rename_i hfresh
      cases h
      refine ⟨hsound, hs.updates.of_same rfl rfl, hs.based, hs.spent, ?_⟩
      intro w hw harrival
      obtain ⟨j, hj, hbegun⟩ := hs.begun w hw harrival
      refine ⟨j, ?_, hbegun⟩
      have hne : w.claim.journey ≠ o.id := by
        intro heq
        rw [heq, (hfresh.2 o (List.mem_cons_self ..)).1] at hj
        cases hj
      exact (Table.get_put_of_ne _ hne _).trans hj
    · cases h
  | claim id =>
    simp only [Sys.step, Sys.claim] at h
    split at h
    · cases h
      refine ⟨hsound, hs.updates.of_same rfl rfl, ?_, ?_, hs.begun⟩
      · intro u hu journey r hr record hrecord
        rcases List.mem_cons.1 hu with rfl | hu
        · cases hr
        · exact hs.based u hu _ _ hr _ hrecord
      · intro w hw
        obtain ⟨hminted, hover⟩ := hs.spent w hw
        refine ⟨Nat.lt_succ_of_lt hminted, ?_⟩
        intro u hu
        rcases List.mem_cons.1 hu with rfl | hu
        · exact Nat.ne_of_gt hminted
        · exact hover u hu
    · cases h
  | lapse id =>
    cases h
    exact ⟨hsound, hs.updates.of_same rfl rfl, hs.based, hs.spent, hs.begun⟩
  | turn n move =>
    obtain ⟨⟨t, rest⟩, hpick, hmove⟩ := Option.bind_eq_some_iff.1 h
    exact hs.moved hpick (turns_cases hmove)

theorem kept_of_starting (h : Starting s) : Kept c s := by
  have hsound : Sound c s := sound_of_starting h
  subst h
  exact ⟨hsound, ⟨trivial, fun _ => rfl, List.nodup_nil, List.nodup_nil⟩, fun t ht => (by cases ht),
    fun w hw => (by cases hw), fun w hw => (by cases hw)⟩

/-- A unit that collects two Messages of a key and ends. -/
private def pairing : Flow Nat where
  advance i event _ :=
    match event with
    | .arrived arrival =>
      if i.state = 0 then (⟨arrival.keys, i.turns + 1, none, 1⟩, .ok [])
      else (⟨i.keys, i.turns + 1, none, 2⟩, .ok [.ended .completed])
    | _ => (i, .error .notWaiting)

/-- A cluster in which no unit and no Subscription is found. -/
def noActs : Acts Unit where
  starting _ _ := ()
  work _ _ _ _ := .error "no unit"
  combine _ _ _ := .error "no unit"
  publish _ _ := .error "no route"
  opened _ := []

/-- An Instance kept as it is. -/
def asItIs : Form Nat (Instance Nat) := ⟨id, .ok, fun _ => rfl⟩

private def pairs : Setup Nat Unit (Instance Nat) where
  cluster := "c"
  named text := text.utf8ByteSize
  running name := ⟨name, pairing, [], [⟨"Client", [.context "Client"]⟩], 1⟩
  running_name _ := rfl
  acts := noActs
  form := asItIs
  newInstance := ⟨[], 0, none, 0⟩

private def clientMessage (id : Nat) : Opened :=
  ⟨id, ⟨.active, none, [], none, none, none, 0, []⟩,
    ⟨id, "Pairs", none, none, none, none, none, none, none, .ok [("Client", "A")]⟩⟩

private def alone (id : Nat) : List Action :=
  [.claim id, .turn 0 .read, .turn 0 .keys, .turn 0 .look, .turn 0 (.take 5)]

private def pairedAtOnce : List Action :=
  [.arrive (clientMessage 1), .arrive (clientMessage 2), .arrive (clientMessage 3), .claim 1, .claim 2,
    -- both find no Instance of their key
    .turn 0 .read, .turn 0 .keys, .turn 0 .look, .turn 0 .look, .turn 0 (.take 5),
    .turn 1 .read, .turn 0 .keys, .turn 0 .look, .turn 0 .look, .turn 0 (.take 6),
    .turn 0 .write, .turn 0 .write] ++
  alone 2 ++ [.turn 0 .write] ++
  [.claim 3, .turn 0 .read, .turn 0 .keys, .turn 0 .look, .turn 0 .look, .turn 0 (.take 7), .turn 0 .write]

end WorkStep
