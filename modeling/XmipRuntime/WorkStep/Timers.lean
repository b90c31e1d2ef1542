import XmipRuntime.WorkStep.Waiting

/-!
# The timers of Instances

A timer is the due time of the Message whose turn started it: where a turn leaves an Instance with a timer, its Message
is kept at its place, waiting until then.  The timer fires on its Instance where that Message, looked up again then,
still belongs to it.  Three things part them: another Instance takes a key of the waiting Message that comes before the
one it is found by; the waiting Message fails, and no other waits for that timer; and a due time further off than a
`u64` of nanoseconds, which is kept as no wait at all.
-/

namespace WorkStep

open Library Ledger

variable {σ μ β : Type} (c : Setup σ μ β)

/-- When the timer of an Instance is due, as its record keeps it; none where it has ended. -/
def Setup.due (record : InstanceRecord β) : Option Int :=
  if record.ended then none else (c.form.read record.body).toOption.bind Instance.nextDue

/-- Whether a Message in its queue waits for `due`: until then, or not at all where that was past already. -/
def Held.waitsFor (h : Held) (due : Int) : Bool := h.wait.any fun w => decide (w.now + w.afterNanos = max due w.now)

/-- Whether the Message of the Journey `id` waits in its Work Process's queue for the timer of the Instance `i`, due at
`due`, and belongs to it. -/
def Setup.fires (st : Storage β) (i : Nat) (record : InstanceRecord β) (due : Int) (id : Nat) : Bool :=
  ((st.journeys.get id).any fun j => decide (j.state = .waiting)) &&
    ((st.held.get id).any fun h =>
      decide (h.queue = (c.running record.workProcess).queue) && !h.failed && h.waitsFor due) &&
    decide (c.belongs st id = some i)

/-- Every timer of an Instance that has not ended has a Message that fires it. -/
def TimersFire (s : Sys β) : Prop :=
  ∀ x ∈ s.storage.instances.entries, ∀ due ∈ c.due x.2,
    ∃ y ∈ s.storage.journeys.entries, c.fires s.storage x.1 x.2 due y.1 = true

/-- The turn an action would write Failed. -/
def Sys.failing (s : Sys β) : Action → Option (Turning β)
  | .turn n .fail => (pick s.turning n).bind fun x =>
    match x.1.phase with
    | .failing .. => some x.1
    | _ => none
  | _ => none

/-- A turn is written only while its Message belongs to the Instance it advanced, its timer due within a `u64` of
nanoseconds, and its keys part no Message that waits from another Instance. -/
def WritesApart (s : Sys β) (a : Action) : Prop :=
  ∀ x ∈ s.writing a, s.storage.Accepts x.2.turn →
    c.belongs s.storage x.1.claim.journey = some x.2.turn.id ∧
    (∀ due ∈ c.due x.2.turn.record, due - x.2.now < UInt64.size) ∧
    ∀ y ∈ s.storage.journeys.entries, y.2.state = .waiting → c.belongs s.storage y.1 ≠ some x.2.turn.id →
      c.belongs { s.storage with keys := Storage.rekeyed s.storage.keys x.2.turn.id x.2.turn.keys x.2.turn.unkeyed } y.1 =
        c.belongs s.storage y.1

/-- No Message fails that is the only one to wait for a timer. -/
def FailsBeside (s : Sys β) (a : Action) : Prop :=
  ∀ t ∈ s.failing a, s.storage.Claimed t.claim →
    ∀ x ∈ s.storage.instances.entries, ∀ due ∈ c.due x.2, c.fires s.storage x.1 x.2 due t.claim.journey = true →
      ∃ y ∈ s.storage.journeys.entries, y.1 ≠ t.claim.journey ∧ c.fires s.storage x.1 x.2 due y.1 = true

/-- No step parts a timer from its Message. -/
def Together (s : Sys β) (a : Action) : Prop := WritesApart c s a ∧ FailsBeside c s a

instance (s : Sys β) : Decidable (TimersFire c s) :=
  inferInstanceAs (Decidable (∀ x ∈ s.storage.instances.entries, ∀ due ∈ c.due x.2,
    ∃ y ∈ s.storage.journeys.entries, c.fires s.storage x.1 x.2 due y.1 = true))

instance (s : Sys β) (a : Action) : Decidable (Together c s a) :=
  inferInstanceAs (Decidable ((∀ x ∈ s.writing a, _ → _ ∧ (∀ due ∈ c.due x.2.turn.record, _) ∧
    ∀ y ∈ s.storage.journeys.entries, _ → _ → _) ∧ ∀ t ∈ s.failing a, _ → ∀ x ∈ s.storage.instances.entries,
      ∀ due ∈ c.due x.2, _ → ∃ y ∈ s.storage.journeys.entries, _))

variable {c} {s s' : Sys β}

/-! ### What firing a timer reads -/

theorem fires_iff {st : Storage β} {i id : Nat} {record : InstanceRecord β} {due : Int} :
    c.fires st i record due id = true ↔
      (∃ j, st.journeys.get id = some j ∧ j.state = .waiting) ∧
        (∃ h, st.held.get id = some h ∧ h.queue = (c.running record.workProcess).queue ∧ h.failed = false ∧
          h.waitsFor due = true) ∧
        c.belongs st id = some i := by
  simp only [Setup.fires, Bool.and_eq_true, Option.any_eq_true, decide_eq_true_eq, Bool.not_eq_true', and_assoc]

theorem Setup.fires_congr {st st' : Storage β} {i id : Nat} {record : InstanceRecord β} {due : Int}
    (h : c.fires st i record due id = true)
    (hjourney : ∀ j, st.journeys.get id = some j → ∃ j', st'.journeys.get id = some j' ∧ j'.state = j.state)
    (hheld : st'.held.get id = st.held.get id) (hbelongs : c.belongs st' id = c.belongs st id) :
    c.fires st' i record due id = true := by
  rw [fires_iff] at h ⊢
  obtain ⟨⟨j, hj, hwaiting⟩, hh, hb⟩ := h
  obtain ⟨j', hj', hstate⟩ := hjourney j hj
  exact ⟨⟨j', hj', hstate.trans hwaiting⟩, hheld ▸ hh, hbelongs.trans hb⟩

/-- The wait kept for a timer is the wait for it, where a `u64` holds it. -/
theorem waitsFor_afterNanos {due now : Int} (h : due - now < UInt64.size) (queue k : Nat) (failed : Bool) :
    (⟨k, some ⟨queue, now, afterNanos due now⟩, failed⟩ : Held).waitsFor due = true := by
  have hafter : now + afterNanos due now = max due now := by
    unfold afterNanos
    split
    · rename_i hfits
      rw [Int.toNat_of_nonneg hfits.1]
      omega
    · rename_i hfits
      have hpast : due - now < 0 := by
        by_contra hnot
        exact hfits ⟨by omega, h⟩
      rw [Int.max_eq_right (by omega)]
      simp
  simp [Held.waitsFor, hafter]

/-! ### A Message still to be taken a turn of is in its queue -/

variable (c) in
def Queued (s : Sys β) : Prop :=
  ∀ id m j, s.storage.messages.get id = some m → s.storage.journeys.get id = some j → j.live = true →
    ∃ h, s.storage.held.get id = some h ∧ h.queue = (c.running m.process).queue

private theorem live_of_state {j j' : Journey} (h : j.state = j'.state) : j.live = j'.live := by
  unfold Journey.live
  rw [h]

/-- The place in its queue of a Message whose turn leaves it waiting. -/
private theorem held_of_waiting {held : Table Nat Held} {h : HandOn} {was : Held} (hwas : held.get h.journey = some was)
    (hleaves : h.leaves = []) :
    (Storage.heldAfter held h).get h.journey = some ⟨was.queue, h.waits, h.failed.isSome⟩ := by
  unfold Storage.heldAfter
  rw [hwas, hleaves]
  simp

/-- The Journey of a turn whose claim stands is in its queue. -/
private theorem Queued.held_of_claimed (hs : Queued c s) {t : Turning β} (ht : t.Sound c s)
    (hclaimed : s.storage.Claimed t.claim) {journey : Journey} (hjourney : t.phase.journey? = some journey) :
    ∃ j h, s.storage.journeys.get t.claim.journey = some j ∧ s.storage.held.get t.claim.journey = some h ∧
      h.queue = (c.running t.message.process).queue := by
  obtain ⟨j, hj, hstate⟩ := ht.stands hclaimed journey hjourney
  have hlive : j.live = true := (live_of_state hstate).trans (ht.live journey hjourney)
  obtain ⟨h, hh, hqueue⟩ := hs _ _ _ ht.message hj hlive
  exact ⟨j, h, hj, hh, hqueue⟩

/-- A turn's claim stands where Xmip Storage takes its write. -/
private theorem claimed_of_accepts {t : Turning β} {journey : Journey} {r : Ready β} (h : t.Computes c journey r)
    (haccepts : s.storage.Accepts r.turn) : s.storage.Claimed t.claim := by
  have := haccepts.1
  rwa [h.claim.1, h.claim.2] at this

theorem Queued.step (hs : Queued c s) (hsound : Sound c s) {a : Action} (h : s.step c a = some s') : Queued c s' := by
  have htouched := step_touched h
  intro id m j hm hj hlive
  generalize s'.storage = st at htouched hm hj
  cases htouched with
  | same => exact hs id m j hm hj hlive
  | arrived hfresh =>
    rename_i o
    change (s.storage.messages.put _ _).get id = some m at hm
    change (s.storage.journeys.put _ _).get id = some j at hj
    show ∃ h, (s.storage.held.put _ _).get id = some h ∧ _
    rw [Table.get_put] at hm hj ⊢
    split
    · rename_i hid
      rw [if_pos hid] at hm
      cases hm
      exact ⟨_, rfl, rfl⟩
    · rename_i hid
      rw [if_neg hid] at hm hj
      exact hs id m j hm hj hlive
  | placed hpick hphase hclaimed =>
    rename_i n t rest journey sequences
    change (s.storage.journeys.put _ _).get id = some j at hj
    rw [Table.get_put] at hj
    split at hj
    · rename_i hid
      subst hid
      have ht := hsound.turning t (mem_of_pick hpick)
      obtain ⟨_, h, -, hh, hqueue⟩ := hs.held_of_claimed ht hclaimed (by rw [hphase]; rfl)
      have hmessage := ht.message
      rw [hm] at hmessage
      cases hmessage
      exact ⟨h, hh, hqueue⟩
    · exact hs id m j hm hj hlive
  | written hpick hphase haccepts hfresh =>
    rename_i n t rest journey r
    have ht := hsound.turning t (mem_of_pick hpick)
    have hcomputes := ht.computed _ _ hphase
    have hclaim := hcomputes.claim.1
    change (s.storage.handedOn c r.turn.handOn).messages.get id = some m at hm
    change (s.storage.handedOn c r.turn.handOn).journeys.get id = some j at hj
    show ∃ h, (s.storage.handedOn c r.turn.handOn).held.get id = some h ∧ _
    rcases Storage.handedOn_get (c := c) (s := s.storage) r.turn.handOn id with
      ⟨o, -, -, -, hmessage, hheld⟩ | ⟨-, hwas, hmessage, hheld⟩
    · rw [hm] at hmessage
      cases hmessage
      exact ⟨_, hheld, rfl⟩
    · rw [hwas] at hj
      rw [hmessage] at hm
      rw [hheld]
      split at hj
      · rename_i hid
        cases hj
        obtain ⟨_, was, -, hh, hqueue⟩ :=
          hs.held_of_claimed ht (claimed_of_accepts hcomputes haccepts) (by rw [hphase]; rfl)
        rw [← hclaim] at hh
        obtain ⟨i, -, -, hwritten⟩ := hcomputes.written
        have hsame : m = t.message := by
          rw [hid, hclaim, ht.message] at hm
          exact (Option.some.inj hm).symm
        have hleaves : r.turn.handOn.leaves = [] := by
          rcases hwritten with ⟨-, -, hdone⟩ | ⟨-, -, ⟨-, hdone⟩ | ⟨-, -, -, hleaves, -⟩⟩
          · rw [hdone] at hlive
            cases hlive
          · rw [hdone] at hlive
            cases hlive
          · exact hleaves
        subst hid
        exact ⟨_, held_of_waiting hh hleaves, hsame ▸ hqueue⟩
      · rename_i hid
        rw [Storage.heldAfter_of_ne hid]
        exact hs id m j hm hj hlive
  | failed hpick hphase hclaimed =>
    rename_i n t rest journey why
    rcases Storage.handedOn_get (c := c) (s := s.storage)
      (Taking.fail ⟨t.claim, journey, t.message⟩ (c.running t.message.process) why) id with
      ⟨o, ho, -⟩ | ⟨-, hwas, hmessage, hheld⟩
    · cases ho
    · rw [hwas] at hj
      rw [hmessage] at hm
      rw [hheld]
      split at hj
      · cases hj
        cases hlive
      · rename_i hid
        rw [Storage.heldAfter_of_ne hid]
        exact hs id m j hm hj hlive

/-! ### Every timer fires on its Instance -/

/-- A turn that leaves its Instance with a timer leaves its Message to fire it. -/
private theorem fires_of_written (hqueued : Queued c s) {t : Turning β} {journey : Journey} {r : Ready β}
    (ht : t.Sound c s) (hphase : t.phase = .ready journey r) (haccepts : s.storage.Accepts r.turn)
    (hfresh : s.storage.Fresh r.turn.handOn.next)
    (hbelongs : c.belongs s.storage t.claim.journey = some r.turn.id)
    (hfits : ∀ due ∈ c.due r.turn.record, due - r.now < UInt64.size) {due : Int}
    (hdue : c.due r.turn.record = some due) :
    (s.storage.turned c r.turn).journeys.get t.claim.journey = some r.turn.handOn.result ∧
      c.fires (s.storage.turned c r.turn) r.turn.id r.turn.record due t.claim.journey = true := by
  have hcomputes := ht.computed _ _ hphase
  have hclaim := hcomputes.claim.1
  obtain ⟨j, was, hj, hheld, hqueue⟩ :=
    hqueued.held_of_claimed ht (claimed_of_accepts hcomputes haccepts) (by rw [hphase]; rfl)
  obtain ⟨i, hprocess, hbody, hwritten⟩ := hcomputes.written
  obtain ⟨hgot, hmessage, hkept⟩ := Storage.handedOn_known (c := c) hfresh hj
  rw [if_pos hclaim.symm] at hgot
  refine ⟨hgot, ?_⟩
  rcases hwritten with ⟨hended, -⟩ | ⟨hended, hunkeyed, hwaits⟩
  · simp [Setup.due, hended] at hdue
  · have hnext : i.nextDue = some due := by
      rw [Setup.due, hended, hbody, c.form.read_write] at hdue
      exact hdue
    rcases hwaits with ⟨hnone, -⟩ | ⟨due', hsome, hstate, hleaves, hfailed, queue, hwaits⟩
    · rw [hnone] at hnext
      cases hnext
    · rw [hsome] at hnext
      cases hnext
      rw [← hclaim] at hheld
      have hplace := held_of_waiting hheld hleaves
      rw [hclaim] at hplace
      refine fires_iff.2 ⟨⟨_, hgot, hstate⟩, ⟨_, hkept.trans hplace, ?_, ?_, ?_⟩, ?_⟩
      · rw [hprocess]
        exact hqueue
      · rw [hfailed]
        rfl
      · rw [hwaits]
        exact waitsFor_afterNanos (hfits _ hdue) ..
      · have hrekeyed : (s.storage.turned c r.turn).keys =
            Storage.rekeyed s.storage.keys r.turn.id r.turn.keys [] := by rw [← hunkeyed]; rfl
        have hstays : c.belongs (s.storage.turned c r.turn) t.claim.journey = some r.turn.id ∨
            c.belongs (s.storage.turned c r.turn) t.claim.journey = some r.turn.id :=
          belongs_of_taken hmessage hrekeyed hbelongs
        exact hstays.elim id id

/-- The Journey that fires a timer is one there. -/
private theorem exists_of_fires {st : Storage β} {i id : Nat} {record : InstanceRecord β} {due : Int}
    (h : c.fires st i record due id = true) :
    ∃ y ∈ st.journeys.entries, c.fires st i record due y.1 = true := by
  obtain ⟨⟨j, hj, -⟩, -⟩ := fires_iff.1 h
  exact ⟨(id, j), Table.mem_iff_get.2 hj, h⟩

/-- A Message that fires another Instance's timer still does, once a turn is written. -/
private theorem fires_beside_written {n : Nat} (hapart : WritesApart c s (.turn n .write)) {t : Turning β}
    {rest : List (Turning β)} {journey : Journey} {r : Ready β} (hpick : pick s.turning n = some (t, rest))
    (hphase : t.phase = .ready journey r) (haccepts : s.storage.Accepts r.turn)
    (hfresh : s.storage.Fresh r.turn.handOn.next) (hclaim : r.turn.handOn.journey = t.claim.journey) {i id : Nat}
    {record : InstanceRecord β} {due : Int} (hne : i ≠ r.turn.id)
    (h : c.fires s.storage i record due id = true) : c.fires (s.storage.turned c r.turn) i record due id = true := by
  obtain ⟨hown, -, hkeys⟩ := hapart (t, r) (writing_of_phase hpick hphase) haccepts
  obtain ⟨⟨j, hj, hwaiting⟩, -, hb⟩ := fires_iff.1 h
  have hother : c.belongs s.storage id ≠ some r.turn.id := by
    rw [hb]
    exact fun heq => hne (Option.some.inj heq)
  have hid : id ≠ r.turn.handOn.journey := by
    rintro rfl
    rw [hclaim] at hother
    exact hother hown
  obtain ⟨hgot, hmessage, hheld⟩ := Storage.handedOn_known (c := c) hfresh hj
  refine Setup.fires_congr h ?_ ?_ ?_
  · intro j' hj'
    rw [hj] at hj'
    cases hj'
    rw [if_neg hid] at hgot
    exact ⟨j, hgot, rfl⟩
  · exact hheld.trans (Storage.heldAfter_of_ne hid)
  · rw [← hkeys (id, j) (Table.mem_iff_get.2 hj) hwaiting hother]
    exact belongs_congr hmessage rfl

theorem TimersFire.step (hs : TimersFire c s) (hsound : Sound c s) (hqueued : Queued c s) {a : Action}
    (hok : Together c s a) (h : s.step c a = some s') : TimersFire c s' := by
  rintro ⟨i, record⟩ hmem due hdue
  have htouched := step_touched h
  have hrecord := Table.mem_iff_get.1 hmem
  clear hmem h
  change c.due record = some due at hdue
  show ∃ y ∈ s'.storage.journeys.entries, c.fires s'.storage i record due y.1 = true
  generalize s'.storage = st at htouched hrecord
  -- what fired it before, where its record is as it was
  have hbefore : s.storage.instances.get i = some record →
      ∃ y ∈ s.storage.journeys.entries, c.fires s.storage i record due y.1 = true :=
    fun hwas => hs (i, record) (Table.mem_iff_get.2 hwas) due hdue
  cases htouched with
  | same => exact hbefore hrecord
  | arrived hfresh =>
    rename_i o
    obtain ⟨⟨id, j⟩, hy, hfires⟩ := hbefore hrecord
    have hj := Table.mem_iff_get.1 hy
    have hid : id ≠ o.id := by
      rintro rfl
      rw [(hfresh.2 o (List.mem_cons_self ..)).1] at hj
      cases hj
    refine exists_of_fires (Setup.fires_congr hfires ?_ (Table.get_put_of_ne _ hid _) ?_)
    · exact fun j hj => ⟨j, (Table.get_put_of_ne _ hid _).trans hj, rfl⟩
    · exact belongs_congr (Table.get_put_of_ne _ hid _) rfl
  | placed hpick hphase hclaimed =>
    rename_i n t rest journey sequences
    obtain ⟨⟨id, j⟩, -, hfires⟩ := hbefore hrecord
    refine exists_of_fires (Setup.fires_congr hfires ?_ rfl rfl)
    intro j hj
    show ∃ j', (s.storage.journeys.put _ _).get id = some j' ∧ _
    rw [Table.get_put]
    split
    · rename_i hid
      subst hid
      obtain ⟨was, hwas, hstate⟩ :=
        (hsound.turning t (mem_of_pick hpick)).stands hclaimed journey (by rw [hphase]; rfl)
      rw [hj] at hwas
      cases hwas
      exact ⟨_, rfl, hstate.symm⟩
    · exact ⟨j, hj, rfl⟩
  | written hpick hphase haccepts hfresh =>
    rename_i n t rest journey r
    have ht := hsound.turning t (mem_of_pick hpick)
    obtain ⟨hown, hfits, -⟩ := hok.1 (t, r) (writing_of_phase hpick hphase) haccepts
    change (s.storage.instances.put r.turn.id r.turn.record).get i = some record at hrecord
    rw [Table.get_put] at hrecord
    split at hrecord
    · rename_i hid
      subst hid
      cases hrecord
      exact exists_of_fires (fires_of_written hqueued ht hphase haccepts hfresh hown hfits hdue).2
    · rename_i hid
      obtain ⟨y, -, hfires⟩ := hbefore hrecord
      exact exists_of_fires (fires_beside_written hok.1 hpick hphase haccepts hfresh
        (ht.computed _ _ hphase).claim.1 hid hfires)
  | failed hpick hphase hclaimed =>
    rename_i n t rest journey why
    rw [Storage.handedOn_instances] at hrecord
    obtain ⟨y, hy, hfires⟩ := hbefore hrecord
    have hfailing : s.failing (.turn n .fail) = some t := by simp [Sys.failing, hpick, hphase]
    -- one beside the Message that fails waits for the timer
    obtain ⟨⟨id, j⟩, hy, hid, hfires⟩ : ∃ y ∈ s.storage.journeys.entries, y.1 ≠ t.claim.journey ∧
        c.fires s.storage i record due y.1 = true := by
      by_cases hone : y.1 = t.claim.journey
      · exact hok.2 t hfailing hclaimed (i, record) (Table.mem_iff_get.2 hrecord) due hdue (hone ▸ hfires)
      · exact ⟨y, hy, hone, hfires⟩
    have hj := Table.mem_iff_get.1 hy
    obtain ⟨hgot, hmessage, hheld⟩ := Storage.handedOn_known (c := c)
      (h := Taking.fail ⟨t.claim, journey, t.message⟩ (c.running t.message.process) why)
      ⟨List.nodup_nil, fun o ho => (by cases ho)⟩ hj
    refine exists_of_fires (Setup.fires_congr hfires ?_ (hheld.trans (Storage.heldAfter_of_ne hid)) ?_)
    · intro j' hj'
      rw [hj] at hj'
      cases hj'
      exact ⟨j, hgot.trans (if_neg hid), rfl⟩
    · exact belongs_congr hmessage (Storage.handedOn_keys _)

/-- In every run in which no step parts a timer from its Message, every timer of an Instance that has not ended has a
Message that waits for it and belongs to that Instance. -/
theorem timersFire_of_together (h : Reach (Sys.step c) (Together c) Starting s) : TimersFire c s := by
  suffices hall : Sound c s ∧ Queued c s ∧ TimersFire c s from hall.2.2
  induction h with
  | start hstart =>
    refine ⟨sound_of_starting hstart, ?_, ?_⟩
    · subst hstart
      intro id m j hm
      cases hm
    · subst hstart
      intro x hx
      cases hx
  | next _ hok hstep ih =>
    exact ⟨ih.1.step hstep, ih.2.1.step ih.1 hstep, ih.2.2.step ih.1 ih.2.1 hok hstep⟩

/-! Messages of two sets, an order and a client, each starting an Instance with a timer. -/

/-- A unit that correlates by the last set its Message has a key in, and waits for a time. -/
private def timing : Flow Nat where
  advance i event now :=
    match event with
    | .arrived arrival =>
      if i.state = 0 then (⟨arrival.keys.getLast?.toList, i.turns + 1, some (now + 10), 1⟩, .ok [])
      else (i, .error .notWaiting)
    | .due =>
      if i.state = 1 then (⟨i.keys, i.turns + 1, none, 2⟩, .ok [.ended .completed]) else (i, .error .notWaiting)
    | _ => (i, .error .notWaiting)

private def times : Setup Nat Unit (Instance Nat) where
  cluster := "c"
  named text := text.utf8ByteSize
  running name := ⟨name, timing, [], [⟨"Order", [.context "Order"]⟩, ⟨"Client", [.context "Client"]⟩], 1⟩
  running_name _ := rfl
  acts := noActs
  form := asItIs
  newInstance := ⟨[], 0, none, 0⟩

private def timedMessage (id : Nat) (context : List (String × String)) : Opened :=
  ⟨id, ⟨.active, none, [], none, none, none, 0, []⟩,
    ⟨id, "Wait", none, none, none, none, none, none, none, .ok context⟩⟩

private def startedAt (id looks : Nat) (now : Int) : List Action :=
  [.claim id, .turn 0 .read, .turn 0 .keys] ++ List.replicate looks (.turn 0 .look) ++
    [.turn 0 (.take now), .turn 0 .write]

/-- Two Messages of other orders, both waiting. -/
theorem timersFire_otherOrders : ∃ s, Reach (Sys.step times) (Together times) Starting s ∧
    (decide (s.log.length = 2) && s.turning.isEmpty) = true ∧ TimersFire times s := by
  obtain ⟨s, hs, hlog⟩ := Reach.exists_of_runWhere (Sys.step times) (Together times)
    (show Starting Sys.opening from rfl)
    (List.flatten [
      [.arrive (timedMessage 1 [("Order", "A"), ("Client", "B")]), .arrive (timedMessage 2 [("Order", "long")])],
      startedAt 1 3 5, startedAt 2 2 6])
    (fun s => decide (s.log.length = 2) && s.turning.isEmpty) (by decide +kernel)
  exact ⟨s, hs, hlog, timersFire_of_together hs⟩

/-- The second Message starts an Instance by the first's order, which comes before the client the first's Instance is
found by: the first's timer then comes to the second's Instance, and none to its own. -/
theorem timer_parted_by_a_key : ∃ s, Reach (Sys.step times) Always Starting s ∧
    s.turning = [] ∧ ¬ TimersFire times s := by
  obtain ⟨s, hs, hparted⟩ := Reach.exists_of_runWhere (Sys.step times) Always (show Starting Sys.opening from rfl)
    (List.flatten [
      [.arrive (timedMessage 1 [("Order", "A"), ("Client", "B")]), .arrive (timedMessage 2 [("Order", "A")])],
      startedAt 1 3 5, startedAt 2 2 6])
    (fun s => s.turning.isEmpty && decide (¬ TimersFire times s)) (by decide +kernel)
  rw [Bool.and_eq_true, List.isEmpty_iff, decide_eq_true_eq] at hparted
  exact ⟨s, hs, hparted⟩

end WorkStep
