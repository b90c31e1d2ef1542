import XmipRuntime.WorkStep.Updates

/-!
# The Messages that wait for an Instance

A Message's Instance is not kept with it: it is looked up again at every turn, by the Message's keys in the order of its
Work Process's sets, and else by its Journey.  So which Instance a waiting Message belongs to may change whenever
another turn takes keys or lets go of them.  Where it does not, every Message left waiting belongs to an Instance that
has not ended, and every timer has a Message that comes back to its Instance when it is due; and either fails where a
turn passes over a Message that waits beside its own.
-/

namespace WorkStep

open Library Ledger

variable {σ μ β : Type} {c : Setup σ μ β} {s s' : Sys β}

/-! ### The Instance a Message belongs to, once keys are taken and let go of -/

private theorem get_takenKeys (taken : List Nat) (keys : Table Nat Nat) (id k : Nat) :
    (taken.foldl (fun t k => t.put k id) keys).get k = if k ∈ taken then some id else keys.get k := by
  induction taken generalizing keys with
  | nil => simp
  | cons key taken ih =>
    rw [List.foldl_cons, ih, Table.get_put]
    by_cases hk : k = key
    · simp [hk]
    · simp [hk]

private theorem get_letGoKeys (letGo : List Nat) (keys : Table Nat Nat) (id k : Nat) :
    (letGo.foldl (fun t k => if t.get k = some id then t.drop k else t) keys).get k = keys.get k ∨
      (letGo.foldl (fun t k => if t.get k = some id then t.drop k else t) keys).get k = none ∧
        keys.get k = some id := by
  induction letGo generalizing keys with
  | nil => exact .inl rfl
  | cons key letGo ih =>
    rw [List.foldl_cons]
    split
    · rename_i hown
      by_cases hk : k = key
      · subst hk
        rcases ih (keys.drop k) with h | ⟨-, h⟩
        · exact .inr ⟨h.trans (Table.get_drop_self ..), hown⟩
        · rw [Table.get_drop_self] at h
          cases h
      · rcases ih (keys.drop key) with h | ⟨h, hwas⟩
        · exact .inl (h.trans (Table.get_drop_of_ne _ hk))
        · exact .inr ⟨h, (Table.get_drop_of_ne _ hk) ▸ hwas⟩
    · exact ih keys

/-- Where keys are only taken, a Message belongs to the Instance that took them, or where it did. -/
theorem resolve_of_taken {running : Running σ} {table : Table Nat Nat} {taken : List Nat} {id i : Nat}
    (keys : List (Nat × String)) :
    c.resolve running (Storage.rekeyed table i taken []) id keys = i ∨
      c.resolve running (Storage.rekeyed table i taken []) id keys = c.resolve running table id keys := by
  induction keys with
  | nil => exact .inr rfl
  | cons key keys ih =>
    have hget : (Storage.rekeyed table i taken []).get (c.correlation running key) =
        if c.correlation running key ∈ taken then some i else table.get (c.correlation running key) :=
      get_takenKeys ..
    unfold Setup.resolve
    rw [hget]
    by_cases htaken : c.correlation running key ∈ taken
    · rw [if_pos htaken]
      exact .inl rfl
    · rw [if_neg htaken]
      cases table.get (c.correlation running key) with
      | some j => exact .inr rfl
      | none => exact ih

/-- Where an Instance only lets go of keys, a Message that belongs to another still does. -/
theorem resolve_of_letGo {running : Running σ} {table : Table Nat Nat} {letGo : List Nat} {id i : Nat}
    {keys : List (Nat × String)} (h : c.resolve running table id keys ≠ i) :
    c.resolve running (Storage.rekeyed table i [] letGo) id keys = c.resolve running table id keys := by
  induction keys with
  | nil => rfl
  | cons key keys ih =>
    have hget : (Storage.rekeyed table i [] letGo).get (c.correlation running key) =
          table.get (c.correlation running key) ∨
        (Storage.rekeyed table i [] letGo).get (c.correlation running key) = none ∧
          table.get (c.correlation running key) = some i :=
      get_letGoKeys ..
    unfold Setup.resolve at h ⊢
    cases hwas : table.get (c.correlation running key) with
    | some j =>
      rw [hwas] at h hget
      rcases hget with hget | ⟨-, heq⟩
      · rw [hget]
      · exact absurd (Option.some.inj heq) h
    | none =>
      rw [hwas] at h hget
      rcases hget with hget | ⟨-, heq⟩
      · rw [hget]
        exact ih h
      · cases heq

theorem belongs_congr {st st' : Storage β} {id : Nat} (hmessage : st'.messages.get id = st.messages.get id)
    (hkeys : st'.keys = st.keys) : c.belongs st' id = c.belongs st id := by
  unfold Setup.belongs
  rw [hmessage, hkeys]

/-- A Message belongs to an Instance, whatever keys are taken: the one they are taken for, or the one it did. -/
theorem belongs_of_taken {st st' : Storage β} {id i j : Nat} {taken : List Nat}
    (hmessage : st'.messages.get id = st.messages.get id) (hkeys : st'.keys = Storage.rekeyed st.keys i taken [])
    (h : c.belongs st id = some j) : c.belongs st' id = some i ∨ c.belongs st' id = some j := by
  unfold Setup.belongs at h ⊢
  rw [hmessage, hkeys]
  obtain ⟨m, hm, h⟩ := Option.bind_eq_some_iff.1 h
  obtain ⟨keys, hk, rfl⟩ := Option.map_eq_some_iff.1 h
  rw [hm, Option.bind_some, hk, Option.map_some]
  have hresolve : c.resolve (c.running m.process) (Storage.rekeyed st.keys i taken []) id keys = i ∨
      c.resolve (c.running m.process) (Storage.rekeyed st.keys i taken []) id keys =
        c.resolve (c.running m.process) st.keys id keys :=
    resolve_of_taken keys
  exact hresolve.imp (congrArg some) (congrArg some)

theorem belongs_of_letGo {st st' : Storage β} {id i j : Nat} {letGo : List Nat}
    (hmessage : st'.messages.get id = st.messages.get id) (hkeys : st'.keys = Storage.rekeyed st.keys i [] letGo)
    (h : c.belongs st id = some j) (hne : j ≠ i) : c.belongs st' id = some j := by
  unfold Setup.belongs at h ⊢
  rw [hmessage, hkeys]
  obtain ⟨m, hm, h⟩ := Option.bind_eq_some_iff.1 h
  obtain ⟨keys, hk, rfl⟩ := Option.map_eq_some_iff.1 h
  rw [hm, Option.bind_some, hk, Option.map_some, resolve_of_letGo hne]

/-! ### What a turn writes -/

/-- What a turn ready to write leaves of its Journey and its keys: ended, it lets go of its keys and its Message is done
with; else it takes them, and its Message waits just where a timer does. -/
theorem Turning.Computes.written {t : Turning β} {journey : Journey} {r : Ready β} (h : t.Computes c journey r) :
    ∃ i : Instance σ, r.turn.record.workProcess = t.message.process ∧ r.turn.record.body = c.form.write i ∧
      ((r.turn.record.ended = true ∧ r.turn.keys = [] ∧ r.turn.handOn.result.live = false) ∨
        r.turn.record.ended = false ∧ r.turn.unkeyed = [] ∧
          ((i.nextDue = none ∧ r.turn.handOn.result.live = false) ∨
            ∃ due, i.nextDue = some due ∧ r.turn.handOn.result.state = .waiting ∧ r.turn.handOn.leaves = [] ∧
              r.turn.handOn.failed = none ∧
              ∃ queue, r.turn.handOn.waits = some ⟨queue, r.now, afterNanos due r.now⟩)) := by
  obtain ⟨keys, htake, -⟩ := h
  obtain ⟨i₀, event, ended, -, -, -, hturn⟩ := take_cases htake
  generalize c.advanced _ _ i₀ event r.now = out at hturn
  refine ⟨out.instance_, ?_, ?_, ?_⟩
  · rw [hturn]
    exact c.running_name _
  · rw [hturn]
    rfl
  · cases ended with
    | some outcome =>
      refine .inl ⟨by rw [hturn]; rfl, by rw [hturn]; rfl, ?_⟩
      rw [hturn]
      cases outcome <;> simp [Taking.written, Taking.handOn, stateOf, Journey.live]
    | none =>
      refine .inr ⟨by rw [hturn]; rfl, by rw [hturn]; rfl, ?_⟩
      cases hdue : out.instance_.nextDue with
      | none =>
        refine .inl ⟨rfl, ?_⟩
        rw [hturn]
        simp [Taking.written, Taking.handOn, stateOf, hdue, Journey.live]
      | some due =>
        refine .inr ⟨due, rfl, ?_, ?_, by rw [hturn]; rfl, (c.running t.message.process).queue, ?_⟩
        · rw [hturn]
          simp [Taking.written, Taking.handOn, stateOf, hdue]
        · rw [hturn]
          simp [Taking.written, Taking.handOn, stateOf, hdue]
        · rw [hturn]
          simp [Taking.written, Taking.handOn, hdue]

/-! ### An ended Instance leaves no Message waiting -/

/-- Whether the Instance `i` has started and not ended. -/
def Storage.going (st : Storage β) (i : Nat) : Bool := (st.instances.get i).any fun record => !record.ended

/-- The turn an action would write. -/
def Sys.writing (s : Sys β) : Action → Option (Turning β × Ready β)
  | .turn n .write => (pick s.turning n).bind fun x =>
    match x.1.phase with
    | .ready _ r => some (x.1, r)
    | _ => none
  | _ => none

variable (c) in
/-- Each Message waiting belongs to an Instance that has not ended. -/
def NoneLeftWaiting (s : Sys β) : Prop :=
  ∀ x ∈ s.storage.journeys.entries, x.2.state = .waiting → ∃ i ∈ c.belongs s.storage x.1, s.storage.going i = true

variable (c) in
/-- A turn that ends its Instance is written only where no other Message waits that belongs to it; and one that leaves
its Message waiting, only while that belongs to the Instance the turn advanced, or to one that has not ended. -/
def EndsLast (s : Sys β) (a : Action) : Prop :=
  ∀ x ∈ s.writing a, s.storage.Accepts x.2.turn →
    (x.2.turn.record.ended = true → ∀ y ∈ s.storage.journeys.entries, y.1 ≠ x.1.claim.journey → y.2.state = .waiting →
      c.belongs s.storage y.1 ≠ some x.2.turn.id) ∧
    (x.2.turn.handOn.result.state = .waiting →
      ∃ i ∈ c.belongs s.storage x.1.claim.journey, i = x.2.turn.id ∨ s.storage.going i = true)

instance (s : Sys β) : Decidable (NoneLeftWaiting c s) :=
  inferInstanceAs (Decidable (∀ x ∈ s.storage.journeys.entries, x.2.state = .waiting →
    ∃ i ∈ c.belongs s.storage x.1, s.storage.going i = true))

instance (s : Sys β) (a : Action) : Decidable (EndsLast c s a) :=
  inferInstanceAs (Decidable (∀ x ∈ s.writing a, _ → (_ → ∀ y ∈ s.storage.journeys.entries, _ → _ → _) ∧ (_ → _)))

theorem writing_of_phase {n : Nat} {t : Turning β} {rest : List (Turning β)} {journey : Journey} {r : Ready β}
    (hpick : pick s.turning n = some (t, rest)) (hphase : t.phase = .ready journey r) :
    s.writing (.turn n .write) = some (t, r) := by
  simp [Sys.writing, hpick, hphase]

private theorem going_turned {turn : Turn β} {st : Storage β} {i : Nat} (hended : turn.record.ended = false)
    (h : i = turn.id ∨ st.going i = true) : (st.turned c turn).going i = true := by
  unfold Storage.going at h ⊢
  show ((st.instances.put turn.id turn.record).get i).any _ = true
  rw [Table.get_put]
  split
  · simp [hended]
  · rename_i hne
    exact h.resolve_left hne

/-- What one write leaves of a Message that waits, once it is written. -/
private theorem NoneLeftWaiting.written (hs : NoneLeftWaiting c s) (hsound : Sound c s) {n : Nat} {t : Turning β}
    {rest : List (Turning β)} {journey : Journey} {r : Ready β} (hpick : pick s.turning n = some (t, rest))
    (hphase : t.phase = .ready journey r) (haccepts : s.storage.Accepts r.turn)
    (hfresh : s.storage.Fresh r.turn.handOn.next) (hok : EndsLast c s (.turn n .write)) {id : Nat} {j : Journey}
    (hj : (s.storage.turned c r.turn).journeys.get id = some j) (hwaiting : j.state = .waiting) :
    ∃ i ∈ c.belongs (s.storage.turned c r.turn) id, (s.storage.turned c r.turn).going i = true := by
  obtain ⟨hends, hstays⟩ := hok (t, r) (writing_of_phase hpick hphase) haccepts
  have hcomputes := (hsound.turning t (mem_of_pick hpick)).computed _ _ hphase
  have hclaim := hcomputes.claim.1
  obtain ⟨made, -, -, hwritten⟩ := hcomputes.written
  change (s.storage.handedOn c r.turn.handOn).journeys.get id = some j at hj
  rcases Storage.handedOn_get (c := c) (s := s.storage) r.turn.handOn id with
    ⟨o, ho, -, hnew, -⟩ | ⟨-, hwas, hmessage, -⟩
  · -- one opened with it is active
    rw [hnew] at hj
    cases hj
    rw [(hfresh.2 o ho).2] at hwaiting
    cases hwaiting
  · rw [hwas, hclaim] at hj
    -- the Instance it belonged to before the write: the one advanced, or one that has not ended
    have hbefore : ∃ i, c.belongs s.storage id = some i ∧ (i = r.turn.id ∨ s.storage.going i = true) ∧
        (r.turn.record.ended = true → i ≠ r.turn.id) := by
      split at hj
      · rename_i hid
        cases hj
        obtain ⟨i, hi, hgoing⟩ := hstays hwaiting
        refine ⟨i, hid ▸ hi, hgoing, ?_⟩
        intro hended
        rcases hwritten with ⟨-, -, hnot⟩ | ⟨hfalse, -⟩
        · simp [Journey.live, hwaiting] at hnot
        · rw [hfalse] at hended
          cases hended
      · rename_i hid
        obtain ⟨i, hi, hgoing⟩ := hs (id, j) (Table.mem_iff_get.2 hj) hwaiting
        refine ⟨i, hi, .inr hgoing, ?_⟩
        rintro hended rfl
        exact hends hended (id, j) (Table.mem_iff_get.2 hj) hid hwaiting hi
    obtain ⟨i, hi, hgoing, hother⟩ := hbefore
    rcases hwritten with ⟨hended, hkeys, -⟩ | ⟨hended, hunkeyed, -⟩
    · have hne := hother hended
      have hrekeyed : (s.storage.turned c r.turn).keys =
          Storage.rekeyed s.storage.keys r.turn.id [] r.turn.unkeyed := by rw [← hkeys]; rfl
      refine ⟨i, belongs_of_letGo hmessage hrekeyed hi hne, ?_⟩
      unfold Storage.going at hgoing ⊢
      show ((s.storage.instances.put r.turn.id r.turn.record).get i).any _ = true
      rw [Table.get_put_of_ne _ hne]
      exact hgoing.resolve_left hne
    · have hrekeyed : (s.storage.turned c r.turn).keys =
          Storage.rekeyed s.storage.keys r.turn.id r.turn.keys [] := by rw [← hunkeyed]; rfl
      have hbelongs : c.belongs (s.storage.turned c r.turn) id = some r.turn.id ∨
          c.belongs (s.storage.turned c r.turn) id = some i :=
        belongs_of_taken hmessage hrekeyed hi
      rcases hbelongs with hbelongs | hbelongs
      · exact ⟨_, hbelongs, going_turned hended (.inl rfl)⟩
      · exact ⟨_, hbelongs, going_turned hended hgoing⟩

theorem NoneLeftWaiting.step (hs : NoneLeftWaiting c s) (hsound : Sound c s) {a : Action} (hok : EndsLast c s a)
    (h : s.step c a = some s') : NoneLeftWaiting c s' := by
  rintro ⟨id, j⟩ hmem hwaiting
  have hj := Table.mem_iff_get.1 hmem
  have htouched := step_touched h
  change j.state = .waiting at hwaiting
  show ∃ i ∈ c.belongs s'.storage id, s'.storage.going i = true
  generalize s'.storage = st at htouched hj
  cases htouched with
  | same =>
    exact hs (id, j) (Table.mem_iff_get.2 hj) hwaiting
  | arrived hfresh =>
    rename_i o
    change (s.storage.journeys.put o.id o.journey).get id = some j at hj
    rw [Table.get_put] at hj
    split at hj
    · cases hj
      rw [(hfresh.2 o (List.mem_cons_self ..)).2] at hwaiting
      cases hwaiting
    · rename_i hid
      obtain ⟨i, hi, hgoing⟩ := hs (id, j) (Table.mem_iff_get.2 hj) hwaiting
      have hbelongs : c.belongs (s.storage.arrive c o) id = c.belongs s.storage id :=
        belongs_congr (Table.get_put_of_ne _ hid _) rfl
      exact ⟨i, hbelongs.symm ▸ hi, hgoing⟩
  | placed hpick hphase hclaimed =>
    rename_i n t rest journey sequences
    change (s.storage.journeys.put t.claim.journey { journey with sequences }).get id = some j at hj
    rw [Table.get_put] at hj
    split at hj
    · rename_i hid
      subst hid
      obtain ⟨was, hwas, hstate⟩ :=
        (hsound.turning t (mem_of_pick hpick)).stands hclaimed journey (by rw [hphase]; rfl)
      cases hj
      exact hs (_, was) (Table.mem_iff_get.2 hwas) (hstate.trans hwaiting)
    · exact hs (id, j) (Table.mem_iff_get.2 hj) hwaiting
  | written hpick hphase haccepts hfresh => exact hs.written hsound hpick hphase haccepts hfresh hok hj hwaiting
  | failed hpick hphase hclaimed =>
    rename_i n t rest journey why
    rcases Storage.handedOn_get (c := c) (s := s.storage)
      (Taking.fail ⟨t.claim, journey, t.message⟩ (c.running t.message.process) why) id with
      ⟨o, ho, -⟩ | ⟨-, hwas, hmessage, -⟩
    · cases ho
    · rw [hwas] at hj
      split at hj
      · cases hj
        cases hwaiting
      · obtain ⟨i, hi, hgoing⟩ := hs (id, j) (Table.mem_iff_get.2 hj) hwaiting
        refine ⟨i, ?_, ?_⟩
        · rw [belongs_congr hmessage (Storage.handedOn_keys _)]
          exact hi
        · unfold Storage.going
          rw [Storage.handedOn_instances]
          exact hgoing

/-- In every run in which an Instance is ended only once no other Message waits that belongs to it, and no Message is
left waiting that belongs to another's ended one, each Message waiting belongs to an Instance that has not ended. -/
theorem noneLeftWaiting_of_endsLast (h : Reach (Sys.step c) (EndsLast c) Starting s) : NoneLeftWaiting c s := by
  suffices hboth : Sound c s ∧ NoneLeftWaiting c s from hboth.2
  induction h with
  | start hstart =>
    refine ⟨sound_of_starting hstart, ?_⟩
    subst hstart
    intro x hx
    cases hx
  | next _ hok hstep ih => exact ⟨ih.1.step hstep, ih.2.step ih.1 hok hstep⟩

/-! Two Messages of one key: the first starts an Instance that waits for the second or for its timer. -/

/-- A unit that waits for a second Message of its key, or for a time, and ends with either. -/
private def awaiting : Flow Nat where
  advance i event now :=
    match event with
    | .arrived arrival =>
      if i.state = 0 then (⟨arrival.keys, i.turns + 1, some (now + 10), 1⟩, .ok [])
      else (⟨i.keys, i.turns + 1, none, 2⟩, .ok [.ended .completed])
    | .due =>
      if i.state = 1 then (⟨i.keys, i.turns + 1, none, 2⟩, .ok [.ended .completed]) else (i, .error .notWaiting)
    | _ => (i, .error .notWaiting)

private def awaits : Setup Nat Unit (Instance Nat) where
  cluster := "c"
  named text := text.utf8ByteSize
  running name := ⟨name, awaiting, [], [⟨"Client", [.context "Client"]⟩], 1⟩
  running_name _ := rfl
  acts := noActs
  form := asItIs
  newInstance := ⟨[], 0, none, 0⟩

private def keyedMessage (id : Nat) (key : String) : Opened :=
  ⟨id, ⟨.active, none, [⟨9, false⟩], none, none, none, 0, []⟩,
    ⟨id, "Await", none, none, none, none, none, none, none, .ok [("Client", key)]⟩⟩

/-- A turn of the Message `id` taken at `now` by itself, `looks` keys looked up. -/
private def wholeTurn (id looks : Nat) (now : Int) : List Action :=
  [.claim id, .turn 0 .read, .turn 0 .keys] ++ List.replicate looks (.turn 0 .look) ++ [.turn 0 (.take now)]

/-- The timer of the only Message of its key comes, and ends the Instance it started. -/
theorem noneLeftWaiting_alone : ∃ s, Reach (Sys.step awaits) (EndsLast awaits) Starting s ∧
    (decide (s.log.length = 2) && s.turning.isEmpty) = true ∧ NoneLeftWaiting awaits s := by
  obtain ⟨s, hs, hlog⟩ := Reach.exists_of_runWhere (Sys.step awaits) (EndsLast awaits)
    (show Starting Sys.opening from rfl)
    (List.flatten [[.arrive (keyedMessage 1 "A"), .arrive (keyedMessage 2 "B")], wholeTurn 1 2 5, [.turn 0 .write],
      wholeTurn 1 1 15, [.turn 0 .write]])
    (fun s => decide (s.log.length = 2) && s.turning.isEmpty) (by decide +kernel)
  exact ⟨s, hs, hlog, noneLeftWaiting_of_endsLast hs⟩

/-- The second Message ends the Instance the first waits for: when the first's timer comes, its Instance has ended, a
new one does not wait for a timer, and the first is left as it was, waiting at its place. -/
theorem leftWaiting_by_an_end : ∃ s, Reach (Sys.step awaits) Always Starting s ∧
    s.turning = [] ∧ ¬ NoneLeftWaiting awaits s := by
  obtain ⟨s, hs, hleft⟩ := Reach.exists_of_runWhere (Sys.step awaits) Always (show Starting Sys.opening from rfl)
    (List.flatten [[.arrive (keyedMessage 1 "A"), .arrive (keyedMessage 2 "A")], wholeTurn 1 2 5, [.turn 0 .write],
      wholeTurn 2 1 6, [.turn 0 .write], wholeTurn 1 2 15])
    (fun s => s.turning.isEmpty && decide (¬ NoneLeftWaiting awaits s)) (by decide +kernel)
  rw [Bool.and_eq_true, List.isEmpty_iff, decide_eq_true_eq] at hleft
  exact ⟨s, hs, hleft⟩

end WorkStep
