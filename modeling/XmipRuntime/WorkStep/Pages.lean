import XmipRuntime.WorkStep.Timers
import XmipRuntime.WorkStep.Waiting

/-!
# Turns of what a scan read

A turn begins with an entry of a page (`src/work_step/dispatch.rs`): a scan reads what is due in a queue, on Xmip
Storage's clock, and each entry is claimed later, on a thread of its own or after the entries before it.  Other turns
write in between.  Under its claim a turn reads its Journey again and nothing else, neither its Message's place nor when
that is due (`src/work_step/turning.rs`), where the send step reads both (`src/send_step/under_claim.rs`).

`Paged` lays the pages over the turns of `Sys`: every claim is one of an entry.  Beside the state a run keeps what stood
when each claim was granted, under which claims a turn was taken for a timer, and under which anything was written.  A
Message bound for a Work Process never moves to another place: an operator's Retry refuses it.
-/

namespace WorkStep

open Library Ledger

variable {σ μ β : Type}

/-- An entry of a page: its Message, by its Journey, and when it was read on Xmip Storage's clock. -/
structure Entry where
  id : Nat
  readAt : Int
  deriving DecidableEq

/-- A claim granted on an entry, and how its Message stood then: in its queue and not failed, its Journey still to be
taken a turn of, and when it is due. -/
structure Grant where
  token : Nat
  entry : Entry
  granted : Int
  held : Bool
  live : Bool
  dueAt : Int
  deriving DecidableEq

structure Paged (β : Type) where
  sys : Sys β
  /-- Xmip Storage's clock. -/
  clock : Int
  /-- When each Message is due, on that clock. -/
  dueAt : Nat → Int
  /-- The entries read and not taken yet. -/
  pages : List Entry
  grants : List Grant
  /-- The claims under which a turn was taken for a timer. -/
  dues : List Nat
  /-- The claims under which something was written. -/
  wrote : List Nat

inductive Happens where
  | tick (nanos : Nat)
  | page (id : Nat)
  /-- An entry passed over: its node holds it in a turn already. -/
  | passes (n : Nat)
  | takes (n : Nat)
  | steps (a : Action)

/-- The token of the turn an action takes for a timer. -/
def Sys.takesDue (c : Setup σ μ β) (s : Sys β) : Action → Option Nat
  | .turn n (.take _) => (pick s.turning n).bind fun x =>
    match x.1.phase with
    | .found journey keys _ =>
      match Taking.event ⟨x.1.claim, journey, x.1.message⟩ (c.running x.1.message.process) keys with
      | .ok .due => some x.1.claim.token
      | _ => none
    | _ => none
  | _ => none

/-- The token of the turn an action writes something of: its places, itself, or its Journey Failed. -/
def Sys.writesBy (s : Sys β) : Action → Option Nat
  | .turn n move => (pick s.turning n).bind fun x =>
    match move, x.1.phase with
    | .place _, .read _ | .fail, .failing .. => if s.storage.Claimed x.1.claim then some x.1.claim.token else none
    | .write, .ready _ r => if s.storage.Accepts r.turn then some x.1.claim.token else none
    | _, _ => none
  | _ => none

namespace Paged

variable (c : Setup σ μ β)

/-- When each Message is due once `a` is done: what arrives at once, what is left waiting so long after the write. -/
def dueAfter (p : Paged β) (a : Action) (id : Nat) : Int :=
  match a, p.sys.writing a with
  | .arrive o, _ => if id = o.id then p.clock else p.dueAt id
  | _, some (t, r) =>
    if p.sys.storage.Accepts r.turn then
      if id ∈ r.turn.handOn.next.map Opened.id then p.clock
      else if id = t.claim.journey then r.turn.handOn.waits.elim (p.dueAt id) fun wait => p.clock + wait.afterNanos
      else p.dueAt id
    else p.dueAt id
  | _, none => p.dueAt id

/-- How the Message of `e` stands now. -/
def standing (p : Paged β) (e : Entry) : Grant where
  token := p.sys.minted
  entry := e
  granted := p.clock
  held := (p.sys.storage.held.get e.id).any fun h => !h.failed
  live := (p.sys.storage.journeys.get e.id).any Journey.live
  dueAt := p.dueAt e.id

def step (p : Paged β) : Happens → Option (Paged β)
  | .tick nanos => some { p with clock := p.clock + nanos }
  | .page id =>
    if (p.sys.storage.held.get id).any (fun h => !h.failed) ∧ p.dueAt id ≤ p.clock then
      some { p with pages := ⟨id, p.clock⟩ :: p.pages }
    else none
  | .passes n => (pick p.pages n).map fun x => { p with pages := x.2 }
  | .takes n => (pick p.pages n).map fun x =>
    match p.sys.claim x.1.id with
    | some sys => { p with sys, pages := x.2, grants := p.standing x.1 :: p.grants }
    | none => { p with pages := x.2 }
  | .steps (.claim _) => none
  | .steps a => (p.sys.step c a).map fun sys =>
    { p with
      sys
      dueAt := p.dueAfter a
      dues := (p.sys.takesDue c a).toList ++ p.dues
      wrote := (p.sys.writesBy a).toList ++ p.wrote }

end Paged

/-- Nothing there yet, on whatever the clock says. -/
def Opens (p : Paged β) : Prop :=
  p.sys = .opening ∧ p.pages = [] ∧ p.grants = [] ∧ p.dues = [] ∧ p.wrote = []

/-- Turns act only on what stands under their claims: one is taken for a timer only of a Message that was at its place
and due as its claim was granted, and something is written only of a Message that was then neither failed nor finished,
nor due later than its page was read. -/
structure ActsOnWhatStands (p : Paged β) : Prop where
  dues : ∀ token ∈ p.dues, ∃ g ∈ p.grants, g.token = token ∧ g.held = true ∧ g.dueAt ≤ g.granted
  wrote : ∀ token ∈ p.wrote, ∃ g ∈ p.grants, g.token = token ∧ g.held = true ∧ g.live = true ∧
    g.dueAt ≤ g.entry.readAt

/-- A turn is written that leaves its Message waiting only while no page read before has an entry of it that is still to
be taken. -/
def Unpaged (p : Paged β) : Happens → Prop
  | .steps a => ∀ x ∈ p.sys.writing a, p.sys.storage.Accepts x.2.turn → x.2.turn.handOn.result.state = .waiting →
    ∀ e ∈ p.pages, e.id ≠ x.1.claim.journey
  | _ => True

instance (p : Paged β) : (a : Happens) → Decidable (Unpaged p a)
  | .steps a => inferInstanceAs (Decidable (∀ x ∈ p.sys.writing a, _ → _ → ∀ e ∈ p.pages, e.id ≠ x.1.claim.journey))
  | .tick _ | .page _ | .passes _ | .takes _ => .isTrue trivial

/-! ### What a step leaves of a Message -/

section Kept

variable {c : Setup σ μ β} {s s' : Sys β} {a : Action} {id : Nat} {j : Journey}

/-- An action that writes a turn of the Message `id` and leaves it waiting. -/
def Sys.Rearms (s : Sys β) (a : Action) (id : Nat) : Prop :=
  ∃ x ∈ s.writing a, s.storage.Accepts x.2.turn ∧ x.2.turn.handOn.result.state = .waiting ∧ id = x.1.claim.journey

/-- The action that writes a turn picked it, ready. -/
private theorem ready_of_writing {t : Turning β} {r : Ready β} (h : s.writing a = some (t, r)) :
    ∃ n rest journey, a = .turn n .write ∧ pick s.turning n = some (t, rest) ∧ t.phase = .ready journey r := by
  unfold Sys.writing at h
  split at h
  · rename_i n
    obtain ⟨⟨u, rest⟩, hpick, hu⟩ := Option.bind_eq_some_iff.1 h
    simp only at hu
    split at hu
    · rename_i journey r' hphase
      cases hu
      exact ⟨n, rest, journey, rfl, hpick, hphase⟩
    · cases hu
  · cases h

/-- A turn Xmip Storage takes is written whole. -/
private theorem turned_of_writing (h : s.step c a = some s') {t : Turning β} {r : Ready β}
    (hw : s.writing a = some (t, r)) (haccepts : s.storage.Accepts r.turn) :
    s.storage.Fresh r.turn.handOn.next ∧ s'.storage = s.storage.turned c r.turn := by
  obtain ⟨n, rest, journey, rfl, hpick, hphase⟩ := ready_of_writing hw
  simp only [Sys.step, hpick, Option.bind_some, Sys.turns, hphase, Sys.write, if_pos haccepts] at h
  split at h
  · rename_i hfresh
    cases h
    exact ⟨hfresh, rfl⟩
  · cases h

/-- What a write of a turn leaves of its own Message, where that is still to be taken a turn of: it waits. -/
private theorem waiting_of_live {t : Turning β} {journey : Journey} {r : Ready β} (h : t.Computes c journey r)
    (hlive : r.turn.handOn.result.live = true) : r.turn.handOn.result.state = .waiting := by
  obtain ⟨i, -, -, hwritten⟩ := h.written
  rcases hwritten with ⟨-, -, hdone⟩ | ⟨-, -, ⟨-, hdone⟩ | ⟨-, -, hwaiting, -⟩⟩
  · rw [hdone] at hlive
    cases hlive
  · rw [hdone] at hlive
    cases hlive
  · exact hwaiting

/-- A step leaves each Journey there, and one to be taken a turn of was one before: its Message is left waiting by a
turn, or is in its queue as it was. -/
theorem Sound.kept (hs : Sound c s) (h : s.step c a = some s') (hj : s.storage.journeys.get id = some j) :
    ∃ j', s'.storage.journeys.get id = some j' ∧ (j'.live = true → j.live = true ∧
      (s.Rearms a id ∨ s'.storage.held.get id = s.storage.held.get id)) := by
  have htouched := step_touched h
  generalize s'.storage = st at htouched
  cases htouched with
  | same => exact ⟨j, hj, fun hlive => ⟨hlive, .inr rfl⟩⟩
  | arrived hfresh =>
    rename_i o
    have hne : id ≠ o.id := by
      rintro rfl
      rw [(hfresh.2 o (List.mem_singleton_self o)).1] at hj
      cases hj
    refine ⟨j, (Table.get_put_of_ne _ hne _).trans hj, fun hlive => ⟨hlive, .inr ?_⟩⟩
    exact Table.get_put_of_ne _ hne _
  | placed hpick hphase hclaimed =>
    rename_i n t rest journey sequences
    by_cases hid : id = t.claim.journey
    · subst hid
      obtain ⟨was, hwas, hstate⟩ :=
        (hs.turning t (mem_of_pick hpick)).stands hclaimed journey (by rw [hphase]; rfl)
      rw [hj] at hwas
      cases hwas
      refine ⟨{ journey with sequences }, Table.get_put_self .., fun hlive => ⟨?_, .inr rfl⟩⟩
      unfold Journey.live at hlive ⊢
      rw [hstate]
      exact hlive
    · exact ⟨j, (Table.get_put_of_ne _ hid _).trans hj, fun hlive => ⟨hlive, .inr rfl⟩⟩
  | written hpick hphase haccepts hfresh =>
    rename_i n t rest journey r
    have ht := hs.turning t (mem_of_pick hpick)
    have hcomputes := ht.computed _ _ hphase
    obtain ⟨hjourney, -, hheld⟩ := Storage.handedOn_known (c := c) hfresh hj
    by_cases hid : id = r.turn.handOn.journey
    · rw [if_pos hid] at hjourney
      refine ⟨_, hjourney, fun hlive => ⟨?_, .inl ?_⟩⟩
      · have hclaimed : s.storage.Claimed t.claim := by
          have := haccepts.1
          rwa [hcomputes.claim.1, hcomputes.claim.2] at this
        obtain ⟨was, hwas, hstate⟩ := ht.stands hclaimed journey (by rw [hphase]; rfl)
        rw [← hcomputes.claim.1, ← hid, hj] at hwas
        cases hwas
        have hread := ht.live journey (by rw [hphase]; rfl)
        unfold Journey.live at hread ⊢
        rw [hstate]
        exact hread
      · exact ⟨(t, r), writing_of_phase hpick hphase, haccepts, waiting_of_live hcomputes hlive,
          hid.trans hcomputes.claim.1⟩
    · rw [if_neg hid] at hjourney
      exact ⟨j, hjourney, fun hlive => ⟨hlive, .inr (hheld.trans (Storage.heldAfter_of_ne hid))⟩⟩
  | failed hpick hphase hclaimed =>
    rename_i n t rest journey why
    obtain ⟨hjourney, -, hheld⟩ := Storage.handedOn_known (c := c) (s := s.storage)
      (h := Taking.fail ⟨t.claim, journey, t.message⟩ (c.running t.message.process) why) (by simp [Taking.fail,
        Taking.handOn, Storage.Fresh]) hj
    split at hjourney
    · exact ⟨_, hjourney, fun hlive => by cases hlive⟩
    · rename_i hid
      exact ⟨j, hjourney, fun hlive => ⟨hlive, .inr (hheld.trans (Storage.heldAfter_of_ne hid))⟩⟩

/-- A Message that is still to be taken a turn of and that no turn left waiting is due when it was. -/
theorem Paged.dueAfter_eq {p : Paged β} (hs : Sound c p.sys) (h : p.sys.step c a = some s')
    (hj : p.sys.storage.journeys.get id = some j) {j' : Journey} (hj' : s'.storage.journeys.get id = some j')
    (hlive : j'.live = true) (hrearms : ¬ p.sys.Rearms a id) : p.dueAfter a id = p.dueAt id := by
  unfold Paged.dueAfter
  split
  · rename_i o
    have hne : id ≠ o.id := by
      rintro rfl
      simp only [Sys.step, Sys.arrive] at h
      split at h
      · rename_i hfresh
        rw [(hfresh.2 o (List.mem_singleton_self o)).1] at hj
        cases hj
      · cases h
    rw [if_neg hne]
  · rename_i t r _ hwriting
    split
    · rename_i haccepts
      obtain ⟨hfresh, hstorage⟩ := turned_of_writing h hwriting haccepts
      obtain ⟨n, rest, journey, rfl, hpick, hphase⟩ := ready_of_writing hwriting
      have hcomputes := (hs.turning t (mem_of_pick hpick)).computed _ _ hphase
      have hnew : id ∉ r.turn.handOn.next.map Opened.id := by
        intro hnew
        obtain ⟨o, ho, rfl⟩ := List.mem_map.1 hnew
        rw [(hfresh.2 o ho).1] at hj
        cases hj
      have hother : id ≠ t.claim.journey := by
        intro hid
        obtain ⟨hjourney, -⟩ := Storage.handedOn_known (c := c) hfresh hj
        rw [if_pos (hid.trans hcomputes.claim.1.symm)] at hjourney
        have hsame : some j' = some r.turn.handOn.result := by
          rw [← hj', hstorage]
          exact hjourney
        cases hsame
        exact hrearms ⟨(t, r), hwriting, haccepts, waiting_of_live hcomputes hlive, hid⟩
      rw [if_neg hnew, if_neg hother]
    · rfl
  · rfl

end Kept

/-! ### Entries and claims -/

/-- What an entry was read as still holds, where its Message is still to be taken a turn of. -/
def Entry.Current (p : Paged β) (e : Entry) : Prop :=
  e.readAt ≤ p.clock ∧ ∃ j, p.sys.storage.journeys.get e.id = some j ∧ (j.live = true →
    (p.sys.storage.held.get e.id).any (fun h => !h.failed) = true ∧ p.dueAt e.id ≤ e.readAt)

/-- The Message stood as its entry was read. -/
def Grant.Good (g : Grant) : Prop :=
  g.held = true ∧ g.live = true ∧ g.dueAt ≤ g.entry.readAt ∧ g.entry.readAt ≤ g.granted

/-- The turn `t` was granted its claim on a Message that stood, or has not read yet that its Journey has ended. -/
def Turning.Granted (p : Paged β) (t : Turning β) : Prop :=
  ∃ g ∈ p.grants, g.token = t.claim.token ∧ (g.Good ∨ t.phase.journey? = none ∧
    ∃ j, p.sys.storage.journeys.get t.claim.journey = some j ∧ j.live = false)

/-- A Message in a queue is of a Journey there. -/
def Known (s : Storage β) : Prop := ∀ id h, s.held.get id = some h → ∃ j, s.journeys.get id = some j

structure Paged.Inv (c : Setup σ μ β) (p : Paged β) : Prop where
  sound : Sound c p.sys
  known : Known p.sys.storage
  pages : ∀ e ∈ p.pages, e.Current p
  turning : ∀ t ∈ p.sys.turning, t.Granted p
  acts : ActsOnWhatStands p

section Steps

variable {c : Setup σ μ β} {p : Paged β} {sys : Sys β} {a : Action}

private theorem held_of_heldAfter {held : Table Nat Held} {h : HandOn} {id : Nat} {x : Held}
    (hx : (Storage.heldAfter held h).get id = some x) : ∃ y, held.get id = some y := by
  by_cases hid : id = h.journey
  · subst hid
    unfold Storage.heldAfter at hx
    split at hx
    · exact ⟨x, hx⟩
    · rename_i was hwas
      exact ⟨was, hwas⟩
  · exact ⟨x, (Storage.heldAfter_of_ne hid).symm.trans hx⟩

private theorem Known.handedOn {s : Storage β} (hs : Known s) (h : HandOn) : Known (s.handedOn c h) := by
  intro id x hx
  rcases Storage.handedOn_get (c := c) (s := s) h id with ⟨o, -, -, hj, -⟩ | ⟨-, hj, -, hheld⟩
  · exact ⟨_, hj⟩
  · rw [hheld] at hx
    obtain ⟨y, hy⟩ := held_of_heldAfter hx
    obtain ⟨j, hwas⟩ := hs id y hy
    rw [hj]
    split
    · exact ⟨_, rfl⟩
    · exact ⟨j, hwas⟩

theorem Known.step {s s' : Sys β} (hs : Known s.storage) (h : s.step c a = some s') : Known s'.storage := by
  have htouched := step_touched h
  generalize s'.storage = st at htouched
  cases htouched with
  | same => exact hs
  | arrived hfresh =>
    rename_i o
    intro id x hx
    show ∃ j, (s.storage.journeys.put o.id o.journey).get id = some j
    rw [Table.get_put]
    split
    · exact ⟨_, rfl⟩
    · rename_i hid
      exact hs id x ((Table.get_put_of_ne _ hid _).symm.trans hx)
  | placed hpick hphase hclaimed =>
    rename_i n t rest journey sequences
    intro id x hx
    obtain ⟨j, hj⟩ := hs id x hx
    show ∃ j, (s.storage.journeys.put t.claim.journey { journey with sequences }).get id = some j
    rw [Table.get_put]
    split
    · exact ⟨_, rfl⟩
    · exact ⟨j, hj⟩
  | written => exact hs.handedOn _
  | failed => exact hs.handedOn _

/-- An entry after a step of a turn that does not leave its Message waiting. -/
private theorem Entry.Current.steps (hs : Sound c p.sys) (h : p.sys.step c a = some sys) {e : Entry}
    (he : e.Current p) (hrearms : ¬ p.sys.Rearms a e.id) {grants : List Grant} {dues wrote : List Nat} :
    e.Current { p with sys, dueAt := p.dueAfter a, grants, dues, wrote } := by
  obtain ⟨hread, j, hj, hcurrent⟩ := he
  obtain ⟨j', hj', hkept⟩ := hs.kept h hj
  refine ⟨hread, j', hj', fun hlive => ?_⟩
  obtain ⟨hwas, hheld⟩ := hkept hlive
  obtain ⟨hin, hdue⟩ := hcurrent hwas
  constructor
  · show (sys.storage.held.get e.id).any _ = true
    rw [hheld.resolve_left hrearms]
    exact hin
  · show p.dueAfter a e.id ≤ e.readAt
    rw [Paged.dueAfter_eq hs h hj hj' hlive hrearms]
    exact hdue

/-- A turn a step is not of: it was granted its claim as it was. -/
private theorem Turning.Granted.steps (hs : WorkStep.Sound c p.sys) (h : p.sys.step c a = some sys) {t : Turning β}
    (ht : t.Granted p) {dueAt : Nat → Int} {dues wrote : List Nat} :
    t.Granted { p with sys, dueAt, dues, wrote } := by
  obtain ⟨g, hg, htoken, hgood⟩ := ht
  refine ⟨g, hg, htoken, hgood.imp_right ?_⟩
  rintro ⟨hphase, j, hj, hdead⟩
  obtain ⟨j', hj', hlive⟩ := hs.kept h hj
  refine ⟨hphase, j', hj', ?_⟩
  by_contra hne
  rw [Bool.not_eq_false] at hne
  rw [(hlive hne).1] at hdead
  cases hdead

/-- A turn that has read its Journey was granted its claim on a Message that stood. -/
private theorem Turning.Granted.good {t : Turning β} (ht : t.Granted p) {journey : Journey}
    (hphase : t.phase.journey? = some journey) : ∃ g ∈ p.grants, g.token = t.claim.token ∧ g.Good := by
  obtain ⟨g, hg, htoken, hgood⟩ := ht
  refine ⟨g, hg, htoken, hgood.resolve_right ?_⟩
  rintro ⟨hnone, -⟩
  rw [hphase] at hnone
  cases hnone

/-- A turn that goes on to another phase was granted its claim on a Message that stood: it had read its Journey, or reads
now that it is still to be taken a turn of. -/
private theorem Turning.Granted.good_of_enters {t : Turning β} (ht : t.Granted p) {phase : Phase β}
    (h : t.Enters c p.sys.storage phase) : ∃ g ∈ p.grants, g.token = t.claim.token ∧ g.Good := by
  cases phase with
  | claimed => exact h.elim
  | read journey =>
    obtain ⟨g, hg, htoken, hgood⟩ := ht
    refine ⟨g, hg, htoken, hgood.resolve_right ?_⟩
    rintro ⟨-, j, hj, hdead⟩
    rw [h.1] at hj
    cases hj
    rw [h.2] at hdead
    cases hdead
  | looking | found | failing => exact ht.good h
  | ready => exact ht.good h.1

/-- The turns after a move of the one picked: it was granted its claim as before, or has just read that its Journey is
still to be taken a turn of. -/
private theorem granted_of_step (hp : p.Inv c) (h : p.sys.step c a = some sys) (hclaim : ∀ id, a ≠ .claim id)
    {dueAt : Nat → Int} {dues wrote : List Nat} : ∀ t ∈ sys.turning, t.Granted { p with sys, dueAt, dues, wrote } := by
  intro t ht
  have hkept : ∀ u ∈ p.sys.turning, u.Granted { p with sys, dueAt, dues, wrote } :=
    fun u hu => (hp.turning u hu).steps hp.sound h
  cases a with
  | arrive o =>
    simp only [Sys.step, Sys.arrive] at h
    split at h
    · cases h
      exact hkept t ht
    · cases h
  | claim id => exact absurd rfl (hclaim id)
  | lapse id =>
    cases h
    exact hkept t ht
  | turn n move =>
    obtain ⟨⟨u, rest⟩, hpick, hmove⟩ := Option.bind_eq_some_iff.1 h
    have hrest : ∀ v ∈ rest, v.Granted { p with sys, dueAt, dues, wrote } :=
      fun v hv => hkept v (mem_of_mem_pick hpick hv)
    have hu := hp.turning u (mem_of_pick hpick)
    have hmoved := turns_cases hmove
    clear h hmove hkept
    cases hmoved with
    | leaves => exact hrest t ht
    | written => exact hrest t ht
    | failed => exact hrest t ht
    | placed hphase hclaimed =>
      rcases List.mem_cons.1 ht with rfl | ht
      · obtain ⟨g, hg, htoken, hgood⟩ := hu.good (congrArg Phase.journey? hphase)
        exact ⟨g, hg, htoken, .inl hgood⟩
      · exact hrest t ht
    | goesOn henters =>
      rcases List.mem_cons.1 ht with rfl | ht
      · obtain ⟨g, hg, htoken, hgood⟩ := hu.good_of_enters henters
        exact ⟨g, hg, htoken, .inl hgood⟩
      · exact hrest t ht

private theorem read_of_takesDue {s : Sys β} {token : Nat} (h : s.takesDue c a = some token) :
    ∃ t ∈ s.turning, t.claim.token = token ∧ ∃ journey, t.phase.journey? = some journey := by
  unfold Sys.takesDue at h
  split at h
  · obtain ⟨⟨t, rest⟩, hpick, h⟩ := Option.bind_eq_some_iff.1 h
    refine ⟨t, mem_of_pick hpick, ?_⟩
    simp only at h
    split at h
    · rename_i journey keys id hphase
      split at h
      · cases h
        exact ⟨rfl, journey, congrArg Phase.journey? hphase⟩
      · cases h
    · cases h
  · cases h

private theorem read_of_writesBy {s : Sys β} {token : Nat} (h : s.writesBy a = some token) :
    ∃ t ∈ s.turning, t.claim.token = token ∧ ∃ journey, t.phase.journey? = some journey := by
  unfold Sys.writesBy at h
  split at h
  · obtain ⟨⟨t, rest⟩, hpick, hwrites⟩ := Option.bind_eq_some_iff.1 h
    clear h
    refine ⟨t, mem_of_pick hpick, ?_⟩
    simp only at hwrites
    split at hwrites
    · rename_i journey hphase
      obtain ⟨-, htoken⟩ := Option.ite_none_right_eq_some.1 hwrites
      exact ⟨Option.some.inj htoken, journey, congrArg Phase.journey? hphase⟩
    · rename_i journey why hphase
      obtain ⟨-, htoken⟩ := Option.ite_none_right_eq_some.1 hwrites
      exact ⟨Option.some.inj htoken, journey, congrArg Phase.journey? hphase⟩
    · rename_i journey r hphase
      obtain ⟨-, htoken⟩ := Option.ite_none_right_eq_some.1 hwrites
      exact ⟨Option.some.inj htoken, journey, congrArg Phase.journey? hphase⟩
    · cases hwrites
  · cases h

/-- What a turn is taken for a timer of, or writes, stood as its claim was granted. -/
private theorem acts_of_step (hp : p.Inv c) {dueAt : Nat → Int} :
    ActsOnWhatStands { p with
      sys, dueAt, dues := (p.sys.takesDue c a).toList ++ p.dues, wrote := (p.sys.writesBy a).toList ++ p.wrote } := by
  constructor
  · intro token htoken
    rcases List.mem_append.1 htoken with hnew | hold
    · obtain ⟨t, ht, rfl, journey, hjourney⟩ := read_of_takesDue (Option.mem_toList.1 hnew)
      obtain ⟨g, hg, htoken, hheld, -, hdue, hread⟩ := (hp.turning t ht).good hjourney
      exact ⟨g, hg, htoken, hheld, Int.le_trans hdue hread⟩
    · exact hp.acts.dues token hold
  · intro token htoken
    rcases List.mem_append.1 htoken with hnew | hold
    · obtain ⟨t, ht, rfl, journey, hjourney⟩ := read_of_writesBy (Option.mem_toList.1 hnew)
      obtain ⟨g, hg, htoken, hheld, hlive, hdue, -⟩ := (hp.turning t ht).good hjourney
      exact ⟨g, hg, htoken, hheld, hlive, hdue⟩
    · exact hp.acts.wrote token hold

/-- A claim granted on an entry: where its Message is still to be taken a turn of, it stands as it was read. -/
private theorem Paged.Inv.granted (hp : p.Inv c) {e : Entry} {rest : List Entry} (he : e ∈ p.pages)
    (hrest : ∀ e ∈ rest, e ∈ p.pages) (h : p.sys.claim e.id = some sys) :
    Paged.Inv c { p with sys, pages := rest, grants := p.standing e :: p.grants } := by
  have hstep : p.sys.step c (.claim e.id) = some sys := h
  have hclaim : ∃ message, p.sys.storage.messages.get e.id = some message ∧ sys = { p.sys with
      storage := { p.sys.storage with claims := p.sys.storage.claims.put e.id p.sys.minted }
      turning := ⟨⟨e.id, p.sys.minted⟩, message, .claimed⟩ :: p.sys.turning
      minted := p.sys.minted + 1 } := by
    unfold Sys.claim at h
    split at h
    · rename_i message hmessage _
      cases h
      exact ⟨message, hmessage, rfl⟩
    · cases h
  obtain ⟨message, -, hsys⟩ := hclaim
  have hgranted : ∀ t ∈ p.sys.turning, t.Granted { p with sys, pages := rest, grants := p.standing e :: p.grants } := by
    intro t ht
    obtain ⟨g, hg, htoken, hgood⟩ := hp.turning t ht
    refine ⟨g, List.mem_cons_of_mem _ hg, htoken, ?_⟩
    subst hsys
    exact hgood
  refine ⟨hp.sound.step hstep, hp.known.step hstep, ?_, ?_, ?_⟩
  · intro e' he'
    have := hp.pages e' (hrest e' he')
    subst hsys
    exact this
  · intro t ht
    rw [hsys] at ht
    rcases List.mem_cons.1 ht with rfl | ht
    · obtain ⟨hread, j, hj, hcurrent⟩ := hp.pages e he
      refine ⟨p.standing e, List.mem_cons_self .., rfl, ?_⟩
      by_cases hlive : j.live = true
      · obtain ⟨hheld, hdue⟩ := hcurrent hlive
        refine .inl ⟨hheld, ?_, hdue, hread⟩
        simp [Paged.standing, hj, hlive]
      · refine .inr ⟨rfl, j, ?_, by simpa using hlive⟩
        subst hsys
        exact hj
    · exact hgranted t ht
  · constructor
    · intro token htoken
      obtain ⟨g, hg, hgood⟩ := hp.acts.dues token htoken
      exact ⟨g, List.mem_cons_of_mem _ hg, hgood⟩
    · intro token htoken
      obtain ⟨g, hg, hgood⟩ := hp.acts.wrote token htoken
      exact ⟨g, List.mem_cons_of_mem _ hg, hgood⟩

theorem Paged.Inv.step (hp : p.Inv c) {a : Happens} (hok : Unpaged p a) {p' : Paged β} (h : p.step c a = some p') :
    p'.Inv c := by
  cases a with
  | tick nanos =>
    cases h
    refine ⟨hp.sound, hp.known, ?_, hp.turning, ⟨hp.acts.dues, hp.acts.wrote⟩⟩
    intro e he
    obtain ⟨hread, hcurrent⟩ := hp.pages e he
    exact ⟨by show e.readAt ≤ p.clock + nanos; omega, hcurrent⟩
  | page id =>
    simp only [Paged.step] at h
    split at h
    · rename_i hdue
      cases h
      refine ⟨hp.sound, hp.known, ?_, hp.turning, ⟨hp.acts.dues, hp.acts.wrote⟩⟩
      intro e he
      rcases List.mem_cons.1 he with rfl | he
      · obtain ⟨x, hx, -⟩ := (Option.any_eq_true _ _).1 hdue.1
        obtain ⟨j, hj⟩ := hp.known id x hx
        exact ⟨Int.le_refl _, j, hj, fun _ => hdue⟩
      · exact hp.pages e he
    · cases h
  | passes n =>
    obtain ⟨⟨e, rest⟩, hpick, rfl⟩ := Option.map_eq_some_iff.1 h
    exact ⟨hp.sound, hp.known, fun e' he' => hp.pages e' (mem_of_mem_pick hpick he'), hp.turning, ⟨hp.acts.dues, hp.acts.wrote⟩⟩
  | takes n =>
    obtain ⟨⟨e, rest⟩, hpick, rfl⟩ := Option.map_eq_some_iff.1 h
    simp only
    split
    · rename_i sys hclaim
      exact hp.granted (mem_of_pick hpick) (fun e' he' => mem_of_mem_pick hpick he') hclaim
    · exact ⟨hp.sound, hp.known, fun e' he' => hp.pages e' (mem_of_mem_pick hpick he'), hp.turning,
        ⟨hp.acts.dues, hp.acts.wrote⟩⟩
  | steps a =>
    have hclaim : ∀ id, a ≠ .claim id := by
      rintro id rfl
      cases h
    rw [Paged.step] at h
    · obtain ⟨sys, hstep, rfl⟩ := Option.map_eq_some_iff.1 h
      refine ⟨hp.sound.step hstep, hp.known.step hstep, ?_, granted_of_step hp hstep hclaim, acts_of_step hp⟩
      intro e he
      refine (hp.pages e he).steps hp.sound hstep ?_
      rintro ⟨x, hx, haccepts, hwaiting, hid⟩
      exact hok x hx haccepts hwaiting e he hid
    · exact hclaim

end Steps

/-- In every run in which a turn leaves its Message waiting only while no page read before has an entry of it still to be
taken, turns act only on what stands under their claims. -/
theorem actsOnWhatStands_of_unpaged {c : Setup σ μ β} {p : Paged β} (h : Reach (Paged.step c) Unpaged Opens p) :
    ActsOnWhatStands p := by
  suffices hp : p.Inv c from hp.acts
  induction h with
  | start hopens =>
    obtain ⟨hsys, hpages, -, hdues, hwrote⟩ := hopens
    refine ⟨sound_of_starting hsys, ?_, ?_, ?_, ?_, ?_⟩
    · rw [hsys]
      intro id h hh
      cases hh
    · rw [hpages]
      intro e he
      cases he
    · rw [hsys]
      intro t ht
      cases ht
    · rw [hdues]
      intro token htoken
      cases htoken
    · rw [hwrote]
      intro token htoken
      cases htoken
  | next _ hok hstep ih => exact ih.step hok hstep

/-! Two scans of one queue, each on a node of its own. -/

/-- A unit that waits ten nanoseconds from its Message's arrival, and ends on its timer whenever that is said to be
due. -/
private def lingering : Flow Nat where
  advance i event now :=
    match event with
    | .arrived _ => (⟨[], i.turns + 1, some (now + 10), 1⟩, .ok [])
    | .due => (⟨[], i.turns + 1, none, 2⟩, .ok [.ended .completed])
    | _ => (i, .error .notWaiting)

private def lingers : Setup Nat Unit (Instance Nat) where
  cluster := "c"
  named text := text.utf8ByteSize
  running name := ⟨name, lingering, [], [], 1⟩
  running_name _ := rfl
  acts := noActs
  form := asItIs
  newInstance := ⟨[], 0, none, 0⟩

private def oneMessage : Opened :=
  ⟨1, ⟨.active, none, [], none, none, none, 0, []⟩, ⟨1, "Linger", none, none, none, none, none, none, none, .ok []⟩⟩

private def noPages : Paged (Instance Nat) := ⟨.opening, 0, fun _ => 0, [], [], [], []⟩

/-- The first entry read taken, and its turn to its write at `now`. -/
private def turnOfEntry (now : Int) : List Happens :=
  [.takes 0, .steps (.turn 0 .read), .steps (.turn 0 .keys), .steps (.turn 0 .look), .steps (.turn 0 (.take now)),
    .steps (.turn 0 .write)]

/-- A Message arrives and is left waiting; its timer comes, and its entry of a later page ends it. -/
theorem actsOnWhatStands_oneScan : ∃ p, Reach (Paged.step lingers) Unpaged Opens p ∧
    (decide (p.dues.length = 1) && decide (p.wrote.length = 2)) = true ∧ ActsOnWhatStands p := by
  obtain ⟨p, hp, hlog⟩ := Reach.exists_of_runWhere (Paged.step lingers) Unpaged
    (show Opens noPages from ⟨rfl, rfl, rfl, rfl, rfl⟩)
    (List.flatten [[.steps (.arrive oneMessage), .page 1], turnOfEntry 0, [.tick 10, .page 1], turnOfEntry 10])
    (fun p => decide (p.dues.length = 1) && decide (p.wrote.length = 2)) (by decide +kernel)
  exact ⟨p, hp, hlog, actsOnWhatStands_of_unpaged hp⟩

/-- Both scans read the Message as it arrived.  A turn of the first entry leaves it waiting; the second entry is claimed
in the same nanosecond, and its turn is taken for the timer, ten before that is due, and written. -/
theorem due_before_its_time : ∃ p, Reach (Paged.step lingers) Always Opens p ∧ p.sys.turning = [] ∧
    ¬ ActsOnWhatStands p := by
  obtain ⟨p, hp, hearly⟩ := Reach.exists_of_runWhere (Paged.step lingers) Always
    (show Opens noPages from ⟨rfl, rfl, rfl, rfl, rfl⟩)
    (List.flatten [[.steps (.arrive oneMessage), .page 1, .page 1], turnOfEntry 0, turnOfEntry 0])
    (fun p => p.sys.turning.isEmpty && decide (p.dues = [1]) &&
      p.grants.all fun g => decide (g.token = 1 → ¬ g.dueAt ≤ g.granted)) (by decide +kernel)
  simp only [Bool.and_eq_true, List.isEmpty_iff, decide_eq_true_eq, List.all_eq_true] at hearly
  obtain ⟨⟨hturning, hdues⟩, hgrants⟩ := hearly
  refine ⟨p, hp, hturning, fun hacts => ?_⟩
  obtain ⟨g, hg, htoken, -, hdue⟩ := hacts.dues 1 (by rw [hdues]; exact List.mem_singleton_self 1)
  exact hgrants g hg htoken hdue

end WorkStep
