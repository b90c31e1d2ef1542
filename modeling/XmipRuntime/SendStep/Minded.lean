import XmipRuntime.SendStep.Ahead

/-!
# What every step of the node leaves covered

All that may go is looked at again: it is being sent or claimed, its queue is to be read, a rescan is to come, or the
dispatching has it still to look at.  Each step keeps that, where it is minded, and so does every run; at rest, what is
left is that its queue is asked, starved, or to be read with every other.  What the node owns it has a pass of under way.
-/

namespace Ahead

open Library

/-! ### Heads of sequences -/

section Heads

variable {places : Places}

/-- What stands first in a sequence stays first as a place is taken at its end. -/
theorem head_take {x : Place} {queue first : Nat} (h : (places queue).head? = some first) :
    (places.take x queue).head? = some first := by
  unfold Places.take
  split
  · rw [List.head?_append, h]
    rfl
  · exact h

theorem mem_take {x : Place} {queue holder : Nat} (h : holder ∈ places queue) : holder ∈ places.take x queue := by
  unfold Places.take
  split
  · exact List.mem_append_left _ h
  · exact h

/-- A place taken brings none to the head. -/
theorem leads_of_take {x y : Place} (h : (places.take x).leads y = true) : places.leads y = true := by
  unfold Places.leads at h ⊢
  cases hhead : (places y.1).head? with
  | none => rw [List.head?_eq_none_iff.1 hhead]; rfl
  | some first =>
    rw [head_take hhead] at h
    by_cases hheld : y.2 ∈ places y.1
    · rw [List.contains_iff_mem.2 (mem_take hheld)] at h
      rw [List.contains_iff_mem.2 hheld]
      exact h
    · rw [Bool.eq_false_iff.2 fun h => hheld (List.contains_iff_mem.1 h)]
      rfl

theorem leads_of_foldl_take {xs : List Place} {y : Place} (h : (xs.foldl Places.take places).leads y = true) :
    places.leads y = true := by
  induction xs generalizing places with
  | nil => exact h
  | cons x xs ih => exact leads_of_take (ih h)

/-- A scan that takes a Message's places brings none to the head. -/
theorem leads_of_takeLate {m m' : Message} {headed : List Place} {id : Nat} {places' : Places}
    (htake : m.takeLate places headed id = some (m', places')) {y : Place} (h : places'.leads y = true) :
    places.leads y = true := by
  unfold Message.takeLate at htake
  split at htake
  · split at htake
    · cases htake
      exact leads_of_take h
    · split at htake
      · cases htake
        rw [← List.foldl_map] at h
        exact leads_of_foldl_take h
      · cases htake
  · cases htake

end Heads

/-! ### What each step leaves covered -/

namespace Sys

/-- Whatever the node owns, a pass of it is under way. -/
def OwnedSent (s : Sys) : Prop := ∀ id ∈ s.owned, ∃ pass ∈ s.passes, pass.id = id

/-- All that may go is covered. -/
structure Minds (s : Sys) : Prop where
  covered : ∀ id m, s.messages.get id = some m → MayGo s id m → Covered s id m
  owned : s.OwnedSent

/-- What covers the Message before a step covers it after, or something else does. -/
structure Grows (s s' : Sys) (id : Nat) (m : Message) : Prop where
  sent : s.Sent id → s'.Sent id
  taken : s.Taken id m → Covered s' id m
  woken : s.Woken m.queue → s'.Woken m.queue
  acting : s.Acting m.queue → s'.Acting m.queue ∨ s'.Woken m.queue
  closing : s.Closing → s'.Closing ∨ s'.rescan = true
  awaited : s.dispatching.Awaits id m → Covered s' id m

variable {s s' : Sys}

theorem Covered.of_grows {id : Nat} {m : Message} (h : Covered s id m) (hgrows : Grows s s' id m) : Covered s' id m := by
  cases h with
  | sent h => exact .sent (hgrows.sent h)
  | taken h => exact hgrows.taken h
  | woken h => exact .woken (hgrows.woken h)
  | acting h =>
    rcases hgrows.acting h with h | h
    · exact .acting h
    · exact .woken h
  | closing h =>
    rcases hgrows.closing h with h | h
    · exact .closing h
    · exact .woken (.inr (.inr h))
  | awaited h => exact hgrows.awaited h

/-- All that may go is covered after a step that leaves what covers it, where it might have gone before or is covered
now. -/
theorem minds_of_grows (hs : s.Minds) (howned : s'.OwnedSent)
    (h : ∀ id m, s'.messages.get id = some m → MayGo s' id m →
      Covered s' id m ∨ s.messages.get id = some m ∧ MayGo s id m ∧ Grows s s' id m) : s'.Minds := by
  refine ⟨fun id m hm hgo => ?_, howned⟩
  rcases h id m hm hgo with hcovered | ⟨hm₀, hgo₀, hgrows⟩
  · exact hcovered
  · exact (hs.covered id m hm₀ hgo₀).of_grows hgrows

/-- What may go after a step that lets none be looked at anew might have gone before, where it headed its sequences. -/
theorem MayGo.headed {id : Nat} {m : Message} (h : MayGo s' id m) (hports : s'.ports = s.ports)
    (hwaits : (id ∈ s.fallen → id ∈ s'.fallen) ∧ (id ∈ s.lapsing → id ∈ s'.lapsing))
    (hpassed : s'.passedOver id m = false → s.passedOver id m = false) (hheads : s.leads id m = true) : MayGo s id m where
  served := hports ▸ h.served
  due := h.due
  fallen hmem := h.fallen (hwaits.1 hmem)
  failed := h.failed
  lapsing hmem := h.lapsing (hwaits.2 hmem)
  passed := hpassed h.passed
  heads := hheads

/-- What may go after a step that brings none to the head, and lets none be looked at anew, might have gone before. -/
theorem MayGo.before {id : Nat} {m : Message} (h : MayGo s' id m) (hports : s'.ports = s.ports)
    (hwaits : (id ∈ s.fallen → id ∈ s'.fallen) ∧ (id ∈ s.lapsing → id ∈ s'.lapsing))
    (hpassed : s'.passedOver id m = false → s.passedOver id m = false)
    (hheads : ∀ x, s'.places.leads x = true → s.places.leads x = true) : MayGo s id m :=
  h.headed hports hwaits hpassed (List.all_eq_true.2 fun x hx => hheads x (List.all_eq_true.1 h.heads x hx))

/-- So it is where the same retries are waited for, and the same claims are to lapse. -/
theorem MayGo.same {id : Nat} {m : Message} (h : MayGo s' id m)
    (hsame : s'.ports = s.ports ∧ s'.fallen = s.fallen ∧ s'.lapsing = s.lapsing)
    (hpassed : s'.passedOver id m = false → s.passedOver id m = false)
    (hheads : ∀ x, s'.places.leads x = true → s.places.leads x = true) : MayGo s id m :=
  h.before hsame.1 ⟨fun hmem => hsame.2.1 ▸ hmem, fun hmem => hsame.2.2 ▸ hmem⟩ hpassed hheads

/-- A place passed over stays so where its mark does, and where it is not left unread anew. -/
theorem passedOver_before {id : Nat} {m m' : Message} (h : s'.passedOver id m' = false) (hqueue : m'.queue = m.queue)
    (hposition : m'.position = m.position) (hpassed : s.passed m.queue = s'.passed m.queue)
    (hunread : s'.unread id m' = true → s.unread id m = true) : s.passedOver id m = false := by
  unfold passedOver at h ⊢
  rw [hpassed, ← hqueue, ← hposition]
  simp only [Bool.and_eq_false_iff, Bool.not_eq_false'] at h ⊢
  exact h.imp_right hunread

/-- The place of what may go is not marked, but where the read under way has not come upon it. -/
theorem MayGo.unmarked {id : Nat} {m : Message} (h : MayGo s id m) (hread : s.unread id m = false) :
    (id, m.position) ∉ s.passed m.queue := by
  have hpassed := h.passed
  unfold passedOver at hpassed
  rw [hread] at hpassed
  simpa using hpassed

theorem woken_of_freed {queue : Nat} (h : s.Woken queue) : s.freed.Woken queue := by
  rcases h with h | h | h
  · exact .inl (SendStep.mem_foldl_listed.2 (.inl h))
  · exact .inl (SendStep.mem_foldl_listed.2 (.inr h))
  · exact .inr (.inr h)

/-! ### What comes, and what is asked -/

theorem minds_of_arrives {id : Nat} {m : Message} {takes : List Place} {claimed : Bool} (hs : s.Minds)
    (h : s.step (.arrives id m takes claimed) = some s') : s'.Minds := by
  obtain ⟨-, h⟩ := Option.ite_none_right_eq_some.1 h
  cases h
  refine minds_of_grows hs hs.owned fun other m' hm' hgo => ?_
  have hget : (s.messages.put id { m with position := s.written, fresh := true, failed := false, due := true }).get other =
    some m' := hm'
  by_cases hother : other = id
  · subst hother
    rw [Table.get_put_self] at hget
    cases hget
    refine .inl ?_
    cases claimed with
    | true => exact .sent (.inl (List.mem_cons_self ..))
    | false => exact .acting (.inl (List.mem_cons_self ..))
  · rw [Table.get_put_of_ne _ hother] at hget
    refine .inr ⟨hget, hgo.same ⟨rfl, rfl, rfl⟩ (fun h => h) fun _ => leads_of_foldl_take, fun hsent => ?_,
      fun h => .taken h, fun h => h, fun hacting => .inl ?_, .inl, fun h => .awaited h⟩
    · cases claimed with
      | true => exact hsent.imp_left fun h => List.mem_cons_of_mem _ h
      | false => exact hsent
    · cases claimed with
      | true => exact hacting
      | false => exact hacting.imp_left fun h => List.mem_cons_of_mem _ h

/-- What is passed on to a pass is sent still. -/
theorem sent_of_hands {i id other : Nat} {rest : List Nat} (hpick : pick s.handed i = some (id, rest))
    (h : s.Sent other) : other ∈ rest ∨ ∃ pass ∈ s.passes ++ [⟨id, .sending⟩], pass.id = other := by
  rcases h with h | ⟨pass, hpass, hid⟩
  · rcases eq_or_mem_of_pick hpick h with rfl | h
    · exact .inr ⟨⟨other, .sending⟩, List.mem_append_right _ (List.mem_singleton.2 rfl), rfl⟩
    · exact .inl h
  · exact .inr ⟨pass, List.mem_append_left _ hpass, hid⟩

/-- What is owned, and what is owned from now on, has a pass. -/
theorem ownedSent_cons (hs : s.OwnedSent) {id : Nat} {phase : Phase} :
    ∀ other ∈ id :: s.owned, ∃ pass ∈ s.passes ++ [⟨id, phase⟩], pass.id = other := by
  intro other hother
  rcases List.mem_cons.1 hother with rfl | hother
  · exact ⟨_, List.mem_append_right _ (List.mem_singleton.2 rfl), rfl⟩
  · obtain ⟨pass, hpass, hid⟩ := hs other hother
    exact ⟨pass, List.mem_append_left _ hpass, hid⟩

theorem closing_append {passes : List Pass} (hs' : s'.closing = s.closing) (hpasses : s'.passes = s.passes ++ passes)
    (h : s.Closing) : s'.Closing := by
  rcases h with h | ⟨pass, hpass, hphase⟩
  · exact .inl (by omega)
  · exact .inr ⟨pass, by rw [hpasses]; exact List.mem_append_left _ hpass, hphase⟩

theorem minds_of_hands {i : Nat} {drops : Bool} (hs : s.Minds) (h : s.step (.hands i drops) = some s') : s'.Minds := by
  obtain ⟨⟨id, rest⟩, hpick, h⟩ := Option.bind_eq_some_iff.1 h
  cases h
  refine minds_of_grows hs (ownedSent_cons hs.owned) fun other m hm hgo => .inr
    ⟨hm, hgo.same ⟨rfl, rfl, rfl⟩ (fun h => h) fun _ h => h, sent_of_hands hpick, fun h => .taken h, fun h => h,
      .inl, fun h => .inl (closing_append (s := s) rfl rfl h), fun h => .awaited h⟩

theorem minds_of_asks {queue : Nat} (hs : s.Minds) (h : s.step (.asks queue) = some s') : s'.Minds := by
  cases h
  refine minds_of_grows hs hs.owned fun id m hm hgo => .inr
    ⟨hm, hgo.same ⟨rfl, rfl, rfl⟩ (fun h => h) fun _ h => h, fun h => h, fun h => .taken h, fun h => ?_,
      fun h => ?_, .inl, fun h => .awaited h⟩
  · exact h.imp_left fun h => SendStep.mem_listed.2 (.inl h)
  · rcases h with h | h
    · by_cases heq : m.queue = queue
      · exact .inr (.inl (SendStep.mem_listed.2 (.inr heq)))
      · exact .inl (.inl ((List.mem_erase_of_ne heq).2 h))
    · exact .inl (.inr h)

theorem minds_of_ripens {id : Nat} (hs : s.Minds) (h : s.step (.ripens id) = some s') : s'.Minds := by
  simp only [step, comes] at h
  split at h
  · rename_i m hm
    obtain ⟨-, h⟩ := Option.ite_none_right_eq_some.1 h
    cases h
    refine minds_of_grows hs hs.owned fun other m' hm' hgo => ?_
    have hget : (s.messages.put id { m with due := true, fresh := true }).get other = some m' := hm'
    by_cases hother : other = id
    · subst hother
      rw [Table.get_put_self] at hget
      cases hget
      exact absurd (List.mem_cons_self ..) hgo.fallen
    · rw [Table.get_put_of_ne _ hother] at hget
      have hgo₀ : MayGo s other m' := hgo.before rfl ⟨List.mem_cons_of_mem _, fun h => h⟩ (fun h => h) fun _ h => h
      exact .inr ⟨hget, hgo₀, fun h => h, fun h => .taken h, fun h => h, .inl, .inl, fun h => .awaited h⟩
  · cases h

/-! ### The dispatching -/

theorem minds_of_next {all : Bool} {due : List Nat} (hs : s.Minds) (h : s.step (.next all due) = some s') : s'.Minds := by
  simp only [step, dispatches] at h
  split at h
  · rename_i hidle
    cases h
    refine ⟨fun id m hm hgo => ?_, hs.owned⟩
    have hgoing (hq : (all || s.rescan || s.asked.contains m.queue || due.contains m.queue) = true) :
        Covered (s.taken all due) id m := .awaited (List.mem_filter.2 ⟨hgo.served, hq⟩)
    by_cases hdue : due.contains m.queue = true
    · exact hgoing (by rw [hdue, Bool.or_true])
    have hwaits (h : id ∈ s.fallen) : id ∈ (s.taken all due).fallen := by
      have hget : s.messages.get id = some m := hm
      exact List.mem_filter.2 ⟨h, by simpa [hget] using hdue⟩
    have hgo₀ : MayGo s id m := hgo.before rfl ⟨hwaits, fun h => h⟩
      (fun h => passedOver_before h rfl rfl rfl (by simp [unread, taken])) fun _ h => h
    cases hs.covered id m hm hgo₀ with
    | sent h => exact .sent h
    | taken h => exact .taken ⟨rfl, h.2⟩
    | woken h =>
      rcases h with h | h | h
      · exact hgoing (by simp [h])
      · exact .woken (.inr (.inl h))
      · exact hgoing (by simp [h])
    | acting h => exact .acting h
    | closing h => exact .closing h
    | awaited h =>
      rw [hidle] at h
      exact h.elim
  · cases h
  · cases h

theorem minds_of_noRoom (hs : s.Minds) (h : s.step .noRoom = some s') : s'.Minds := by
  simp only [step, dispatches] at h
  split at h
  · rename_i queue rest hgoing
    cases h
    refine minds_of_grows hs hs.owned fun id m hm hgo => .inr ⟨hm,
      hgo.same ⟨rfl, rfl, rfl⟩ (fun h => passedOver_before h rfl rfl rfl (by simp [unread])) fun _ h => h,
      fun h => h, fun h => .taken ⟨rfl, h.2⟩, fun h => ?_, .inl, .inl, fun h => ?_⟩
    · exact h.imp_right fun h => h.imp_left fun h => SendStep.mem_listed.2 (.inl h)
    · rw [hgoing] at h
      rcases List.mem_cons.1 h with h | h
      · exact .woken (.inr (.inl (SendStep.mem_listed.2 (.inr h))))
      · exact .awaited h
  · cases h
  · cases h
  · cases h

theorem minds_of_begins (hs : s.Minds) (h : s.step .begins = some s') : s'.Minds := by
  simp only [step, dispatches] at h
  split at h
  · rename_i queue rest hgoing
    cases h
    refine ⟨fun id m' hm' hgo => ?_, hs.owned⟩
    have hget : (s.messages.map fun m => { m with fresh := false }).get id = some m' := hm'
    rw [Table.get_map] at hget
    obtain ⟨m, hm, rfl⟩ := Option.map_eq_some_iff.1 hget
    by_cases hqueue : m.queue = queue
    · -- What is read from now on is all to be listed, whatever covered it.
      exact .awaited (.inr ⟨hqueue, .inr ⟨rfl, rfl, List.not_mem_nil⟩⟩)
    · have hpassed : s.passedOver id m = false := passedOver_before hgo.passed rfl rfl rfl (by simp [unread, hqueue])
      have hgo₀ : MayGo s id m := ⟨hgo.served, hgo.due, hgo.fallen, hgo.failed, hgo.lapsing, hpassed, hgo.heads⟩
      cases hs.covered id m hm hgo₀ with
      | sent h => exact .sent h
      | taken h => exact .taken ⟨by simp [unread, hqueue], h.2⟩
      | woken h => exact .woken h
      | acting h => exact .acting h
      | closing h => exact .closing h
      | awaited h =>
        rw [hgoing] at h
        exact .awaited (.inl ((List.mem_cons.1 h).resolve_left hqueue))
  · cases h
  · cases h
  · cases h

theorem minds_of_rests (hs : s.Minds) (h : s.step .rests = some s') : s'.Minds := by
  simp only [step, dispatches] at h
  split at h
  · rename_i hgoing
    cases h
    refine minds_of_grows hs hs.owned fun id m hm hgo => .inr ⟨hm,
      hgo.same ⟨rfl, rfl, rfl⟩ (fun h => passedOver_before h rfl rfl rfl (by simp [unread])) fun _ h => h,
      fun h => h, fun h => .taken ⟨rfl, h.2⟩, fun h => h, .inl, .inl, fun h => ?_⟩
    · rw [hgoing] at h
      cases h
  · cases h
  · cases h
  · cases h

/-! ### A scan -/

/-- What a scan does, where nothing is being claimed on the dispatching. -/
theorem scanning_of_step {a : Action} (h : (match s.dispatching with
      | .scanning scan rest => if s.busy then none else s.scans scan rest a
      | .idle | .going _ => none) = some s') :
    ∃ scan rest, s.dispatching = .scanning scan rest ∧ s.scans scan rest a = some s' := by
  split at h
  · rename_i scan rest hscanning
    split at h
    · cases h
    · exact ⟨scan, rest, hscanning, h⟩
  · cases h
  · cases h

theorem mem_listing {id : Nat} {m : Message} (hm : s.messages.get id = some m) (hdue : m.due = true)
    (hfailed : m.failed = false) : (id, m.position) ∈ s.listing m.queue :=
  List.mem_map.2 ⟨(id, m), List.mem_filter.2 ⟨Table.mem_iff_get.2 hm, by simp [hdue, hfailed]⟩, rfl⟩

theorem queue_of_listing {id position queue : Nat} {m : Message} (h : (id, position) ∈ s.listing queue)
    (hm : s.messages.get id = some m) : m.queue = queue := by
  obtain ⟨⟨other, m'⟩, hmem, heq⟩ := List.mem_map.1 h
  obtain ⟨hentry, hlisted⟩ := List.mem_filter.1 hmem
  cases heq
  obtain rfl : m' = m := Option.some.inj ((Table.mem_iff_get.1 hentry).symm.trans hm)
  simp only [Bool.and_eq_true, decide_eq_true_eq] at hlisted
  exact hlisted.1.1

/-- The last page lists what is due and was as the read began, where no page before did. -/
theorem mem_of_readWhole {id : Nat} {m : Message} {present : List (Nat × Nat)} (h : s.readWhole m.queue present = true)
    (hm : s.messages.get id = some m) (hgo : MayGo s id m) (hfresh : m.fresh = false) : (id, m.position) ∈ present := by
  have hentry := List.all_eq_true.1 h (id, m) (Table.mem_iff_get.2 hm)
  rw [hfresh, Bool.false_or, List.contains_iff_mem.2 (mem_listing hm hgo.due hgo.failed)] at hentry
  exact List.contains_iff_mem.1 hentry

theorem minds_of_page {listed : List (Nat × Nat)} {last : Bool} (hs : s.Minds)
    (h : s.step (.page listed last) = some s') : s'.Minds := by
  obtain ⟨scan, rest, hscanning, h⟩ := scanning_of_step h
  obtain ⟨⟨hleft, -, hlisting, hwhole⟩, h⟩ := Option.ite_none_right_eq_some.1 h
  cases h
  -- Nothing that was read is unread now.
  have hpresent (x : Nat × Nat) (hx : x ∉ scan.looked ++ listed) : x ∉ scan.present := by
    intro hmem
    unfold Scan.present at hmem
    rw [hleft, List.append_nil] at hmem
    exact hx (List.mem_append_left _ hmem)
  refine minds_of_grows hs hs.owned fun id m hm hgo => ?_
  have hget : s.messages.get id = some m := hm
  by_cases hlisted : (id, m.position) ∈ listed
  · exact .inl (.awaited (.inr ⟨queue_of_listing (hlisting _ hlisted) hget, .inl hlisted⟩))
  have hwaits (h : id ∈ s.fallen) :
      id ∈ s.fallen.filter fun id => (s.messages.get id).any fun m => !listed.contains (id, m.position) :=
    List.mem_filter.2 ⟨h, by simpa [hget] using hlisted⟩
  have hunread : Sys.unread { s with dispatching := .scanning { scan with left := listed, last } rest } id m = true →
      s.unread id m = true := by
    unfold unread
    rw [hscanning]
    intro h
    obtain ⟨hqueue, hmem⟩ := of_decide_eq_true h
    exact decide_eq_true ⟨hqueue, hpresent _ hmem⟩
  have hgo₀ : MayGo s id m :=
    hgo.before rfl ⟨hwaits, fun h => h⟩ (fun h => passedOver_before h rfl rfl rfl hunread) fun _ h => h
  refine .inr ⟨hm, hgo₀, fun h => h, fun h => .taken ⟨?_, h.2⟩, fun h => h, .inl, .inl, fun h => ?_⟩
  · by_contra hnot
    have := hunread (by simpa [unread] using hnot)
    rw [h.1] at this
    cases this
  · rw [hscanning] at h
    rcases h with h | ⟨hqueue, h | ⟨-, hfresh, hnot⟩⟩
    · exact .awaited (.inl h)
    · rw [hleft] at h
      cases h
    · have hlooked : (id, m.position) ∉ scan.looked := fun h => hnot (List.mem_append_left _ h)
      have hnotPresent : (id, m.position) ∉ scan.looked ++ listed := by
        rw [List.mem_append]
        exact fun h => h.elim hlooked hlisted
      refine .awaited (.inr ⟨hqueue, .inr ⟨?_, hfresh, hnotPresent⟩⟩)
      by_contra hlast
      refine hnotPresent (mem_of_readWhole (s := s) ?_ hm hgo₀ hfresh)
      rw [hqueue]
      exact hwhole (by simpa using hlast)

/-- Looking at an entry leaves it read. -/
theorem present_looked {scan : Scan} : scan.looked ++ scan.left.take 1 ++ scan.left.drop 1 = scan.present := by
  rw [List.append_assoc, List.take_append_drop]
  rfl

theorem unread_looked {id : Nat} {m : Message} :
    ({ s with dispatching := s.dispatching.looked } : Sys).unread id m = s.unread id m := by
  unfold unread
  cases s.dispatching with
  | idle => rfl
  | going queues => rfl
  | scanning scan rest =>
    refine decide_eq_decide.2 (and_congr_right fun _ => not_congr ?_)
    show _ ∈ scan.looked ++ scan.left.take 1 ++ scan.left.drop 1 ↔ _
    rw [present_looked]

/-- A scan that looks at an entry leaves the dispatching all it had to look at, but that entry. -/
theorem awaits_looked {scan : Scan} {rest : List Nat} {x : Nat × Nat} (hhead : scan.left.head? = some x) {id : Nat}
    {m : Message} (hx : m.queue = scan.queue → (id, m.position) ≠ x)
    (h : (Dispatching.scanning scan rest).Awaits id m) : (Dispatching.scanning scan rest).looked.Awaits id m := by
  refine h.imp_right fun ⟨hqueue, h⟩ => ⟨hqueue, h.imp (fun h => ?_) fun h => ⟨h.1, h.2.1, ?_⟩⟩
  · obtain ⟨left, hleft⟩ : ∃ left, scan.left = x :: left := List.head?_eq_some_iff.1 hhead
    rw [hleft] at h ⊢
    exact (List.mem_cons.1 h).resolve_left (hx hqueue)
  · show _ ∉ scan.looked ++ scan.left.take 1 ++ scan.left.drop 1
    rw [present_looked]
    exact h.2.2

/-- What a scan passes over that may go is sent, or a mark of it stands. -/
theorem taking_of_known {id : Nat} {m : Message} (hs : s.OwnedSent) (hgo : MayGo s id m) (hread : s.unread id m = false)
    (hknown : s.known m.queue id m.position = true) : s.Sent id ∨ id ∈ s.taking := by
  unfold known at hknown
  simp only [Bool.or_eq_true, List.contains_iff_mem] at hknown
  rcases hknown with (h | h) | h
  · exact .inl (.inr (hs id h))
  · exact .inr h
  · exact absurd h (hgo.unmarked hread)

theorem minds_of_looks {id position : Nat} {room : Bool} (hs : s.Minds) (hok : s.Minded (.looks id position room))
    (h : s.step (.looks id position room) = some s') : s'.Minds := by
  obtain ⟨scan, rest, hscanning, h⟩ := scanning_of_step h
  obtain ⟨hhead, h⟩ := Option.ite_none_right_eq_some.1 h
  -- Another Message, or another place of it, is covered as it was.
  have hother (s' : Sys) (hdispatching : s'.dispatching = s.dispatching.looked) {other : Nat} {m : Message}
      (hx : m.queue = scan.queue → (other, m.position) ≠ (id, position)) (h : s.dispatching.Awaits other m) :
      s'.dispatching.Awaits other m := by
    rw [hscanning] at h
    rw [hdispatching, hscanning]
    exact awaits_looked hhead hx h
  have hread {m : Message} (hqueue : m.queue = scan.queue) (hx : m.position = position) : s.unread id m = false := by
    have hmem : (id, position) ∈ scan.left := List.mem_of_mem_head? hhead
    unfold unread Scan.present
    rw [hscanning]
    simp [hx, hmem]
  split at h
  · rename_i hknown
    cases h
    refine minds_of_grows hs hs.owned fun other m hm hgo => ?_
    have hgo₀ : MayGo s other m :=
      hgo.same ⟨rfl, rfl, rfl⟩ (fun h => passedOver_before h rfl rfl rfl (unread_looked ▸ ·)) fun _ h => h
    by_cases hx : m.queue = scan.queue ∧ (other, m.position) = (id, position)
    · obtain ⟨hqueue, hx⟩ := hx
      cases hx
      refine .inl ?_
      rcases taking_of_known hs.owned hgo₀ (hread hqueue rfl) (hqueue ▸ hknown) with h | h
      · exact .sent h
      · exact hok h m hm rfl hgo₀
    · exact .inr ⟨hm, hgo₀, fun h => h, fun h => .taken ⟨unread_looked.trans h.1, h.2⟩, fun h => h, .inl, .inl,
        fun h => .awaited (hother _ rfl (fun hqueue heq => hx ⟨hqueue, heq⟩) h)⟩
  · split at h
    · cases h
      refine minds_of_grows hs hs.owned fun other m hm hgo => ?_
      have hgo₀ : MayGo s other m :=
        hgo.same ⟨rfl, rfl, rfl⟩ (fun h => passedOver_before h rfl rfl rfl (unread_looked ▸ ·)) fun _ h => h
      by_cases hx : m.queue = scan.queue ∧ (other, m.position) = (id, position)
      · obtain ⟨hqueue, hx⟩ := hx
        cases hx
        exact .inl (.taken ⟨unread_looked.trans (hread hqueue rfl),
          ⟨_, List.mem_append_right _ (List.mem_singleton.2 rfl), hqueue.symm, rfl, rfl, rfl⟩⟩)
      · refine .inr ⟨hm, hgo₀, fun h => h, fun ⟨hread, taker, htaker, h⟩ => .taken
          ⟨unread_looked.trans hread, taker, List.mem_append_left _ htaker, h⟩, fun h => h, .inl, .inl,
          fun h => .awaited (hother _ rfl (fun hqueue heq => hx ⟨hqueue, heq⟩) h)⟩
    · cases h
      refine minds_of_grows hs hs.owned fun other m hm hgo => .inr ⟨hm,
        hgo.same ⟨rfl, rfl, rfl⟩ (fun h => passedOver_before h rfl rfl rfl (by simp [unread])) fun _ h => h,
        fun h => h, fun h => .taken ⟨rfl, h.2⟩, fun h => ?_, .inl, .inl, fun h => ?_⟩
      · exact h.imp_right fun h => h.imp_left fun h => SendStep.mem_listed.2 (.inl h)
      · rw [hscanning] at h
        rcases h with h | ⟨hqueue, -⟩
        · exact .awaited h
        · exact .woken (.inr (.inl (SendStep.mem_listed.2 (.inr hqueue))))

theorem minds_of_ends (hs : s.Minds) (h : s.step .ends = some s') : s'.Minds := by
  obtain ⟨scan, rest, hscanning, h⟩ := scanning_of_step h
  obtain ⟨⟨hleft, hlast⟩, h⟩ := Option.ite_none_right_eq_some.1 h
  cases h
  refine minds_of_grows hs hs.owned fun id m hm hgo => .inr ⟨hm, hgo.same ⟨rfl, rfl, rfl⟩ (fun h => ?_) fun _ h => h,
    fun h => h, fun h => .taken ⟨rfl, h.2⟩, fun h => h, .inl, .inl, fun h => ?_⟩
  · -- A mark forgotten was of a place the read did not come upon.
    unfold passedOver unread at h ⊢
    rw [hscanning]
    simp only [forgotten, Bool.not_false, Bool.and_true] at h
    by_cases hqueue : m.queue = scan.queue
    · rw [if_pos hqueue, ← Bool.not_eq_true, List.contains_iff_mem, List.mem_filter] at h
      by_cases hmem : (id, m.position) ∈ scan.present
      · have hpassed : (id, m.position) ∉ s.passed m.queue := fun hpassed => h ⟨hpassed, by simpa using hmem⟩
        simp [hpassed]
      · simp [hqueue, hmem]
    · rw [if_neg hqueue] at h
      rw [h]
      rfl
  · rw [hscanning] at h
    rcases h with h | ⟨-, h | ⟨h, -⟩⟩
    · exact .awaited h
    · rw [hleft] at h
      cases h
    · rw [hlast] at h
      cases h

/-! ### The claims a scan asked for -/

/-- Where a claim goes, another stands for a Message's place, or that one did. -/
theorem taken_of_pick {i : Nat} {taker : Taker} {rest : List Taker} (hpick : pick s.takers i = some (taker, rest))
    {id : Nat} {m : Message} (h : s.Taken id m) :
    (∃ other ∈ rest, other.queue = m.queue ∧ other.id = id ∧ other.position = m.position ∧ other.answer.stands = true) ∨
      taker.queue = m.queue ∧ taker.id = id ∧ taker.position = m.position := by
  obtain ⟨-, other, hother, hstands⟩ := h
  rcases eq_or_mem_of_pick hpick hother with rfl | hmem
  · exact .inr ⟨hstands.1, hstands.2.1, hstands.2.2.1⟩
  · exact .inl ⟨other, hmem, hstands⟩

theorem minds_of_claims {i : Nat} (hs : s.Minds) (h : s.step (.claims i) = some s') : s'.Minds := by
  obtain ⟨⟨taker, rest⟩, hpick, h⟩ := Option.bind_eq_some_iff.1 h
  obtain ⟨-, h⟩ := Option.ite_none_right_eq_some.1 h
  cases h
  refine minds_of_grows hs hs.owned fun id m hm hgo => .inr ⟨hm, hgo.same ⟨rfl, rfl, rfl⟩ (fun h => h) fun _ h => h,
    fun h => h, fun h => .taken ?_, fun h => h, .inl, .inl, fun h => .awaited h⟩
  rcases taken_of_pick hpick h with ⟨other, hother, hstands⟩ | ⟨hqueue, hid, hposition⟩
  · exact ⟨h.1, other, List.mem_append_left _ hother, hstands⟩
  · exact ⟨h.1, _, List.mem_append_right _ (List.mem_singleton.2 rfl), hqueue, hid, hposition, rfl⟩

/-- What covers a Message, with one claim less, covers it whatever that claim comes to. -/
theorem covered_append {rest takers : List Taker} {id : Nat} {m : Message} (h : Covered { s with takers := rest } id m) :
    Covered { s with takers := rest ++ takers } id m := by
  cases h with
  | sent h => exact .sent h
  | taken h =>
    obtain ⟨hread, taker, htaker, h⟩ := h
    exact .taken ⟨hread, taker, List.mem_append_left _ htaker, h⟩
  | woken h => exact .woken h
  | acting h => exact .acting h
  | closing h => exact .closing h
  | awaited h => exact .awaited h

/-- What covers a Message, with one claim less, covers it once its place is given back. -/
theorem covered_of_taken {rest : List Taker} {taking lapsing : List Nat} {id : Nat} {m : Message}
    (h : Covered { s with takers := rest } id m) :
    Covered ({ s with takers := rest, taking := taking, lapsing := lapsing } : Sys).freed id m := by
  cases h with
  | sent h => exact .sent h
  | taken h => exact .taken h
  | woken h => exact .woken (woken_of_freed h)
  | acting h => exact .acting h
  | closing h => exact .closing h
  | awaited h => exact .awaited h

theorem minds_of_refuses {i : Nat} (hs : s.Minds) (hok : s.Minded (.refuses i)) (h : s.step (.refuses i) = some s') :
    s'.Minds := by
  obtain ⟨⟨taker, rest⟩, hpick, h⟩ := Option.bind_eq_some_iff.1 h
  obtain ⟨-, h⟩ := Option.ite_none_right_eq_some.1 h
  cases h
  refine minds_of_grows hs hs.owned fun id m hm hgo => ?_
  have hgo₀ : MayGo s id m := hgo.same ⟨rfl, rfl, rfl⟩ (fun h => h) fun _ h => h
  by_cases hid : id = taker.id
  · subst hid
    exact .inl (covered_append (hok _ hpick m hm hgo₀))
  · refine .inr ⟨hm, hgo₀, fun h => h, fun h => ?_, fun h => h, .inl, .inl, fun h => .awaited h⟩
    rcases taken_of_pick hpick h with ⟨other, hother, hstands⟩ | ⟨-, heq, -⟩
    · exact .taken ⟨h.1, other, List.mem_append_left _ hother, hstands⟩
    · exact absurd heq.symm hid

theorem minds_of_owns {i : Nat} (hs : s.Minds) (h : s.step (.owns i) = some s') : s'.Minds := by
  obtain ⟨⟨taker, rest⟩, hpick, h⟩ := Option.bind_eq_some_iff.1 h
  obtain ⟨m₁, -, h⟩ := Option.bind_eq_some_iff.1 h
  obtain ⟨-, h⟩ := Option.ite_none_right_eq_some.1 h
  cases h
  refine minds_of_grows hs (ownedSent_cons hs.owned) fun id m hm hgo => ?_
  by_cases hid : id = taker.id
  · subst hid
    exact .inl (.sent (.inr ⟨_, List.mem_append_right _ (List.mem_singleton.2 rfl), rfl⟩))
  have hwaits (h : id ∈ s.fallen) : id ∈ s.fallen.filter fun id => decide (id ≠ taker.id) :=
    List.mem_filter.2 ⟨h, decide_eq_true hid⟩
  refine .inr ⟨hm, hgo.before rfl ⟨hwaits, fun h => h⟩ (fun h => h) fun _ h => h, fun h => ?_, fun h => ?_, fun h => h,
    .inl, fun h => .inl (closing_append (s := s) rfl rfl h), fun h => .awaited h⟩
  · exact h.imp_right fun ⟨pass, hpass, h⟩ => ⟨pass, List.mem_append_left _ hpass, h⟩
  · rcases taken_of_pick hpick h with ⟨other, hother, hstands⟩ | ⟨-, heq, -⟩
    · exact .taken ⟨h.1, other, hother, hstands⟩
    · exact absurd heq.symm hid

theorem standing_of_mayGo {taker : Taker} {m : Message} (hm : s.messages.get taker.id = some m)
    (hgo : MayGo s taker.id m) (hqueue : taker.queue = m.queue) (hposition : taker.position = m.position) :
    s.standing taker = some m := by
  unfold standing
  rw [hm, hqueue, hposition]
  simp [hgo.due]

/-- What is read under a claim that may go stands there, and its place is to be marked where it is not sent. -/
theorem minds_of_declines {i : Nat} {marks : Bool} (hs : s.Minds) (h : s.step (.declines i marks) = some s') :
    s'.Minds := by
  obtain ⟨⟨taker, rest⟩, hpick, h⟩ := Option.bind_eq_some_iff.1 h
  obtain ⟨⟨-, hmarks⟩, h⟩ := Option.ite_none_right_eq_some.1 h
  cases h
  refine minds_of_grows hs hs.owned fun id m hm hgo => ?_
  have hgo₀ : MayGo s id m := hgo.same ⟨rfl, rfl, rfl⟩ (fun h => h) fun _ h => h
  refine .inr ⟨hm, hgo₀, fun h => h, fun h => .taken ?_, fun h => h, .inl, .inl, fun h => .awaited h⟩
  rcases taken_of_pick hpick h with ⟨other, hother, hstands⟩ | ⟨hqueue, rfl, hposition⟩
  · exact ⟨h.1, other, List.mem_append_left _ hother, hstands⟩
  · refine ⟨h.1, _, List.mem_append_right _ (List.mem_singleton.2 rfl), hqueue, rfl, hposition, ?_⟩
    rw [standing_of_mayGo (s := s) hm hgo₀ hqueue hposition] at hmarks
    exact hmarks.symm

theorem minds_of_marks {i : Nat} (hs : s.Minds) (h : s.step (.marks i) = some s') : s'.Minds := by
  obtain ⟨⟨taker, rest⟩, hpick, h⟩ := Option.bind_eq_some_iff.1 h
  obtain ⟨-, h⟩ := Option.ite_none_right_eq_some.1 h
  cases h
  refine minds_of_grows hs hs.owned fun id m hm hgo => ?_
  -- A mark more lets none go.
  have hgo₀ : MayGo s id m := by
    refine hgo.same ⟨rfl, rfl, rfl⟩ (fun h => ?_) fun _ h => h
    unfold passedOver at h ⊢
    dsimp only at h
    split at h
    · simp only [List.contains_cons, Bool.and_eq_false_iff, Bool.or_eq_false_iff] at h ⊢
      exact h.imp_left And.right
    · exact h
  refine .inr ⟨hm, hgo₀, fun h => h, fun h => .taken ?_, fun h => h, .inl, .inl, fun h => .awaited h⟩
  rcases taken_of_pick hpick h with ⟨other, hother, hstands⟩ | ⟨hqueue, rfl, hposition⟩
  · exact ⟨h.1, other, List.mem_append_left _ hother, hstands⟩
  · refine absurd ?_ (hgo.unmarked h.1)
    show (taker.id, m.position) ∈ if m.queue = taker.queue then _ else _
    rw [if_pos hqueue.symm, hposition]
    exact List.mem_cons_self ..

theorem minds_of_untakes {i : Nat} (hs : s.Minds) (h : s.step (.untakes i) = some s') : s'.Minds := by
  obtain ⟨⟨taker, rest⟩, hpick, h⟩ := Option.bind_eq_some_iff.1 h
  obtain ⟨hanswer, h⟩ := Option.ite_none_right_eq_some.1 h
  cases h
  refine minds_of_grows hs hs.owned fun id m hm hgo => .inr ⟨hm, hgo.same ⟨rfl, rfl, rfl⟩ (fun h => h) fun _ h => h,
    fun h => h, fun ⟨hread, other, hother, hqueue, hid, hposition, hstands⟩ => .taken
      ⟨hread, other, ?_, hqueue, hid, hposition, hstands⟩,
    woken_of_freed, .inl, .inl, fun h => .awaited h⟩
  refine (eq_or_mem_of_pick hpick hother).resolve_left ?_
  rintro rfl
  rw [hanswer] at hstands
  cases hstands

theorem minds_of_breaks {i : Nat} (hs : s.Minds) (hok : s.Minded (.breaks i)) (h : s.step (.breaks i) = some s') :
    s'.Minds := by
  obtain ⟨⟨taker, rest⟩, hpick, h⟩ := Option.bind_eq_some_iff.1 h
  obtain ⟨-, h⟩ := Option.ite_none_right_eq_some.1 h
  cases h
  refine minds_of_grows hs hs.owned fun id m hm hgo => ?_
  have hlapsing (h : id ∈ s.lapsing) : id ∈ if taker.answer = Answer.claimed then taker.id :: s.lapsing else s.lapsing := by
    split
    · exact List.mem_cons_of_mem _ h
    · exact h
  have hgo₀ : MayGo s id m := hgo.before rfl ⟨fun h => h, hlapsing⟩ (fun h => h) fun _ h => h
  by_cases hid : id = taker.id
  · subst hid
    refine .inl ?_
    by_cases hclaimed : taker.answer = .claimed
    · -- The claim is held until it lapses.
      refine absurd ?_ hgo.lapsing
      show taker.id ∈ if taker.answer = Answer.claimed then taker.id :: s.lapsing else s.lapsing
      rw [if_pos hclaimed]
      exact List.mem_cons_self ..
    · exact covered_of_taken (hok _ hpick hclaimed m hm hgo₀)
  · refine .inr ⟨hm, hgo₀, fun h => h, fun h => ?_, woken_of_freed, .inl, .inl, fun h => .awaited h⟩
    rcases taken_of_pick hpick h with ⟨other, hother, hstands⟩ | ⟨-, heq, -⟩
    · exact .taken ⟨h.1, other, hother, hstands⟩
    · exact absurd heq.symm hid

theorem minds_of_lapses {i : Nat} (hs : s.Minds) (hok : s.Minded (.lapses i)) (h : s.step (.lapses i) = some s') :
    s'.Minds := by
  obtain ⟨⟨lapsed, rest⟩, hpick, h⟩ := Option.bind_eq_some_iff.1 h
  cases h
  refine minds_of_grows hs hs.owned fun id m hm hgo => ?_
  have hgrows : Grows s { s with lapsing := rest } id m :=
    ⟨fun h => h, fun h => .taken h, fun h => h, .inl, .inl, fun h => .awaited h⟩
  by_cases hid : id = lapsed
  · subst hid
    exact .inl ((hok _ hpick m hm hgo).of_grows hgrows)
  · have hlapsing (h : id ∈ s.lapsing) : id ∈ rest := (eq_or_mem_of_pick hpick h).resolve_left hid
    exact .inr ⟨hm, hgo.before rfl ⟨fun h => h, hlapsing⟩ (fun h => h) fun _ h => h, hgrows⟩

/-! ### Passes -/

section Passes

variable {i : Nat} {pass : Pass} {rest : List Pass} {phase : Phase}

/-- A pass that comes to another phase is under way still. -/
theorem exists_of_leaves (hpick : pick s.passes i = some (pass, rest)) {id : Nat} (h : ∃ other ∈ s.passes, other.id = id) :
    ∃ other ∈ rest ++ [⟨pass.id, phase⟩], other.id = id := by
  obtain ⟨other, hother, hid⟩ := h
  rcases eq_or_mem_of_pick hpick hother with rfl | hmem
  · exact ⟨⟨other.id, phase⟩, List.mem_append_right _ (List.mem_singleton.2 rfl), hid⟩
  · exact ⟨other, List.mem_append_left _ hmem, hid⟩

/-- A rescan to come is to come still where a pass with none to come comes to another phase. -/
theorem closing_of_leaves (hpick : pick s.passes i = some (pass, rest)) (hphase : pass.phase ≠ .closed true)
    (h : s.Closing) : (s.leaves rest pass.id phase).Closing := by
  refine h.imp_right fun ⟨other, hother, hclosed⟩ => ⟨other, List.mem_append_left _ ?_, hclosed⟩
  refine (eq_or_mem_of_pick hpick hother).resolve_left ?_
  rintro rfl
  exact hphase hclosed

/-- A pass comes to another phase, and lets go of places where a rescan is to come, or brings none to the head but what is
covered. -/
theorem minds_of_leaves {messages : Table Nat Message} {places : Places} (hs : s.Minds)
    (hpick : pick s.passes i = some (pass, rest)) (hphase : pass.phase ≠ .closed true)
    (hmessages : ∀ other, other ≠ pass.id → messages.get other = s.messages.get other)
    (hheads : phase = .closed true ∨ ∀ other m, other ≠ pass.id → s.messages.get other = some m →
      MayGo { s with places := places } other m → s.leads other m = true ∨ Covered s other m) :
    (({ s with messages := messages, places := places } : Sys).leaves rest pass.id phase).Minds := by
  refine ⟨fun id m hm hgo => ?_, fun id h => exists_of_leaves hpick (hs.owned id h)⟩
  by_cases hid : id = pass.id
  · exact .sent (.inr ⟨_, List.mem_append_right _ (List.mem_singleton.2 rfl), hid.symm⟩)
  rcases hheads with rfl | hheads
  · exact .closing (.inr ⟨_, List.mem_append_right _ (List.mem_singleton.2 rfl), rfl⟩)
  have hm₀ : s.messages.get id = some m := (hmessages id hid).symm.trans hm
  have hcovered : Covered s id m := by
    rcases hheads id m hid hm₀ (hgo.headed rfl ⟨fun h => h, fun h => h⟩ (fun h => h) hgo.heads) with h | h
    · exact hs.covered id m hm₀ (hgo.headed rfl ⟨fun h => h, fun h => h⟩ (fun h => h) h)
    · exact h
  exact hcovered.of_grows ⟨fun h => h.imp_right (exists_of_leaves hpick), fun h => .taken h, fun h => h, .inl,
    fun h => .inl (closing_of_leaves hpick hphase h), fun h => .awaited h⟩

/-- A pass that reads a place, or is weighed, brings none to the head. -/
theorem minds_of_phase (hs : s.Minds) (hpick : pick s.passes i = some (pass, rest)) (hphase : pass.phase ≠ .closed true) :
    (s.leaves rest pass.id phase).Minds :=
  minds_of_leaves hs hpick hphase (fun _ _ => rfl) (.inr fun _ _ _ _ hgo => .inl hgo.heads)

theorem minds_of_places {i : Nat} (hs : s.Minds) (h : s.step (.places i) = some s') : s'.Minds := by
  obtain ⟨⟨pass, rest⟩, hpick, h⟩ := Option.bind_eq_some_iff.1 h
  obtain ⟨m, hm, h⟩ := Option.bind_eq_some_iff.1 h
  obtain ⟨hphase, h⟩ := Option.ite_none_right_eq_some.1 h
  have hopen : pass.phase ≠ .closed true := by
    rw [hphase]
    nofun
  split at h
  · rename_i m' places htake
    cases h
    refine minds_of_leaves hs hpick hopen (fun other hother => Table.get_put_of_ne _ hother _)
      (.inr fun other m' _ _ hgo => .inl ?_)
    exact List.all_eq_true.2 fun x hx => leads_of_takeLate htake (List.all_eq_true.1 hgo.heads x hx)
  · cases h
    exact minds_of_phase hs hpick hopen

theorem minds_of_unplaced {i : Nat} (hs : s.Minds) (h : s.step (.unplaced i) = some s') : s'.Minds := by
  obtain ⟨⟨pass, rest⟩, hpick, h⟩ := Option.bind_eq_some_iff.1 h
  obtain ⟨hphase, h⟩ := Option.ite_none_right_eq_some.1 h
  cases h
  exact minds_of_phase hs hpick (by rw [hphase]; nofun)

theorem minds_of_checks {i : Nat} (hs : s.Minds) (h : s.step (.checks i) = some s') : s'.Minds := by
  obtain ⟨⟨pass, rest⟩, hpick, h⟩ := Option.bind_eq_some_iff.1 h
  obtain ⟨m, hm, h⟩ := Option.bind_eq_some_iff.1 h
  split at h
  · rename_i hphase
    cases h
    exact minds_of_phase hs hpick (by rw [hphase]; nofun)
  · rename_i x left hphase
    cases h
    exact minds_of_phase hs hpick (by rw [hphase]; nofun)
  · cases h

theorem minds_of_weighs {i : Nat} (hs : s.Minds) (h : s.step (.weighs i) = some s') : s'.Minds := by
  obtain ⟨⟨pass, rest⟩, hpick, h⟩ := Option.bind_eq_some_iff.1 h
  dsimp only at h
  split at h
  · rename_i hphase
    cases h
    exact minds_of_phase hs hpick (by rw [hphase]; nofun)
  · rename_i hphase
    obtain ⟨m, hm, h⟩ := Option.bind_eq_some_iff.1 h
    cases h
    exact minds_of_phase hs hpick (by rw [hphase]; nofun)
  · rename_i x left hphase
    cases h
    exact minds_of_phase hs hpick (by rw [hphase]; nofun)
  · cases h

/-- Letting go of no place. -/
theorem letGo_of_among {id : Nat} {m : Message} {lets : List Place} {places : Places} (hamong : among id m lets = true)
    (hm : s.sequenced m = false) : places.letGo lets = places := by
  have hnone : m.places id = [] := by
    unfold sequenced at hm
    unfold Message.places
    simp only [Bool.or_eq_false_iff, Bool.not_eq_false', List.isEmpty_iff] at hm
    rw [hm.1.1, hm.1.2]
    rfl
  have hlets : lets = [] := by
    unfold among at hamong
    rw [hnone] at hamong
    exact List.eq_nil_iff_forall_not_mem.2 fun x hx => by simpa using List.all_eq_true.1 hamong x hx
  rw [hlets]
  funext queue
  simp [Places.letGo]

/-- A send that ends its Journey lets go of its places, with a rescan to come where it has any. -/
theorem minds_of_closed {m : Message} {lets : List Place} {messages : Table Nat Message} (hs : s.Minds)
    (hpick : pick s.passes i = some (pass, rest)) (hphase : pass.phase ≠ .closed true)
    (hmessages : ∀ other, other ≠ pass.id → messages.get other = s.messages.get other)
    (hamong : among pass.id m lets = true) :
    (({ s with messages := messages, places := s.places.letGo lets } : Sys).leaves rest pass.id
      (.closed (s.sequenced m))).Minds := by
  refine minds_of_leaves hs hpick hphase hmessages ?_
  by_cases hsequenced : s.sequenced m = true
  · exact .inl (by rw [hsequenced])
  · refine .inr fun other m' _ _ hgo => .inl ?_
    have hplaces : s.places.letGo lets = s.places := letGo_of_among hamong (by simpa using hsequenced)
    have hheads := hgo.heads
    unfold leads at hheads ⊢
    rwa [hplaces] at hheads

theorem minds_of_passes {i : Nat} {outcome : Outcome} (hs : s.Minds) (h : s.step (.passes i outcome) = some s') :
    s'.Minds := by
  obtain ⟨⟨pass, rest⟩, hpick, h⟩ := Option.bind_eq_some_iff.1 h
  obtain ⟨m, hm, h⟩ := Option.bind_eq_some_iff.1 h
  obtain ⟨hphase, h⟩ := Option.ite_none_right_eq_some.1 h
  have hopen : pass.phase ≠ .closed true := by
    rw [hphase]
    nofun
  have hput (m' : Message) (other : Nat) (hother : other ≠ pass.id) :
      (s.messages.put pass.id m').get other = s.messages.get other := Table.get_put_of_ne _ hother m'
  cases outcome with
  | completed lets =>
    obtain ⟨hamong, h⟩ := Option.ite_none_right_eq_some.1 h
    cases h
    refine minds_of_closed hs hpick hopen (fun other hother => Table.get_drop_of_ne _ hother) ?_
    unfold among at hamong ⊢
    rw [List.all_append, hamong, Bool.true_and, List.all_eq_true]
    exact fun x hx => List.contains_iff_mem.2 (List.mem_append_right _ hx)
  | failed lets =>
    obtain ⟨hamong, h⟩ := Option.ite_none_right_eq_some.1 h
    cases h
    exact minds_of_closed hs hpick hopen (hput _) hamong
  | later =>
    cases h
    exact minds_of_leaves hs hpick hopen (hput _) (.inr fun _ _ _ _ hgo => .inl hgo.heads)
  | untried =>
    cases h
    exact minds_of_phase hs hpick hopen

theorem minds_of_panics {i : Nat} {lets : List Place} (hs : s.Minds) (hok : s.Minded (.panics i lets))
    (h : s.step (.panics i lets) = some s') : s'.Minds := by
  obtain ⟨⟨pass, rest⟩, hpick, h⟩ := Option.bind_eq_some_iff.1 h
  obtain ⟨m, hm, h⟩ := Option.bind_eq_some_iff.1 h
  have hfrees := hok _ hpick
  have hleaves (hopen : pass.phase ≠ .closed true) :
      (({ s with
        messages := s.messages.put pass.id { m with failed := true }
        places := s.places.letGo lets } : Sys).leaves rest pass.id (.closed false)).Minds := by
    refine minds_of_leaves hs hpick hopen (fun other hother => Table.get_put_of_ne _ hother _)
      (.inr fun other m' hother hm' hgo => ?_)
    rcases hfrees (other, m') (Table.mem_iff_get.2 hm') hgo with h | h | h | h
    · exact .inl h
    · exact absurd (Option.some.inj h).symm hother
    · cases h
    · exact .inr h
  split at h
  · rename_i hphase
    obtain ⟨-, h⟩ := Option.ite_none_right_eq_some.1 h
    cases h
    exact hleaves (by rw [hphase]; nofun)
  · rename_i left hphase
    obtain ⟨-, h⟩ := Option.ite_none_right_eq_some.1 h
    cases h
    exact hleaves (by rw [hphase]; nofun)
  · cases h

end Passes

/-! ### Settling -/

section Settling

variable {i : Nat} {pass : Pass} {rest : List Pass}

/-- What was asked stays asked as a pass is settled. -/
theorem mem_askedFor {queue : Nat} (h : queue ∈ s.asked) : queue ∈ s.askedFor pass := by
  unfold askedFor
  split
  · exact SendStep.mem_listed.2 (.inl h)
  · exact h

theorem woken_of_settled {queue : Nat} (h : s.Woken queue) : (s.settled pass rest).Woken queue := by
  refine woken_of_freed ?_
  rcases h with h | h | h
  · exact .inl (mem_askedFor h)
  · exact .inr (.inl h)
  · exact .inr (.inr h)

/-- A Message whose pass has its queue asked, its due time noted, or a rescan to follow, is covered once it is settled, or
waits for its due time. -/
theorem covered_of_wakes {m : Message} (hm : s.messages.get pass.id = some m) (hwakes : pass.phase.wakes = true)
    (hgo : MayGo (s.settled pass rest) pass.id m) : Covered (s.settled pass rest) pass.id m := by
  cases hphase : pass.phase with
  | weighing left =>
    refine .woken (woken_of_freed (.inl ?_))
    simp only [askedFor, hphase, hm]
    exact SendStep.mem_listed.2 (.inr rfl)
  | closed rescans =>
    rw [hphase] at hwakes
    obtain rfl : rescans = true := hwakes
    refine .closing (.inl ?_)
    show 0 < if pass.phase = Phase.closed true then s.closing + 1 else s.closing
    rw [if_pos hphase]
    omega
  | waiting =>
    refine absurd ?_ hgo.fallen
    show pass.id ∈ s.notedFor pass
    unfold notedFor
    rw [if_pos ⟨hphase, by simp [hm, hgo.due]⟩]
    exact List.mem_cons_self ..
  | placing | sending | checking _ | behind | untried | unasked =>
    rw [hphase] at hwakes
    cases hwakes

/-- What waited for a due time waits for it still. -/
theorem mem_notedFor {id : Nat} (h : id ∈ s.fallen) : id ∈ s.notedFor pass := by
  unfold notedFor
  split
  · exact List.mem_cons_of_mem _ h
  · exact h

/-- A rescan to come is to come once a pass is settled. -/
theorem closing_of_settled (hpick : pick s.passes i = some (pass, rest)) (h : s.Closing) :
    (s.settled pass rest).Closing := by
  have hcount : s.closing ≤ (s.settled pass rest).closing := by
    show s.closing ≤ if pass.phase = Phase.closed true then s.closing + 1 else s.closing
    split <;> omega
  rcases h with h | ⟨other, hother, hclosed⟩
  · exact .inl (by omega)
  · rcases eq_or_mem_of_pick hpick hother with rfl | hmem
    · left
      show 0 < if other.phase = Phase.closed true then s.closing + 1 else s.closing
      rw [if_pos hclosed]
      omega
    · exact .inr ⟨other, hmem, hclosed⟩

/-- What covers a Message, its pass apart, covers it once that is settled. -/
theorem covered_of_settled {id : Nat} {m : Message} (h : Covered { s with passes := rest } id m) :
    Covered (s.settled pass rest) id m := by
  cases h with
  | sent h => exact .sent h
  | taken h => exact .taken h
  | woken h => exact .woken (woken_of_settled h)
  | acting h => exact .acting h
  | closing h =>
    refine .closing (h.imp_left fun h => ?_)
    show 0 < if pass.phase = Phase.closed true then s.closing + 1 else s.closing
    have hclosing : 0 < s.closing := h
    split <;> omega
  | awaited h => exact .awaited h

theorem minds_of_settled (hs : s.Minds) (hpick : pick s.passes i = some (pass, rest)) (hok : s.Minded (.settles i)) :
    (s.settled pass rest).Minds := by
  have hsent (id : Nat) (hid : id ≠ pass.id) (h : ∃ other ∈ s.passes, other.id = id) : ∃ other ∈ rest, other.id = id := by
    obtain ⟨other, hother, rfl⟩ := h
    refine ⟨other, (eq_or_mem_of_pick hpick hother).resolve_left ?_, rfl⟩
    rintro rfl
    exact hid rfl
  refine minds_of_grows hs (fun id h => ?_) fun id m hm hgo => ?_
  · obtain ⟨hmem, hid⟩ := List.mem_filter.1 h
    exact hsent id (of_decide_eq_true hid) (hs.owned id hmem)
  · have hgo₀ : MayGo s id m := hgo.before rfl ⟨mem_notedFor, fun h => h⟩ (fun h => h) fun _ h => h
    by_cases hid : id = pass.id
    · subst hid
      refine .inl ?_
      by_cases hwakes : pass.phase.wakes = true
      · exact covered_of_wakes hm hwakes hgo
      · exact covered_of_settled (hok _ hpick (by simpa using hwakes) m hm hgo₀)
    · exact .inr ⟨hm, hgo₀, fun h => h.imp_right (hsent id hid), fun h => .taken h, woken_of_settled, .inl,
        fun h => .inl (closing_of_settled hpick h), fun h => .awaited h⟩

theorem minds_of_settles (hs : s.Minds) (hok : s.Minded (.settles i)) (h : s.step (.settles i) = some s') : s'.Minds := by
  obtain ⟨⟨pass, rest⟩, hpick, h⟩ := Option.bind_eq_some_iff.1 h
  have hsettled := minds_of_settled hs hpick hok
  dsimp only at h
  split at h
  all_goals cases h
  all_goals exact hsettled

theorem minds_of_rescans (hs : s.Minds) (h : s.step .rescans = some s') : s'.Minds := by
  obtain ⟨-, h⟩ := Option.ite_none_right_eq_some.1 h
  cases h
  exact ⟨fun _ _ _ _ => .woken (.inr (.inr rfl)), hs.owned⟩

theorem minds_of_frees (hs : s.Minds) (h : s.step .frees = some s') : s'.Minds := by
  cases h
  exact minds_of_grows hs hs.owned fun _ _ hm hgo => .inr ⟨hm, hgo.same ⟨rfl, rfl, rfl⟩ (fun h => h) fun _ h => h,
    fun h => h, fun h => .taken h, woken_of_freed, .inl, .inl, fun h => .awaited h⟩

end Settling

/-! ### Acts, and places remembered -/

/-- An act that has written nothing, or a place seen at the head, changes nothing of what covers a Message. -/
theorem minds_of_aside (hs : s.Minds) (opened holding : List Nat) (seen headed : List Place) :
    ({ s with opened := opened, holding := holding, seen := seen, headed := headed } : Sys).Minds :=
  minds_of_grows hs hs.owned fun _ _ hm hgo => .inr ⟨hm, hgo.same ⟨rfl, rfl, rfl⟩ (fun h => h) fun _ h => h,
    fun h => h, fun h => .taken h, fun h => h, .inl, .inl, fun h => .awaited h⟩

theorem minds_of_sees {x : Place} (hs : s.Minds) (h : s.step (.sees x) = some s') : s'.Minds := by
  obtain ⟨-, h⟩ := Option.ite_none_right_eq_some.1 h
  cases h
  exact minds_of_aside hs s.opened s.holding _ s.headed

theorem minds_of_remembers {x : Place} (hs : s.Minds) (h : s.step (.remembers x) = some s') : s'.Minds := by
  obtain ⟨-, h⟩ := Option.ite_none_right_eq_some.1 h
  cases h
  exact minds_of_aside hs s.opened s.holding s.seen _

theorem minds_of_reads {id : Nat} (hs : s.Minds) (h : s.step (.reads id) = some s') : s'.Minds := by
  obtain ⟨-, h⟩ := Option.ite_none_right_eq_some.1 h
  cases h
  exact minds_of_aside hs _ s.holding s.seen s.headed

theorem minds_of_holds {id : Nat} (hs : s.Minds) (h : s.step (.holds id) = some s') : s'.Minds := by
  obtain ⟨-, h⟩ := Option.ite_none_right_eq_some.1 h
  cases h
  exact minds_of_aside hs _ _ s.seen s.headed

theorem minds_of_givesUp {id : Nat} {held : Bool} (hs : s.Minds) (h : s.step (.givesUp id held) = some s') : s'.Minds := by
  cases held with
  | true =>
    obtain ⟨-, h⟩ := Option.ite_none_right_eq_some.1 h
    cases h
    exact minds_of_aside hs s.opened _ s.seen s.headed
  | false =>
    obtain ⟨-, h⟩ := Option.ite_none_right_eq_some.1 h
    cases h
    exact minds_of_aside hs _ s.holding s.seen s.headed

/-- An act on the Message `id` is written: what it leaves of that asks for its queue, and it brings no other to the head
but what is covered. -/
theorem minds_of_acted {id queue written : Nat} {messages : Table Nat Message} {places : Places} {holding : List Nat}
    (hs : s.Minds) (hmessages : ∀ other, other ≠ id → messages.get other = s.messages.get other)
    (hid : ∀ m, messages.get id = some m → m.queue = queue)
    (hheads : ∀ other m, s.messages.get other = some m → other ≠ id → MayGo { s with places := places } other m →
      s.leads other m = true ∨ m.queue = queue ∨ Covered s other m) :
    ({ s with
        messages := messages, written := written, places := places, holding := holding
        acted := (id, queue) :: s.acted } : Sys).Minds := by
  refine ⟨fun other m hm hgo => ?_, hs.owned⟩
  have hasks (h : m.queue = queue) : Covered { s with
      messages := messages, written := written, places := places, holding := holding
      acted := (id, queue) :: s.acted } other m := .acting (.inr ⟨_, List.mem_cons_self .., h.symm⟩)
  by_cases hother : other = id
  · subst hother
    exact hasks (hid m hm)
  have hm₀ : s.messages.get other = some m := (hmessages other hother).symm.trans hm
  have hgrows (h : Covered s other m) : Covered { s with
      messages := messages, written := written, places := places, holding := holding
      acted := (id, queue) :: s.acted } other m :=
    h.of_grows ⟨fun h => h, fun h => .taken h, fun h => h,
      fun h => .inl (h.imp_right fun ⟨x, hx, h⟩ => ⟨x, List.mem_cons_of_mem _ hx, h⟩), .inl, fun h => .awaited h⟩
  rcases hheads other m hm₀ hother (hgo.headed rfl ⟨fun h => h, fun h => h⟩ (fun h => h) hgo.heads) with h | h | h
  · exact hgrows (hs.covered other m hm₀ (hgo.headed rfl ⟨fun h => h, fun h => h⟩ (fun h => h) h))
  · exact hasks h
  · exact hgrows h

theorem minds_of_retry {id : Nat} {moves : Bool} (hs : s.Minds) (h : s.step (.retry id moves) = some s') : s'.Minds := by
  obtain ⟨m, hm, h⟩ := Option.bind_eq_some_iff.1 h
  obtain ⟨-, h⟩ := Option.ite_none_right_eq_some.1 h
  cases h
  refine minds_of_acted hs (fun other hother => Table.get_put_of_ne _ hother _) (fun m' hm' => ?_)
    fun _ _ _ _ hgo => .inl hgo.heads
  rw [Table.get_put_self] at hm'
  cases hm'
  rfl

theorem minds_of_dismiss {id : Nat} {lets : List Place} (hs : s.Minds) (hok : s.Minded (.dismiss id lets))
    (h : s.step (.dismiss id lets) = some s') : s'.Minds := by
  obtain ⟨m, hm, h⟩ := Option.bind_eq_some_iff.1 h
  obtain ⟨-, h⟩ := Option.ite_none_right_eq_some.1 h
  cases h
  refine minds_of_acted hs (fun other hother => Table.get_drop_of_ne _ hother) (fun m' hm' => ?_)
    fun other m' hm' hother hgo => ?_
  · rw [Table.get_drop_self] at hm'
    cases hm'
  · rcases hok m hm (other, m') (Table.mem_iff_get.2 hm') hgo with h | h | h | h
    · exact .inl h
    · exact absurd (Option.some.inj h).symm hother
    · exact .inr (.inl (List.mem_singleton.1 h))
    · exact .inr (.inr h)

/-- What an act forgets not to be sent is to be asked for. -/
theorem minds_of_forgets {i : Nat} (hs : s.Minds) (h : s.step (.forgets i) = some s') : s'.Minds := by
  obtain ⟨⟨x, rest⟩, hpick, h⟩ := Option.bind_eq_some_iff.1 h
  cases h
  refine minds_of_grows hs hs.owned fun id m hm hgo => ?_
  by_cases hqueue : m.queue = x.2
  · exact .inl (.acting (.inl (List.mem_cons.2 (.inl hqueue))))
  · have hgo₀ : MayGo s id m := hgo.same ⟨rfl, rfl, rfl⟩
      (fun h => passedOver_before h rfl rfl (if_neg hqueue).symm fun h => h) fun _ h => h
    refine .inr ⟨hm, hgo₀, fun h => h, fun h => .taken h, fun h => h, fun h => .inl ?_, .inl, fun h => .awaited h⟩
    rcases h with h | ⟨y, hy, heq⟩
    · exact .inl (List.mem_cons_of_mem _ h)
    · rcases eq_or_mem_of_pick hpick hy with rfl | hmem
      · exact absurd heq.symm hqueue
      · exact .inr ⟨y, hmem, heq⟩

theorem minds_of_turns {lets : List Place} {done : Bool} (hs : s.Minds) (hok : s.Minded (.turns lets done))
    (h : s.step (.turns lets done) = some s') : s'.Minds := by
  cases h
  cases done with
  | true => exact ⟨fun _ _ _ _ => .closing (.inl (Nat.succ_pos _)), hs.owned⟩
  | false =>
    refine ⟨fun id m hm hgo => ?_, hs.owned⟩
    have hcovered : Covered s id m := by
      rcases hok rfl (id, m) (Table.mem_iff_get.2 hm) (hgo.headed rfl ⟨fun h => h, fun h => h⟩ (fun h => h) hgo.heads) with
        h | h | h | h
      · exact hs.covered id m hm (hgo.headed rfl ⟨fun h => h, fun h => h⟩ (fun h => h) h)
      · cases h
      · cases h
      · exact h
    exact hcovered.of_grows ⟨fun h => h, fun h => .taken h, fun h => h, .inl, .inl, fun h => .awaited h⟩

/-! ### Every step -/

/-- What one step keeps. -/
theorem minds_of_step {a : Action} (hs : s.Minds) (hok : s.Minded a) (h : s.step a = some s') : s'.Minds := by
  cases a with
  | arrives id m takes claimed => exact minds_of_arrives hs h
  | hands i drops => exact minds_of_hands hs h
  | asks queue => exact minds_of_asks hs h
  | ripens id => exact minds_of_ripens hs h
  | next all due => exact minds_of_next hs h
  | noRoom => exact minds_of_noRoom hs h
  | begins => exact minds_of_begins hs h
  | page listed last => exact minds_of_page hs h
  | looks id position room => exact minds_of_looks hs hok h
  | ends => exact minds_of_ends hs h
  | rests => exact minds_of_rests hs h
  | claims i => exact minds_of_claims hs h
  | refuses i => exact minds_of_refuses hs hok h
  | owns i => exact minds_of_owns hs h
  | declines i marks => exact minds_of_declines hs h
  | marks i => exact minds_of_marks hs h
  | untakes i => exact minds_of_untakes hs h
  | breaks i => exact minds_of_breaks hs hok h
  | lapses i => exact minds_of_lapses hs hok h
  | sees x => exact minds_of_sees hs h
  | remembers x => exact minds_of_remembers hs h
  | places i => exact minds_of_places hs h
  | unplaced i => exact minds_of_unplaced hs h
  | checks i => exact minds_of_checks hs h
  | passes i outcome => exact minds_of_passes hs h
  | panics i lets => exact minds_of_panics hs hok h
  | weighs i => exact minds_of_weighs hs h
  | settles i => exact minds_of_settles hs hok h
  | rescans => exact minds_of_rescans hs h
  | frees => exact minds_of_frees hs h
  | reads id => exact minds_of_reads hs h
  | holds id => exact minds_of_holds hs h
  | givesUp id held => exact minds_of_givesUp hs h
  | retry id moves => exact minds_of_retry hs h
  | dismiss id lets => exact minds_of_dismiss hs hok h
  | forgets i => exact minds_of_forgets hs h
  | turns lets done => exact minds_of_turns hs hok h

/-- In a state where nothing is under way, what is covered is woken for. -/
theorem Covered.woken_of_quiet {id : Nat} {m : Message} (h : Covered s id m) (hquiet : s.Quiet) : s.Woken m.queue := by
  cases h with
  | sent h =>
    unfold Sent at h
    rw [hquiet.handed, hquiet.passes] at h
    simp at h
  | taken h =>
    obtain ⟨-, taker, htaker, -⟩ := h
    rw [hquiet.takers] at htaker
    cases htaker
  | woken h => exact h
  | acting h =>
    unfold Acting at h
    rw [hquiet.acting, hquiet.acted] at h
    simp at h
  | closing h =>
    unfold Closing at h
    rw [hquiet.closing, hquiet.passes] at h
    simp at h
  | awaited h =>
    rw [hquiet.dispatching] at h
    exact h.elim

end Sys

/-! ### Every run -/

/-- In every run whose steps are all minded, whatever its passes, settlements, scans, claims, rescans and acts, and in
whichever order: where nothing is under way, all that may go has its queue asked or starved, or every queue is to be read. -/
theorem woken_of_minded {ports : Ports} {s : Sys} (h : Reach Sys.step Sys.Minded (Sys.Starts ports) s)
    (hquiet : s.Quiet) {id : Nat} {m : Message} (hm : s.messages.get id = some m) (hgo : s.MayGo id m) :
    s.Woken m.queue := by
  have hminds : s.Minds := by
    have hstart : ∀ s, Sys.Starts ports s → s.Minds := by
      rintro _ rfl
      exact ⟨fun id m hm => (by cases hm), fun id hid => (by cases hid)⟩
    exact h.invariant hstart fun _ _ _ hs hok hstep => Sys.minds_of_step hs hok hstep
  exact (hminds.covered id m hm hgo).woken_of_quiet hquiet

/-- A Message of the queue 7, with a place in the sequence 9. -/
def queued : Message := ⟨7, 0, true, [], [9], none, [], false, true⟩

/-- The queue 7, of a Send Port with a sequence at its points or without. -/
def seven (points : Bool) : Ports := ⟨[7], fun _ => points, fun _ => false⟩

/-- Two Messages of one sequence are written into their queue, asked for, found by one scan, and the second is passed. -/
def bothFound : List Action :=
  [.arrives 1 queued [(9, 1)] false, .arrives 2 queued [(9, 2)] false, .asks 7, .asks 7, .next false [], .begins,
    .page [(1, 0), (2, 1)] true, .looks 1 0 true, .claims 0, .owns 0, .places 0, .looks 2 1 true, .claims 0, .owns 0,
    .places 1, .ends, .rests, .checks 1, .checks 0, .checks 0, .checks 0]

/-- Nothing is under way, `id` may go, and its queue is asked for as `woken` says. -/
def rested (id : Nat) (woken : Bool) (s : Sys) : Bool :=
  (match s.dispatching with
    | .idle => true
    | .going _ | .scanning .. => false) &&
  s.handed.isEmpty && s.takers.isEmpty && s.passes.isEmpty && s.acted.isEmpty && s.acting.isEmpty &&
  decide (s.closing = 0) && (s.messages.get id).any fun m => decide (s.MayGo id m) && decide (s.Woken m.queue) == woken

theorem quiet_of_rested {id : Nat} {woken : Bool} {s : Sys} (h : rested id woken s = true) :
    s.Quiet ∧ ∃ m, s.messages.get id = some m ∧ s.MayGo id m ∧ decide (s.Woken m.queue) = woken := by
  unfold rested at h
  simp only [Bool.and_eq_true, List.isEmpty_iff, decide_eq_true_eq] at h
  obtain ⟨⟨⟨⟨⟨⟨⟨hidle, hhanded⟩, htakers⟩, hpasses⟩, hacted⟩, hacting⟩, hclosing⟩, hany⟩ := h
  obtain ⟨m, hm, hgo⟩ := (Option.any_eq_true _ _).1 hany
  simp only [Bool.and_eq_true, decide_eq_true_eq, beq_iff_eq] at hgo
  refine ⟨⟨?_, hhanded, htakers, hpasses, hacted, hacting, hclosing⟩, m, hm, hgo⟩
  split at hidle
  · rename_i hdispatching
    exact hdispatching
  · cases hidle
  · cases hidle

/-- The second is settled while the first is being sent: once the first lets go of its place, and its rescan came, it is
woken for. -/
theorem woken_behind_settled :
    ∃ s, Reach Sys.step Sys.Minded (Sys.Starts (seven true)) s ∧ s.Quiet ∧
      ∃ m, s.messages.get 2 = some m ∧ s.MayGo 2 m ∧ s.Woken m.queue := by
  have hstart : Sys.Starts (seven true) (Sys.starting (seven true)) := rfl
  obtain ⟨s, hreach, hrested⟩ := Reach.exists_of_runWhere Sys.step Sys.Minded hstart
    (List.flatten [bothFound, [.weighs 0, .settles 1, .passes 0 (.completed []), .settles 0, .rescans]]) (rested 2 true)
    (by decide +kernel)
  obtain ⟨hquiet, m, hm, hgo, -⟩ := quiet_of_rested hrested
  exact ⟨s, hreach, hquiet, m, hm, hgo, woken_of_minded hreach hquiet hm hgo⟩

/-- The first lets go of its place, and the rescan for it reads the queue, while the second is owned still, passed behind
it: settled after, it waits at the head of its sequence, and nothing wakes for it. -/
theorem rescan_lost_to_settlement :
    ¬ ∀ s, Reach Sys.step Always (Sys.Starts (seven true)) s → s.Quiet →
      ∀ id m, s.messages.get id = some m → s.MayGo id m → s.Woken m.queue := by
  intro h
  have hstart : Sys.Starts (seven true) (Sys.starting (seven true)) := rfl
  obtain ⟨s, hreach, hrested⟩ := Reach.exists_of_runWhere Sys.step Always hstart
    (List.flatten [bothFound,
      [.passes 1 (.completed []), .settles 1, .rescans, .next false [], .begins, .page [(2, 1)] true, .looks 2 1 true, .ends,
        .rests, .weighs 0, .settles 0]]) (rested 2 false) (by decide +kernel)
  obtain ⟨hquiet, m, hm, hgo, hwoken⟩ := quiet_of_rested hrested
  exact of_decide_eq_false hwoken (h s hreach hquiet 2 m hm hgo)

/-- A Message fails and is retried at a new place, after a page listed it at its old one: the read its operator asked for
passes over it for the mark of the old place, whose claim then finds nothing there. -/
theorem retry_lost_to_an_old_place :
    ∃ s, Reach Sys.step Always (Sys.Starts (seven false)) s ∧ s.Quiet ∧
      ∃ m, s.messages.get 1 = some m ∧ s.MayGo 1 m ∧ ¬ s.Woken m.queue := by
  have hstart : Sys.Starts (seven false) (Sys.starting (seven false)) := rfl
  obtain ⟨s, hreach, hrested⟩ := Reach.exists_of_runWhere Sys.step Always hstart
    [.arrives 1 { queued with own := [] } [] true, .hands 0 false, .next true [], .begins, .page [(1, 0)] true, .checks 0,
      .passes 0 (.failed []), .settles 0, .looks 1 0 true, .ends, .rests, .reads 1, .holds 1, .retry 1 true, .forgets 0,
      .asks 7, .next false [], .begins, .page [(1, 1)] true, .looks 1 1 true, .ends, .rests, .claims 0, .declines 0 false,
      .untakes 0] (rested 1 false) (by decide +kernel)
  obtain ⟨hquiet, m, hm, hgo, hwoken⟩ := quiet_of_rested hrested
  exact ⟨s, hreach, hquiet, m, hm, hgo, of_decide_eq_false hwoken⟩

end Ahead
