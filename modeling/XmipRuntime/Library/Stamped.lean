import XmipRuntime.Library.Pick
import XmipRuntime.Library.Run

/-!
# A reading kept by a stamp

A source is read again only where its stamp is not the one it had when it was read last.  A round reads the stamp first, and
then, alone, either answers what is kept under that stamp or reads the source and keeps what it read; between the two the
source may be written, and another round may keep a reading of its own.  A source without a stamp is read every time.

Where every write gives the source a stamp it never had before (`Fresh`), a round answers what a reading of the source would
have said at some moment while the round ran (`answers_seen`): the reading kept is as good as reading every time.
-/

namespace Library

/-- A round: begun, or with the stamp it read; and what the source held since it began. -/
structure Stamped.Round (τ φ : Type) where
  stamp : Option (Option τ)
  seen : List φ
  deriving DecidableEq

structure Stamped (τ φ α : Type) where
  stamp : Option τ
  source : φ
  kept : Option (Option τ × α)
  rounds : List (Stamped.Round τ φ)
  /-- Every stamp the source had. -/
  stamps : List τ
  /-- What was answered, each with what the source held while its round ran. -/
  answered : List (α × List φ)
  deriving DecidableEq

namespace Stamped

variable {τ φ α : Type}

/-- A source with `stamp`, never read. -/
def start (stamp : Option τ) (source : φ) : Stamped τ φ α := ⟨stamp, source, none, [], stamp.toList, []⟩

inductive Action (τ φ : Type) where
  | write (stamp : Option τ) (source : φ)
  | begin
  | stat (i : Nat)
  | answer (i : Nat)

/-- What is kept under a stamp read. -/
def hit [DecidableEq τ] (kept : Option (Option τ × α)) (stamp : Option τ) : Option α :=
  match kept with
  | some (whenRead, what) => if whenRead = stamp ∧ stamp.isSome then some what else none
  | none => none

def step [DecidableEq τ] (read : φ → α) (w : Stamped τ φ α) : Action τ φ → Option (Stamped τ φ α)
  | .write stamp source => some { w with
      stamp, source
      stamps := stamp.toList ++ w.stamps
      rounds := w.rounds.map fun round => { round with seen := source :: round.seen } }
  | .begin => some { w with rounds := w.rounds ++ [⟨none, [w.source]⟩] }
  | .stat i =>
    match pick w.rounds i with
    | some (⟨none, seen⟩, rounds) => some { w with rounds := rounds ++ [⟨some w.stamp, seen⟩] }
    | _ => none
  | .answer i =>
    match pick w.rounds i with
    | some (⟨some stamp, seen⟩, rounds) =>
      match hit w.kept stamp with
      | some what => some { w with rounds, answered := w.answered ++ [(what, seen)] }
      | none => some { w with
          rounds, kept := some (stamp, read w.source), answered := w.answered ++ [(read w.source, seen)] }
    | _ => none

/-- Every write gives the source a stamp it never had, or none. -/
def Fresh (w : Stamped τ φ α) : Action τ φ → Prop
  | .write (some stamp) _ => stamp ∉ w.stamps
  | _ => True

instance [DecidableEq τ] (w : Stamped τ φ α) (a : Action τ φ) : Decidable (Fresh w a) :=
  match a with
  | .write (some stamp) _ => inferInstanceAs (Decidable (stamp ∉ w.stamps))
  | .write none _ | .begin | .stat _ | .answer _ => inferInstanceAs (Decidable True)

/-- What a round sees: the source as it is, and, under the stamp it read, what is kept as the source was. -/
structure Round.Sees (read : φ → α) (w : Stamped τ φ α) (round : Round τ φ) : Prop where
  now : w.source ∈ round.seen
  had : ∀ t, round.stamp = some (some t) → t ∈ w.stamps
  kept : ∀ t what, round.stamp = some (some t) → w.kept = some (some t, what) → what ∈ round.seen.map read

structure Sound (read : φ → α) (w : Stamped τ φ α) : Prop where
  had : ∀ t, w.stamp = some t → t ∈ w.stamps
  keptHad : ∀ t what, w.kept = some (some t, what) → t ∈ w.stamps
  current : ∀ t what, w.kept = some (some t, what) → w.stamp = some t → what = read w.source
  rounds : ∀ round ∈ w.rounds, round.Sees read w
  answered : ∀ a ∈ w.answered, a.1 ∈ a.2.map read

variable {read : φ → α} {w w' : Stamped τ φ α}

theorem hit_eq_some [DecidableEq τ] {kept : Option (Option τ × α)} {stamp : Option τ} {what : α} (h : hit kept stamp = some what) :
    ∃ t, stamp = some t ∧ kept = some (some t, what) := by
  unfold hit at h
  split at h
  · split at h
    · rename_i hsame
      obtain ⟨t, ht⟩ := Option.isSome_iff_exists.1 hsame.2
      cases h
      exact ⟨t, ht, by rw [hsame.1, ht]⟩
    · exact nomatch h
  · exact nomatch h

theorem Sound.write (h : w.Sound read) {stamp : Option τ} (hfresh : ∀ t, stamp = some t → t ∉ w.stamps) (source : φ) :
    Sound read { w with
      stamp, source
      stamps := stamp.toList ++ w.stamps
      rounds := w.rounds.map fun round => { round with seen := source :: round.seen } } where
  had t ht := List.mem_append_left _ (Option.mem_toList.2 ht)
  keptHad t what hkept := List.mem_append_right _ (h.keptHad t what hkept)
  current t what hkept ht := absurd (h.keptHad t what hkept) (hfresh t ht)
  rounds := by
    intro round hround
    obtain ⟨before, hbefore, rfl⟩ := List.mem_map.1 hround
    have hsees := h.rounds before hbefore
    refine ⟨List.mem_cons_self .., fun t ht => List.mem_append_right _ (hsees.had t ht), fun t what ht hkept => ?_⟩
    exact List.mem_cons_of_mem _ (hsees.kept t what ht hkept)
  answered := h.answered

theorem Sound.begin (h : w.Sound read) : Sound read { w with rounds := w.rounds ++ [⟨none, [w.source]⟩] } where
  had := h.had
  keptHad := h.keptHad
  current := h.current
  rounds round hround := by
    rcases List.mem_append.1 hround with hround | hround
    · exact ⟨(h.rounds round hround).now, (h.rounds round hround).had, (h.rounds round hround).kept⟩
    · rw [List.mem_singleton.1 hround]
      exact ⟨List.mem_singleton_self _, fun t ht => (nomatch ht), fun t what ht => (nomatch ht)⟩
  answered := h.answered

theorem Sound.stat (h : w.Sound read) {i : Nat} {seen : List φ} {rounds : List (Round τ φ)}
    (hpick : pick w.rounds i = some (⟨none, seen⟩, rounds)) :
    Sound read { w with rounds := rounds ++ [⟨some w.stamp, seen⟩] } where
  had := h.had
  keptHad := h.keptHad
  current := h.current
  rounds round hround := by
    rcases List.mem_append.1 hround with hround | hround
    · have hsees := h.rounds round (mem_of_mem_pick hpick hround)
      exact ⟨hsees.now, hsees.had, hsees.kept⟩
    · have hsees := h.rounds _ (mem_of_pick hpick)
      rw [List.mem_singleton.1 hround]
      refine ⟨hsees.now, fun t ht => h.had t (Option.some.inj ht), fun t what ht hkept => ?_⟩
      rw [h.current t what hkept (Option.some.inj ht)]
      exact List.mem_map_of_mem hsees.now
  answered := h.answered

/-- A round answers what is kept. -/
theorem Sound.hits [DecidableEq τ] (h : w.Sound read) {i : Nat} {stamp : Option τ} {seen : List φ} {rounds : List (Round τ φ)}
    (hpick : pick w.rounds i = some (⟨some stamp, seen⟩, rounds)) {what : α} (hhit : hit w.kept stamp = some what) :
    Sound read { w with rounds, answered := w.answered ++ [(what, seen)] } where
  had := h.had
  keptHad := h.keptHad
  current := h.current
  rounds round hround := by
    have hsees := h.rounds round (mem_of_mem_pick hpick hround)
    exact ⟨hsees.now, hsees.had, hsees.kept⟩
  answered a ha := by
    rcases List.mem_append.1 ha with ha | ha
    · exact h.answered a ha
    · obtain ⟨t, rfl, hkept⟩ := hit_eq_some hhit
      rw [List.mem_singleton.1 ha]
      exact (h.rounds _ (mem_of_pick hpick)).kept t what rfl hkept

/-- A round reads the source, and keeps what it read under the stamp it had read before. -/
theorem Sound.reads (h : w.Sound read) {i : Nat} {stamp : Option τ} {seen : List φ} {rounds : List (Round τ φ)}
    (hpick : pick w.rounds i = some (⟨some stamp, seen⟩, rounds)) :
    Sound read { w with
      rounds, kept := some (stamp, read w.source), answered := w.answered ++ [(read w.source, seen)] } where
  had := h.had
  keptHad t what hkept := by
    cases hkept
    exact (h.rounds _ (mem_of_pick hpick)).had t rfl
  current t what hkept _ := by
    cases hkept
    rfl
  rounds round hround := by
    have hsees := h.rounds round (mem_of_mem_pick hpick hround)
    refine ⟨hsees.now, hsees.had, fun t what ht hkept => ?_⟩
    cases hkept
    exact List.mem_map_of_mem hsees.now
  answered a ha := by
    rcases List.mem_append.1 ha with ha | ha
    · exact h.answered a ha
    · rw [List.mem_singleton.1 ha]
      exact List.mem_map_of_mem (h.rounds _ (mem_of_pick hpick)).now

theorem Sound.step [DecidableEq τ] {a : Action τ φ} (h : w.Sound read) (hfresh : Fresh w a) (hs : w.step read a = some w') :
    w'.Sound read := by
  cases a with
  | write stamp source =>
    cases hs
    refine h.write (fun t ht => ?_) source
    cases ht
    exact hfresh
  | begin =>
    cases hs
    exact h.begin
  | stat i =>
    simp only [Stamped.step] at hs
    split at hs
    · rename_i hpick
      cases hs
      exact h.stat hpick
    · exact nomatch hs
  | answer i =>
    simp only [Stamped.step] at hs
    split at hs
    · rename_i hpick
      split at hs
      · rename_i hhit
        cases hs
        exact h.hits hpick hhit
      · cases hs
        exact h.reads hpick
    · exact nomatch hs

theorem sound_start (stamp : Option τ) (source : φ) : (start stamp source : Stamped τ φ α).Sound read where
  had _ ht := Option.mem_toList.2 ht
  keptHad _ _ hkept := nomatch hkept
  current _ _ hkept := nomatch hkept
  rounds _ hround := nomatch hround
  answered _ ha := nomatch ha

/-- A source nobody read yet. -/
def Unread (w : Stamped τ φ α) : Prop := ∃ stamp source, w = start stamp source

theorem answers_seen [DecidableEq τ] (h : Reach (Stamped.step read) Fresh Unread w) : ∀ a ∈ w.answered, a.1 ∈ a.2.map read := by
  have hsound : w.Sound read := by
    refine h.invariant ?_ fun w a w' hsound hfresh hs => hsound.step hfresh hs
    rintro w ⟨stamp, source, rfl⟩
    exact sound_start stamp source
  exact hsound.answered

end Stamped

end Library
