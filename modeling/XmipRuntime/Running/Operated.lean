import Mathlib.Data.List.Basic
import XmipRuntime.Library.Pick
import XmipRuntime.Library.Run

/-!
# What a surface in a node's process reads

The program running a node publishes a snapshot of it again and again (`publish`, `src/operator.rs`).  A surface in its
process reads the one there through a table, pauses and resumes scopes in it, and waits for the revision to go on
(`src/ffi/operate.rs`).  What is published and its revision are kept apart: a writer writes under one lock and raises the
revision after, so any number may have written and not raised yet, and they may raise in another order.  A table over a
snapshot of its own writes that one alone, and raises the same revision.

What a surface reads after a wait is never older than the revision it was told (`read_of_waited`), and with no write still
to be raised it is what is published now where that revision still stands.  Each write is told apart by its number, in the
order written; no step reads these.

What a snapshot says of a scope, and what pausing and resuming make of it, are answers of the crate that keeps it.
-/

namespace Operated

open Library

/-! ### A table -/

/-- What a snapshot says, and what an operator makes of it.  Where nothing is at a scope, nothing is changed. -/
structure Observed (σ η κ τ : Type) where
  unconfigured : σ
  health : String → σ → List η
  measure : String → κ → σ → Option τ
  pause : String → String → Int → σ → σ × Nat
  resume : String → σ → σ × Nat
  pause_nothing : ∀ scope who now s, (pause scope who now s).2 = 0 → (pause scope who now s).1 = s
  resume_nothing : ∀ scope s, (resume scope s).2 = 0 → (resume scope s).1 = s

/-- Where a table's snapshot comes from. -/
inductive Source (σ : Type) where
  | fixed (s : σ)
  | published

/-- What is behind a table: its snapshot, and what its last calls handed out. -/
structure Operator (σ η τ : Type) where
  source : Source σ
  heldHealth : List η
  heldCount : Option τ

inductive Status where
  | ok | malformed | invalid | notFound
  deriving DecidableEq

section Entries

variable {σ η κ τ : Type} (o : Observed σ η κ τ) (published : Option σ)

/-- The snapshot a table answers from. -/
def Operator.snapshot (operator : Operator σ η τ) : σ :=
  match operator.source with
  | .fixed s => s
  | .published => published.getD o.unconfigured

/-- The snapshot changed where it is: the table's own, or what is published. -/
def Source.mutate (change : σ → σ × Nat) : Source σ → Source σ × Option σ × Nat
  | .fixed s => (.fixed (change s).1, published, (change s).2)
  | .published =>
    let changed := change (published.getD o.unconfigured)
    (.published, some changed.1, changed.2)

/-- `health` in the table: the records at a scope, as many as there is room for, and how many there are. -/
def healthEntry (operator : Operator σ η τ) (scope : Option String) (cap : Nat) :
    Operator σ η τ × Status × Option Nat × List η :=
  match scope with
  | none => (operator, .malformed, none, [])
  | some scope =>
    let held := o.health scope (operator.snapshot o published)
    let operator := { operator with heldHealth := held }
    if held.isEmpty then (operator, .notFound, some 0, []) else (operator, .ok, some held.length, held.take cap)

/-- `measure` in the table: the one count of a scope, where there is room for it. -/
def measureEntry (operator : Operator σ η τ) (scope : Option String) (what : Option κ) (cap : Nat) :
    Operator σ η τ × Status × Option Nat × List τ :=
  match scope, what with
  | none, _ => (operator, .malformed, none, [])
  | some _, none => (operator, .invalid, none, [])
  | some scope, some kind =>
    let held := o.measure scope kind (operator.snapshot o published)
    let operator := { operator with heldCount := held }
    match held with
    | none => (operator, .notFound, some 0, [])
    | some count => (operator, .ok, some 1, if cap = 0 then [] else [count])

end Entries

/-- What an operator does through a table. -/
inductive Act where
  | pause (scope who : String) (now : Int)
  | resume (scope : String)

/-- What it makes of a snapshot, and at how many scopes. -/
def Act.change {σ η κ τ : Type} (o : Observed σ η κ τ) : Act → σ → σ × Nat
  | .pause scope who now => o.pause scope who now
  | .resume scope => o.resume scope

theorem Act.change_nothing {σ η κ τ : Type} {o : Observed σ η κ τ} {act : Act} {s : σ} (h : (act.change o s).2 = 0) :
    (act.change o s).1 = s := by
  cases act with
  | pause scope who now => exact o.pause_nothing scope who now s h
  | resume scope => exact o.resume_nothing scope s h

/-! ### A process -/

/-- What a surface saw: the revision a wait came to, or what is published, read once so many writes were made. -/
inductive Seen (σ : Type) where
  | waited (revision : Nat)
  | read (writes : Nat) (s : σ)
  deriving DecidableEq

structure World (σ η τ : Type) where
  published : Option σ
  revision : Nat
  tables : List (Operator σ η τ)
  /-- What each wait outstanding waits to be past. -/
  waits : List Nat
  /-- The writes whose revision is still to be raised. -/
  unraised : List Nat
  /-- What was published at each write; nothing where a table wrote its own snapshot. -/
  writes : List (Option σ)
  /-- The writes whose revision was raised, in that order. -/
  raised : List Nat
  seen : List (Seen σ)

/-- Nothing published yet, by any number of tables. -/
def World.Begins {σ η τ : Type} (w : World σ η τ) : Prop := ∃ tables, w = ⟨none, 0, tables, [], [], [], [], []⟩

inductive Action (σ κ : Type) where
  | publish (s : σ)
  /-- The revision raised by the `i`th of the writers yet to. -/
  | raise (i : Nat)
  | act (table : Nat) (act : Act)
  | health (table : Nat) (scope : Option String) (cap : Nat)
  | measure (table : Nat) (scope : Option String) (what : Option κ) (cap : Nat)
  | wait (after : Nat)
  /-- A wait answered, its revision there, or its time passed. -/
  | waited (i : Nat)

section Steps

variable {σ η κ τ : Type} (o : Observed σ η κ τ)

/-- What is published now. -/
def World.current (w : World σ η τ) : σ := w.published.getD o.unconfigured

/-- What was published last of `writes`. -/
def latest (writes : List (Option σ)) : σ := (writes.filterMap id).getLastD o.unconfigured

/-- One write made, whose revision is still to be raised. -/
def World.wrote (w : World σ η τ) (published : Option σ) (written : Option σ) : World σ η τ :=
  { w with published := published, unraised := w.unraised ++ [w.writes.length], writes := w.writes ++ [written] }

/-- What a table read, where it is over what is published. -/
def World.saw (w : World σ η τ) (source : Source σ) : List (Seen σ) :=
  match source with
  | .fixed _ => w.seen
  | .published => w.seen ++ [.read w.writes.length (w.current o)]

def World.step (w : World σ η τ) : Action σ κ → Option (World σ η τ)
  | .publish s => some (w.wrote (some s) (some s))
  | .raise i => do
    let (n, unraised) ← pick w.unraised i
    some { w with revision := w.revision + 1, unraised, raised := w.raised ++ [n] }
  | .act i act => do
    let operator ← w.tables[i]?
    let (source, published, count) := operator.source.mutate o w.published (act.change o)
    let w := { w with tables := w.tables.set i { operator with source } }
    -- nothing there: the table answers that it found nothing, and no revision is raised
    if count = 0 then some { w with published }
    else
      match source with
      | .fixed _ => some (w.wrote published none)
      | .published => some (w.wrote published published)
  | .health i scope cap => do
    let operator ← w.tables[i]?
    let answered := healthEntry o w.published operator scope cap
    some { w with
      tables := w.tables.set i answered.1
      seen := if scope.isSome then w.saw o operator.source else w.seen }
  | .measure i scope what cap => do
    let operator ← w.tables[i]?
    let answered := measureEntry o w.published operator scope what cap
    some { w with
      tables := w.tables.set i answered.1
      seen := if scope.isSome && what.isSome then w.saw o operator.source else w.seen }
  | .wait after => some { w with waits := w.waits ++ [after] }
  | .waited i => do
    let (_, waits) ← pick w.waits i
    some { w with waits, seen := w.seen ++ [.waited w.revision] }

end Steps

/-! ### What was seen -/

/-- What one sight says of a later one, by the writes raised: a wait answered is before every read of less, and neither a
read nor a revision goes back. -/
def Seen.Before {σ : Type} (raised : List Nat) : Seen σ → Seen σ → Prop
  | .waited r, .read n _ => ∀ k ∈ raised.take r, k < n
  | .waited r, .waited r' => r ≤ r'
  | .read n _, .read m _ => n ≤ m
  | .read _ _, .waited _ => True

section Sights

variable {σ η κ τ : Type} {o : Observed σ η κ τ} {w w' : World σ η τ}

/-- What is published is the last written; each write is raised or still to be; and what was seen was so when it was. -/
structure World.Sound (o : Observed σ η κ τ) (w : World σ η τ) : Prop where
  current : w.current o = latest o w.writes
  numbered : (w.raised ++ w.unraised).Perm (List.range w.writes.length)
  revision : w.revision = w.raised.length
  reads : ∀ n s, Seen.read n s ∈ w.seen → n ≤ w.writes.length ∧ s = latest o (w.writes.take n)
  waits : ∀ r, Seen.waited r ∈ w.seen → r ≤ w.revision
  ordered : w.seen.Pairwise (Seen.Before w.raised)

theorem latest_concat_some (writes : List (Option σ)) (s : σ) : latest o (writes ++ [some s]) = s := by
  have hmore : [some s].filterMap id = [s] := rfl
  unfold latest
  rw [List.filterMap_append, hmore, List.getLastD_concat]

theorem latest_concat_none (writes : List (Option σ)) : latest o (writes ++ [none]) = latest o writes := by
  have hmore : [(none : Option σ)].filterMap id = [] := rfl
  unfold latest
  rw [List.filterMap_append, hmore, List.append_nil]

/-- A write that was raised was made. -/
theorem World.Sound.lt_of_raised (h : w.Sound o) {k : Nat} (hk : k ∈ w.raised) : k < w.writes.length :=
  List.mem_range.1 (h.numbered.mem_iff.1 (List.mem_append_left _ hk))

theorem World.Sound.wrote (h : w.Sound o) {published written : Option σ}
    (hcurrent : published.getD o.unconfigured = latest o (w.writes ++ [written])) :
    (w.wrote published written).Sound o where
  current := hcurrent
  numbered := by
    have hone := h.numbered.append_right [w.writes.length]
    rw [List.append_assoc] at hone
    unfold World.wrote
    rw [List.length_append, List.length_singleton, List.range_succ]
    exact hone
  revision := h.revision
  reads n s hmem := by
    obtain ⟨hle, hs⟩ := h.reads n s hmem
    refine ⟨?_, ?_⟩
    · show n ≤ (w.writes ++ [written]).length
      rw [List.length_append]
      omega
    · show s = latest o ((w.writes ++ [written]).take n)
      rw [List.take_append_of_le_length hle]
      exact hs
  waits := h.waits
  ordered := h.ordered

theorem World.Sound.raise (h : w.Sound o) {i n : Nat} {unraised : List Nat} (hpick : pick w.unraised i = some (n, unraised)) :
    World.Sound o { w with revision := w.revision + 1, unraised, raised := w.raised ++ [n] } where
  current := h.current
  numbered := by
    have hone := (pick_perm hpick).append_left w.raised
    refine List.Perm.trans ?_ h.numbered
    rw [List.append_assoc]
    exact hone
  revision := by
    rw [List.length_append, List.length_singleton]
    exact congrArg (· + 1) h.revision
  reads := h.reads
  waits r hmem := Nat.le_succ_of_le (h.waits r hmem)
  ordered := by
    refine h.ordered.imp_of_mem fun {a b} ha hb hbefore => ?_
    cases a with
    | waited r =>
      cases b with
      | waited r' => exact hbefore
      | read m s =>
        have hr : r ≤ w.raised.length := h.revision ▸ h.waits r ha
        intro k hk
        rw [List.take_append_of_le_length hr] at hk
        exact hbefore k hk
    | read m s => cases b <;> exact hbefore

theorem World.Sound.saw (h : w.Sound o) (source : Source σ) (tables : List (Operator σ η τ)) :
    World.Sound o { w with tables, seen := w.saw o source } := by
  cases source with
  | fixed s => exact ⟨h.current, h.numbered, h.revision, h.reads, h.waits, h.ordered⟩
  | published =>
    refine ⟨h.current, h.numbered, h.revision, fun n s hmem => ?_, fun r hmem => ?_, ?_⟩
    · rcases List.mem_append.1 hmem with hmem | hmem
      · exact h.reads n s hmem
      · rw [List.mem_singleton, Seen.read.injEq] at hmem
        obtain ⟨rfl, rfl⟩ := hmem
        refine ⟨Nat.le_refl _, ?_⟩
        rw [List.take_length]
        exact h.current
    · rcases List.mem_append.1 hmem with hmem | hmem
      · exact h.waits r hmem
      · cases List.mem_singleton.1 hmem
    · refine List.pairwise_append.2 ⟨h.ordered, List.pairwise_singleton _ _, fun a ha b hb => ?_⟩
      rw [List.mem_singleton.1 hb]
      cases a with
      | waited r => exact fun k hk => h.lt_of_raised (List.mem_of_mem_take hk)
      | read n s => exact (h.reads n s ha).1

theorem World.Sound.waited (h : w.Sound o) (waits : List Nat) :
    World.Sound o { w with waits, seen := w.seen ++ [.waited w.revision] } where
  current := h.current
  numbered := h.numbered
  revision := h.revision
  reads n s hmem := by
    rcases List.mem_append.1 hmem with hmem | hmem
    · exact h.reads n s hmem
    · cases List.mem_singleton.1 hmem
  waits r hmem := by
    rcases List.mem_append.1 hmem with hmem | hmem
    · exact h.waits r hmem
    · rw [List.mem_singleton, Seen.waited.injEq] at hmem
      exact Nat.le_of_eq hmem
  ordered := by
    refine List.pairwise_append.2 ⟨h.ordered, List.pairwise_singleton _ _, fun a ha b hb => ?_⟩
    rw [List.mem_singleton.1 hb]
    cases a with
    | waited r => exact h.waits r ha
    | read n s => trivial

/-- A table acting keeps it: on a snapshot of its own, or on what is published. -/
theorem World.Sound.act (h : w.Sound o) {i : Nat} {act : Act} (hs : w.step o (.act i act : Action σ κ) = some w') :
    w'.Sound o := by
  obtain ⟨operator, -, hs⟩ := Option.bind_eq_some_iff.1 hs
  have htables : ∀ tables, World.Sound o { w with tables } := fun _ =>
    ⟨h.current, h.numbered, h.revision, h.reads, h.waits, h.ordered⟩
  cases hsource : operator.source with
  | fixed s =>
    simp only [hsource, Source.mutate] at hs
    split at hs
    · cases hs
      exact htables _
    · cases hs
      refine (htables _).wrote ?_
      rw [latest_concat_none]
      exact h.current
  | published =>
    simp only [hsource, Source.mutate] at hs
    split at hs
    · rename_i hnothing
      cases hs
      refine ⟨?_, h.numbered, h.revision, h.reads, h.waits, h.ordered⟩
      exact (Act.change_nothing hnothing).trans h.current
    · cases hs
      refine (htables _).wrote ?_
      rw [latest_concat_some]
      rfl

theorem World.Sound.step {a : Action σ κ} (h : w.Sound o) (hs : w.step o a = some w') : w'.Sound o := by
  cases a with
  | publish s =>
    cases hs
    refine h.wrote ?_
    rw [latest_concat_some]
    rfl
  | raise i =>
    obtain ⟨⟨n, unraised⟩, hpick, hs⟩ := Option.bind_eq_some_iff.1 hs
    cases hs
    exact h.raise hpick
  | act i act => exact h.act hs
  | health i scope cap =>
    obtain ⟨operator, -, hs⟩ := Option.bind_eq_some_iff.1 hs
    cases hs
    cases scope with
    | none => exact ⟨h.current, h.numbered, h.revision, h.reads, h.waits, h.ordered⟩
    | some scope => exact h.saw operator.source _
  | measure i scope what cap =>
    obtain ⟨operator, -, hs⟩ := Option.bind_eq_some_iff.1 hs
    cases hs
    by_cases hread : (scope.isSome && what.isSome) = true
    · rw [if_pos hread]
      exact h.saw operator.source _
    · rw [if_neg hread]
      exact ⟨h.current, h.numbered, h.revision, h.reads, h.waits, h.ordered⟩
  | wait after =>
    cases hs
    exact ⟨h.current, h.numbered, h.revision, h.reads, h.waits, h.ordered⟩
  | waited i =>
    obtain ⟨⟨after, waits⟩, -, hs⟩ := Option.bind_eq_some_iff.1 hs
    cases hs
    exact h.waited waits

theorem sound_of_reach (h : Reach (World.step o) Always World.Begins w) : w.Sound o := by
  refine h.invariant ?_ fun w a w' hsound _ hs => hsound.step hs
  rintro w ⟨tables, rfl⟩
  have hnone : ∀ a : Seen σ, a ∉ [] := fun a => List.not_mem_nil
  exact ⟨rfl, List.Perm.refl _, rfl, fun n s hmem => absurd hmem (hnone _), fun r hmem => absurd hmem (hnone _),
    List.Pairwise.nil⟩

/-- However any number of threads publish, act through their tables, wait and read: what is read after a wait was answered
a revision has every write that was raised by then, and is what was written last of those it has; what is read later is
never older; and where that revision still stands with no write to be raised, it is what is published now. -/
theorem read_of_waited (h : Reach (World.step o) Always World.Begins w) {before between after : List (Seen σ)} {r n : Nat}
    {s : σ} (hseen : w.seen = before ++ [.waited r] ++ between ++ [.read n s] ++ after) :
    (∀ k ∈ w.raised.take r, k < n) ∧ n ≤ w.writes.length ∧ s = latest o (w.writes.take n) ∧
      (∀ m t, Seen.read m t ∈ after → n ≤ m) ∧
      (r = w.revision → w.unraised = [] → n = w.writes.length ∧ s = w.current o) := by
  have hsound := sound_of_reach h
  have hordered := hsound.ordered
  rw [hseen, List.pairwise_append] at hordered
  obtain ⟨hearlier, -, hlater⟩ := hordered
  rw [List.pairwise_append] at hearlier
  obtain ⟨-, -, hread⟩ := hearlier
  have hraised : ∀ k ∈ w.raised.take r, k < n := hread (.waited r) (by simp) (.read n s) (by simp)
  have honward : ∀ m t, Seen.read m t ∈ after → n ≤ m := fun m t hmem => hlater (.read n s) (by simp) _ hmem
  obtain ⟨hle, hs⟩ := hsound.reads n s (by simp [hseen])
  refine ⟨hraised, hle, hs, honward, fun hstands hnone => ?_⟩
  have hall : n = w.writes.length := by
    by_contra hne
    have hlast : w.writes.length - 1 ∈ w.raised := by
      have hperm := hsound.numbered
      rw [hnone, List.append_nil] at hperm
      rw [hperm.mem_iff, List.mem_range]
      omega
    rw [hstands, hsound.revision, List.take_length] at hraised
    have hlt := hraised _ hlast
    omega
  rw [hall, List.take_length] at hs
  exact ⟨hall, hs.trans hsound.current.symm⟩

end Sights

/-- Scopes and those paused among them. -/
private def scopes : Observed (List (String × Bool)) (String × Bool) Unit Nat where
  unconfigured := []
  health scope s := s.filter fun x => decide (x.1 = scope)
  measure _ _ s := some s.length
  pause scope _ _ s :=
    if s.any fun x => decide (x.1 = scope) then (s.map fun x => if x.1 = scope then (scope, true) else x, 1) else (s, 0)
  resume scope s :=
    if s.any fun x => decide (x.1 = scope) then (s.map fun x => if x.1 = scope then (scope, false) else x, 1) else (s, 0)
  pause_nothing scope who now s h := by
    split at h
    · cases h
    · rename_i hnone
      exact congrArg Prod.fst (if_neg hnone)
  resume_nothing scope s h := by
    split at h
    · cases h
    · rename_i hnone
      exact congrArg Prod.fst (if_neg hnone)

/-- A scope published and paused through a table, the second write raised before the first, and read after. -/
theorem read_of_waited_overtaking :
    ∃ w : World (List (String × Bool)) (String × Bool) Nat, Reach (World.step scopes) Always World.Begins w ∧
      w.seen = [.waited 1, .read 2 [("In", true)]] ∧ w.raised = [1] ∧ w.unraised = [0] ∧
      (∀ k ∈ w.raised.take 1, k < 2) ∧ latest scopes (w.writes.take 2) = [("In", true)] := by
  have hbegins : World.Begins (⟨none, 0, [⟨.published, [], none⟩], [], [], [], [], []⟩ :
      World (List (String × Bool)) (String × Bool) Nat) := ⟨_, rfl⟩
  obtain ⟨w, hreach, hw⟩ := Reach.exists_of_runWhere (World.step scopes) Always hbegins
    [.wait 0, .publish [("In", false)], .act 0 (.pause "In" "amy" 7), .raise 1, .waited 0, .health 0 (some "In") 8]
    (fun w => decide (w.seen = [.waited 1, .read 2 [("In", true)]] ∧ w.raised = [1] ∧ w.unraised = [0]))
    (by decide +kernel)
  obtain ⟨hseen, hraised, hunraised⟩ := of_decide_eq_true hw
  obtain ⟨hbefore, -, hlatest, -⟩ := @read_of_waited _ _ _ _ scopes w hreach [] [] [] 1 2 [("In", true)] hseen
  exact ⟨w, hreach, hseen, hraised, hunraised, hbefore, hlatest.symm⟩

end Operated
