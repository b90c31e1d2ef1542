import Mathlib.Algebra.Ring.Nat
import Mathlib.Data.List.Nodup
import Mathlib.Data.List.Perm.Basic
import Mathlib.Data.List.Range
import XmipRuntime.Library.Handing
import XmipRuntime.Library.Pick

/-!
# A web host's listener

A web host's HTTPS listener takes each connection on one thread and makes its handshake on a thread of its own
(`src/secure_listener.rs`).  A handshake that finished holds the caller its browser's certificate proved
(`src/secured.rs`), lets go of it where the session cannot be made ready, and is handed over in a queue the host's accepts
wait at; one that did not finish is handed over with why.  A session the host drops lets go of its caller.  A stop
revokes what the listener proved, so no caller is held for it after, and then closes the queue; the sessions still in it
as the listener is dropped go with the last thread that has it, each letting go of its caller.

A caller is held under a handle (`src/plane/held.rs`), drawn among those nobody is held under at that moment: a handle
whose caller's time has passed may be drawn again while the session it was given has it still.  The handles others hold,
the host's own of the same callers among them, only leave fewer to draw from.

A step is one hold of the queue's lock or of the callers', one wake, one connection taken, what comes of a handshake, or a
session dropped.  Which callers were held and let go of is written down beside the state; no step reads it.
-/

namespace Secure

open Library

/-! ### The machine -/

/-- What a handshake came to: a session, with the handle of the caller held for it, 0 for no one; a certificate the
anchors refused; or no handshake, in words. -/
inductive Came where
  | session (caller : Nat)
  | refused (said : String)
  | failed (said : String)
  deriving DecidableEq

/-- A connection's handshake, over. -/
structure Finished where
  connection : Nat
  came : Came
  deriving DecidableEq

/-- A handshake under way: made, its caller held, or about to be handed over. -/
inductive Shake where
  | shaking (connection : Nat)
  | proven (connection caller : Nat)
  | handing (finished : Finished)
  deriving DecidableEq

/-- The accepting thread: waiting for a connection, one accepted before a stop was seen, or done. -/
inductive Accepting where
  | waiting
  | accepted
  | done
  deriving DecidableEq

/-- A connection's caller and the handle it is held under, 0 for no one. -/
structure Caller where
  connection : Nat
  handle : Nat
  deriving DecidableEq

structure World where
  accepting : Accepting
  revoked : Bool
  /-- The listener was dropped. -/
  freed : Bool
  connections : Nat
  shakes : List Shake
  queue : Handing Finished
  /-- What the queue held as the last thread let go of it, less what was dropped of it. -/
  left : Option (List Finished)
  /-- The sessions the host has, each by its caller. -/
  sessions : List Caller
  /-- The callers held now that the listener's handshakes proved. -/
  held : List Caller
  /-- The callers held for handshakes, and those let go of, in order. -/
  given : List Caller
  released : List Caller
  deriving DecidableEq

def World.Begins (w : World) : Prop := w = ⟨.waiting, false, false, 0, [], .empty, none, [], [], [], []⟩

inductive Action where
  /-- A connection accepted, or the knock of a stop. -/
  | knock
  /-- A thread for its handshake, or why it could not be started. -/
  | spawn (failure : Option String)
  | prove (i caller : Nat)
  | refuse (i : Nat) (said : String)
  | fail (i : Nat) (said : String)
  /-- The session made ready, or what failed and why. -/
  | ready (i : Nat) (failure : Option String)
  | hand (i : Nat)
  | wake
  | accept
  | look
  | stirs
  | revoke
  | close
  | wakeAll
  /-- A caller's time has passed, or another's stale handle was its own. -/
  | lapse (handle : Nat)
  | drop (i : Nat)
  /-- The listener dropped, its stop past and no accept in it. -/
  | free
  /-- The last thread that has the queue lets go of it. -/
  | gone
  /-- The first of what was left in it dropped. -/
  | spill
  deriving DecidableEq

/-- The caller behind a handle, where there is one. -/
def callers (caller : Caller) : List Caller := if caller.handle = 0 then [] else [caller]

/-- The session an accept is handed. -/
def Finished.sessions (f : Finished) : List Caller :=
  match f.came with
  | .session caller => [⟨f.connection, caller⟩]
  | .refused _ | .failed _ => []

def Finished.callers (f : Finished) : List Caller := f.sessions.flatMap Secure.callers

def Shake.connection : Shake → Nat
  | .shaking connection | .proven connection _ => connection
  | .handing finished => finished.connection

/-- The connection of one whose handshake is not made yet. -/
def Shake.unmade : Shake → Option Nat
  | .shaking connection => some connection
  | .proven _ _ | .handing _ => none

def Shake.callers : Shake → List Caller
  | .shaking _ => []
  | .proven connection caller => Secure.callers ⟨connection, caller⟩
  | .handing finished => finished.callers

namespace World

/-- The sessions the next look hands over. -/
def next (w : World) : List Caller :=
  if w.queue.closed then []
  else
    match w.queue.items with
    | [] => []
    | finished :: _ => finished.sessions

/-- `caller` let go of: nobody is held under its handle after. -/
def release (w : World) (caller : Caller) : World :=
  { w with held := w.held.filter fun c => c.handle ≠ caller.handle, released := w.released ++ callers caller }

def step (w : World) : Action → Option World
  | .knock =>
    if w.accepting = .waiting then some { w with accepting := if w.queue.closed then .done else .accepted } else none
  | .spawn failure =>
    if w.accepting = .accepted then
      match failure with
      | none => some { w with
          accepting := .waiting, connections := w.connections + 1, shakes := w.shakes ++ [.shaking w.connections] }
      | some failure =>
        let finished : Finished := ⟨w.connections, .failed ("starting a handshake's thread: " ++ failure)⟩
        some { w with accepting := .waiting, connections := w.connections + 1, queue := w.queue.put finished }
    else none
  | .prove i caller =>
    match pick w.shakes i with
    | some (.shaking connection, shakes) =>
      if caller = 0 then some { w with shakes := shakes ++ [.proven connection 0] }
      else if w.revoked = false ∧ caller < 2 ^ 64 ∧ caller ∉ w.held.map Caller.handle then
        some { w with
          shakes := shakes ++ [.proven connection caller]
          held := w.held ++ [⟨connection, caller⟩]
          given := w.given ++ [⟨connection, caller⟩] }
      else none
    | _ => none
  | .refuse i said =>
    match pick w.shakes i with
    | some (.shaking connection, shakes) => some { w with shakes := shakes ++ [.handing ⟨connection, .refused said⟩] }
    | _ => none
  | .fail i said =>
    match pick w.shakes i with
    | some (.shaking connection, shakes) => some { w with shakes := shakes ++ [.handing ⟨connection, .failed said⟩] }
    | _ => none
  | .ready i failure =>
    match pick w.shakes i with
    | some (.proven connection caller, shakes) =>
      match failure with
      | none => some { w with shakes := shakes ++ [.handing ⟨connection, .session caller⟩] }
      | some failure =>
        some (release { w with shakes := shakes ++ [.handing ⟨connection, .failed failure⟩] } ⟨connection, caller⟩)
    | _ => none
  | .hand i =>
    match pick w.shakes i with
    | some (.handing finished, shakes) => some { w with shakes, queue := w.queue.put finished }
    | _ => none
  | .wake => if 0 < w.queue.waking then some { w with queue := w.queue.wake } else none
  | .accept => if w.freed then none else (w.queue.step .enter).map fun queue => { w with queue }
  | .look =>
    if 0 < w.queue.awake then some { w with queue := w.queue.look, sessions := w.sessions ++ w.next } else none
  | .stirs => (w.queue.step .stirs).map fun queue => { w with queue }
  | .revoke => if w.freed then none else some { w with revoked := true, held := [] }
  | .close => if w.freed then none else (w.queue.step .close).map fun queue => { w with queue }
  | .wakeAll => (w.queue.step .wakeAll).map fun queue => { w with queue }
  | .lapse handle => some { w with held := w.held.filter fun c => c.handle ≠ handle }
  | .drop i =>
    match pick w.sessions i with
    | some (caller, sessions) => some (release { w with sessions } caller)
    | none => none
  | .free =>
    if w.revoked ∧ w.queue.closed ∧ w.queue.wakingAll = 0 ∧ w.queue.awake = 0 ∧ w.queue.parked = 0 then
      some { w with freed := true }
    else none
  | .gone =>
    if w.freed ∧ w.accepting = .done ∧ w.shakes = [] ∧ w.queue.waking = 0 ∧ w.left = none then
      some { w with left := some w.queue.items }
    else none
  | .spill =>
    match w.left with
    | some (⟨connection, .session caller⟩ :: rest) =>
      some (release { w with left := some rest } ⟨connection, caller⟩)
    | some (_ :: rest) => some { w with left := some rest }
    | _ => none

/-! ### What a step does -/

/-- Every step, by what it does: the accepting thread goes on, starts a handshake, or hands over one it could not start;
a handshake goes on, holds a caller, or lets go of it; one is handed over; the queue is waited at or looked into; the
listener's callers are revoked, or one's time passes; the listener is dropped, its queue gone, and what was left in that
dropped; or a session is. -/
inductive Steps (w : World) : World → Prop where
  | accepts (accepting : Accepting) (hwaiting : w.accepting = .waiting) : Steps w { w with accepting }
  | starts (haccepted : w.accepting = .accepted) : Steps w { w with
      accepting := .waiting, connections := w.connections + 1, shakes := w.shakes ++ [.shaking w.connections] }
  | unstarted (said : String) (haccepted : w.accepting = .accepted) : Steps w { w with
      accepting := .waiting, connections := w.connections + 1, queue := w.queue.put ⟨w.connections, .failed said⟩ }
  | goes (i : Nat) (shake shake' : Shake) (shakes : List Shake) (hpick : pick w.shakes i = some (shake, shakes))
      (hconnection : shake'.connection = shake.connection) (hcallers : shake'.callers = shake.callers)
      (hmade : shake'.unmade = none) : Steps w { w with shakes := shakes ++ [shake'] }
  | proves (i connection caller : Nat) (shakes : List Shake) (hpick : pick w.shakes i = some (.shaking connection, shakes))
      (hsome : caller ≠ 0) (hopen : w.revoked = false) (hdrawn : caller ∉ w.held.map Caller.handle) : Steps w { w with
        shakes := shakes ++ [.proven connection caller]
        held := w.held ++ [⟨connection, caller⟩]
        given := w.given ++ [⟨connection, caller⟩] }
  | unready (i connection caller : Nat) (failure : String) (shakes : List Shake)
      (hpick : pick w.shakes i = some (.proven connection caller, shakes)) :
      Steps w (release { w with shakes := shakes ++ [.handing ⟨connection, .failed failure⟩] } ⟨connection, caller⟩)
  | hands (i : Nat) (finished : Finished) (shakes : List Shake)
      (hpick : pick w.shakes i = some (.handing finished, shakes)) :
      Steps w { w with shakes, queue := w.queue.put finished }
  | waits (a : Handing.Action Finished) (queue : Handing Finished) (hqueue : w.queue.step a = some queue)
      (hitems : queue.items = w.queue.items) (hhanded : queue.handed = w.queue.handed)
      (hquiet : w.freed = true → w.queue.awake = 0 → w.queue.parked = 0 → queue.awake = 0 ∧ queue.parked = 0) :
      Steps w { w with queue }
  | looks (hawake : 0 < w.queue.awake) : Steps w { w with queue := w.queue.look, sessions := w.sessions ++ w.next }
  | revokes (hopen : w.freed = false) : Steps w { w with revoked := true, held := [] }
  | lapses (handle : Nat) : Steps w { w with held := w.held.filter fun c => c.handle ≠ handle }
  | drops (i : Nat) (caller : Caller) (sessions : List Caller) (hpick : pick w.sessions i = some (caller, sessions)) :
      Steps w (release { w with sessions } caller)
  | frees (hawake : w.queue.awake = 0) (hparked : w.queue.parked = 0) : Steps w { w with freed := true }
  | goesOut (hfreed : w.freed = true) (hdone : w.accepting = .done) (hshakes : w.shakes = []) (hleft : w.left = none) :
      Steps w { w with left := some w.queue.items }
  | spills (connection caller : Nat) (rest : List Finished) (hleft : w.left = some (⟨connection, .session caller⟩ :: rest)) :
      Steps w (release { w with left := some rest } ⟨connection, caller⟩)
  | leaves (finished : Finished) (rest : List Finished) (hleft : w.left = some (finished :: rest))
      (hnone : finished.callers = []) : Steps w { w with left := some rest }

variable {w w' : World}

theorem look_handed (q : Handing Finished) : q.look.handed = q.handed := by
  unfold Handing.look
  split
  · rfl
  · split
    · rfl
    · rfl

theorem steps_of_step {a : Action} (hs : w.step a = some w') : Steps w w' := by
  cases a with
  | knock =>
    simp only [step] at hs
    split at hs
    · rename_i hwaiting
      cases hs
      exact .accepts _ hwaiting
    · cases hs
  | spawn failure =>
    simp only [step] at hs
    split at hs
    · rename_i haccepted
      split at hs
      · cases hs
        exact .starts haccepted
      · cases hs
        exact .unstarted _ haccepted
    · cases hs
  | prove i caller =>
    simp only [step] at hs
    split at hs
    · rename_i connection shakes hpick
      split at hs
      · cases hs
        exact .goes i _ (.proven connection 0) shakes hpick rfl rfl rfl
      · rename_i hsome
        split at hs
        · rename_i hheld
          cases hs
          exact .proves i connection caller shakes hpick hsome hheld.1 hheld.2.2
        · cases hs
    · cases hs
  | refuse i said =>
    simp only [step] at hs
    split at hs
    · rename_i hpick
      cases hs
      exact .goes i _ _ _ hpick rfl rfl rfl
    · cases hs
  | fail i said =>
    simp only [step] at hs
    split at hs
    · rename_i hpick
      cases hs
      exact .goes i _ _ _ hpick rfl rfl rfl
    · cases hs
  | ready i failure =>
    simp only [step] at hs
    split at hs
    · rename_i connection caller shakes hpick
      split at hs
      · cases hs
        exact .goes i _ (.handing ⟨connection, .session caller⟩) shakes hpick rfl (List.append_nil _) rfl
      · rename_i said
        cases hs
        exact .unready i connection caller said shakes hpick
    · cases hs
  | hand i =>
    simp only [step] at hs
    split at hs
    · rename_i finished shakes hpick
      cases hs
      exact .hands i finished shakes hpick
    · cases hs
  | wake =>
    simp only [step] at hs
    split at hs
    · rename_i hwaking
      cases hs
      refine .waits .wake _ (if_pos hwaking) rfl rfl fun _ hawake hparked => ?_
      simp [Handing.wake, hawake, hparked]
    · cases hs
  | accept =>
    simp only [step] at hs
    split at hs
    · cases hs
    · rename_i hopen
      cases hs
      exact .waits .enter _ rfl rfl rfl fun hfreed => absurd hfreed hopen
  | look =>
    simp only [step] at hs
    split at hs
    · rename_i hawake
      cases hs
      exact .looks hawake
    · cases hs
  | stirs =>
    obtain ⟨queue, hqueue, rfl⟩ := Option.map_eq_some_iff.1 hs
    have hbefore := hqueue
    simp only [Handing.step] at hqueue
    split at hqueue
    · rename_i hstirs
      cases hqueue
      exact .waits .stirs _ hbefore rfl rfl fun _ _ hparked => absurd hparked (Nat.pos_iff_ne_zero.1 hstirs)
    · cases hqueue
  | revoke =>
    simp only [step] at hs
    split at hs
    · cases hs
    · rename_i hopen
      cases hs
      exact .revokes (Bool.eq_false_iff.2 hopen)
  | close =>
    simp only [step] at hs
    split at hs
    · cases hs
    · cases hs
      exact .waits .close _ rfl rfl rfl fun _ hawake hparked => ⟨hawake, hparked⟩
  | wakeAll =>
    obtain ⟨queue, hqueue, rfl⟩ := Option.map_eq_some_iff.1 hs
    have hbefore := hqueue
    simp only [Handing.step] at hqueue
    split at hqueue
    · cases hqueue
      refine .waits .wakeAll _ hbefore rfl rfl fun _ hawake hparked => ⟨?_, rfl⟩
      show w.queue.awake + w.queue.parked = 0
      omega
    · cases hqueue
  | lapse handle =>
    cases hs
    exact .lapses handle
  | drop i =>
    simp only [step] at hs
    split at hs
    · rename_i caller sessions hpick
      cases hs
      exact .drops i caller sessions hpick
    · cases hs
  | free =>
    simp only [step] at hs
    split at hs
    · rename_i hstopped
      cases hs
      exact .frees hstopped.2.2.2.1 hstopped.2.2.2.2
    · cases hs
  | gone =>
    simp only [step] at hs
    split at hs
    · rename_i hgone
      cases hs
      exact .goesOut hgone.1 hgone.2.1 hgone.2.2.1 hgone.2.2.2.2
    · cases hs
  | spill =>
    simp only [step] at hs
    split at hs
    · rename_i connection caller rest hleft
      cases hs
      exact .spills connection caller rest hleft
    · rename_i finished rest hnone hleft
      cases hs
      refine .leaves finished rest hleft ?_
      obtain ⟨connection, came⟩ := finished
      cases came with
      | session caller => exact absurd rfl (hnone connection caller)
      | refused said => rfl
      | failed said => rfl
    · cases hs

/-! ### Connections -/

/-- The connections whose handshakes are under way, and those handed over. -/
def taken (w : World) : List Nat := w.shakes.map Shake.connection ++ w.queue.handed.map Finished.connection

theorem taken_of_goes {i : Nat} {shake : Shake} {shakes : List Shake} (hpick : pick w.shakes i = some (shake, shakes))
    (shake' : Shake) (hconnection : shake'.connection = shake.connection) :
    ((shakes ++ [shake']).map Shake.connection ++ w.queue.handed.map Finished.connection).Perm w.taken := by
  refine List.Perm.append_right _ ?_
  rw [List.map_append, List.map_singleton]
  refine List.perm_append_comm.trans ?_
  exact map_becomes hpick hconnection

theorem taken_perm_of_steps (hs : Steps w w') (h : w.taken.Perm (List.range w.connections)) :
    w'.taken.Perm (List.range w'.connections) := by
  have hbefore := h
  unfold taken at h ⊢
  cases hs with
  | starts =>
    rw [List.range_succ, List.map_append, List.append_assoc]
    refine List.Perm.trans ?_ (h.append_right _)
    rw [List.append_assoc]
    exact (List.perm_append_comm).append_left _
  | unstarted said =>
    rw [List.range_succ]
    show (_ ++ (w.queue.handed ++ [(⟨w.connections, .failed said⟩ : Finished)]).map Finished.connection).Perm _
    rw [List.map_append, ← List.append_assoc]
    exact h.append_right _
  | goes i shake shake' shakes hpick hconnection => exact (taken_of_goes hpick shake' hconnection).trans hbefore
  | proves i connection caller shakes hpick =>
    exact (taken_of_goes hpick (.proven connection caller) rfl).trans hbefore
  | unready i connection caller failure shakes hpick =>
    exact (taken_of_goes hpick (.handing ⟨connection, .failed failure⟩) rfl).trans hbefore
  | hands i finished shakes hpick =>
    refine List.Perm.trans ?_ h
    show (shakes.map Shake.connection ++ (w.queue.handed ++ [finished]).map Finished.connection).Perm _
    rw [List.map_append, ← List.append_assoc]
    refine List.perm_append_comm.trans ?_
    show (finished.connection :: (shakes.map Shake.connection ++ _)).Perm _
    exact ((pick_perm hpick).map Shake.connection).append_right _
  | waits a queue hqueue hitems hhanded =>
    rw [hhanded]
    exact h
  | looks hawake =>
    rw [look_handed]
    exact h
  | _ => exact h

/-! ### Callers -/

/-- What waits for an accept, or was left as the queue went. -/
def unaccepted (w : World) : List Finished := w.left.getD w.queue.items

/-- The callers of handshakes under way, of sessions handed over and not taken, and of the sessions the host has. -/
def heldBy (w : World) : List Caller :=
  w.shakes.flatMap Shake.callers ++ w.unaccepted.flatMap Finished.callers ++ w.sessions.flatMap callers

/-- Nobody is at the queue of a listener that was dropped, and no thread has one that is gone. -/
structure Ends (w : World) : Prop where
  quiet : w.freed = true → w.queue.awake = 0 ∧ w.queue.parked = 0
  gone : w.left ≠ none → w.freed = true ∧ w.accepting = .done ∧ w.shakes = []

theorem Ends.of_steps (hs : Steps w w') (h : w.Ends) : w'.Ends := by
  have hpicked {i : Nat} {shake : Shake} {shakes : List Shake} (hpick : pick w.shakes i = some (shake, shakes))
      (hleft : w.left ≠ none) : False := by
    have hmem := mem_of_pick hpick
    rw [(h.gone hleft).2.2] at hmem
    cases hmem
  cases hs with
  | accepts accepting hwaiting =>
    refine ⟨h.quiet, fun hleft => ?_⟩
    have hdone := (h.gone hleft).2.1
    rw [hwaiting] at hdone
    cases hdone
  | starts haccepted =>
    refine ⟨h.quiet, fun hleft => ?_⟩
    have hdone := (h.gone hleft).2.1
    rw [haccepted] at hdone
    cases hdone
  | unstarted said haccepted =>
    refine ⟨h.quiet, fun hleft => ?_⟩
    have hdone := (h.gone hleft).2.1
    rw [haccepted] at hdone
    cases hdone
  | goes i shake shake' shakes hpick => exact ⟨h.quiet, fun hleft => (hpicked hpick hleft).elim⟩
  | proves i connection caller shakes hpick => exact ⟨h.quiet, fun hleft => (hpicked hpick hleft).elim⟩
  | unready i connection caller failure shakes hpick => exact ⟨h.quiet, fun hleft => (hpicked hpick hleft).elim⟩
  | hands i finished shakes hpick => exact ⟨h.quiet, fun hleft => (hpicked hpick hleft).elim⟩
  | waits a queue hqueue hitems hhanded hquiet =>
    exact ⟨fun hfreed => hquiet hfreed (h.quiet hfreed).1 (h.quiet hfreed).2, h.gone⟩
  | looks hawake =>
    have hopen : w.freed ≠ true := fun hfreed => absurd (h.quiet hfreed).1 (Nat.pos_iff_ne_zero.1 hawake)
    exact ⟨fun hfreed => absurd hfreed hopen, fun hleft => absurd (h.gone hleft).1 hopen⟩
  | revokes hopen => exact ⟨h.quiet, h.gone⟩
  | lapses handle => exact ⟨h.quiet, h.gone⟩
  | drops i caller sessions hpick => exact ⟨h.quiet, h.gone⟩
  | frees hawake hparked => exact ⟨fun _ => ⟨hawake, hparked⟩, fun hleft => ⟨rfl, (h.gone hleft).2⟩⟩
  | goesOut hfreed hdone hshakes hleft => exact ⟨h.quiet, fun _ => ⟨hfreed, hdone, hshakes⟩⟩
  | spills connection caller rest hleft => exact ⟨h.quiet, fun _ => h.gone (by rw [hleft]; simp)⟩
  | leaves finished rest hleft => exact ⟨h.quiet, fun _ => h.gone (by rw [hleft]; simp)⟩

/-- What a step does to the callers: it keeps them where they are, though fewer may be held, it holds one more, or it lets
go of one. -/
inductive Moves (w w' : World) : Prop where
  | keeps (hby : w'.heldBy.Perm w.heldBy) (hheld : w'.held.Sublist w.held) (hgiven : w'.given = w.given)
      (hreleased : w'.released = w.released) (hrevoked : w'.revoked = w.revoked ∨ w'.held = [])
  | holds (caller : Caller) (hby : w'.heldBy.Perm (caller :: w.heldBy)) (hopen : w.revoked = false)
      (hdrawn : caller.handle ∉ w.held.map Caller.handle) (hheld : w'.held = w.held ++ [caller])
      (hgiven : w'.given = w.given ++ [caller]) (hreleased : w'.released = w.released) (hrevoked : w'.revoked = w.revoked)
  | lets (caller : Caller) (hby : (callers caller ++ w'.heldBy).Perm w.heldBy)
      (hheld : w'.held = w.held.filter fun c => c.handle ≠ caller.handle) (hgiven : w'.given = w.given)
      (hreleased : w'.released = w.released ++ callers caller) (hrevoked : w'.revoked = w.revoked)

/-- A step that holds no caller and lets go of none. -/
theorem Moves.of_perm (hby : w'.heldBy.Perm w.heldBy) (hheld : w'.held = w.held) (hgiven : w'.given = w.given)
    (hreleased : w'.released = w.released) (hrevoked : w'.revoked = w.revoked) : Moves w w' :=
  .keeps hby (by rw [hheld]) hgiven hreleased (.inl hrevoked)

/-- One handshake goes on as another, with its caller, or without. -/
theorem flatMap_goes (before after : List Caller) {i : Nat} {shake shake' : Shake} {shakes : List Shake}
    (hpick : pick w.shakes i = some (shake, shakes)) (hcallers : (before ++ shake'.callers).Perm (after ++ shake.callers)) :
    (before ++ (shakes ++ [shake']).flatMap Shake.callers).Perm (after ++ w.shakes.flatMap Shake.callers) := by
  have hall := (pick_perm hpick).flatMap_right Shake.callers
  rw [List.flatMap_cons] at hall
  rw [List.flatMap_append, List.flatMap_singleton]
  refine List.Perm.trans ?_ (hall.append_left after)
  refine (List.perm_append_comm.append_left before).trans ?_
  rw [← List.append_assoc, ← List.append_assoc]
  exact hcallers.append_right _

/-- What is put waits. -/
theorem heldBy_put {finished : Finished} (hleft : w.left = none) {shakes : List Shake} {accepting : Accepting}
    {connections : Nat} (hby : (shakes.flatMap Shake.callers ++ finished.callers).Perm (w.shakes.flatMap Shake.callers)) :
    (heldBy { w with accepting, connections, shakes, queue := w.queue.put finished }).Perm w.heldBy := by
  unfold heldBy unaccepted
  rw [hleft]
  refine List.Perm.append_right _ ?_
  show (shakes.flatMap Shake.callers ++ (w.queue.items ++ [finished]).flatMap Finished.callers).Perm
    (w.shakes.flatMap Shake.callers ++ w.queue.items.flatMap Finished.callers)
  rw [List.flatMap_append, List.flatMap_singleton]
  refine List.Perm.trans ?_ (hby.append_right _)
  rw [List.append_assoc]
  exact List.perm_append_comm.append_left _

/-- A look hands over the session of the first, and leaves the rest. -/
theorem next_look (w : World) :
    (w.queue.look.items.flatMap Finished.callers ++ w.next.flatMap callers).Perm (w.queue.items.flatMap Finished.callers) := by
  unfold next Handing.look
  split
  · rw [List.flatMap_nil, List.append_nil]
  · split
    · rename_i hnone
      rw [hnone]
      exact List.Perm.refl _
    · rename_i finished items hitems
      rw [hitems, List.flatMap_cons]
      exact List.perm_append_comm

theorem moves_of_steps (hs : Steps w w') (h : w.Ends) : Moves w w' := by
  have hstays (hnot : w.left ≠ none → False) : w.left = none := Classical.byContradiction hnot
  cases hs with
  | accepts accepting => exact .of_perm (List.Perm.refl _) rfl rfl rfl rfl
  | starts haccepted =>
    refine .of_perm ?_ rfl rfl rfl rfl
    unfold heldBy unaccepted
    rw [List.flatMap_append, List.flatMap_singleton]
    exact ((List.Perm.of_eq (List.append_nil _)).append_right _).append_right _
  | unstarted said haccepted =>
    refine .of_perm (heldBy_put (hstays fun hleft => ?_) (List.Perm.of_eq (List.append_nil _))) rfl rfl rfl rfl
    have hdone := (h.gone hleft).2.1
    rw [haccepted] at hdone
    cases hdone
  | goes i shake shake' shakes hpick hconnection hcallers =>
    refine .of_perm ((List.Perm.append_right _ ?_).append_right _) rfl rfl rfl rfl
    exact flatMap_goes [] [] hpick (List.Perm.of_eq hcallers)
  | proves i connection caller shakes hpick hsome hopen hdrawn =>
    refine .holds ⟨connection, caller⟩ ?_ hopen hdrawn rfl rfl rfl rfl
    have hone : [] ++ (Shake.proven connection caller).callers = [⟨connection, caller⟩] ++ (Shake.shaking connection).callers :=
      if_neg hsome
    have hgoes := flatMap_goes [] [⟨connection, caller⟩] hpick (List.Perm.of_eq hone)
    exact (hgoes.append_right (w.unaccepted.flatMap Finished.callers)).append_right (w.sessions.flatMap callers)
  | unready i connection caller failure shakes hpick =>
    refine .lets ⟨connection, caller⟩ ?_ rfl rfl rfl rfl
    unfold heldBy
    rw [← List.append_assoc, ← List.append_assoc]
    refine (List.Perm.append_right _ ?_).append_right _
    exact flatMap_goes _ [] hpick (List.Perm.of_eq (List.append_nil _))
  | hands i finished shakes hpick =>
    refine .of_perm (heldBy_put (hstays fun hleft => ?_) ?_) rfl rfl rfl rfl
    · have hmem := mem_of_pick hpick
      rw [(h.gone hleft).2.2] at hmem
      cases hmem
    · exact List.perm_append_comm.trans ((pick_perm hpick).flatMap_right Shake.callers)
  | waits a queue hqueue hitems =>
    refine .of_perm (List.Perm.of_eq ?_) rfl rfl rfl rfl
    unfold heldBy unaccepted
    rw [hitems]
  | looks hawake =>
    have hleft : w.left = none := hstays fun hleft =>
      absurd (h.quiet (h.gone hleft).1).1 (Nat.pos_iff_ne_zero.1 hawake)
    refine .of_perm ?_ rfl rfl rfl rfl
    unfold heldBy unaccepted
    rw [hleft, List.flatMap_append, List.append_assoc, List.append_assoc]
    refine List.Perm.append_left _ ?_
    refine (List.perm_append_comm.append_left _).trans ?_
    rw [← List.append_assoc]
    exact (next_look w).append_right _
  | revokes => exact .keeps (List.Perm.refl _) (List.nil_sublist _) rfl rfl (.inr rfl)
  | lapses handle => exact .keeps (List.Perm.refl _) List.filter_sublist rfl rfl (.inl rfl)
  | drops i caller sessions hpick =>
    refine .lets caller ?_ rfl rfl rfl rfl
    have hall := (pick_perm hpick).flatMap_right callers
    rw [List.flatMap_cons] at hall
    refine List.Perm.trans ?_ (hall.append_left _)
    show (callers caller ++ (w.shakes.flatMap Shake.callers ++ w.unaccepted.flatMap Finished.callers ++
      sessions.flatMap callers)).Perm _
    rw [← List.append_assoc, ← List.append_assoc _ (callers caller)]
    exact List.perm_append_comm.append_right _
  | frees => exact .of_perm (List.Perm.refl _) rfl rfl rfl rfl
  | goesOut hfreed hdone hshakes hleft =>
    refine .of_perm (List.Perm.of_eq ?_) rfl rfl rfl rfl
    unfold heldBy unaccepted
    rw [hleft]
    rfl
  | spills connection caller rest hleft =>
    refine .lets ⟨connection, caller⟩ ?_ rfl rfl rfl rfl
    unfold heldBy unaccepted
    rw [hleft, ← List.append_assoc, ← List.append_assoc]
    refine List.Perm.append_right _ ?_
    refine (List.perm_append_comm.append_right _).trans ?_
    rw [List.append_assoc]
    refine List.Perm.of_eq (congrArg _ ?_)
    show callers ⟨connection, caller⟩ ++ rest.flatMap Finished.callers =
      (callers ⟨connection, caller⟩ ++ []) ++ rest.flatMap Finished.callers
    rw [List.append_nil]
  | leaves finished rest hleft hnone =>
    refine .of_perm (List.Perm.of_eq ?_) rfl rfl rfl rfl
    unfold heldBy unaccepted
    rw [hleft]
    show _ ++ rest.flatMap Finished.callers ++ _ = _ ++ (finished :: rest).flatMap Finished.callers ++ _
    rw [List.flatMap_cons, hnone, List.nil_append]

/-- The callers held are each under a handle of its own and with one that bears it; those borne or let go of are those
that were held; and once revoked none is held. -/
structure Accounts (w : World) : Prop where
  apart : (w.held.map Caller.handle).Nodup
  account : (w.heldBy ++ w.released).Perm w.given
  borne : ∀ c ∈ w.held, c ∈ w.heldBy
  revoked : w.revoked = true → w.held = []

theorem mem_callers {c caller : Caller} (h : c ∈ callers caller) : c = caller := by
  unfold callers at h
  split at h
  · cases h
  · exact List.mem_singleton.1 h

theorem Accounts.of_moves (hs : Moves w w') (h : w.Accounts) : w'.Accounts := by
  cases hs with
  | keeps hby hheld hgiven hreleased hrevoked =>
    refine ⟨h.apart.sublist (hheld.map _), ?_, fun c hc => hby.mem_iff.2 (h.borne c (hheld.subset hc)), fun hgone => ?_⟩
    · rw [hgiven, hreleased]
      exact (hby.append_right _).trans h.account
    · rcases hrevoked with hsame | hnone
      · have hbefore := h.revoked (hsame ▸ hgone)
        rw [hbefore] at hheld
        exact List.sublist_nil.1 hheld
      · exact hnone
  | holds caller hby hopen hdrawn hheld hgiven hreleased hrevoked =>
    refine ⟨?_, ?_, fun c hc => hby.mem_iff.2 ?_, fun hgone => ?_⟩
    · rw [hheld, List.map_append, List.map_singleton]
      refine List.nodup_append'.2 ⟨h.apart, List.nodup_singleton _, fun n hn hn' => hdrawn ?_⟩
      rw [← List.mem_singleton.1 hn']
      exact hn
    · rw [hgiven, hreleased]
      refine (hby.append_right _).trans ?_
      exact (h.account.cons caller).trans (List.perm_append_singleton caller w.given).symm
    · rw [hheld] at hc
      rcases List.mem_append.1 hc with hold | hnew
      · exact List.mem_cons_of_mem _ (h.borne c hold)
      · rw [List.mem_singleton.1 hnew]
        exact List.mem_cons_self
    · rw [hrevoked, hopen] at hgone
      cases hgone
  | lets caller hby hheld hgiven hreleased hrevoked =>
    refine ⟨?_, ?_, fun c hc => ?_, fun hgone => ?_⟩
    · rw [hheld]
      exact h.apart.sublist (List.filter_sublist.map _)
    · rw [hgiven, hreleased]
      refine List.Perm.trans ?_ h.account
      refine List.Perm.trans ?_ (hby.append_right _)
      rw [List.append_assoc]
      refine List.Perm.trans ?_ List.perm_append_comm
      rw [List.append_assoc]
    · rw [hheld, List.mem_filter, decide_eq_true_eq] at hc
      rcases List.mem_append.1 (hby.mem_iff.2 (h.borne c hc.1)) with hown | hstill
      · exact absurd (congrArg Caller.handle (mem_callers hown)) hc.2
      · exact hstill
    · rw [hheld, h.revoked (hrevoked ▸ hgone)]
      rfl

/-- A connection's caller is held as its handshake is made, and no earlier. -/
def Once (w : World) : Prop :=
  ∀ k, (w.given.map Caller.connection).count k + (w.shakes.filterMap Shake.unmade).count k ≤
    (List.range w.connections).count k

theorem Once.of_made {i : Nat} {shake : Shake} {shakes : List Shake} (hpick : pick w.shakes i = some (shake, shakes))
    (shake' : Shake) (hmade : shake'.unmade = none) (k : Nat) :
    ((shakes ++ [shake']).filterMap Shake.unmade).count k + shake.unmade.toList.count k =
      (w.shakes.filterMap Shake.unmade).count k := by
  rw [← (filterMap_of_pick Shake.unmade hpick).count_eq, filterMap_snoc, hmade, List.count_append, List.count_append,
    Option.toList_none, List.count_nil, Nat.add_zero]

theorem Once.of_steps (hs : Steps w w') (h : w.Once) : w'.Once := by
  intro k
  have hbefore := h k
  cases hs with
  | starts =>
    have hone : (Shake.shaking w.connections).unmade.toList = [w.connections] := rfl
    rw [filterMap_snoc, hone, List.range_succ, List.count_append, List.count_append]
    show (w.given.map Caller.connection).count k + _ ≤ _
    omega
  | unstarted said =>
    rw [List.range_succ, List.count_append]
    show (w.given.map Caller.connection).count k + (w.shakes.filterMap Shake.unmade).count k ≤ _
    omega
  | goes i shake shake' shakes hpick hconnection hcallers hmade =>
    have hmade := Once.of_made hpick shake' hmade k
    show (w.given.map Caller.connection).count k + ((shakes ++ [shake']).filterMap Shake.unmade).count k ≤
      (List.range w.connections).count k
    omega
  | proves i connection caller shakes hpick =>
    have hmade := Once.of_made hpick (.proven connection caller) rfl k
    have hone : (Shake.shaking connection).unmade.toList = [connection] := rfl
    rw [hone] at hmade
    show ((w.given ++ [(⟨connection, caller⟩ : Caller)]).map Caller.connection).count k +
      ((shakes ++ [Shake.proven connection caller]).filterMap Shake.unmade).count k ≤ (List.range w.connections).count k
    have hconnection : [(⟨connection, caller⟩ : Caller)].map Caller.connection = [connection] := rfl
    rw [List.map_append, hconnection, List.count_append]
    omega
  | unready i connection caller failure shakes hpick =>
    have hmade := Once.of_made hpick (.handing ⟨connection, .failed failure⟩) rfl k
    show (w.given.map Caller.connection).count k +
      ((shakes ++ [Shake.handing ⟨connection, .failed failure⟩]).filterMap Shake.unmade).count k ≤
        (List.range w.connections).count k
    omega
  | hands i finished shakes hpick =>
    have hpicked := (filterMap_of_pick Shake.unmade hpick).count_eq k
    rw [List.count_append] at hpicked
    show (w.given.map Caller.connection).count k + (shakes.filterMap Shake.unmade).count k ≤
      (List.range w.connections).count k
    omega
  | _ => exact hbefore

/-! ### Results -/

theorem queue_of_steps (hs : Steps w w') (h : w.queue.Kept) : w'.queue.Kept := by
  cases hs with
  | unstarted said => exact h.put _
  | hands i finished shakes hpick => exact h.put _
  | waits a queue hqueue => exact h.step hqueue
  | looks hawake => exact h.look hawake
  | _ => exact h

/-- Over every run of a listener: each connection it accepted has its handshake under way or was handed over, once, what it
came to and whichever order the handshakes finished in; the accepts took what was handed over, in its order, and the rest
waits for one; while the listener is open no accept sleeps by a handshake nobody is about to take; and once it is stopped
every accept that sleeps is about to be woken. -/
theorem handed_once (h : Reach step Always Begins w) :
    w.taken.Perm (List.range w.connections) ∧ w.queue.Kept := by
  refine @Reach.invariant _ _ _ _ _ (fun w => w.taken.Perm (List.range w.connections) ∧ w.queue.Kept) ?_ ?_ _ h
  · rintro w rfl
    exact ⟨List.Perm.refl _, .empty⟩
  · intro w a w' hkept _ hs
    exact ⟨taken_perm_of_steps (steps_of_step hs) hkept.1, queue_of_steps (steps_of_step hs) hkept.2⟩

/-- Two connections, the second handed over first, to an accept that slept; a stop with the first not yet taken. -/
theorem handed_once_overtaken : ∃ w, Reach step Always Begins w ∧ w.connections = 2 ∧
    w.queue.taken = [⟨1, .session 7⟩] ∧ w.queue.items = [⟨0, .refused "no anchor"⟩] ∧
    w.taken.Perm (List.range w.connections) ∧ w.queue.Kept := by
  obtain ⟨w, hreach, hw⟩ := Reach.exists_of_runWhere step Always (show Begins _ from rfl)
    [.knock, .spawn none, .knock, .spawn none, .accept, .look, .prove 1 7, .ready 1 none, .hand 1, .wake, .look,
      .refuse 0 "no anchor", .hand 0, .accept, .revoke, .close, .wakeAll, .look, .knock]
    (fun w => decide (w.connections = 2 ∧ w.queue.taken = [⟨1, .session 7⟩] ∧
      w.queue.items = [⟨0, .refused "no anchor"⟩])) (by decide +kernel)
  obtain ⟨hconnections, htaken, hitems⟩ := of_decide_eq_true hw
  exact ⟨w, hreach, hconnections, htaken, hitems, handed_once hreach⟩

/-- Over every run of a listener: no two of the callers held are under one handle; a connection's caller is held once at
most, and each that was held is with one handshake, one session waiting to be accepted or left in the queue, or one
session the host has, or was let go of, once; what is held is with one of them; and once the listener was stopped nothing
is held. -/
theorem callers_accounted (h : Reach step Always Begins w) :
    (w.held.map Caller.handle).Nodup ∧ (w.given.map Caller.connection).Nodup ∧ (w.heldBy ++ w.released).Perm w.given ∧
      (∀ c ∈ w.held, c ∈ w.heldBy) ∧ (w.revoked = true → w.held = []) := by
  have hinv : w.Ends ∧ w.Accounts ∧ w.Once := by
    refine @Reach.invariant _ _ _ _ _ (fun w => w.Ends ∧ w.Accounts ∧ w.Once) ?_ (fun w a w' hinv _ hs => ?_) _ h
    · rintro w rfl
      exact ⟨⟨fun hfreed => (nomatch hfreed), fun hleft => absurd rfl hleft⟩,
        ⟨List.nodup_nil, List.Perm.refl _, fun c hc => (nomatch hc), fun _ => rfl⟩, fun k => Nat.le_refl _⟩
    · have hsteps := steps_of_step hs
      exact ⟨hinv.1.of_steps hsteps, hinv.2.1.of_moves (moves_of_steps hsteps hinv.1), hinv.2.2.of_steps hsteps⟩
  obtain ⟨-, haccounts, honce⟩ := hinv
  refine ⟨haccounts.apart, List.nodup_iff_count_le_one.2 fun k => ?_, haccounts.account, haccounts.borne,
    haccounts.revoked⟩
  have hall := List.nodup_iff_count_le_one.1 (List.nodup_range (n := w.connections)) k
  have hbefore := honce k
  omega

/-- A session dropped after its caller's time had passed, its handle drawn for another; one that could not be made ready;
the host's; and one left in the queue as the listener is dropped, with one that was refused. -/
theorem callers_accounted_dropped : ∃ w, Reach step Always Begins w ∧ w.given = [⟨0, 7⟩, ⟨1, 8⟩, ⟨2, 7⟩, ⟨3, 9⟩] ∧
    w.released = [⟨1, 8⟩, ⟨0, 7⟩, ⟨3, 9⟩] ∧ w.heldBy = [⟨2, 7⟩] ∧ (w.held.map Caller.handle).Nodup ∧
    (w.given.map Caller.connection).Nodup ∧ (w.heldBy ++ w.released).Perm w.given ∧ (∀ c ∈ w.held, c ∈ w.heldBy) ∧
    (w.revoked = true → w.held = []) := by
  obtain ⟨w, hreach, hw⟩ := Reach.exists_of_runWhere step Always (show Begins _ from rfl)
    [.knock, .spawn none, .knock, .spawn none, .knock, .spawn none, .knock, .spawn none, .knock, .spawn none,
      .prove 0 7, .lapse 7, .prove 0 8, .prove 0 7, .prove 0 9, .refuse 0 "no anchor",
      .ready 1 (some "holding the socket: gone"), .ready 0 none, .ready 0 none, .ready 0 none,
      .hand 1, .hand 1, .hand 1, .hand 1, .hand 0, .wake, .wake, .wake, .wake, .wake,
      .accept, .accept, .accept, .look, .look, .look, .drop 0, .revoke, .close, .wakeAll, .knock, .free, .gone,
      .spill, .spill]
    (fun w => decide (w.given = [⟨0, 7⟩, ⟨1, 8⟩, ⟨2, 7⟩, ⟨3, 9⟩] ∧ w.released = [⟨1, 8⟩, ⟨0, 7⟩, ⟨3, 9⟩] ∧
      w.heldBy = [⟨2, 7⟩])) (by decide +kernel)
  obtain ⟨hgiven, hreleased, hheld⟩ := of_decide_eq_true hw
  exact ⟨w, hreach, hgiven, hreleased, hheld, callers_accounted hreach⟩

end World

end Secure
