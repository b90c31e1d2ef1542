import XmipRuntime.Plane.Acting

/-!
# Nothing done before it is audited

Over every run of calls beside every run of the relays, what a call led to and what it is answered follow, as `Course`
lists, from what it asked and from the relays and the clock as it was decided.  A deed is done at most once, after one
record of it, for a proven caller whose role may act, and is the very deed the call asked for; the program is told of an
order once it was taken, and of nothing else; and a call refused leads to the record of that refusal at most.
-/

namespace Acting

open Library Plane Relaying

/-- A role by its number. -/
def number : Role → Nat
  | .observer => 0
  | .operator => 1
  | .developer => 2

/-- `authorize::plane` admits a proven caller whose role is the least that may or more, and nobody else. -/
def Admits (serve : Serve) : Prop :=
  ∀ who role least, serve.admits who role least = true → who.isSome = true ∧ number least ≤ number role

variable {α κ χ π : Type} (c : Settings χ π) (serve : Serve) (words : Words α) (secrets : Secrets κ)

section Calls

variable (connection : Connection) (request : Request Message) (n : Node) (now : Int)

/-- A call admitted to do `deed` as `asker`, decided by the relays `n` at `now`: carried out as a proven caller, whose role
may act, and the deed is what its message asks. -/
structure Admitted (asker : Asker) (deed : Deed α) : Prop where
  carried : ∃ identity message vouched,
    Node.called c serve n.vouched connection request now = (.carried identity asker.through message, vouched) ∧
    identity.verified.isProven = true ∧ asker.who = identity.value ∧
    words.deed request.method message asker.who = some (.ok deed)
  role : number .operator ≤ number serve.role

/-- A call refused as it was decided, by what it is answered and what it led to: there is nobody it may act as; the one it
acts as may not by its role, which is recorded; its message does not read; or it asks what no noun takes. -/
inductive Refused : Said → List (Event α) → Prop where
  | unheld (refused : String) (hacting : (Node.acting c n.vouched connection request.caller now).1 = .error refused) :
      Refused (answeredRefused request.method refused) []
  | role (identity : AuthenticatedIdentity) (through : Option String) (refused : String)
      (hacting : (Node.acting c n.vouched connection request.caller now).1 = .ok (identity, through))
      (hrole : serve.admitted identity request.method = .error refused) :
      Refused (answeredRefused request.method refused)
        [.recorded (record serve.role ⟨identity.value, through⟩ (word request.method, "") (some refused))]
  | unread (why : String) (vouched : Table Nat Vouched)
      (hcalled : Node.called c serve n.vouched connection request now = (.invalid why, vouched)) :
      Refused (.refusal "INVALID_ARGUMENT" why) []
  | invalid (identity : AuthenticatedIdentity) (through : Option String) (message : Message) (said : String)
      (vouched : Table Nat Vouched)
      (hcalled : Node.called c serve n.vouched connection request now = (.carried identity through message, vouched))
      (hdeed : words.deed request.method message identity.value = some (.error said)) :
      Refused (.outcome "invalid" said) []

/-- What a call that was decided led to, by where it is and what it is answered. -/
inductive Course : Stage α → List (Event α) → Prop where
  | refused (said : Said) (events : List (Event α)) (hrefused : Refused c serve words connection request n now said events) :
      Course (.answered said) events
  | reading (identity : AuthenticatedIdentity) (through : Option String) (message : Message) (vouched : Table Nat Vouched)
      (hcalled : Node.called c serve n.vouched connection request now = (.carried identity through message, vouched))
      (hdeed : words.deed request.method message identity.value = none) : Course (.reading message) []
  | admitted (asker : Asker) (deed : Deed α) (hadmitted : Admitted c serve words connection request n now asker deed) :
      Course (.admitted asker deed) []
  | recorded (asker : Asker) (deed : Deed α) (hadmitted : Admitted c serve words connection request n now asker deed) :
      Course (.recorded asker deed) [.recorded (record serve.role asker (words.asked deed) none)]
  | taken (asker : Asker) (order : Order α) (said : String)
      (hadmitted : Admitted c serve words connection request n now asker (.order order)) :
      Course (.taken asker (.order order) said)
        [.recorded (record serve.role asker (words.asked (.order order)) none), .done (.order order) (.taken said)]
  | done (asker : Asker) (deed : Deed α) (applied : Applied)
      (hadmitted : Admitted c serve words connection request n now asker deed)
      (huntold : ∀ order said, deed = .order order → applied ≠ .taken said) :
      Course (.answered applied.outcome)
        [.recorded (record serve.role asker (words.asked deed) none), .done deed applied]
  | told (asker : Asker) (order : Order α) (said : String)
      (hadmitted : Admitted c serve words connection request n now asker (.order order)) :
      Course (.answered (.outcome "taken" said))
        [.recorded (record serve.role asker (words.asked (.order order)) none), .done (.order order) (.taken said), .told]

end Calls

/-- A call by what it led to: nothing before it is decided, and then what follows from the relays it was decided by, which
their own steps reach, and from the clock. -/
inductive Accounted (call : Call α) : List (Event α) → Prop where
  | called (hstage : call.stage = .called) : Accounted call []
  | decided (n : Node) (now : Int) (events : List (Event α)) (hdecision : call.decision = some (n, now))
      (hreach : Reach (Node.step c) Always Starts n)
      (hcourse : Course c serve words call.connection call.request n now call.stage events) : Accounted call events

variable {c serve words secrets} {connection : Connection} {request : Request Message} {n : Node} {now : Int}

theorem Accounted.none_of_called {call : Call α} {events : List (Event α)} (h : Accounted c serve words call events)
    (hstage : call.stage = .called) : events = [] := by
  cases h with
  | called => rfl
  | decided n now events hdecision hreach hcourse =>
    rw [hstage] at hcourse
    cases hcourse

theorem Accounted.course {call : Call α} {events : List (Event α)} (h : Accounted c serve words call events)
    (hstage : call.stage ≠ .called) : ∃ n now, call.decision = some (n, now) ∧ Reach (Node.step c) Always Starts n ∧
      Course c serve words call.connection call.request n now call.stage events := by
  cases h with
  | called hcalled => exact absurd hcalled hstage
  | decided n now events hdecision hreach hcourse => exact ⟨n, now, hdecision, hreach, hcourse⟩

theorem Course.of_admitted {asker : Asker} {deed : Deed α} {events : List (Event α)}
    (h : Course c serve words connection request n now (.admitted asker deed) events) :
    events = [] ∧ Admitted c serve words connection request n now asker deed := by
  cases h with
  | admitted asker deed hadmitted => exact ⟨rfl, hadmitted⟩

theorem Course.of_recorded {asker : Asker} {deed : Deed α} {events : List (Event α)}
    (h : Course c serve words connection request n now (.recorded asker deed) events) :
    events = [.recorded (record serve.role asker (words.asked deed) none)] ∧
      Admitted c serve words connection request n now asker deed := by
  cases h with
  | recorded asker deed hadmitted => exact ⟨rfl, hadmitted⟩

theorem Course.of_taken {asker : Asker} {deed : Deed α} {said : String} {events : List (Event α)}
    (h : Course c serve words connection request n now (.taken asker deed said) events) :
    ∃ order, deed = .order order ∧
      events = [.recorded (record serve.role asker (words.asked (.order order)) none), .done (.order order) (.taken said)] ∧
      Admitted c serve words connection request n now asker (.order order) := by
  cases h with
  | taken asker order said hadmitted => exact ⟨order, rfl, rfl, hadmitted⟩

/-- Who is admitted is proven, and its role is the least that may or more. -/
theorem proven_of_admitted (hadmits : Admits serve) {caller : AuthenticatedIdentity} {method : Method}
    (h : serve.admitted caller method = .ok ()) :
    caller.verified.isProven = true ∧ number method.role ≤ number serve.role := by
  by_cases hproven : caller.verified.isProven = true
  · simp only [Serve.admitted, hproven, if_true] at h
    split at h
    · rename_i hwho
      exact ⟨hproven, (hadmits _ _ _ hwho).2⟩
    · exact nomatch h
  · simp only [Serve.admitted, hproven, Bool.false_eq_true, if_false] at h
    split at h
    · rename_i hwho
      exact nomatch (hadmits _ _ _ hwho).1
    · exact nomatch h

/-- Only what an Operator may call asks for a deed. -/
theorem role_of_deed {method : Method} {message : Message} {who : String} {asked : Except String (Deed α)}
    (h : words.deed method message who = some asked) : method.role = .operator := by
  cases method with
  | act => rfl
  | secret => rfl
  | secrets => rfl
  | publication => exact nomatch h
  | wait => exact nomatch h

/-- A call as it is decided. -/
theorem course_decided (hadmits : Admits serve) {acting : Except String (AuthenticatedIdentity × Option String)}
    {vouched : Table Nat Vouched} (hacting : Node.acting c n.vouched connection request.caller now = (acting, vouched)) :
    Course c serve words connection request n now (decided serve words request acting).1
      (decided serve words request acting).2 := by
  have hfirst : (Node.acting c n.vouched connection request.caller now).1 = acting := by rw [hacting]
  cases acting with
  | error refused => exact .refused _ _ (.unheld refused hfirst)
  | ok acting =>
    obtain ⟨identity, through⟩ := acting
    cases hadmitted : serve.admitted identity request.method with
    | error refused =>
      simp only [decided, hadmitted]
      exact .refused _ _ (.role identity through refused hfirst hadmitted)
    | ok admitted =>
      cases hmessage : request.message with
      | error why =>
        have hcalled : Node.called c serve n.vouched connection request now = (.invalid why, vouched) := by
          simp only [Node.called, hacting, hadmitted, hmessage]
        simp only [decided, hadmitted, hmessage]
        exact .refused _ _ (.unread why vouched hcalled)
      | ok message =>
        have hcalled : Node.called c serve n.vouched connection request now = (.carried identity through message, vouched) := by
          simp only [Node.called, hacting, hadmitted, hmessage]
        cases hdeed : words.deed request.method message identity.value with
        | none =>
          simp only [decided, hadmitted, hmessage, hdeed]
          exact .reading identity through message vouched hcalled hdeed
        | some asked =>
          cases asked with
          | error said =>
            simp only [decided, hadmitted, hmessage, hdeed]
            exact .refused _ _ (.invalid identity through message said vouched hcalled hdeed)
          | ok deed =>
            simp only [decided, hadmitted, hmessage, hdeed]
            obtain ⟨hproven, hrole⟩ := proven_of_admitted hadmits hadmitted
            rw [role_of_deed hdeed] at hrole
            exact .admitted _ _ ⟨⟨identity, message, vouched, hcalled, hproven, rfl, hdeed⟩, hrole⟩

theorem course_after {asker : Asker} {deed : Deed α} (applied : Applied)
    (hadmitted : Admitted c serve words connection request n now asker deed) :
    Course c serve words connection request n now (after asker deed applied)
      ([.recorded (record serve.role asker (words.asked deed) none)] ++ [.done deed applied]) := by
  cases deed with
  | order order =>
    cases applied with
    | taken said => exact .taken asker order said hadmitted
    | refused said => exact .done asker _ _ hadmitted (by simp)
    | failed said => exact .done asker _ _ hadmitted (by simp)
  | secret node name kind value who => exact .done asker _ _ hadmitted (by simp)

namespace World

/-- What the call at `i` led to. -/
def ledTo (w : World α) (i : Nat) : List (Event α) := w.log.filterMap fun x => if x.1 = i then some x.2 else none

variable {w w' : World α}

theorem ledTo_goes (w : World α) (i j : Nat) (call : Call α) (events : List (Event α)) :
    (w.goes i call events).ledTo j = if i = j then w.ledTo j ++ events else w.ledTo j := by
  unfold ledTo goes
  rw [List.filterMap_append, List.filterMap_map]
  split
  · rename_i heq
    simp [heq]
  · rename_i hne
    simp [hne]

structure Sound (c : Settings χ π) (serve : Serve) (words : Words α) (w : World α) : Prop where
  node : Reach (Node.step c) Always Starts w.node
  log : ∀ x ∈ w.log, x.1 < w.calls.length
  calls : ∀ i call, w.calls[i]? = some call → Accounted c serve words call (w.ledTo i)

/-- A call goes on where it is then accounted for. -/
theorem Sound.goes (h : w.Sound c serve words) {i : Nat} {call call' : Call α} (hcall : w.calls[i]? = some call)
    {events : List (Event α)} (haccounted : Accounted c serve words call' (w.ledTo i ++ events)) :
    (w.goes i call' events).Sound c serve words where
  node := h.node
  log x hx := by
    show x.1 < (w.calls.set i call').length
    rw [List.length_set]
    rcases List.mem_append.1 hx with hx | hx
    · exact h.log x hx
    · obtain ⟨event, -, rfl⟩ := List.mem_map.1 hx
      exact (List.getElem?_eq_some_iff.1 hcall).1
  calls j other hother := by
    rw [ledTo_goes]
    have hset : (w.calls.set i call')[j]? = some other := hother
    by_cases heq : i = j
    · subst heq
      rw [List.getElem?_set_self (List.getElem?_eq_some_iff.1 hcall).1] at hset
      cases hset
      rw [if_pos rfl]
      exact haccounted
    · rw [List.getElem?_set_ne heq] at hset
      rw [if_neg heq]
      exact h.calls j other hset

theorem Sound.step [DecidableEq α] (hadmits : Admits serve) (h : w.Sound c serve words) {a : Action α κ}
    (hs : w.step c serve words secrets a = some w') : w'.Sound c serve words := by
  cases a with
  | node a =>
    obtain ⟨node, hnode, rfl⟩ := Option.map_eq_some_iff.1 hs
    exact ⟨h.node.next trivial hnode, h.log, h.calls⟩
  | call connection request =>
    cases hs
    refine ⟨h.node, fun x hx => ?_, fun i call hcall => ?_⟩
    · have hlt := h.log x hx
      rw [List.length_append]
      omega
    · have hnew : (w.calls ++ [⟨connection, request, .called, none⟩])[i]? = some call := hcall
      rw [List.getElem?_append] at hnew
      split at hnew
      · exact h.calls i call hnew
      · rename_i hge
        obtain ⟨hlt, hone⟩ := List.getElem?_eq_some_iff.1 hnew
        simp only [List.getElem_singleton] at hone
        subst hone
        have hnone : w.ledTo i = [] := by
          refine List.filterMap_eq_nil_iff.2 fun x hx => if_neg fun heq => ?_
          have hbelow := h.log x hx
          omega
        show Accounted c serve words _ (w.ledTo i)
        rw [hnone]
        exact .called rfl
  | decide i now =>
    simp only [World.step] at hs
    split at hs
    · rename_i connection request decision hcall
      cases hs
      have hnone := (h.calls i _ hcall).none_of_called rfl
      have hnode : Reach (Node.step c) Always Starts
          { w.node with vouched := (Node.acting c w.node.vouched connection request.caller now).2 } :=
        h.node.next (a := .call connection request.caller now) trivial rfl
      have hsound : Sound c serve words
          { w with node := { w.node with vouched := (Node.acting c w.node.vouched connection request.caller now).2 } } :=
        ⟨hnode, h.log, h.calls⟩
      refine hsound.goes hcall ?_
      show Accounted c serve words _ (w.ledTo i ++ _)
      rw [hnone]
      exact .decided w.node now _ rfl h.node (course_decided hadmits rfl)
    · cases hs
  | record i =>
    simp only [World.step] at hs
    split at hs
    · rename_i connection request asker deed decision hcall
      cases hs
      obtain ⟨n, now, hdecision, hreach, hcourse⟩ := (h.calls i _ hcall).course (by simp)
      obtain ⟨hnone, hadmitted⟩ := hcourse.of_admitted
      refine h.goes hcall ?_
      rw [hnone]
      exact .decided n now _ hdecision hreach (.recorded asker deed hadmitted)
    · cases hs
  | carry i process =>
    simp only [World.step] at hs
    split at hs
    · rename_i connection request asker deed decision hcall
      cases hs
      obtain ⟨n, now, hdecision, hreach, hcourse⟩ := (h.calls i _ hcall).course (by simp)
      obtain ⟨hrecorded, hadmitted⟩ := hcourse.of_recorded
      refine h.goes hcall ?_
      rw [hrecorded]
      exact .decided n now _ hdecision hreach (course_after _ hadmitted)
    · cases hs
  | tell i =>
    simp only [World.step] at hs
    split at hs
    · rename_i connection request asker deed said decision hcall
      cases hs
      obtain ⟨n, now, hdecision, hreach, hcourse⟩ := (h.calls i _ hcall).course (by simp)
      obtain ⟨order, rfl, hdone, hadmitted⟩ := hcourse.of_taken
      refine h.goes hcall ?_
      rw [hdone]
      exact .decided n now _ hdecision hreach (.told asker order said hadmitted)
    · cases hs

variable [DecidableEq α]

end World

private def operate : Serve := ⟨.operator, fun who role least => who.isSome && decide (number least ≤ number role)⟩

private theorem admits_operate : Admits operate := by
  intro who role least h
  obtain ⟨hwho, hle⟩ := Bool.and_eq_true_iff.1 h
  exact ⟨hwho, of_decide_eq_true hle⟩

private def drawnNonce : Bytes := List.replicate nonceLength 5

/-- A browser's handshake that proves bob, and a host that relays. -/
private def hosted : Settings Unit Unit where
  proved _ := .ok ⟨drawnNonce, [30], [[40]]⟩
  bindingLength := nonceLength
  binding nonces := nonces.flatten.take nonceLength
  fromDer _ := .ok ()
  verify _ _ _ := .ok ()
  notAfter _ := .ok 50
  certificate leaf := .ok ⟨if leaf = [30] then "web" else "bob", .proven⟩
  relays who := who = "web"

private def spoken : Words String where
  named noun := if noun = "Message" then some .message else none
  called _ := "the Message"
  act _ act := .ok act
  word act := act
  replay := "replay"

private def passwords : Secrets Unit where
  name _ := .ok ()
  named _ := some ()
  word _ := "password"
  all := [()]
  secret _ _ _ := .ok ()

private def runs : Process String Unit where
  pickups := []
  sendSteps := [⟨"node 1", fun target _ who => .ok (target ++ " retried by " ++ who)⟩]

private def web : Connection := ⟨⟨"web", .proven⟩, true⟩

private def retried : Request Message := ⟨.act, some 9, .ok ⟨"node 1", "7", "Message", "retry", "", "", ""⟩⟩

private def unnamed : Request Message := ⟨.act, some 8, .ok ⟨"node 1", "7", "Message", "dismiss", "", "", ""⟩⟩

end Acting
