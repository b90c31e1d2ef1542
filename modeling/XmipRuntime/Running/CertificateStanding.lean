import XmipRuntime.Library.Stamped

/-!
# When a node's certificates are due

A node says at every publication round how each certificate it presents stands (`src/running/certificate_standing.rs`).  A
certificate's file is read as the node starts and again only where its time of modification changed; the time is read
before the lock on what was read last is taken, so rounds and the file's writer may come between.

What a certificate's text says, where its life has come to and how a moment is written are other programs'.
-/

namespace CertificateStanding

open Library

inductive Health where
  | fine
  | stressed
  | done
  deriving DecidableEq

/-- What a certificate's life has come to. -/
structure Standing where
  expired : Bool
  due : Bool
  word : String
  renewAt : Int

structure Leaf where
  notBefore : Int
  notAfter : Int
  serialHex : String

structure Outside where
  first : String → Except String Leaf
  between : (notBefore notAfter now : Int) → Standing
  rfc3339Nanos : Int → String

/-- What a certificate file said: its validity and serial, or why it did not read. -/
abbrev Read := Except String (Int × Int × String)

/-- The certificates a configuration names, each with what it is presented for and its path, relative to `base`. -/
def configured (join : String → String → String) (base : String) (operate receive storage : Option String) :
    List (String × String) :=
  [("operate", operate), ("receive", receive), ("storage", storage)].filterMap fun (word, path) =>
    path.map fun path => (word, join base path)

variable (o : Outside)

/-- What the file at `path` says, read. -/
def what (path : String) (file : Except String String) : Read :=
  match file with
  | .error failure => .error (path ++ ": " ++ failure)
  | .ok text =>
    match o.first text with
    | .error message => .error message
    | .ok leaf => .ok (leaf.notBefore, leaf.notAfter, leaf.serialHex)

def moment (unix : Int) : String := o.rfc3339Nanos (unix * 1000000000)

/-- The health and the words for a certificate valid from `notBefore` to `notAfter`, at `now`. -/
def said (path : String) (notBefore notAfter : Int) (serial : String) (now : Int) : Health × String :=
  let standing := o.between notBefore notAfter now
  (if standing.expired then .done else if standing.due then .stressed else .fine,
    standing.word ++ ": " ++ serial ++ " at " ++ path ++ ", valid until " ++ moment o notAfter ++ ", renewal due from " ++
      moment o standing.renewAt)

/-- A certificate's record beneath `node` at `nowNanos`, by what was answered of its file. -/
def record (node word path : String) (nowNanos : Int) (current : Read) : String × Health × String :=
  (node ++ "/certificate/" ++ word,
    match current with
    | .ok (notBefore, notAfter, serial) => said o path notBefore notAfter serial (nowNanos.tdiv 1000000000)
    | .error unread => (.done, unread))

/-- A certificate's file as rounds read it: at its time of modification, where that can be read. -/
abbrev Held := Stamped Nat (Except String String) Read

variable {o}

/-- Over every run of publication rounds, any number at once, while the certificate's file is written: where each write
gives the file a time of modification it never had, the record a round makes is the one a round that reads the file anew
would have made, at some moment while this one ran. -/
theorem record_current {path : String} {w : Held} (h : Reach (Stamped.step (what o path)) Stamped.Fresh Stamped.Unread w)
    {current : Read} {files : List (Except String String)} (ha : (current, files) ∈ w.answered) (node word : String)
    (nowNanos : Int) :
    ∃ file ∈ files, record o node word path nowNanos current = record o node word path nowNanos (what o path file) := by
  obtain ⟨file, hfile, hsame⟩ := List.mem_map.1 (Stamped.answers_seen h _ ha)
  exact ⟨file, hfile, congrArg (record o node word path nowNanos) hsame.symm⟩

private def plainly : Outside where
  first text := if text = "" then .error "no certificate" else .ok ⟨0, 90, text⟩
  between _ notAfter now := ⟨decide (notAfter ≤ now), decide (60 ≤ now), "current", 60⟩
  rfc3339Nanos _ := "a day"

/-- A file written between a round's two readings: the round keeps the new under the old time, and the next reads anew. -/
theorem record_current_rewritten : ∃ w : Held,
    Reach (Stamped.step (what plainly "node.pem")) Stamped.Fresh Stamped.Unread w ∧
    w.answered.map Prod.fst = [.ok (0, 90, "B"), .ok (0, 90, "B")] ∧
    ∃ files, (.ok (0, 90, "B"), files) ∈ w.answered ∧
      ∃ file ∈ files, record plainly "n" "operate" "node.pem" 0 (.ok (0, 90, "B")) =
        record plainly "n" "operate" "node.pem" 0 (what plainly "node.pem" file) := by
  obtain ⟨w, hreach, hw⟩ := Reach.exists_of_runWhere (Stamped.step (what plainly "node.pem")) Stamped.Fresh
    (show Stamped.Unread (Stamped.start (some 1) (.ok "A")) from ⟨_, _, rfl⟩)
    [.begin, .stat 0, .write (some 2) (.ok "B"), .answer 0, .begin, .stat 0, .answer 0]
    (fun w => decide (w.answered = [(.ok (0, 90, "B"), [.ok "B", .ok "A"]), (.ok (0, 90, "B"), [.ok "B"])]))
    (by decide +kernel)
  have hanswered := of_decide_eq_true hw
  have hmem : (.ok (0, 90, "B"), [.ok "B"]) ∈ w.answered := by
    rw [hanswered]
    exact List.mem_cons_of_mem _ (List.mem_singleton_self _)
  exact ⟨w, hreach, by rw [hanswered]; rfl, [.ok "B"], hmem, record_current hreach hmem "n" "operate" 0⟩

end CertificateStanding
