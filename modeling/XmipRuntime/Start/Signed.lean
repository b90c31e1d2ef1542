import XmipRuntime.Library.Run
import XmipRuntime.Library.Table

/-!
# What a node runs

A node runs only a slice its cluster's authority signed (`src/signed.rs`).  The authority's certificate stands beside the
node's configuration.  A file that verifies is run, and kept as the node's accepted slice; one that does not is refused,
and the node runs its accepted slice instead.  Where the accepted slice is kept follows from the node's name and data
directory, and both are read from the file at hand, whether it verifies or not (`keptAt`).

So a refused file runs the last one that verified where it names the node and the data directory of that one.  One that
names another finds whatever is kept there: an older slice, or none.
-/

namespace Signed

open Library

abbrev Bytes := List UInt8

/-- The signature table of a file. -/
structure Signature where
  cluster : String
  signedBy : String
  value : String
  deriving DecidableEq

/-- What is read and computed outside: the file's table and its texts, certificates and digests, and paths. -/
structure Outside (κ : Type) where
  split : String → Except String (String × Option Signature)
  message : (text cluster : String) → Bytes
  decode : (pem : String) → Except String (List Bytes)
  sha256 : Bytes → String
  base64 : String → Except String Bytes
  first : (pem : String) → Except String κ
  verifies : κ → (message value : Bytes) → Except String Bool
  named : String → Option String × Option String
  dataDirectory : Option String → (path : String) → String
  parent : String → Option String
  join : String → String → String
  /-- What the authority's certificate is called, in its folder. -/
  certificate : String

/-- The node whose configuration is at `path`, and the authority's certificate as it is read there. -/
structure Settings (κ : Type) extends Outside κ where
  path : String
  authority : Except String String

variable {κ : Type} (c : Settings κ)

namespace Settings

def digest (bytes : Bytes) : String := "sha256:" ++ c.sha256 bytes

/-- The certificate `pem` holds. -/
def der (pem : String) : Except String Bytes :=
  match c.decode pem with
  | .error failed => .error failed
  | .ok (first :: _) => .ok first
  | .ok [] => .error "the authority's certificate holds no CERTIFICATE"

/-- The text of `file` its cluster signed, and the signature, checked against `anchor`. -/
def verified (file anchor : String) : Except String (String × Signature) := do
  let (text, signature) ← c.split file
  let signature ← match signature with
    | some signature => .ok signature
    | none => .error "it is not signed"
  if signature.signedBy ≠ c.digest (← c.der anchor) then
    .error "it is signed by an authority other than this node's"
  else
    let value ← match c.base64 signature.value with
      | .ok value => .ok value
      | .error _ => .error "its signature is not base64"
    let certificate ← c.first anchor
    if ← c.verifies certificate (c.message text signature.cluster) value then .ok (text, signature)
    else .error "its signature does not verify: it was changed after it was signed"

/-- The anchor beside the configuration. -/
def anchor : Except String String :=
  match c.authority with
  | .ok anchor => .ok anchor
  | .error failed => .error ("no cluster authority's certificate at " ++
      c.join (c.join ((c.parent c.path).getD ".") "authority") c.certificate ++ ": " ++ failed ++
      "; a node runs only a slice its cluster's authority signed")

/-- The node a file names, and the data directory it gives the node. -/
def namedIn (file : String) : Option String × String := ((c.named file).1, c.dataDirectory (c.named file).2 c.path)

/-- Where the accepted slice is looked for while `file` is at hand. -/
def keptAt (file : String) : String :=
  c.join (c.namedIn file).2 ((c.namedIn file).1.getD "node" ++ "." ++ "accepted.xmip")

end Settings

/-! ### Starts -/

/-- What comes of keeping a file: written, or failed and what is there then, nothing where it is as it was. -/
inductive Keeping where
  | written
  | failed (error : String) (left : Option String)
  deriving DecidableEq

/-- A start: the file at the path, whether what is kept can be read, and what comes of keeping it. -/
structure Start where
  file : String
  readable : Bool
  keeping : Keeping

/-- The files of the data directories. -/
abbrev Disk := Table String String

/-- What is kept where `start` looks for it. -/
def kept (disk : Disk) (start : Start) : Option String :=
  if start.readable then disk.get (c.keptAt start.file) else none

/-- The text a node runs and why its file was refused, and the disk after. -/
def accepted (disk : Disk) (start : Start) : Except String (String × Option String) × Disk :=
  match c.anchor with
  | .error refused => (.error refused, disk)
  | .ok anchor =>
    let keptAt := c.keptAt start.file
    let kept := kept c disk start
    match c.verified start.file anchor with
    | .ok (text, _) =>
      if kept ≠ some start.file then
        match start.keeping with
        | .written => (.ok (text, none), disk.put keptAt start.file)
        | .failed error left =>
          (.error ("cannot keep the accepted slice at " ++ keptAt ++ ": " ++ error),
            match left with
            | some left => disk.put keptAt left
            | none => disk)
      else (.ok (text, none), disk)
    | .error why =>
      let refused := c.path ++ " is refused: " ++ why
      match kept.bind fun kept => (c.verified kept anchor).toOption with
      | some (text, _) => (.ok (text, some (refused ++ "; the node runs its accepted slice, " ++ keptAt)), disk)
      | none => (.error (refused ++ ", and the node has no accepted slice to run"), disk)

/-- One start, and what came of it. -/
structure Started where
  start : Start
  /-- The last file that verified before it. -/
  last : Option String
  before : Disk
  answer : Except String (String × Option String)
  after : Disk

/-- The starts of one node so far: its disk, the last file that verified, and what came of each, the latest first. -/
structure History where
  disk : Disk
  last : Option String
  started : List Started

def Starts (h : History) : Prop := h = ⟨.empty, none, []⟩

/-- The text `file` verifies as under the anchor. -/
def textOf (file : String) : Option String :=
  c.anchor.toOption.bind fun anchor => (c.verified file anchor).toOption.map Prod.fst

def History.step (h : History) (start : Start) : Option History :=
  let (answer, disk) := accepted c h.disk start
  some
    { disk
      last := if (textOf c start.file).isSome then some start.file else h.last
      started := ⟨start, h.last, h.disk, answer, disk⟩ :: h.started }

/-! ### What is claimed -/

/-- The text run, where one is. -/
def ran (answer : Except String (String × Option String)) : Option String := answer.toOption.map Prod.fst

/-- Only what verifies is run: the file's own text where it does; and a refused file is written nowhere. -/
structure Started.OnlyVerified (x : Started) : Prop where
  verifies : ∀ text ∈ ran x.answer, ∃ file, textOf c file = some text
  own : ∀ text, textOf c x.start.file = some text → ∀ text' ∈ ran x.answer, text' = text
  unwritten : textOf c x.start.file = none → x.after = x.before

/-- A refused file runs the last that verified before it. -/
def Started.LastVerified (x : Started) : Prop :=
  textOf c x.start.file = none → ran x.answer = x.last.bind (textOf c)

instance (x : Started) : Decidable (x.LastVerified c) :=
  inferInstanceAs (Decidable (textOf c x.start.file = none → ran x.answer = x.last.bind (textOf c)))

/-- Two refused files run the same. -/
def Alike (disk : Disk) (start start' : Start) : Prop :=
  textOf c start.file = none → textOf c start'.file = none →
    ran (accepted c disk start).1 = ran (accepted c disk start').1

instance (disk : Disk) (start start' : Start) : Decidable (Alike c disk start start') :=
  inferInstanceAs (Decidable (textOf c start.file = none → textOf c start'.file = none → ran _ = ran _))

/-- A file that verifies is kept; and a refused one names the node and the data directory of the last that verified, and
what is kept there can be read. -/
structure Placed (h : History) (start : Start) : Prop where
  kept : (textOf c start.file).isSome = true → kept c h.disk start = some start.file ∨ start.keeping = .written
  named : textOf c start.file = none → ∀ last ∈ h.last, start.readable = true ∧ c.keptAt start.file = c.keptAt last

instance (h : History) (start : Start) : Decidable (Placed c h start) :=
  decidable_of_iff (((textOf c start.file).isSome = true → kept c h.disk start = some start.file ∨ start.keeping = .written) ∧
    (textOf c start.file = none → ∀ last ∈ h.last, start.readable = true ∧ c.keptAt start.file = c.keptAt last))
    ⟨fun h => ⟨h.1, h.2⟩, fun h => ⟨h.kept, h.named⟩⟩

/-! ### One start -/

section One

variable {c} {disk : Disk} {start : Start}

/-- A refused file writes nothing, and runs what verifies of what is kept where it says. -/
theorem accepted_refused (h : textOf c start.file = none) :
    (accepted c disk start).2 = disk ∧ ran (accepted c disk start).1 = (kept c disk start).bind (textOf c) := by
  unfold textOf at h
  unfold accepted textOf
  cases hanchor : c.anchor with
  | error refused =>
    refine ⟨rfl, ?_⟩
    cases kept c disk start <;> rfl
  | ok anchor =>
    rw [hanchor] at h
    cases hverified : c.verified start.file anchor with
    | ok text =>
      simp only [Except.toOption, Option.bind_some, hverified, Option.map_some] at h
      cases h
    | error why =>
      simp only [hverified]
      cases kept c disk start with
      | none => exact ⟨rfl, rfl⟩
      | some file =>
        cases hfile : c.verified file anchor with
        | ok verified => simp [hfile, ran, Except.toOption]
        | error failed => simp [hfile, ran, Except.toOption]

private theorem verified_of_textOf {file text : String} (h : textOf c file = some text) :
    ∃ anchor signature, c.anchor = .ok anchor ∧ c.verified file anchor = .ok (text, signature) := by
  unfold textOf at h
  obtain ⟨anchor, hanchor, h⟩ := Option.bind_eq_some_iff.1 h
  obtain ⟨⟨text', signature⟩, hverified, rfl⟩ := Option.map_eq_some_iff.1 h
  refine ⟨anchor, signature, ?_, ?_⟩
  · cases hc : c.anchor with
    | error failed =>
      rw [hc] at hanchor
      cases hanchor
    | ok anchor' =>
      rw [hc] at hanchor
      cases hanchor
      rfl
  · cases hc : c.verified file anchor with
    | error failed =>
      rw [hc] at hverified
      cases hverified
    | ok verified =>
      rw [hc] at hverified
      cases hverified
      rfl

/-- One that verifies runs as its own text, where it can be kept. -/
theorem accepted_own {text : String} (h : textOf c start.file = some text) :
    ∀ text' ∈ ran (accepted c disk start).1, text' = text := by
  obtain ⟨anchor, signature, hanchor, hverified⟩ := verified_of_textOf h
  intro text' hran
  simp only [accepted, hanchor, hverified] at hran
  split at hran
  · split at hran
    · cases hran
      rfl
    · cases hran
  · cases hran
    rfl

/-- One that verifies is kept where it says, if it can be. -/
theorem accepted_keeps (h : (textOf c start.file).isSome = true)
    (hkept : kept c disk start = some start.file ∨ start.keeping = .written) :
    (accepted c disk start).2.get (c.keptAt start.file) = some start.file := by
  obtain ⟨text, htext⟩ := Option.isSome_iff_exists.1 h
  obtain ⟨anchor, signature, hanchor, hverified⟩ := verified_of_textOf htext
  simp only [accepted, hanchor, hverified]
  split
  · rename_i hnot
    rw [hkept.resolve_left hnot]
    exact Table.get_put_self ..
  · rename_i hthere
    have hread := Decidable.not_not.1 hthere
    unfold kept at hread
    split at hread
    · exact hread
    · cases hread

theorem accepted_onlyVerified (last : Option String) :
    (Started.mk start last disk (accepted c disk start).1 (accepted c disk start).2).OnlyVerified c := by
  refine ⟨?_, ?_, fun h => (accepted_refused h).1⟩
  · intro text hran
    cases h : textOf c start.file with
    | some own => exact ⟨start.file, h.trans (congrArg some (accepted_own h text hran).symm)⟩
    | none =>
      have hkept : ran (accepted c disk start).1 = _ := (accepted_refused h).2
      rw [show ran (accepted c disk start).1 = some text from hran] at hkept
      obtain ⟨file, -, htext⟩ := Option.bind_eq_some_iff.1 hkept.symm
      exact ⟨file, htext⟩
  · exact fun text h => accepted_own h

end One

/-! ### Every start -/

/-- The last file that verified is kept where it says, and every refused one ran the last before it. -/
structure History.Keeps (h : History) : Prop where
  fresh : h.last = none → h.disk = .empty
  last : ∀ last ∈ h.last, h.disk.get (c.keptAt last) = some last
  started : ∀ x ∈ h.started, x.LastVerified c

variable {c} {h h' : History} {start : Start}

/-- A refused file that names the last one's place runs the last one. -/
theorem ran_of_placed (hk : h.Keeps c) (hp : Placed c h start) (hrefused : textOf c start.file = none) :
    ran (accepted c h.disk start).1 = h.last.bind (textOf c) := by
  rw [(accepted_refused hrefused).2]
  cases hlast : h.last with
  | none =>
    have hnone : kept c h.disk start = none := by
      unfold kept
      rw [hk.fresh hlast]
      split <;> rfl
    rw [hnone]
  | some last =>
    obtain ⟨hreadable, hplace⟩ := hp.named hrefused last hlast
    have hthere : kept c h.disk start = some last := by
      unfold kept
      rw [if_pos hreadable, hplace]
      exact hk.last last hlast
    rw [hthere]

private theorem step_eq (hs : h.step c start = some h') : h' =
    { disk := (accepted c h.disk start).2
      last := if (textOf c start.file).isSome then some start.file else h.last
      started := ⟨start, h.last, h.disk, (accepted c h.disk start).1, (accepted c h.disk start).2⟩ :: h.started } :=
  (Option.some.inj hs).symm

private theorem step_keeps (hk : h.Keeps c) (hp : Placed c h start) (hs : h.step c start = some h') : h'.Keeps c := by
  obtain rfl := step_eq hs
  refine ⟨?_, ?_, ?_⟩
  · intro hnone
    dsimp only at hnone ⊢
    split at hnone
    · cases hnone
    · rename_i hrefused
      rw [(accepted_refused (Option.not_isSome_iff_eq_none.1 hrefused)).1]
      exact hk.fresh hnone
  · intro last hlast
    dsimp only at hlast ⊢
    split at hlast
    · rename_i hverifies
      cases hlast
      exact accepted_keeps hverifies (hp.kept hverifies)
    · rename_i hrefused
      rw [(accepted_refused (Option.not_isSome_iff_eq_none.1 hrefused)).1]
      exact hk.last last hlast
  · intro x hx
    rcases List.mem_cons.1 hx with rfl | hx
    · exact fun hrefused => ran_of_placed hk hp hrefused
    · exact hk.started x hx

private theorem keeps_of_reach (hr : Reach (History.step c) (Placed c) Starts h) : h.Keeps c := by
  refine Reach.invariant ?_ (fun _ _ _ hk hp hs => step_keeps hk hp hs) hr
  rintro h rfl
  refine ⟨fun _ => rfl, ?_, ?_⟩
  · intro last hlast
    cases hlast
  · intro x hx
    cases hx

private theorem onlyVerified_of_reach (hr : Reach (History.step c) Always Starts h) :
    ∀ x ∈ h.started, x.OnlyVerified c := by
  have hstart : ∀ h, Starts h → ∀ x ∈ h.started, x.OnlyVerified c := by
    rintro h rfl x hx
    cases hx
  refine Reach.invariant hstart ?_ hr
  intro h start h' hall _ hs x hx
  obtain rfl := step_eq hs
  rcases List.mem_cons.1 hx with rfl | hx
  · exact accepted_onlyVerified h.last
  · exact hall x hx

variable (c) in
/-- However the node is started, only what verifies is run, and a refused file is written nowhere; and where every refused
file names the place of the last one that verified, it runs that one, whatever else it holds. -/
theorem lastVerified_of_placed :
    (∀ h, Reach (History.step c) Always Starts h → ∀ x ∈ h.started, x.OnlyVerified c) ∧
    ∀ h, Reach (History.step c) (Placed c) Starts h → (∀ x ∈ h.started, x.LastVerified c) ∧
      ∀ start start', Placed c h start → Placed c h start' → Alike c h.disk start start' := by
  refine ⟨fun h hr => onlyVerified_of_reach hr, fun h hr => ?_⟩
  have hk := keeps_of_reach hr
  refine ⟨hk.started, ?_⟩
  intro start start' hp hp' hrefused hrefused'
  rw [ran_of_placed hk hp hrefused, ran_of_placed hk hp' hrefused']

/-! ### Two names -/

private def bytesOf (text : String) : Bytes := text.toList.map fun x => UInt8.ofNat x.toNat

/-- A node whose files name it `r1` or `r2`, one of each signed, and an edit of the first. -/
private def renamed : Settings Unit where
  split file :=
    if file = "node_name = r1; signed" then .ok ("node_name = r1", some ⟨"c", "sha256:ca", "node_name = r1"⟩)
    else if file = "node_name = r2; signed" then .ok ("node_name = r2", some ⟨"c", "sha256:ca", "node_name = r2"⟩)
    else if file = "node_name = r1; edited" then .ok ("node_name = r1; edited", some ⟨"c", "sha256:ca", "node_name = r1"⟩)
    else .ok (file, none)
  message text _ := bytesOf text
  decode _ := .ok [[1]]
  sha256 _ := "ca"
  base64 value := .ok (bytesOf value)
  first _ := .ok ()
  verifies _ message value := .ok (message = value)
  named file :=
    (if file = "node_name = r2; signed" || file = "node_name = r2; edited" then some "r2" else some "r1", some "data")
  dataDirectory data _ := data.getD "."
  parent _ := none
  join a b := a ++ "/" ++ b
  certificate := "authority.pem"
  path := "node.xmip"
  authority := .ok "the authority's certificate"

private def startOf (file : String) : Start := ⟨file, true, .written⟩

/-- The file signed first, and an edit of it that names the same node: the node runs what was signed. -/
theorem lastVerified_of_edit : ∃ h : History, (∀ x ∈ h.started, x.OnlyVerified renamed ∧ x.LastVerified renamed) ∧
    h.started.map (fun x => ran x.answer) = [some "node_name = r1", some "node_name = r1"] := by
  obtain ⟨h, hr, hp⟩ := Reach.exists_of_runWhere (History.step renamed) (Placed renamed)
    (show Starts ⟨.empty, none, []⟩ from rfl) [startOf "node_name = r1; signed", startOf "node_name = r1; edited"]
    (fun h => decide (h.started.map (fun x => ran x.answer) = [some "node_name = r1", some "node_name = r1"]))
    (by decide +kernel)
  obtain ⟨honly, hlast⟩ := lastVerified_of_placed renamed
  refine ⟨h, fun x hx => ⟨honly h (hr.mono fun _ _ _ => trivial) x hx, (hlast h hr).1 x hx⟩, ?_⟩
  exact of_decide_eq_true hp

/-- The node was named `r1`, and is `r2` since: an edit that names it `r1` runs the slice it had before, where one that
keeps its name runs the last. -/
theorem chosen_by_an_edit : ∃ h : History, Reach (History.step renamed) Always Starts h ∧
    (∃ x ∈ h.started, ¬ x.LastVerified renamed) ∧
    ¬ Alike renamed h.disk (startOf "node_name = r1; edited") (startOf "node_name = r2; edited") := by
  obtain ⟨h, hr, hp⟩ := Reach.exists_of_runWhere (History.step renamed) Always
    (show Starts ⟨.empty, none, []⟩ from rfl)
    [startOf "node_name = r1; signed", startOf "node_name = r2; signed", startOf "node_name = r1; edited"]
    (fun h => h.started.any (fun x => !decide (x.LastVerified renamed)) &&
      !decide (Alike renamed h.disk (startOf "node_name = r1; edited") (startOf "node_name = r2; edited")))
    (by decide +kernel)
  simp only [Bool.and_eq_true, List.any_eq_true, Bool.not_eq_true', decide_eq_false_iff_not] at hp
  exact ⟨h, hr, hp⟩

end Signed
