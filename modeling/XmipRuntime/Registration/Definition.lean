import Mathlib.Data.String.Basic
import XmipRuntime.Library.Quoted

/-!
# Service definitions

What the operating system is told about a service (`src/registration.rs`, `src/registration/windows_scm.rs`): a systemd unit,
a launchd property list, or the arguments of the programs that register it with Windows.  Each is text made of the
definition's own; an argument is put in double quotes where it has a space, and nothing is escaped.
-/

namespace Registration

/-- What is told about a service that the texts below are made of. -/
structure ServiceDefinition where
  name : String
  displayName : String
  description : String
  executable : String
  arguments : List String
  serviceIdentity : Option String
  workingDirectory : String
  environment : List (String × String)
  deriving DecidableEq

/-- What a service is started with. -/
structure Told where
  executable : List Char
  arguments : List (List Char)
  environment : List (List Char × List Char)
  identity : Option (List Char)
  deriving DecidableEq

def ServiceDefinition.told (definition : ServiceDefinition) : Told where
  executable := definition.executable.toList
  arguments := definition.arguments.map String.toList
  environment := definition.environment.map fun variable_ => (variable_.1.toList, variable_.2.toList)
  identity := definition.serviceIdentity.map String.toList

/-- The exit code of a node that was refused. -/
def refused : String := "2"

/-- `/run/xmip/` as systemd names a folder under `/run`. -/
def runtimeDirectory : String := "xmip"

/-- Each line with its end. -/
def unlines (lines : List String) : String := lines.foldr (fun line text => line ++ "\n" ++ text) ""

def join (separator : String) : List String → String
  | [] => ""
  | [text] => text
  | text :: texts => text ++ separator ++ join separator texts

/-- `text` as one argument on a command line: double-quoted where it has a space. -/
def quoted (text : String) : String := if ' ' ∈ text.toList then "\"" ++ text ++ "\"" else text

theorem toList_join (separator : String) (text : String) (texts : List String) :
    (join separator (text :: texts)).toList = text.toList ++ texts.flatMap fun text => separator.toList ++ text.toList := by
  induction texts generalizing text with
  | nil => rw [join, List.flatMap_nil, List.append_nil]
  | cons next texts ih => simp only [join, String.toList_append, ih, List.flatMap_cons, List.append_assoc]

theorem word_quoted (text : String) : ' ' :: (quoted text).toList = Library.wordOf text.toList := by
  unfold quoted Library.wordOf
  split <;> simp

/-- A variable and its value as one text. -/
def assigned (variable_ : List Char × List Char) : List Char := variable_.1 ++ '=' :: variable_.2

/-! ### systemd -/

def systemdUnit (definition : ServiceDefinition) : String :=
  let arguments := join " " (definition.arguments.map quoted)
  let identity := match definition.serviceIdentity with
    | some user => ["User=" ++ user]
    | none => []
  let environment := definition.environment.map fun variable_ =>
    "Environment=\"" ++ (variable_.1 ++ "=" ++ variable_.2) ++ "\""
  unlines (
    ["[Unit]",
      "Description=" ++ definition.description,
      "After=network-online.target",
      "Wants=network-online.target",
      "",
      "[Service]",
      "Type=notify",
      "ExecStart=" ++ (quoted definition.executable ++ " " ++ arguments),
      "WorkingDirectory=" ++ definition.workingDirectory] ++
    (identity ++
    (environment ++
    ["RuntimeDirectory=" ++ runtimeDirectory,
      "RuntimeDirectoryMode=0755",
      "RuntimeDirectoryPreserve=yes",
      "Restart=on-failure",
      "RestartPreventExitStatus=" ++ refused,
      "RestartSec=5",
      "",
      "[Install]",
      "WantedBy=multi-user.target"])))

/-! ### launchd -/

def launchdPlist (definition : ServiceDefinition) : String :=
  let arguments := (definition.executable :: definition.arguments).map fun argument =>
    "\t\t<string>" ++ argument ++ "</string>"
  let identity := match definition.serviceIdentity with
    | some user => ["\t<key>UserName</key>", "\t<string>" ++ user ++ "</string>"]
    | none => []
  let environment := if definition.environment.isEmpty then [] else
    ["\t<key>EnvironmentVariables</key>", "\t<dict>"] ++
    (definition.environment.flatMap (fun variable_ =>
      ["\t\t<key>" ++ variable_.1 ++ "</key>", "\t\t<string>" ++ variable_.2 ++ "</string>"]) ++
    ["\t</dict>"])
  unlines (
    ["<?xml version=\"1.0\" encoding=\"UTF-8\"?>",
      "<plist version=\"1.0\">",
      "<dict>",
      "\t<key>Label</key>",
      "\t<string>" ++ definition.name ++ "</string>",
      "\t<key>ProgramArguments</key>",
      "\t<array>"] ++
    (arguments ++
    (["\t</array>",
      "\t<key>WorkingDirectory</key>",
      "\t<string>" ++ definition.workingDirectory ++ "</string>"] ++
    (identity ++
    (environment ++
    ["\t<key>RunAtLoad</key>",
      "\t<true/>",
      "\t<key>KeepAlive</key>",
      "\t<dict>",
      "\t\t<key>SuccessfulExit</key>",
      "\t\t<false/>",
      "\t</dict>",
      "</dict>",
      "</plist>"])))))

/-! ### Windows -/

/-- The arguments of `sc.exe` that create the service. -/
def windowsServiceArguments (definition : ServiceDefinition) : List String :=
  let binary := quoted definition.executable ++ join "" (definition.arguments.map fun argument => " " ++ quoted argument)
  ["create", definition.name, "binPath= " ++ binary, "DisplayName= " ++ definition.displayName, "start= auto"] ++
    match definition.serviceIdentity with
    | some user => ["obj= " ++ user]
    | none => []

/-- What finishes the registration, each a program and its arguments. -/
def windowsServiceSettings (definition : ServiceDefinition) : List (String × List String) :=
  let values := join "\\0" (definition.environment.map fun variable_ => variable_.1 ++ "=" ++ variable_.2)
  ("sc.exe", ["description", definition.name, definition.description]) ::
    if definition.environment.isEmpty then [] else
      [("reg.exe", ["add", "HKLM\\SYSTEM\\CurrentControlSet\\Services\\" ++ definition.name, "/v", "Environment", "/t",
        "REG_MULTI_SZ", "/d", values, "/f"])]

end Registration
