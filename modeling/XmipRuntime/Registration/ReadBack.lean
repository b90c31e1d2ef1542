import XmipRuntime.Registration.Launchd
import XmipRuntime.Registration.Unit
import XmipRuntime.Registration.Windows

/-!
# Definitions read back

A definition is read back by systemd, by launchd and by Windows where each reads of its own text what the definition says, and
nothing more.  No text is escaped where it is put into another, so it is read back just where each of the three leaves it as it
is: where it is plain for all of them.
-/

namespace Registration

/-- Each operating system reads of what it is told what the definition says, and nothing more. -/
structure ReadsBack (definition : ServiceDefinition) : Prop where
  systemd : Systemd.readUnit (systemdUnit definition).toList = some (Systemd.settings definition)
  launchd : Launchd.readPlist (launchdPlist definition).toList = some (Launchd.elements definition)
  windows : Windows.read (windowsServiceArguments definition) (windowsServiceSettings definition) = some definition.told

/-- What each operating system reads as it is given. -/
structure Plain (definition : ServiceDefinition) : Prop where
  systemd : Systemd.Plain definition
  launchd : Launchd.Plain definition
  windows : Windows.Plain definition.told

theorem readsBack_iff (definition : ServiceDefinition) : ReadsBack definition ↔ Plain definition := by
  constructor
  · intro h
    have hsystemd := (Systemd.readUnit_iff definition).1 h.systemd
    have hlaunchd := (Launchd.readPlist_iff definition).1 h.launchd
    have hwindows := (Windows.read_iff definition).1 h.windows
    exact ⟨hsystemd, hlaunchd, hwindows⟩
  · intro h
    have hsystemd := (Systemd.readUnit_iff definition).2 h.systemd
    have hlaunchd := (Launchd.readPlist_iff definition).2 h.launchd
    have hwindows := (Windows.read_iff definition).2 h.windows
    exact ⟨hsystemd, hlaunchd, hwindows⟩

/-- A service given one argument, with a quote and an ampersand in it. -/
def tea : ServiceDefinition where
  name := "xmip-tea"
  displayName := "Tea"
  description := "Tea"
  executable := "/opt/xmip"
  arguments := ["a\"b&c"]
  serviceIdentity := some "xmip"
  workingDirectory := "/srv/xmip"
  environment := [("LEVEL", "info")]

/-- Windows starts it with `ab&c`. -/
theorem not_readsBack_tea : ¬ ReadsBack tea := by
  intro h
  have hne : Windows.read (windowsServiceArguments tea) (windowsServiceSettings tea) ≠ some tea.told := by decide +kernel
  exact hne h.windows

end Registration
