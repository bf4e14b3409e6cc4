import Fonds.Settings.Basic
import Fonds.Text.Blank

/-!
Checking settings: the version first, then the graph fields in order, the default limit, and the
reserved names in order.
-/
namespace Fonds.Settings

def checkVersion (s : Settings) : Except SettingsError Unit :=
  if s.version = currentVersion then .ok () else .error (.unsupportedVersion s.version)

def checkGraph (s : Settings) : Except SettingsError Unit :=
  match s.graph.entries.find? fun e => Text.Blank e.2 with
  | some e => .error (.emptyGraphField e.1)
  | none => .ok ()

def checkLimit (s : Settings) : Except SettingsError Unit :=
  if s.defaultLimit = 0 then .error .zeroLimit else .ok ()

/-- A reserved name starts with `#` and stands for a field that is not blank. -/
def ReservedEntry (e : String × String) : Prop := e.1.toList.head? = some '#' ∧ ¬ Text.Blank e.2

instance (e : String × String) : Decidable (ReservedEntry e) :=
  inferInstanceAs (Decidable (_ ∧ _))

def checkReserved (s : Settings) : Except SettingsError Unit :=
  match s.reserved.entries.find? fun e => ¬ ReservedEntry e with
  | some e => .error (.reservedName e.1)
  | none => .ok ()

def check (s : Settings) : Except SettingsError Configuration := do
  s.checkVersion
  s.checkGraph
  s.checkLimit
  s.checkReserved
  .ok ⟨s.graph, s.defaultLimit, s.reserved⟩

end Fonds.Settings
