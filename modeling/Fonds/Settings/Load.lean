import Fonds.Settings.Check
import Fonds.Settings.Reader

/-!
From the text of a settings file to a configuration.
-/
namespace Fonds

/-- Why there is no configuration. -/
inductive LoadError where
  /-- There is no settings file. -/
  | missing
  | unreadable
  | refused (error : SettingsError)
  deriving DecidableEq

namespace Configuration

/-- The configuration that the text of a settings file gives, if there is such a file. -/
def load : Option String → Except LoadError Configuration
  | none => .error .missing
  | some text =>
    match Settings.read? text with
    | none => .error .unreadable
    | some settings => settings.check.mapError .refused

end Configuration

end Fonds
