import Fonds.Json.Basic

/-!
The values a field can be compared with: JSON scalars.
-/
namespace Fonds

/-- A JSON value that is neither an array nor an object. -/
inductive Literal where
  | null
  | bool (value : Bool)
  | number (value : Number)
  | string (value : String)
  deriving DecidableEq

namespace Literal

def toJson : Literal → Json
  | .null => .null
  | .bool b => .bool b
  | .number n => .number n
  | .string s => .string s

def ofJson? : Json → Option Literal
  | .null => some .null
  | .bool b => some (.bool b)
  | .number n => some (.number n)
  | .string s => some (.string s)
  | .array _ | .object _ => none

@[simp] theorem ofJson?_toJson (l : Literal) : ofJson? l.toJson = some l := by
  cases l <;> rfl

theorem toJson_of_ofJson? {v : Json} {l : Literal} (h : ofJson? v = some l) : l.toJson = v := by
  cases v <;> simp [ofJson?] at h <;> subst h <;> rfl

end Literal

end Fonds
