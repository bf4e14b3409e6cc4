import Fonds.Action.Basic
import Fonds.Keyword

/-!
Actions in the form of a request document: one entry for the operator with the operands by field.
-/
namespace Fonds

namespace Fields

def toJson {α : Type} (render : α → Json) (f : Fields α) : Json :=
  .ofEntries (f.entries.map fun entry => (entry.1.text, render entry.2))

end Fields

namespace Action

/-- The operand that lists the values for an array. -/
def eachToJson (values : NonEmpty Json) : Json := .single Keyword.each (.array values.toList)

def operand : Action → Json
  | .set values => values.toJson id
  | .unset fields => .array (fields.toList.map (.string ·.text))
  | .inc amounts => amounts.toJson .number
  | .min values | .max values => values.toJson Literal.toJson
  | .rename targets => targets.toJson (.string ·.text)
  | .push values | .add values | .pull values => values.toJson eachToJson
  | .pop ends => ends.toJson (.ofInt ·.number)

def toJson (a : Action) : Json := .single a.operator.token a.operand

end Action

end Fonds
