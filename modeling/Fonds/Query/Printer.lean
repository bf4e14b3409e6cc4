import Fonds.Query.Basic

/-!
Queries in the form of a request document: one entry for the operator, then the qualifier.
-/
namespace Fonds

namespace Bounds

def toJson (b : Bounds) : Json :=
  .ofEntries (b.toList.map fun bound => (bound.operator.token, bound.value.toJson))

end Bounds

namespace Check

/-- The operand of a test of the field. -/
def operand (field : Name) : Check → Json
  | .present | .absent | .isNull => .string field.text
  | .oneOf values | .noneOf values =>
    .single field.text (.array (values.toList.map Literal.toJson))
  | .size n _ => .single field.text (.ofNat n)
  | .compare _ value => .single field.text value.toJson
  | .range bounds => .single field.text bounds.toJson
  | .term text => .single field.text (.string text)
  | .regex pattern _ => .single field.text (.string pattern)

end Check

namespace Depth

/-- The entry that a qualifier adds to its query. -/
def entry : Depth → String × Json
  | .relative levels _ => (Keyword.depth, .ofInt levels)
  | .exact level _ => (Keyword.exactDepth, .ofNat level)

end Depth

namespace Condition

/-- The object of an operator with its operand and qualifier. -/
def document (token : String) (operand : Json) (qualifier : Option Depth) : Json :=
  .object ((token, operand) :: (qualifier.map Depth.entry).toList)

mutual

def toJson : Condition → Json
  | .test field check qualifier => document check.operator.token (check.operand field) qualifier
  | .group junction first rest qualifier =>
    document junction.token (.array (first.toJson :: allToJson rest)) qualifier

def allToJson : List Condition → List Json
  | [] => []
  | c :: cs => c.toJson :: allToJson cs

end

end Condition

namespace Query

def toJson : Query → Json
  | .path ids => .single Operator.path.token (.array (ids.toList.map (.string ·.text)))
  | .condition c => c.toJson

end Query

end Fonds
