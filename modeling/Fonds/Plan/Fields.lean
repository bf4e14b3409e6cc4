import Fonds.Keyword
import Fonds.Name
import Fonds.Settings.Basic

/-!
Where the documents of a store hold what a request names.
-/
namespace Fonds

/-- Why a request has no plan. -/
inductive PlanError where
  /-- A test of all fields at once. -/
  | testOfAllFields
  /-- A facet over sub-documents that do not hold its field. -/
  | fieldOutsideNested (facet field path : String)
  deriving DecidableEq

namespace PlanError

def message : PlanError → String
  | .testOfAllFields => "cannot translate a predicate on " ++ Keyword.allFields
  | .fieldOutsideNested facet field path =>
    s!"cannot translate facet {facet}: field {field} is not under the nested path {path}"

end PlanError

/-- The field of a sub-document. -/
def subField (parent child : String) : String := parent ++ "." ++ child

namespace Configuration

/-- The document field that a name stands for: a reserved name for the field it is set to, any other
name for itself. -/
def field (c : Configuration) (name : Name) : String := (c.reserved.get? name.text).getD name.text

/-- The document field that a test looks at. The name for all fields stands for no one field. -/
def testedField (c : Configuration) (name : Name) : Except PlanError String :=
  if name.text = Keyword.allFields then .error .testOfAllFields else .ok (c.field name)

/-- The field that lists the ancestors so many levels above. -/
def ancestorsAt (c : Configuration) (levels : Nat) : String :=
  subField c.graph.ancestorsByDistance (toString levels)

end Configuration

end Fonds
