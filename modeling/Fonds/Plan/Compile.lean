import Fonds.Plan.Fields
import Fonds.Plan.Scope
import Fonds.Reported

/-!
Compiling queries to predicates of the store. Names of fields are replaced by document fields, and a
group that must not hold all together becomes the negation of one predicate, never of several. Tests
that are dear to run are reported.
-/
namespace Fonds

open Store

namespace Check

/-- The test of the store that a check amounts to. -/
def toFieldTest : Check → FieldTest
  | .present => .presence true
  | .absent => .presence false
  | .isNull => .compare .eq .null
  | .oneOf values => .oneOf (values.toList.map Literal.toJson)
  | .noneOf values => .noneOf (values.toList.map Literal.toJson)
  | .size n _ => .size n
  | .compare comparison value => .compare comparison value.toJson
  | .range bounds => .range (bounds.toList.map fun b => (b.operator.comparison, b.value.toJson))
  | .term text => .term text
  | .regex pattern _ => .regex pattern

/-- Whether the store has no index for the test. -/
def isUnindexed : Check → Bool
  | .absent | .isNull | .size _ _ => true
  | _ => false

def isRegex : Check → Bool
  | .regex _ _ => true
  | _ => false

end Check

namespace Condition

/-- The test of one field. A missing index is reported even if the field cannot be tested. -/
def compileTest (c : Configuration) (field : Name) (check : Check) :
    Reported PlanError Predicate := do
  if check.isUnindexed then
    .report (.unindexed check.operator field)
  let documentField ← .ofExcept (c.testedField field)
  if check.isRegex ∧ documentField = c.graph.id then
    .report (.identifierScan documentField)
  return .test documentField check.toFieldTest

/-- The predicate that ties the members of a group together. -/
def tie (junction : Junction) (first : Predicate) (rest : List Predicate) : Predicate :=
  match junction with
  | .all => .all (first :: rest)
  | .any => .any (first :: rest)
  | .notAll => .none [if rest.isEmpty then first else .all (first :: rest)]

mutual

def compile (c : Configuration) : Condition → Reported PlanError Predicate
  | .test field check _ => compileTest c field check
  | .group junction first rest _ => do
    let first ← first.compile c
    let rest ← compileAll c rest
    return tie junction first rest

def compileAll (c : Configuration) : List Condition → Reported PlanError (List Predicate)
  | [] => return []
  | condition :: conditions => do
    let first ← condition.compile c
    let rest ← compileAll c conditions
    return first :: rest

end

end Condition

namespace Query

def compile (c : Configuration) : Query → Reported PlanError Predicate
  | .path ids => return c.pathPredicate (ids.toList.map NonBlank.text)
  | .condition root => root.compile c

end Query

end Fonds
