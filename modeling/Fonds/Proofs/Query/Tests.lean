import Fonds.Proofs.Query.Compiled
import Fonds.Proofs.Store.Tests

/-!
The tests that a query asks for, and what becomes of them. Compiling a query keeps its tests in
order; a path is looked up in the fields of the graph.
-/
namespace Fonds

open Store

variable {c : Configuration}

namespace Condition

mutual

/-- The tests of a condition at all levels with the names of their fields, from left to right. -/
def tests : Condition → List (Name × Check)
  | .test field check _ => [(field, check)]
  | .group _ first rest _ => first.tests ++ allTests rest

def allTests : List Condition → List (Name × Check)
  | [] => []
  | q :: qs => q.tests ++ allTests qs

end

end Condition

/-- The tests of a query. A path has none of its own. -/
def Query.tests : Query → List (Name × Check)
  | .path _ => []
  | .condition q => q.tests

/-- What a test comes to in the store, with the document field that it looks at. -/
def Configuration.storeTest (c : Configuration) (t : Name × Check) : String × FieldTest :=
  (c.mapped t.1, t.2.toFieldTest)

namespace Condition

theorem tests_tie {junction : Junction} {p : Predicate} {ps : List Predicate} :
    (tie junction p ps).tests = (p :: ps).flatMap Predicate.tests := by
  cases junction with
  | all => rw [tie, Predicate.tests_all]
  | any => rw [tie, Predicate.tests_any]
  | notAll =>
    cases ps with
    | nil => simp [tie]
    | cons q qs => simp [tie]

mutual

theorem tests_predicate : ∀ q : Condition, (q.predicate c).tests = q.tests.map c.storeTest
  | .test field check _ => by
    rw [predicate, Predicate.tests_test, tests]
    rfl
  | .group _ first rest _ => by
    rw [predicate, tests_tie, List.flatMap_cons, tests_predicate first, tests_predicates rest,
      tests, List.map_append]

theorem tests_predicates : ∀ qs : List Condition,
    (predicates c qs).flatMap Predicate.tests = (allTests qs).map c.storeTest
  | [] => rfl
  | q :: qs => by
    rw [predicates, List.flatMap_cons, tests_predicate q, tests_predicates qs, allTests,
      List.map_append]

end

end Condition

end Fonds
