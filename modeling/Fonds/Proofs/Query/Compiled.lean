import Fonds.Proofs.Outcome
import Fonds.Proofs.Plan.Fields

/-!
What compiling a query comes to. The predicate depends on the query alone, and there is one unless
the query tests all fields at once.
-/
namespace Fonds

open Store

variable {c : Configuration}

namespace Condition

mutual

/-- The predicate that a condition stands for, provided that its fields can be tested. -/
def predicate (c : Configuration) : Condition → Predicate
  | .test field check _ => .test (c.mapped field) check.toFieldTest
  | .group junction first rest _ => tie junction (first.predicate c) (predicates c rest)

def predicates (c : Configuration) : List Condition → List Predicate
  | [] => []
  | q :: qs => q.predicate c :: predicates c qs

end

mutual

/-- Whether a test in the condition is one of all fields at once. -/
def testsAllFields : Condition → Bool
  | .test field _ _ => field.text = Keyword.allFields
  | .group _ first rest _ => first.testsAllFields || anyTestsAllFields rest

def anyTestsAllFields : List Condition → Bool
  | [] => false
  | q :: qs => q.testsAllFields || anyTestsAllFields qs

end

theorem compileTest_outcome (field : Name) (check : Check) :
    (compileTest c field check).outcome =
      if field.text = Keyword.allFields then .error .testOfAllFields
      else .ok (.test (c.mapped field) check.toFieldTest) := by
  rw [compileTest, Configuration.testedField, Configuration.field_eq_mapped]
  by_cases hall : field.text = Keyword.allFields
  · cases check.isUnindexed <;> simp [hall]
  · simp only [hall, if_false]
    by_cases hscan : check.isRegex = true ∧ c.mapped field = c.graph.id
    · cases check.isUnindexed <;> simp [hscan]
    · cases check.isUnindexed <;> simp [hscan]

mutual

theorem compile_outcome (c : Configuration) : ∀ q : Condition, (q.compile c).outcome =
    if q.testsAllFields then .error .testOfAllFields else .ok (q.predicate c)
  | .test field check _ => by
    simp only [compile, compileTest_outcome, testsAllFields, predicate, decide_eq_true_eq]
  | .group junction first rest _ => by
    simp only [compile, Reported.outcome_bind, compile_outcome c first,
      compileAll_outcome c rest, testsAllFields, predicate]
    by_cases hf : first.testsAllFields
    · simp [hf]
    · by_cases hr : anyTestsAllFields rest <;> simp [hf, hr]

theorem compileAll_outcome (c : Configuration) : ∀ qs : List Condition,
    (compileAll c qs).outcome =
      if anyTestsAllFields qs then .error .testOfAllFields else .ok (predicates c qs)
  | [] => rfl
  | q :: qs => by
    simp only [compileAll, Reported.outcome_bind, compile_outcome c q, compileAll_outcome c qs,
      anyTestsAllFields, predicates]
    by_cases hq : q.testsAllFields
    · simp [hq]
    · by_cases hqs : anyTestsAllFields qs <;> simp [hq, hqs]

end

end Condition

namespace Query

def predicate (c : Configuration) : Query → Predicate
  | .path ids => c.pathPredicate (ids.toList.map NonBlank.text)
  | .condition q => q.predicate c

def testsAllFields : Query → Bool
  | .path _ => false
  | .condition q => q.testsAllFields

theorem compile_outcome (c : Configuration) (q : Query) : (q.compile c).outcome =
    if q.testsAllFields then .error .testOfAllFields else .ok (q.predicate c) := by
  cases q with
  | path ids => rfl
  | condition q => exact q.compile_outcome c

theorem eq_predicate_of_compile {q : Query} {p : Predicate} (h : (q.compile c).outcome = .ok p) :
    p = q.predicate c := by
  rw [compile_outcome] at h
  split at h
  · simp at h
  · exact (Except.ok.inj h).symm

end Query

end Fonds
