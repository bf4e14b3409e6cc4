import Fonds.Proofs.Store.WellFormed

/-!
The tests that a predicate is built from, at all its levels. Putting predicates together adds no
tests, and a conjunction keeps them all.
-/
namespace Fonds.Store.Predicate

variable {p : Predicate} {ps : List Predicate}

mutual

/-- The tests of a predicate with the fields that they look at, in order. -/
def tests : Predicate → List (String × FieldTest)
  | .all members | .any members | .none members => allTests members
  | .always => []
  | .test field t => [(field, t)]

def allTests : List Predicate → List (String × FieldTest)
  | [] => []
  | p :: ps => p.tests ++ allTests ps

end

/-- The fields that a predicate looks at. -/
def fields (p : Predicate) : List String := p.tests.map Prod.fst

theorem allTests_eq : allTests ps = ps.flatMap tests := by
  induction ps with
  | nil => rfl
  | cons p ps ih => simp [allTests, ih]

@[simp] theorem tests_all : (all ps).tests = ps.flatMap tests := by
  rw [tests, allTests_eq]

@[simp] theorem tests_any : (any ps).tests = ps.flatMap tests := by
  rw [tests, allTests_eq]

@[simp] theorem tests_none : (none ps).tests = ps.flatMap tests := by
  rw [tests, allTests_eq]

@[simp] theorem tests_always : always.tests = [] := by rw [tests]

@[simp] theorem tests_test {field : String} {t : FieldTest} :
    (test field t).tests = [(field, t)] := by rw [tests]

@[simp] theorem tests_inIds {field : String} {set : IdSet} :
    (inIds field set).tests = [(field, .ids set)] := by
  rw [inIds, tests_test]

theorem tests_never : never.tests = [] := by simp [never]

theorem flatMap_tests_conjuncts : p.conjuncts.flatMap tests = p.tests := by
  cases p <;> simp [conjuncts]

theorem flatMap_tests_disjuncts : p.disjuncts.flatMap tests = p.tests := by
  cases p <;> simp [disjuncts]

theorem tests_conj : (conj ps).tests = ps.flatMap tests := by
  have hflat : (ps.flatMap conjuncts).flatMap tests = ps.flatMap tests := by
    simp only [List.flatMap_assoc, flatMap_tests_conjuncts]
  rw [← hflat, conj]
  split <;> rename_i heq <;> simp [heq]

/-- A disjunction that is decided without a test has none, any other has those of its members. -/
theorem mem_tests_of_mem_disj {t : String × FieldTest} (h : t ∈ (disj ps).tests) :
    ∃ p ∈ ps, t ∈ p.tests := by
  have hflat : (ps.flatMap disjuncts).flatMap tests = ps.flatMap tests := by
    simp only [List.flatMap_assoc, flatMap_tests_disjuncts]
  rw [← List.mem_flatMap, ← hflat]
  rw [disj] at h
  split at h
  · simp at h
  · split at h <;> rename_i heq
    · simp [tests_never] at h
    · simpa [heq] using h
    · simpa using h

end Fonds.Store.Predicate
