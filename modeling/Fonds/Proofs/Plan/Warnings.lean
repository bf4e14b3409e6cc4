import Fonds.Proofs.Plan.Course
import Fonds.Proofs.Plan.Steps

/-!
What is reported of a request. Compiling it reports its start, the tests of each step that are dear
to run and the step itself, and such tests of its facets; where it has no plan, that is cut short at
the first test or facet that is refused.
-/
namespace Fonds

variable {c : Configuration} {r : Request}

/-- The warnings of a query: those of its tests at all levels, from left to right. -/
def Query.warnings (c : Configuration) (q : Query) : List Event :=
  q.tests.flatMap fun t => t.2.indexWarnings t.1 ++ t.2.scanWarnings c t.1

namespace Request

/-- What is reported of a request if nothing is refused. -/
def events (c : Configuration) (r : Request) : List Event :=
  r.opening ::
    (r.core.steps.queries.zipIdx.flatMap (fun (q, rank) =>
        q.warnings c ++ [stepEvent r.core.steps.queries rank q]) ++
      (r.facets.flatMap Facet.queries).flatMap (Query.warnings c))

end Request

theorem Query.events_course (q : Query) : q.course.flatMap (Mark.events c) = q.warnings c := by
  rw [course, List.flatMap_map]
  rfl

namespace Facet

theorem events_nested {name : NonBlank} {source : FacetField} :
    (source.nested.map (Mark.nested name source.field)).toList.flatMap (Mark.events c) = [] := by
  cases source.nested <;> rfl

theorem events_course (f : Facet) :
    f.course.flatMap (Mark.events c) = f.queries.flatMap (Query.warnings c) := by
  obtain ⟨name, body⟩ := f
  cases body with
  | terms source size positive order => exact events_nested
  | dateRange source format ranges => exact events_nested
  | filters queries nonempty =>
    simp only [course, Facet.queries, List.flatMap_assoc, Query.events_course]

end Facet

namespace Request

theorem events_course (r : Request) : r.course.flatMap (Mark.events c) = r.events c := by
  simp only [course, stepsCourse, events, List.flatMap_cons, List.flatMap_append,
    List.flatMap_assoc, Query.events_course, Facet.events_course]
  rfl

/-- What is reported of any request is a beginning of that. -/
theorem events_compile_prefix_events (c : Configuration) (r : Request) :
    (r.compile c).events <+: r.events c := by
  rw [(follows_compile c r).events, ← events_course]
  exact Mark.reached_prefix_flatMap _

theorem events_compile_of_plan {plan : Plan} (h : r.plan c = .ok plan) :
    (r.compile c).events = r.events c := by
  have hpassed : Mark.firstRefusal? r.course = none := by
    rw [Request.plan] at h
    rw [← (follows_compile c r).failure, Reported.failure?, h]
  rw [(follows_compile c r).events, ← events_course]
  exact Mark.reached_of_passed (List.findSome?_eq_none_iff.1 hpassed)

/-- A request that has a plan is reported in full. Of any other, exactly what comes before the first
test or facet that is refused is reported, and the warning of a missing index if that is for the
refused test. -/
theorem events_of_compile (c : Configuration) (r : Request) :
    r.course.flatMap (Mark.events c) = r.events c ∧
      match r.plan c with
      | .ok _ => (r.compile c).events = r.events c
      | .error e => ∃ passed m rest, r.course = passed ++ m :: rest ∧
          (∀ p ∈ passed, p.refusal? = none) ∧ m.refusal? = some e ∧
          (r.compile c).events = passed.flatMap (Mark.events c) ++ m.eventsRefused := by
  refine ⟨events_course r, ?_⟩
  cases hplan : r.plan c with
  | ok plan => exact events_compile_of_plan hplan
  | error e =>
    have hrefused : Mark.firstRefusal? r.course = some e := by
      rw [← (follows_compile c r).failure, Reported.failure?_eq_some_iff]
      exact hplan
    obtain ⟨passed, m, rest, hcourse, hm, hpassed⟩ := List.findSome?_eq_some_iff.1 hrefused
    refine ⟨passed, m, rest, hcourse, hpassed, hm, ?_⟩
    rw [(follows_compile c r).events, hcourse]
    exact Mark.reached_of_refused hpassed hm

/-- Looks for units by a pattern on their identifiers or among those without pages, and asks for a
test of all fields in between. -/
def everywhere : Request where
  core := {
    roots := .empty
    steps := {
      queries := [.condition (.group .any pattern [nullAnywhere, pageless] none)]
      path_first := fun _ h => absurd h List.not_mem_nil }
    filter := {} }
  payload := .delete
where
  pattern : Condition := .test ⟨"#id", rfl, by decide⟩ (.regex "^a" (by decide)) none
  nullAnywhere : Condition := .test .allFields .isNull none
  pageless : Condition := .test ⟨"Pages", rfl, by decide⟩ (.size 0 (by decide)) none

/-- The index that the refused test has not got is reported, and nothing after it. -/
example : (everywhere.compile .initial).events = [.compiling .delete 1, .identifierScan "_id",
    .unindexed .isNull .allFields] := rfl

end Request

end Fonds
