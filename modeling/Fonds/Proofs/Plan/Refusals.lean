import Fonds.Proofs.Plan.Course

/-!
Requests that have no plan. What a request demands of the store stands in a fixed order, and the
first demand that cannot be met is the reason that is given; where all can be met there is a plan.
-/
namespace Fonds

open Store

variable {α : Type} {c : Configuration}

/-- The demands of a query, from left to right. -/
def Query.demands (q : Query) : List Demand := q.tests.map fun t => .test t.1

/-- A test in the query, at some level, is one of all fields at once. -/
def Query.TestsAllFields (q : Query) : Prop := ∃ t ∈ q.tests, t.1.text = "#all"

namespace Facet

def demands (f : Facet) : List Demand :=
  match f.body with
  | .terms source _ _ _ | .dateRange source _ _ =>
    (source.nested.map (Demand.nested f.name source.field)).toList
  | .filters queries _ => queries.values.flatMap Query.demands

/-- A query of the facet tests all fields at once, or the field of the facet does not lie at the
path of its sub-documents. -/
def IsRefused (f : Facet) : Prop :=
  match f.body with
  | .terms source _ _ _ | .dateRange source _ _ =>
    ∃ path, source.nested = some path ∧ ¬ Within source.field.text path.text
  | .filters queries _ => ∃ q ∈ queries.values, q.TestsAllFields

end Facet

/-- The demands of a request, those of its steps before those of its facets. -/
def Request.demands (r : Request) : List Demand :=
  r.core.steps.queries.flatMap Query.demands ++ r.facets.flatMap Facet.demands

/-- Events are no reason to refuse anything. -/
theorem Mark.firstRefusal?_eq (course : List Mark) :
    firstRefusal? course = Demand.firstRefusal? (course.filterMap demand?) := by
  induction course with
  | nil => rfl
  | cons m course ih =>
    rw [firstRefusal?_cons, ih, refusal?]
    cases hm : m.demand? with
    | none => rw [List.filterMap_cons_none hm, Option.bind_none, Option.none_or]
    | some d =>
      rw [List.filterMap_cons_some hm, Option.bind_some, Demand.firstRefusal?,
        Demand.firstRefusal?, List.findSome?_cons]
      cases d.refusal? <;> rfl

namespace Demand

theorem exists_mem_flatMap {demands : α → List Demand} {P : Demand → Prop} {l : List α} :
    (∃ d ∈ l.flatMap demands, P d) ↔ ∃ a ∈ l, ∃ d ∈ demands a, P d := by
  simp only [List.mem_flatMap]
  constructor
  · rintro ⟨d, ⟨a, ha, hd⟩, hP⟩
    exact ⟨a, ha, d, hd, hP⟩
  · rintro ⟨a, ha, d, hd, hP⟩
    exact ⟨d, ⟨a, ha, hd⟩, hP⟩

end Demand

theorem PlanError.exists_message (e : PlanError) :
    ∃ what, e.message = "cannot translate " ++ what := by
  cases e with
  | testOfAllFields => exact ⟨"a predicate on " ++ Keyword.allFields, rfl⟩
  | fieldOutsideNested facet field path =>
    exact ⟨s!"facet {facet}: field {field} is not under the nested path {path}", rfl⟩

theorem Query.exists_refused_demand_iff {q : Query} :
    (∃ d ∈ q.demands, d.refusal?.isSome) ↔ q.TestsAllFields := by
  rw [demands, TestsAllFields]
  constructor
  · rintro ⟨d, hd, hrefused⟩
    obtain ⟨t, ht, rfl⟩ := List.mem_map.1 hd
    refine ⟨t, ht, ?_⟩
    by_contra hother
    simp [Demand.refusal?, hother] at hrefused
  · rintro ⟨t, ht, hall⟩
    exact ⟨.test t.1, List.mem_map_of_mem ht, by simp [Demand.refusal?, hall]⟩

theorem Query.demands_course (q : Query) : q.course.filterMap Mark.demand? = q.demands := by
  rw [course, demands, List.filterMap_map]
  exact congrFun List.filterMap_eq_map _

namespace Facet

theorem demands_nested {name : NonBlank} {source : FacetField} :
    (source.nested.map (Mark.nested name source.field)).toList.filterMap Mark.demand? =
      (source.nested.map (Demand.nested name source.field)).toList := by
  cases source.nested <;> rfl

theorem demands_course (f : Facet) : f.course.filterMap Mark.demand? = f.demands := by
  obtain ⟨name, body⟩ := f
  cases body with
  | terms source size positive order => exact demands_nested
  | dateRange source format ranges => exact demands_nested
  | filters queries nonempty =>
    simp only [course, demands, List.filterMap_flatMap, Query.demands_course]

theorem exists_refused_nested_iff {name : NonBlank} {source : FacetField} :
    (∃ d ∈ (source.nested.map (Demand.nested name source.field)).toList, d.refusal?.isSome) ↔
      ∃ path, source.nested = some path ∧ ¬ Within source.field.text path.text := by
  cases source.nested with
  | none => simp
  | some path =>
    by_cases hunder : Within source.field.text path.text
    · simp [Demand.refusal?, hunder]
    · simp [Demand.refusal?, hunder]

theorem exists_refused_demand_iff {f : Facet} :
    (∃ d ∈ f.demands, d.refusal?.isSome) ↔ f.IsRefused := by
  obtain ⟨name, body⟩ := f
  cases body with
  | terms source size positive order => exact exists_refused_nested_iff
  | dateRange source format ranges => exact exists_refused_nested_iff
  | filters queries nonempty =>
    simp only [demands, IsRefused, Demand.exists_mem_flatMap, Query.exists_refused_demand_iff]

end Facet

namespace Request

theorem demands_stepsCourse (before queries : List Query) :
    (stepsCourse before queries).filterMap Mark.demand? = queries.flatMap Query.demands := by
  induction queries generalizing before with
  | nil => rfl
  | cons q rest ih =>
    rw [stepsCourse_cons, List.filterMap_append, q.demands_course, List.flatMap_cons,
      ← ih (before ++ [q])]
    rfl

/-- The demands of a request are those that come up on its course. -/
theorem demands_course (r : Request) : r.course.filterMap Mark.demand? = r.demands := by
  have hfacets : (r.facets.flatMap Facet.course).filterMap Mark.demand? =
      r.facets.flatMap Facet.demands := by
    simp only [List.filterMap_flatMap, Facet.demands_course]
  rw [demands, ← demands_stepsCourse [], ← hfacets, ← List.filterMap_append]
  rfl

/-- Compiling a request fails on the first of its demands that cannot be met. -/
theorem failure?_compile (r : Request) :
    (r.compile c).failure? = Demand.firstRefusal? r.demands := by
  rw [(follows_compile c r).failure, Mark.firstRefusal?_eq, demands_course]

theorem exists_refused_demand_iff {r : Request} : (∃ d ∈ r.demands, d.refusal?.isSome) ↔
    (∃ q ∈ r.core.steps.queries, q.TestsAllFields) ∨ ∃ f ∈ r.facets, f.IsRefused := by
  rw [demands]
  simp only [List.mem_append, or_and_right, exists_or, Demand.exists_mem_flatMap,
    Query.exists_refused_demand_iff, Facet.exists_refused_demand_iff]

/-- A request has no plan exactly if a step tests all fields at once, or one of its facets does or
counts over a field outside its sub-documents. The reason given is the first there is: steps come
before facets, and within a query tests come from left to right. -/
theorem plan_eq_error_iff (c : Configuration) (r : Request) :
    ((∃ e, r.plan c = .error e) ↔
      (∃ q ∈ r.core.steps.queries, q.TestsAllFields) ∨ ∃ f ∈ r.facets, f.IsRefused) ∧
    (∀ e, r.plan c = .error e ↔ ∃ met d rest, r.demands = met ++ d :: rest ∧
      (∀ m ∈ met, m.refusal? = none) ∧ d.refusal? = some e) ∧
    ∀ e, r.plan c = .error e → ∃ what, e.message = "cannot translate " ++ what := by
  have hplan : ∀ e, r.plan c = .error e ↔ Demand.firstRefusal? r.demands = some e := fun e => by
    rw [← failure?_compile (c := c), Reported.failure?_eq_some_iff, Request.plan]
  refine ⟨?_, ?_, ?_⟩
  · simp only [hplan]
    rw [← Option.isSome_iff_exists, Demand.firstRefusal?, List.findSome?_isSome_iff,
      exists_refused_demand_iff]
  · intro e
    rw [hplan, Demand.firstRefusal?, List.findSome?_eq_some_iff]
    constructor
    · rintro ⟨met, d, rest, hdemands, hd, hmet⟩
      exact ⟨met, d, rest, hdemands, hmet, hd⟩
    · rintro ⟨met, d, rest, hdemands, hmet, hd⟩
      exact ⟨met, d, rest, hdemands, hd, hmet⟩
  · intro e _
    exact e.exists_message

end Request

end Fonds
