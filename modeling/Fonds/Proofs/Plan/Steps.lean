import Fonds.Plan.OfRequest
import Fonds.Proofs.Query.Compiled

/-! What the parts of a plan are made from: each step from one query, each filter of a facet too. -/
namespace Fonds

open Store

variable {c : Configuration} {r : Request} {plan : Plan}

theorem PlanCore.step_eq_ok {core : PlanCore} {i : Nat} {s : PlanStep} :
    core.step i = .ok s ↔ core.steps[i]? = some s := by
  rw [step]
  split <;> simp_all

namespace Request

/-- The steps of a plan are those of the request, one by one. -/
theorem compileSteps_eq {roots : Predicate} {rank : Nat} {last final : Int} {qs : List Query}
    {steps : List PlanStep} (h : (compileSteps c roots rank last qs).outcome = .ok (steps, final)) :
    steps = (qs.zipIdx rank).map fun e => ⟨scopeOf c roots e.1 e.2, e.1.predicate c⟩ := by
  induction qs generalizing rank last steps final with
  | nil =>
    simp only [compileSteps, Reported.outcome_pure, Except.ok.injEq, Prod.mk.injEq] at h
    simp [← h.1]
  | cons q rest ih =>
    simp only [compileSteps, Reported.outcome_bind, Reported.outcome_report, ok_bind, bind_eq_ok]
      at h
    obtain ⟨p, hp, ⟨others, last'⟩, hrest, hpure⟩ := h
    simp only [Reported.outcome_pure, Except.ok.injEq, Prod.mk.injEq] at hpure
    rw [← hpure.1, Query.eq_predicate_of_compile hp, ih hrest]
    simp

theorem compileCore_of_plan (h : r.plan c = .ok plan) :
    (r.compileCore c).outcome = .ok plan.core ∧
      (compilePayload c r.core.filter r.payload).outcome = .ok plan.payload := by
  simp only [Request.plan, compile, Reported.outcome_bind, Reported.outcome_report, ok_bind,
    bind_eq_ok] at h
  obtain ⟨core, hcore, payload, hpayload, hplan⟩ := h
  obtain rfl : ⟨core, payload⟩ = plan := by simpa using hplan
  exact ⟨hcore, hpayload⟩

theorem plan_core (h : r.plan c = .ok plan) :
    plan.core.roots =
        c.rootScope (r.core.roots.elems.map NonBlank.text) r.core.steps.queries.head? ∧
      plan.core.steps = r.core.steps.queries.zipIdx.map fun e =>
        ⟨scopeOf c plan.core.roots e.1 e.2, e.1.predicate c⟩ := by
  have hcore := (compileCore_of_plan h).1
  simp only [compileCore, Reported.outcome_bind, bind_eq_ok] at hcore
  obtain ⟨⟨steps, last⟩, hsteps, hpure⟩ := hcore
  simp only [Reported.outcome_pure, Except.ok.injEq] at hpure
  rw [← hpure]
  exact ⟨rfl, compileSteps_eq hsteps⟩

theorem step_of_plan (h : r.plan c = .ok plan) {i : Nat} {s : PlanStep} :
    plan.core.step i = .ok s ↔ ∃ q, r.core.steps.queries[i]? = some q ∧
      s = ⟨scopeOf c plan.core.roots q i, q.predicate c⟩ := by
  rw [PlanCore.step_eq_ok, (plan_core h).2, List.getElem?_map, List.getElem?_zipIdx]
  cases r.core.steps.queries[i]? with
  | none => simp
  | some q => simp [eq_comm]

end Request

/-- The predicates by which an aggregation counts documents. -/
def Store.Aggregation.filterPredicates : Aggregation → List Predicate
  | .terms _ _ _ | .dateRange _ _ _ => []
  | .filters named => named.map Prod.snd
  | .nested _ _ inner => inner.filterPredicates

/-- The predicates by which the facets of a plan count documents. -/
def PlanPayload.filterPredicates : PlanPayload → List Predicate
  | .select s => s.aggregations.flatMap fun a => a.2.filterPredicates
  | _ => []

namespace Facet

/-- The queries by which a facet counts documents. -/
def queries (f : Facet) : List Query :=
  match f.body with
  | .terms _ _ _ _ | .dateRange _ _ _ => []
  | .filters queries _ => queries.values

theorem aggregate_eq_ok {name : NonBlank} {source : FacetField} {a b : Aggregation}
    (h : source.aggregate c name a = .ok b) : b.filterPredicates = a.filterPredicates := by
  rw [FacetField.aggregate] at h
  split at h
  · rw [Except.ok.inj h]
  · split at h
    · rw [← Except.ok.inj h, Aggregation.filterPredicates]
    · simp at h

theorem compileFilters_cons_eq_ok {e : NonBlank × Query} {rest : List (NonBlank × Query)}
    {named : List (String × Predicate)} :
    (compileFilters c (e :: rest)).outcome = .ok named ↔ ∃ p others,
      (e.2.compile c).outcome = .ok p ∧ (compileFilters c rest).outcome = .ok others ∧
      named = (e.1.text, p) :: others := by
  simp [compileFilters, bind_eq_ok, eq_comm (a := named)]

theorem compileAll_cons_eq_ok {facet : Facet} {rest : List Facet}
    {named : List (String × Aggregation)} :
    (compileAll c (facet :: rest)).outcome = .ok named ↔ ∃ a others,
      (compileBody c facet.name facet.body).outcome = .ok a ∧
      (compileAll c rest).outcome = .ok others ∧ named = (facet.name.text, a) :: others := by
  simp [compileAll, bind_eq_ok, eq_comm (a := named)]

theorem compileFilters_eq {queries : List (NonBlank × Query)} {named : List (String × Predicate)}
    (h : (compileFilters c queries).outcome = .ok named) :
    named = queries.map fun e => (e.1.text, e.2.predicate c) := by
  induction queries generalizing named with
  | nil => simpa [compileFilters, eq_comm] using h
  | cons e rest ih =>
    obtain ⟨p, others, hp, hrest, rfl⟩ := compileFilters_cons_eq_ok.1 h
    rw [Query.eq_predicate_of_compile hp, ih hrest, List.map_cons]

/-- A facet counts documents by the predicates of its queries. -/
theorem filterPredicates_of_compileBody {facet : Facet} {a : Aggregation}
    (h : (compileBody c facet.name facet.body).outcome = .ok a) :
    a.filterPredicates = facet.queries.map (Query.predicate c) := by
  obtain ⟨name, body⟩ := facet
  cases body with
  | terms source size positive order =>
    rw [aggregate_eq_ok h]
    rfl
  | dateRange source format ranges =>
    rw [aggregate_eq_ok h]
    rfl
  | filters named nonempty =>
    simp only [compileBody, Reported.outcome_bind, bind_eq_ok] at h
    obtain ⟨compiled, hcompiled, hpure⟩ := h
    simp only [Reported.outcome_pure, Except.ok.injEq] at hpure
    rw [← hpure, compileFilters_eq hcompiled]
    simp [Aggregation.filterPredicates, queries, OrderedMap.values]

theorem filterPredicates_of_compileAll {facets : List Facet} {named : List (String × Aggregation)}
    (h : (compileAll c facets).outcome = .ok named) :
    (named.flatMap fun a => a.2.filterPredicates) =
      (facets.flatMap queries).map (Query.predicate c) := by
  induction facets generalizing named with
  | nil =>
    obtain rfl : named = [] := by simpa [compileAll, eq_comm] using h
    rfl
  | cons facet rest ih =>
    obtain ⟨first, others, hfirst, hrest, rfl⟩ := compileAll_cons_eq_ok.1 h
    rw [List.flatMap_cons, filterPredicates_of_compileBody hfirst, ih hrest, List.flatMap_cons,
      List.map_append]

end Facet

namespace Request

theorem filterPredicates_of_plan (h : r.plan c = .ok plan) :
    plan.payload.filterPredicates = (r.facets.flatMap Facet.queries).map (Query.predicate c) := by
  have hpayload := (compileCore_of_plan h).2
  rw [facets]
  cases hr : r.payload with
  | select projection facets =>
    simp only [hr, compilePayload, Reported.outcome_bind, bind_eq_ok] at hpayload
    obtain ⟨named, hnamed, hpure⟩ := hpayload
    simp only [Reported.outcome_pure, Except.ok.injEq] at hpure
    rw [← hpure]
    exact Facet.filterPredicates_of_compileAll hnamed
  | _ =>
    simp only [hr, compilePayload, Reported.outcome_pure, Except.ok.injEq] at hpayload
    rw [← hpayload]
    rfl

theorem exists_query_of_filterPredicates (h : r.plan c = .ok plan) {p : Predicate}
    (hp : p ∈ plan.payload.filterPredicates) : ∃ q : Query, p = q.predicate c := by
  rw [filterPredicates_of_plan h] at hp
  obtain ⟨q, _, rfl⟩ := List.mem_map.1 hp
  exact ⟨q, rfl⟩

end Request

theorem title_nonempty : "Title" ≠ "" := by decide

/-- Asks for the titled children of a fonds that has a title itself. -/
def Request.titledChildren : Request where
  core := {
    roots := ⟨[⟨"fonds", by decide⟩], by simp⟩
    steps := {
      queries := [.condition (titled 0 (by decide)), .condition (titled 1 (by decide))]
      path_first := by simp [Query.isPath] }
    filter := {} }
  payload := .select {} .empty
where
  titled (levels : Int) (bounded : levels.natAbs ≤ maxDepth) : Condition :=
    .test ⟨"Title", rfl, title_nonempty⟩ .present (some (.relative levels bounded))

end Fonds
