import Fonds.Proofs.Plan.Tests

/-!
What the full-text flag of a plan says. The flag is worked out from the request, before anything is
compiled, and the store is handed predicates. It holds exactly if one of those searches a text.
-/
namespace Fonds

open Store

variable {c : Configuration} {r : Request} {plan : Plan}

namespace Store.Predicate

variable {p : Predicate} {ps : List Predicate}

/-- A text is searched somewhere in the predicate, at whatever level. -/
inductive SearchesText : Predicate → Prop
  | term {field text : String} : SearchesText (.test field (.term text))
  | regex {field pattern : String} : SearchesText (.test field (.regex pattern))
  | all {p : Predicate} {members : List Predicate} (mem : p ∈ members) (inner : SearchesText p) :
      SearchesText (.all members)
  | any {p : Predicate} {members : List Predicate} (mem : p ∈ members) (inner : SearchesText p) :
      SearchesText (.any members)
  | none {p : Predicate} {members : List Predicate} (mem : p ∈ members) (inner : SearchesText p) :
      SearchesText (.none members)

theorem searchesText_all : (all ps).SearchesText ↔ ∃ p ∈ ps, p.SearchesText := by
  constructor
  · rintro (_ | _ | ⟨mem, inner⟩)
    exact ⟨_, mem, inner⟩
  · rintro ⟨p, mem, inner⟩
    exact .all mem inner

theorem searchesText_any : (any ps).SearchesText ↔ ∃ p ∈ ps, p.SearchesText := by
  constructor
  · rintro (_ | _ | _ | ⟨mem, inner⟩)
    exact ⟨_, mem, inner⟩
  · rintro ⟨p, mem, inner⟩
    exact .any mem inner

theorem searchesText_none : (none ps).SearchesText ↔ ∃ p ∈ ps, p.SearchesText := by
  constructor
  · rintro (_ | _ | _ | _ | ⟨mem, inner⟩)
    exact ⟨_, mem, inner⟩
  · rintro ⟨p, mem, inner⟩
    exact .none mem inner

/-- A text is searched by one of the tests of a predicate. -/
theorem exists_test_of_searchesText (h : p.SearchesText) :
    ∃ t ∈ p.tests, (∃ text, t.2 = .term text) ∨ ∃ pattern, t.2 = .regex pattern := by
  induction h with
  | term => exact ⟨_, tests_test ▸ List.mem_singleton_self _, .inl ⟨_, rfl⟩⟩
  | regex => exact ⟨_, tests_test ▸ List.mem_singleton_self _, .inr ⟨_, rfl⟩⟩
  | all mem _ ih =>
    obtain ⟨t, ht, hsearch⟩ := ih
    exact ⟨t, tests_all ▸ List.mem_flatMap.2 ⟨_, mem, ht⟩, hsearch⟩
  | any mem _ ih =>
    obtain ⟨t, ht, hsearch⟩ := ih
    exact ⟨t, tests_any ▸ List.mem_flatMap.2 ⟨_, mem, ht⟩, hsearch⟩
  | none mem _ ih =>
    obtain ⟨t, ht, hsearch⟩ := ih
    exact ⟨t, tests_none ▸ List.mem_flatMap.2 ⟨_, mem, ht⟩, hsearch⟩

end Store.Predicate

/-- Where a unit lies in the graph is not a matter of text. -/
theorem Configuration.not_searchesText_of_locates {p : Predicate} (h : c.Locates p) :
    ¬ p.SearchesText := by
  intro hp
  obtain ⟨⟨field, t⟩, ht, hsearch⟩ := Predicate.exists_test_of_searchesText hp
  have hgraph := h _ ht
  rcases hsearch with ⟨text, rfl⟩ | ⟨pattern, rfl⟩ <;> cases hgraph

theorem Check.searchesText_toFieldTest {field : String} {check : Check} :
    (Predicate.test field check.toFieldTest).SearchesText ↔ check.isFullText = true := by
  constructor
  · intro h
    cases check with
    | term text => rfl
    | regex pattern nonempty => rfl
    | _ => cases h
  · intro h
    cases check with
    | term text => exact .term
    | regex pattern nonempty => exact .regex
    | _ => simp [isFullText] at h

namespace Condition

/-- Whichever way the members of a group are tied, a text is searched if a member searches one. -/
theorem searchesText_tie {junction : Junction} {p : Predicate} {ps : List Predicate} :
    (tie junction p ps).SearchesText ↔ ∃ q ∈ p :: ps, q.SearchesText := by
  cases junction with
  | all => exact Predicate.searchesText_all
  | any => exact Predicate.searchesText_any
  | notAll =>
    rw [tie, Predicate.searchesText_none]
    cases ps with
    | nil => rfl
    | cons q qs => simp [Predicate.searchesText_all]

mutual

theorem searchesText_predicate :
    ∀ q : Condition, (q.predicate c).SearchesText ↔ q.isFullText = true
  | .test field check _ => by
    rw [predicate, isFullText]
    exact check.searchesText_toFieldTest
  | .group _ first rest _ => by
    rw [predicate, searchesText_tie, List.exists_mem_cons_iff, searchesText_predicate first,
      exists_searchesText_predicates rest, isFullText, Bool.or_eq_true]

theorem exists_searchesText_predicates : ∀ qs : List Condition,
    (∃ p ∈ predicates c qs, p.SearchesText) ↔ anyFullText qs = true
  | [] => by simp [predicates, anyFullText]
  | q :: qs => by
    rw [predicates, List.exists_mem_cons_iff, searchesText_predicate q,
      exists_searchesText_predicates qs, anyFullText, Bool.or_eq_true]

end

end Condition

theorem Query.searchesText_predicate (q : Query) :
    (q.predicate c).SearchesText ↔ q.isFullText = true := by
  cases q with
  | path ids =>
    have hlocates := c.locates_pathPredicate (ids.toList.map NonBlank.text)
    exact iff_of_false (c.not_searchesText_of_locates hlocates) Bool.false_ne_true
  | condition q => exact q.searchesText_predicate

theorem Facet.isFullText_iff {f : Facet} :
    f.isFullText = true ↔ ∃ q ∈ f.queries, q.isFullText = true := by
  obtain ⟨name, body⟩ := f
  cases body <;> simp [isFullText, FacetBody.isFullText, queries]

namespace Request

theorem isFullText_iff : r.isFullText = true ↔ ∃ q ∈ r.queries, q.isFullText = true := by
  simp only [isFullText, Steps.isFullText, Bool.or_eq_true, List.any_eq_true, Facet.isFullText_iff,
    queries, List.mem_append, List.mem_flatMap, or_and_right, exists_or]
  grind

theorem fullText_of_plan (h : r.plan c = .ok plan) : plan.core.fullText = r.isFullText := by
  have hcore := (compileCore_of_plan h).1
  simp only [compileCore, Reported.outcome_bind, bind_eq_ok] at hcore
  obtain ⟨⟨steps, last⟩, hsteps, hpure⟩ := hcore
  simp only [Reported.outcome_pure, Except.ok.injEq] at hpure
  rw [← hpure]

/-- The predicates of the steps and those of the facets are those of the queries, in order. -/
theorem queries_of_plan (h : r.plan c = .ok plan) :
    plan.core.steps.map PlanStep.query ++ plan.payload.filterPredicates =
      r.queries.map (Query.predicate c) := by
  have hsteps : plan.core.steps.map PlanStep.query =
      r.core.steps.queries.map (Query.predicate c) := by
    calc plan.core.steps.map PlanStep.query
      _ = (r.core.steps.queries.zipIdx.map Prod.fst).map (Query.predicate c) := by
        rw [(plan_core h).2, List.map_map, List.map_map]
        rfl
      _ = r.core.steps.queries.map (Query.predicate c) := by rw [List.zipIdx_map_fst]
  rw [hsteps, filterPredicates_of_plan h, queries, List.map_append]

/-- The flag of a plan is up exactly if a text is searched in what a step asks for or in a filter of
an aggregation, at whatever level. -/
theorem fullText_iff_searchesText (h : r.plan c = .ok plan) :
    plan.core.fullText = true ↔ (∃ s ∈ plan.core.steps, s.query.SearchesText) ∨
      ∃ p ∈ plan.payload.filterPredicates, p.SearchesText := by
  have hplan : (∃ p ∈ plan.core.steps.map PlanStep.query ++ plan.payload.filterPredicates,
      p.SearchesText) ↔ ∃ q ∈ r.queries, q.isFullText = true := by
    rw [queries_of_plan h]
    simp only [List.mem_map, exists_exists_and_eq_and, Query.searchesText_predicate]
  rw [fullText_of_plan h, isFullText_iff, ← hplan]
  simp [or_and_right, exists_or]

/-- Counts the units whose subject is not maps, with a search two levels down in a filter
of a facet. -/
def otherThanMaps : Request where
  core := .empty
  payload := .select {} ⟨[others], List.nodup_singleton _⟩
where
  maps : Condition := .test ⟨"Subject", rfl, by decide⟩ (.term "map") none
  others : Facet :=
    ⟨⟨"others", by decide⟩, .filters
      ⟨[(⟨"all", by decide⟩, .condition (.group .notAll (.group .any maps [] none) [] none))],
        List.nodup_singleton _⟩
      (List.cons_ne_nil _ _)⟩

/-- A plan without steps has the flag for what its facet searches. -/
theorem fullText_iff_searchesText_otherThanMaps : ∃ plan, otherThanMaps.plan .initial = .ok plan ∧
    plan.core.steps = [] ∧ ∃ p ∈ plan.payload.filterPredicates, p.SearchesText := by
  obtain ⟨plan, h⟩ : ∃ plan, otherThanMaps.plan .initial = .ok plan := ⟨_, rfl⟩
  have hsteps : plan.core.steps = [] := (plan_core h).2
  have hflag : plan.core.fullText = true := fullText_of_plan h
  refine ⟨plan, h, hsteps, ((fullText_iff_searchesText h).1 hflag).resolve_left ?_⟩
  rintro ⟨s, hs, _⟩
  exact absurd (hsteps ▸ hs) List.not_mem_nil

end Request

end Fonds
