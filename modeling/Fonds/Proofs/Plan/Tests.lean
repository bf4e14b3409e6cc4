import Fonds.Proofs.Plan.Steps
import Fonds.Proofs.Query.Tests

/-!
Where the tests in a plan come from. Each is one of the place of a unit in the graph or one that a
query of the request asks for, and none that a query asks for is lost.
-/
namespace Fonds

open Store

variable {c : Configuration} {r : Request} {plan : Plan} {p : Predicate} {ps : List Predicate}

/-- The predicates of a plan: that of the roots, those of the steps with their scopes, and those by
which facets count documents. -/
def Plan.predicates (plan : Plan) : List Predicate :=
  plan.core.roots :: (plan.core.steps.flatMap (fun s => [s.scope, s.query]) ++
    plan.payload.filterPredicates)

namespace Request

/-- The queries of a request, those of its steps before those of its facets. -/
def queries (r : Request) : List Query :=
  r.core.steps.queries ++ r.facets.flatMap Facet.queries

/-- The tests that the queries of a request ask for, in order. -/
def tests (r : Request) : List (Name × Check) := r.queries.flatMap Query.tests

end Request

namespace Configuration

/-- A test of the place of a unit in the graph. -/
inductive GraphTest (c : Configuration) : String × FieldTest → Prop
  | units {field : String} {set : IdSet}
      (lists : field ∈ [c.graph.id, c.graph.parents, c.graph.ancestors] ∨
        ∃ levels, field = c.ancestorsAt levels) : GraphTest c (field, .ids set)
  | depth {field : String} {comparison : Comparison} {n : Int}
      (holds : field = c.graph.minDepth ∨ field = c.graph.maxDepth) :
      GraphTest c (field, .compare comparison (.ofInt n))

/-- A predicate that asks for the places of units and for nothing else. -/
def Locates (c : Configuration) (p : Predicate) : Prop := ∀ t ∈ p.tests, c.GraphTest t

theorem locates_always : c.Locates .always := by simp [Locates]

theorem locates_conj (h : ∀ p ∈ ps, c.Locates p) : c.Locates (.conj ps) := by
  rw [Locates, Predicate.tests_conj]
  exact List.forall_mem_flatMap.2 h

theorem locates_disj (h : ∀ p ∈ ps, c.Locates p) : c.Locates (.disj ps) := by
  intro t ht
  obtain ⟨p, hp, htp⟩ := Predicate.mem_tests_of_mem_disj ht
  exact h p hp t htp

theorem locates_inIds {field : String} (set : IdSet)
    (lists : field ∈ [c.graph.id, c.graph.parents, c.graph.ancestors] ∨
      ∃ levels, field = c.ancestorsAt levels) : c.Locates (.inIds field set) := by
  intro t ht
  obtain rfl := List.mem_singleton.1 (Predicate.tests_inIds ▸ ht)
  exact .units lists

theorem locates_own (set : IdSet) : c.Locates (c.own set) := locates_inIds set (.inl (by simp))

theorem locates_descendants (set : IdSet) : c.Locates (c.descendants set) :=
  locates_inIds set (.inl (by simp))

theorem locates_ancestorsAt (levels : Nat) (set : IdSet) :
    c.Locates (.inIds (c.ancestorsAt levels) set) :=
  locates_inIds set (.inr ⟨levels, rfl⟩)

theorem locates_depthRange (level : Nat) : c.Locates (c.depthRange level) := by
  intro t ht
  simp only [depthRange, Predicate.tests_all, List.flatMap_cons, Predicate.tests_test,
    List.flatMap_nil, List.cons_append, List.nil_append, List.mem_cons, List.not_mem_nil,
    or_false] at ht
  rcases ht with rfl | rfl
  · exact .depth (.inl rfl)
  · exact .depth (.inr rfl)

theorem locates_relativeScope (set : IdSet) (levels : Int) :
    c.Locates (c.relativeScope set levels) := by
  rw [relativeScope]
  split
  · exact locates_own set
  split
  · exact locates_inIds set (.inl (by simp))
  split
  · refine locates_disj (List.forall_mem_cons.2 ⟨locates_own set, ?_⟩)
    exact List.forall_mem_singleton.2 (locates_own (.ancestors set levels.natAbs))
  · refine locates_disj fun p hp => ?_
    obtain ⟨k, _, rfl⟩ := List.mem_map.1 hp
    exact locates_ancestorsAt (k + 1) set

theorem locates_stepScope (set : IdSet) (qualifier : Option Depth) :
    c.Locates (c.stepScope set qualifier) := by
  match qualifier with
  | none => exact locates_descendants set
  | some (.relative levels _) => exact locates_relativeScope set levels
  | some (.exact level _) =>
    refine locates_conj (List.forall_mem_cons.2 ⟨locates_depthRange level, ?_⟩)
    exact List.forall_mem_singleton.2 (locates_descendants set)

theorem locates_topScope (qualifier : Option Depth) : c.Locates (c.topScope qualifier) := by
  match qualifier with
  | none => exact locates_always
  | some (.exact level _) => exact locates_depthRange level
  | some (.relative levels _) =>
    intro t ht
    obtain rfl := List.mem_singleton.1 (Predicate.tests_test ▸ ht)
    exact .depth (.inl rfl)

theorem locates_own_or {set : IdSet} (h : c.Locates p) : c.Locates (.disj [c.own set, p]) :=
  locates_disj (List.forall_mem_cons.2 ⟨locates_own set, List.forall_mem_singleton.2 h⟩)

theorem locates_anchoredScope (set : IdSet) (q : Query) : c.Locates (c.anchoredScope set q) := by
  cases q with
  | path ids => exact locates_own_or (locates_descendants set)
  | condition q =>
    rw [anchoredScope]
    split
    · refine locates_conj (List.forall_mem_cons.2 ⟨locates_depthRange _, ?_⟩)
      exact List.forall_mem_singleton.2 (locates_own_or (locates_descendants set))
    · split
      · exact locates_relativeScope set _
      · exact locates_own_or (locates_stepScope set _)
    · exact locates_own_or (locates_stepScope set none)

theorem locates_rootScope (roots : List String) (first : Option Query) :
    c.Locates (c.rootScope roots first) := by
  cases roots with
  | nil =>
    match first with
    | none => exact locates_always
    | some (.path _) => exact locates_always
    | some (.condition q) => exact locates_topScope q.qualifier
  | cons root rest =>
    match first with
    | none => exact locates_own (.literal (root :: rest))
    | some q => exact locates_anchoredScope (.literal (root :: rest)) q

/-- A path is looked up by the places of its units. -/
theorem locates_pathPredicate (ids : List String) : c.Locates (c.pathPredicate ids) := by
  rw [pathPredicate]
  split
  · exact locates_conj (by simp)
  · refine locates_conj (List.forall_mem_cons.2 ⟨locates_own _, fun p hp => ?_⟩)
    obtain ⟨e, _, rfl⟩ := List.mem_map.1 hp
    exact locates_ancestorsAt e.2 _

end Configuration

theorem Query.test_of_predicate {q : Query} {t : String × FieldTest}
    (h : t ∈ (q.predicate c).tests) : c.GraphTest t ∨ t ∈ q.tests.map c.storeTest := by
  cases q with
  | path ids => exact .inl (c.locates_pathPredicate _ t h)
  | condition q => exact .inr (q.tests_predicate (c := c) ▸ h)

namespace Request

theorem locates_scopeOf {roots : Predicate} (h : c.Locates roots) (q : Query) (i : Nat) :
    c.Locates (scopeOf c roots q i) := by
  cases i with
  | zero => exact h
  | succ i => exact Configuration.locates_stepScope (.step i) q.depth

/-- A predicate of a plan locates units or is that of a query. -/
theorem locates_or_exists_query (h : r.plan c = .ok plan) (hp : p ∈ plan.predicates) :
    c.Locates p ∨ ∃ q ∈ r.queries, p = q.predicate c := by
  obtain ⟨hroots, hsteps⟩ := plan_core h
  have hlocates : c.Locates plan.core.roots := hroots ▸ Configuration.locates_rootScope _ _
  rcases List.mem_cons.1 hp with rfl | hp
  · exact .inl hlocates
  rcases List.mem_append.1 hp with hp | hp
  · obtain ⟨s, hs, hps⟩ := List.mem_flatMap.1 hp
    rw [hsteps] at hs
    obtain ⟨e, he, rfl⟩ := List.mem_map.1 hs
    have hq : e.1 ∈ r.core.steps.queries := List.fst_mem_of_mem_zipIdx he
    rcases List.mem_cons.1 hps with rfl | hps
    · exact .inl (locates_scopeOf hlocates e.1 e.2)
    · exact .inr ⟨e.1, List.mem_append_left _ hq, List.mem_singleton.1 hps⟩
  · rw [filterPredicates_of_plan h] at hp
    obtain ⟨q, hq, rfl⟩ := List.mem_map.1 hp
    exact .inr ⟨q, List.mem_append_right _ hq, rfl⟩

theorem predicate_mem_predicates (h : r.plan c = .ok plan) {q : Query} (hq : q ∈ r.queries) :
    q.predicate c ∈ plan.predicates := by
  apply List.mem_cons_of_mem
  rcases List.mem_append.1 hq with hq | hq
  · obtain ⟨i, hi⟩ := List.mem_iff_getElem?.1 hq
    have hstep := (step_of_plan h).2 ⟨q, hi, rfl⟩
    apply List.mem_append_left
    exact List.mem_flatMap.2
      ⟨_, List.mem_of_getElem? (PlanCore.step_eq_ok.1 hstep), by simp⟩
  · apply List.mem_append_right
    rw [filterPredicates_of_plan h]
    exact List.mem_map_of_mem hq

/-- Nothing is tested in a plan but the places of units and what the request asks for. -/
theorem test_of_plan (h : r.plan c = .ok plan) (hp : p ∈ plan.predicates)
    {t : String × FieldTest} (ht : t ∈ p.tests) : c.GraphTest t ∨ t ∈ r.tests.map c.storeTest := by
  rcases locates_or_exists_query h hp with hlocates | ⟨q, hq, rfl⟩
  · exact .inl (hlocates t ht)
  · refine (Query.test_of_predicate ht).imp_right fun ht => ?_
    obtain ⟨s, hs, rfl⟩ := List.mem_map.1 ht
    exact List.mem_map_of_mem (List.mem_flatMap.2 ⟨q, hq, hs⟩)

/-- What the request asks for is tested. -/
theorem exists_predicate_of_test (h : r.plan c = .ok plan) {t : Name × Check} (ht : t ∈ r.tests) :
    ∃ p ∈ plan.predicates, c.storeTest t ∈ p.tests := by
  obtain ⟨q, hq, htq⟩ := List.mem_flatMap.1 ht
  refine ⟨q.predicate c, predicate_mem_predicates h hq, ?_⟩
  cases q with
  | path ids => exact absurd htq List.not_mem_nil
  | condition q =>
    rw [Query.predicate, q.tests_predicate]
    exact List.mem_map_of_mem htq

end Request

end Fonds
