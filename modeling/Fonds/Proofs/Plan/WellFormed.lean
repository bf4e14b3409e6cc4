import Fonds.Proofs.Plan.Scopes
import Fonds.Proofs.Plan.Steps
import Fonds.Proofs.Query.WellFormed

/-!
Plans that a store and its driver can carry out: nothing in them is empty that the store wants to
have members, and a step waits for the one before it and for no other.
-/
namespace Fonds

open Store

variable {c : Configuration} {r : Request} {plan : Plan}

/-- A plan of so many steps that can be carried out one after the other. -/
structure Plan.WellFormed (c : Configuration) (n : Nat) (plan : Plan) : Prop where
  length_steps : plan.core.steps.length = n
  exists_step_iff : ∀ i, (∃ s, plan.core.step i = .ok s) ↔ i < n
  admits_roots : c.Admits plan.core.roots
  refs_roots : plan.core.roots.refs = []
  scope_first : ∀ s, plan.core.step 0 = .ok s → s.scope = plan.core.roots
  admits_scope : ∀ i s, plan.core.step i = .ok s → c.Admits s.scope
  refs_scope : ∀ i s, plan.core.step (i + 1) = .ok s →
    s.scope.refs ≠ [] ∧ ∀ k ∈ s.scope.refs, k = i
  query : ∀ i s, plan.core.step i = .ok s → s.query.WellFormed ∧ s.query.refs = []
  /-- The whole predicate of a step, and its own predicate among the units of the roots. -/
  request : ∀ i s, plan.core.step i = .ok s →
    s.request.WellFormed ∧ (s.query.within plan.core.roots).WellFormed
  filters : ∀ p ∈ plan.payload.filterPredicates, p.WellFormed ∧ p.refs = []

theorem Store.Predicate.wellFormed_within {query scope : Predicate} (hq : query.WellFormed)
    (hs : scope.WellFormed) : (query.within scope).WellFormed := by
  apply wellFormed_conj
  simpa using ⟨hs, hq⟩

namespace Request

/-- A step other than the first is seen from what the step before it matched. -/
theorem around_scopeOf (roots : Predicate) (q : Query) (i : Nat) :
    c.Around (.step i) (scopeOf c roots q (i + 1)) ∧
      (scopeOf c roots q (i + 1)).idTests.length ≤ maxDepth := by
  have hanchor : (IdSet.step i).WellFormed := trivial
  exact Configuration.around_stepScope hanchor q.depth

theorem admits_roots_of_plan (h : r.plan c = .ok plan) :
    c.Admits plan.core.roots ∧ plan.core.roots.refs = [] := by
  rw [(plan_core h).1]
  exact c.admits_rootScope _ _

theorem admits_scope_of_plan (h : r.plan c = .ok plan) {i : Nat} {s : PlanStep}
    (hs : plan.core.step i = .ok s) : c.Admits s.scope := by
  obtain ⟨q, _, rfl⟩ := (step_of_plan h).1 hs
  cases i with
  | zero => exact (admits_roots_of_plan h).1
  | succ i =>
    obtain ⟨haround, hlength⟩ := around_scopeOf (c := c) plan.core.roots q i
    exact haround.admits rfl (Nat.le_succ_of_le hlength)

theorem refs_scope_of_plan (h : r.plan c = .ok plan) {i : Nat} {s : PlanStep}
    (hs : plan.core.step (i + 1) = .ok s) : s.scope.refs ≠ [] ∧ ∀ k ∈ s.scope.refs, k = i := by
  obtain ⟨q, _, rfl⟩ := (step_of_plan h).1 hs
  have haround := (around_scopeOf (c := c) plan.core.roots q i).1
  refine ⟨haround.refs_ne_nil (by simp [IdSet.refs]), fun k hk => ?_⟩
  simpa [IdSet.refs] using haround.mem_refs hk

theorem query_of_plan (h : r.plan c = .ok plan) {i : Nat} {s : PlanStep}
    (hs : plan.core.step i = .ok s) : s.query.WellFormed ∧ s.query.refs = [] := by
  obtain ⟨q, _, rfl⟩ := (step_of_plan h).1 hs
  exact ⟨q.wellFormed_predicate, q.refs_predicate⟩

theorem exists_step_of_plan (h : r.plan c = .ok plan) (i : Nat) :
    (∃ s, plan.core.step i = .ok s) ↔ i < r.core.steps.size := by
  constructor
  · rintro ⟨s, hs⟩
    obtain ⟨q, hq, _⟩ := (step_of_plan h).1 hs
    exact (List.getElem?_eq_some_iff.1 hq).1
  · intro hi
    exact ⟨_, (step_of_plan h).2 ⟨_, List.getElem?_eq_getElem hi, rfl⟩⟩

/-- Whatever a request asks for, its plan can be carried out if there is one. -/
theorem wellFormed_of_plan (h : r.plan c = .ok plan) :
    plan.WellFormed c r.core.steps.size where
  length_steps := by
    rw [(plan_core h).2, List.length_map, List.length_zipIdx]
    rfl
  exists_step_iff := exists_step_of_plan h
  admits_roots := (admits_roots_of_plan h).1
  refs_roots := (admits_roots_of_plan h).2
  scope_first s hs := by
    obtain ⟨q, _, rfl⟩ := (step_of_plan h).1 hs
    rfl
  admits_scope _ _ hs := admits_scope_of_plan h hs
  refs_scope _ _ hs := refs_scope_of_plan h hs
  query _ _ hs := query_of_plan h hs
  request i s hs := by
    have hquery := (query_of_plan h hs).1
    exact ⟨Predicate.wellFormed_within hquery (admits_scope_of_plan h hs).wellFormed,
      Predicate.wellFormed_within hquery (admits_roots_of_plan h).1.wellFormed⟩
  filters p hp := by
    obtain ⟨q, rfl⟩ := exists_query_of_filterPredicates h hp
    exact ⟨q.wellFormed_predicate, q.refs_predicate⟩

/-- The second of two steps waits for the first. -/
theorem wellFormed_of_plan_titledChildren : ∃ plan, titledChildren.plan .initial = .ok plan ∧
    plan.WellFormed .initial 2 ∧ ∃ s, plan.core.step 1 = .ok s ∧ s.scope.refs = [0] := by
  obtain ⟨plan, h⟩ : ∃ plan, titledChildren.plan .initial = .ok plan := ⟨_, rfl⟩
  refine ⟨plan, h, wellFormed_of_plan h, _, (step_of_plan h).2 ⟨_, rfl, rfl⟩, rfl⟩

end Request

end Fonds
