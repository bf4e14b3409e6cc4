import Fonds.Plan.Scope
import Fonds.Proofs.Plan.Fields
import Fonds.Proofs.Store.WellFormed

/-!
What scopes are made of. Every scope that is seen from a set looks that set up in the fields of the
graph, or the sets so many levels above it, and nothing else; no level is out of bounds.
-/
namespace Fonds

open Store

variable {c : Configuration} {anchor : IdSet} {p : Predicate}

namespace Configuration

/-- The fields that list units of the graph, with the distances that a qualifier can name. -/
def ListsUnits (c : Configuration) (field : String) : Prop :=
  field ∈ [c.graph.id, c.graph.parents, c.graph.ancestors] ∨
    ∃ levels : Nat, 1 ≤ levels ∧ levels ≤ 100 ∧
      field = c.graph.ancestorsByDistance ++ "." ++ toString levels

/-- A scope that is seen from a set. -/
structure Around (c : Configuration) (anchor : IdSet) (p : Predicate) : Prop where
  wellFormed : p.WellFormed
  fields : ∀ e ∈ p.idTests, c.ListsUnits e.1
  sets : ∀ e ∈ p.idTests, e.2 = anchor ∨
    ∃ levels, 1 ≤ levels ∧ levels ≤ maxDepth ∧ e.2 = .ancestors anchor levels
  idTests_ne_nil : p.idTests ≠ []

namespace Around

theorem refs_ne_nil (hp : c.Around anchor p) (h : anchor.refs ≠ []) : p.refs ≠ [] := by
  obtain ⟨e, he⟩ := List.exists_mem_of_ne_nil _ hp.idTests_ne_nil
  have hrefs : e.2.refs = anchor.refs := by
    rcases hp.sets e he with heq | ⟨levels, _, _, heq⟩
    · rw [heq]
    · rw [heq, IdSet.refs]
  intro hnil
  exact h (hrefs ▸ List.flatMap_eq_nil_iff.1 hnil e he)

/-- A scope refers to no other steps than the set it is seen from. -/
theorem mem_refs (hp : c.Around anchor p) {k : Nat} (hk : k ∈ p.refs) : k ∈ anchor.refs := by
  obtain ⟨e, he, hke⟩ := List.mem_flatMap.1 hk
  rcases hp.sets e he with heq | ⟨levels, _, _, heq⟩
  · rwa [heq] at hke
  · rwa [heq, IdSet.refs] at hke

theorem distances (hp : c.Around anchor p) (h : anchor.distances = []) :
    ∀ e ∈ p.idTests, ∀ levels ∈ e.2.distances, 1 ≤ levels ∧ levels ≤ maxDepth := by
  intro e he levels hlevels
  rcases hp.sets e he with heq | ⟨levels', hone, hmax, heq⟩
  · rw [heq, h] at hlevels
    exact absurd hlevels List.not_mem_nil
  · obtain rfl : levels = levels' := by simpa [heq, IdSet.distances, h] using hlevels
    exact ⟨hone, hmax⟩

/-- What always holds looks nothing up. -/
theorem isAlways_eq_false (hp : c.Around anchor p) : p.isAlways = false := by
  cases p with
  | always => exact absurd Predicate.idTests_always hp.idTests_ne_nil
  | _ => rfl

theorem idTests_disj {ps : List Predicate} (hps : ∀ p ∈ ps, c.Around anchor p) :
    (Predicate.disj ps).idTests = ps.flatMap Predicate.idTests := by
  apply Predicate.idTests_disj
  rw [List.any_eq_false]
  intro p hp
  rw [(hps p hp).isAlways_eq_false]
  exact Bool.false_ne_true

theorem disj {ps : List Predicate} (hps : ∀ p ∈ ps, c.Around anchor p) (hne : ps ≠ []) :
    c.Around anchor (.disj ps) := by
  have htests := idTests_disj hps
  constructor
  · exact Predicate.wellFormed_disj fun p hp => (hps p hp).wellFormed
  · rw [htests]
    exact List.forall_mem_flatMap.2 fun p hp => (hps p hp).fields
  · rw [htests]
    exact List.forall_mem_flatMap.2 fun p hp => (hps p hp).sets
  · obtain ⟨p, hp⟩ := List.exists_mem_of_ne_nil _ hne
    rw [htests]
    intro hnil
    exact (hps p hp).idTests_ne_nil (List.flatMap_eq_nil_iff.1 hnil p hp)

end Around

theorem wellFormed_depthRange (level : Nat) : (c.depthRange level).WellFormed := by
  simp [depthRange, Predicate.WellFormed, FieldTest.WellFormed]

/-- Depths are numbers, not identifiers. -/
theorem idTests_depthRange (level : Nat) : (c.depthRange level).idTests = [] := by
  simp [depthRange, FieldTest.idTests]

theorem idTests_conj_depthRange (level : Nat) :
    (Predicate.conj [c.depthRange level, p]).idTests = p.idTests := by
  simp [Predicate.idTests_conj, idTests_depthRange]

theorem Around.conj_depthRange (hp : c.Around anchor p) (level : Nat) :
    c.Around anchor (.conj [c.depthRange level, p]) := by
  have htests := idTests_conj_depthRange (c := c) (p := p) level
  constructor
  · apply Predicate.wellFormed_conj
    simpa using ⟨wellFormed_depthRange level, hp.wellFormed⟩
  · exact htests ▸ hp.fields
  · exact htests ▸ hp.sets
  · exact htests ▸ hp.idTests_ne_nil

section Anchored

variable (ha : anchor.WellFormed)
include ha

theorem around_inIds {field : String} (hf : c.ListsUnits field) :
    c.Around anchor (.inIds field anchor) where
  wellFormed := Predicate.wellFormed_inIds.2 ha
  fields := by simpa using hf
  sets := by simp
  idTests_ne_nil := by simp

theorem around_own : c.Around anchor (c.own anchor) := around_inIds ha (.inl (by simp))

theorem around_descendants : c.Around anchor (c.descendants anchor) :=
  around_inIds ha (.inl (by simp))

/-- The ancestors up to some level above the set. -/
theorem around_ancestors {levels : Nat} (hone : 1 ≤ levels) (hmax : levels ≤ maxDepth) :
    c.Around anchor (.inIds c.graph.id (.ancestors anchor levels)) where
  wellFormed := Predicate.wellFormed_inIds.2 ha
  fields := by simp [ListsUnits]
  sets e he := by
    obtain rfl : e = _ := by simpa using he
    exact .inr ⟨levels, hone, hmax, rfl⟩
  idTests_ne_nil := by simp

/-- What goes around a set by itself, and its tests, of which there are no more than levels. -/
theorem around_relativeScope {levels : Int} (h : levels.natAbs ≤ maxDepth) :
    c.Around anchor (c.relativeScope anchor levels) ∧
      (c.relativeScope anchor levels).idTests.length ≤ maxDepth := by
  have hone : 1 ≤ maxDepth := by decide
  have htwo : 2 ≤ maxDepth := by decide
  simp only [relativeScope]
  by_cases hzero : levels = 0
  · rw [if_pos hzero]
    exact ⟨around_own ha, by simpa [own] using hone⟩
  by_cases hchild : levels = 1
  · rw [if_neg hzero, if_pos hchild]
    exact ⟨around_inIds ha (.inl (by simp)), by simpa using hone⟩
  by_cases hneg : levels < 0
  · have hmembers : ∀ p ∈ [c.own anchor, .inIds c.graph.id (.ancestors anchor levels.natAbs)],
        c.Around anchor p := by
      simpa using ⟨around_own ha, around_ancestors ha (by omega) h⟩
    rw [if_neg hzero, if_neg hchild, if_pos hneg]
    refine ⟨.disj hmembers (by simp), ?_⟩
    rw [Around.idTests_disj hmembers]
    simpa [own] using htwo
  · have hmembers : ∀ p ∈ (List.range levels.natAbs).map fun k =>
        Predicate.inIds (c.ancestorsAt (k + 1)) anchor, c.Around anchor p := by
      intro p hp
      obtain ⟨k, hk, rfl⟩ := List.mem_map.1 hp
      have hlevel : k + 1 ≤ maxDepth := Nat.le_trans (List.mem_range.1 hk) h
      exact around_inIds ha (.inr ⟨k + 1, by omega, hlevel, c.ancestorsAt_eq (k + 1)⟩)
    rw [if_neg hzero, if_neg hchild, if_neg hneg]
    refine ⟨.disj hmembers (by simpa using hzero), ?_⟩
    rw [Around.idTests_disj hmembers, List.length_flatMap, List.map_map]
    simpa [Function.comp_def, List.map_const'] using h

/-- The scope of a later step. -/
theorem around_stepScope (qualifier : Option Depth) :
    c.Around anchor (c.stepScope anchor qualifier) ∧
      (c.stepScope anchor qualifier).idTests.length ≤ maxDepth := by
  have hone : 1 ≤ maxDepth := by decide
  match qualifier with
  | none => exact ⟨around_descendants ha, by simpa [stepScope, descendants] using hone⟩
  | some (.relative levels h) => exact around_relativeScope ha h
  | some (.exact level h) =>
    refine ⟨(around_descendants ha).conj_depthRange level, ?_⟩
    rw [stepScope, idTests_conj_depthRange]
    simpa [descendants] using hone

/-- A scope with the set itself in addition. -/
theorem around_own_or {n : Nat} (hp : c.Around anchor p ∧ p.idTests.length ≤ n) :
    c.Around anchor (.disj [c.own anchor, p]) ∧
      (Predicate.disj [c.own anchor, p]).idTests.length ≤ n + 1 := by
  have hmembers : ∀ q ∈ [c.own anchor, p], c.Around anchor q := by
    simpa using ⟨around_own ha, hp.1⟩
  refine ⟨.disj hmembers (by simp), ?_⟩
  rw [Around.idTests_disj hmembers]
  simpa [own] using hp.2

theorem around_anchoredScope (q : Query) :
    c.Around anchor (c.anchoredScope anchor q) ∧
      (c.anchoredScope anchor q).idTests.length ≤ maxDepth + 1 := by
  have hdescendants : c.Around anchor (c.descendants anchor) ∧
      (c.descendants anchor).idTests.length ≤ maxDepth := around_stepScope ha none
  cases q with
  | path ids => exact around_own_or ha hdescendants
  | condition q =>
    simp only [anchoredScope]
    match q.qualifier with
    | none => exact around_own_or ha hdescendants
    | some (.exact level h) =>
      obtain ⟨haround, hlength⟩ := around_own_or ha hdescendants
      refine ⟨haround.conj_depthRange level, ?_⟩
      rwa [idTests_conj_depthRange]
    | some (.relative levels h) =>
      dsimp only
      by_cases hle : levels ≤ 0
      · rw [if_pos hle]
        obtain ⟨haround, hlength⟩ := around_relativeScope (c := c) ha h
        exact ⟨haround, Nat.le_succ_of_le hlength⟩
      · rw [if_neg hle]
        exact around_own_or ha (around_stepScope ha _)

end Anchored

theorem wellFormed_topScope (qualifier : Option Depth) : (c.topScope qualifier).WellFormed := by
  match qualifier with
  | none => exact Predicate.wellFormed_always
  | some (.exact level _) => exact wellFormed_depthRange level
  | some (.relative _ _) => simp [topScope, Predicate.WellFormed, FieldTest.WellFormed]

theorem idTests_topScope (qualifier : Option Depth) : (c.topScope qualifier).idTests = [] := by
  match qualifier with
  | none => exact Predicate.idTests_always
  | some (.exact level _) => exact idTests_depthRange level
  | some (.relative _ _) => simp [topScope, FieldTest.idTests]

/-- A scope that the store can be asked for. Its tests for identifiers are few, and none names a
level that is out of bounds. -/
structure Admits (c : Configuration) (scope : Predicate) : Prop where
  wellFormed : scope.WellFormed
  fields : ∀ e ∈ scope.idTests, c.ListsUnits e.1
  distances : ∀ e ∈ scope.idTests, ∀ levels ∈ e.2.distances, 1 ≤ levels ∧ levels ≤ 100
  length_idTests_le : scope.idTests.length ≤ 101

theorem Around.admits (hp : c.Around anchor p) (h : anchor.distances = [])
    (hlength : p.idTests.length ≤ maxDepth + 1) : c.Admits p where
  wellFormed := hp.wellFormed
  fields := hp.fields
  distances := hp.distances h
  length_idTests_le := hlength

/-- The scope of the first step is one for the store, and waits for no other step. -/
theorem admits_rootScope (roots : List String) (first : Option Query) :
    c.Admits (c.rootScope roots first) ∧ (c.rootScope roots first).refs = [] := by
  have htop : ∀ p : Predicate, p.WellFormed → p.idTests = [] → c.Admits p ∧ p.refs = [] := by
    intro p hwf htests
    refine ⟨⟨hwf, ?_, ?_, ?_⟩, ?_⟩ <;> simp [htests, Predicate.refs]
  cases roots with
  | nil =>
    match first with
    | none => exact htop _ Predicate.wellFormed_always Predicate.idTests_always
    | some (.path _) => exact htop _ Predicate.wellFormed_always Predicate.idTests_always
    | some (.condition q) =>
      exact htop _ (wellFormed_topScope q.qualifier) (idTests_topScope q.qualifier)
  | cons root rest =>
    have ha : (IdSet.literal (root :: rest)).WellFormed := List.cons_ne_nil root rest
    have hrooted : ∀ p, c.Around (.literal (root :: rest)) p ∧ p.idTests.length ≤ maxDepth + 1 →
        c.Admits p ∧ p.refs = [] := by
      rintro p ⟨haround, hlength⟩
      refine ⟨haround.admits rfl hlength, List.eq_nil_iff_forall_not_mem.2 fun k hk => ?_⟩
      exact List.not_mem_nil (haround.mem_refs hk)
    match first with
    | none => exact hrooted (c.own _) ⟨around_own ha, by simp [own]⟩
    | some q => exact hrooted _ (around_anchoredScope ha q)

end Configuration

end Fonds
