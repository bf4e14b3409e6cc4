import Fonds.Plan.Scope
import Fonds.Proofs.Graph.Documents
import Fonds.Proofs.Plan.Fields

/-!
What scopes say of a unit: the set they are seen from holds a unit that the qualifier places it
below or above.
-/
namespace Fonds

open Store

variable {U : Type} {g : Archive U} {docs : Documents U} {c : Configuration}
  {results : Nat → Set String} {set : IdSet} {u : U}

namespace Archive

theorem id_mem_members_ancestors {levels : Nat} :
    g.id u ∈ g.members results (.ancestors set levels) ↔ ∃ a, g.id a ∈ g.members results set ∧
      ∃ n, 1 ≤ n ∧ n ≤ levels ∧ g.Above n u a := by
  simp only [members, Set.mem_ofPred_eq]
  constructor
  · rintro ⟨a, ha, b, n, h1, hn, hab, hid⟩
    obtain rfl := g.id_injective hid
    exact ⟨a, ha, n, h1, hn, hab⟩
  · rintro ⟨a, ha, n, h1, hn, hab⟩
    exact ⟨a, ha, u, n, h1, hn, hab, rfl⟩

end Archive

namespace Documents.CarryDepths

/-- The least depth is at most a bound exactly if some depth is. -/
theorem holds_minDepth (hd : docs.CarryDepths c g) {bound : Int} :
    (Predicate.test c.graph.minDepth (.compare .lte (.ofInt bound))).Holds
      (g.reading docs results) u ↔ ∃ m ∈ g.depths u, (m : Int) ≤ bound := by
  obtain ⟨m, ⟨hm, hleast⟩, hnum⟩ := hd.least u
  simp only [Predicate.holds_test, FieldTest.Holds, Archive.reading, hnum .lte bound,
    Comparison.Relates]
  constructor
  · intro h
    exact ⟨m, hm, h⟩
  · rintro ⟨k, hk, hle⟩
    have := hleast hk
    omega

theorem holds_maxDepth (hd : docs.CarryDepths c g) {bound : Int} :
    (Predicate.test c.graph.maxDepth (.compare .gte (.ofInt bound))).Holds
      (g.reading docs results) u ↔ ∃ m ∈ g.depths u, bound ≤ (m : Int) := by
  obtain ⟨m, ⟨hm, hgreatest⟩, hnum⟩ := hd.greatest u
  simp only [Predicate.holds_test, FieldTest.Holds, Archive.reading, hnum .gte bound,
    Comparison.Relates]
  constructor
  · intro h
    exact ⟨m, hm, h⟩
  · rintro ⟨k, hk, hle⟩
    have := hgreatest hk
    omega

theorem holds_depthRange (hd : docs.CarryDepths c g) {level : Nat} :
    (c.depthRange level).Holds (g.reading docs results) u ↔ g.Spans u level := by
  simp only [Configuration.depthRange, Json.ofNat, Predicate.holds_all, List.forall_mem_cons,
    hd.holds_minDepth, hd.holds_maxDepth, Archive.Spans]
  simp

end Documents.CarryDepths

theorem Documents.ListAncestors.holds_descendants (hd : docs.ListAncestors c g) :
    (c.descendants set).Holds (g.reading docs results) u ↔
      ∃ a, g.id a ∈ g.members results set ∧ g.Below u a := by
  simp only [Configuration.descendants, Predicate.holds_inIds, Archive.reading]
  constructor
  · rintro ⟨x, hx, hmem⟩
    obtain ⟨a, hua, rfl⟩ := (hd u x).1 hx
    exact ⟨a, hmem, hua⟩
  · rintro ⟨a, hmem, hua⟩
    exact ⟨g.id a, (hd u _).2 ⟨a, hua, rfl⟩, hmem⟩

namespace Documents.Describe

theorem holds_own (hd : docs.Describe c g) :
    (c.own set).Holds (g.reading docs results) u ↔ g.id u ∈ g.members results set := by
  simp [Configuration.own, Archive.reading, hd.id]

theorem holds_descendants (hd : docs.Describe c g) :
    (c.descendants set).Holds (g.reading docs results) u ↔
      ∃ a, g.id a ∈ g.members results set ∧ g.Below u a :=
  ListAncestors.holds_descendants hd.ancestors

theorem holds_children (hd : docs.Describe c g) :
    (Predicate.inIds c.graph.parents set).Holds (g.reading docs results) u ↔
      ∃ a, g.id a ∈ g.members results set ∧ g.IsParent a u := by
  simp only [Predicate.holds_inIds, Archive.reading, hd.parents]
  grind

theorem holds_ancestorsAt (hd : docs.Describe c g) {n : Nat} (hn : 1 ≤ n) :
    (Predicate.inIds (c.ancestorsAt n) set).Holds (g.reading docs results) u ↔
      ∃ a, g.id a ∈ g.members results set ∧ g.Above n a u := by
  simp only [Predicate.holds_inIds, Archive.reading, Configuration.ancestorsAt_eq,
    hd.ancestorsAt u n _ hn]
  grind

theorem holds_relativeScope (hd : docs.Describe c g) {levels : Int}
    (h : levels.natAbs ≤ maxDepth) :
    (c.relativeScope set levels).Holds (g.reading docs results) u ↔
      ∃ a, g.id a ∈ g.members results set ∧ g.Places (some (.relative levels h)) a u := by
  simp only [Configuration.relativeScope, Archive.Places]
  by_cases hzero : levels = 0
  · simp only [hzero, if_true, hd.holds_own]
    constructor
    · intro hu
      exact ⟨u, hu, rfl⟩
    · rintro ⟨a, ha, rfl⟩
      exact ha
  by_cases hone : levels = 1
  · subst hone
    simp only [if_neg hzero, if_true, hd.holds_children, Int.zero_lt_one]
    refine exists_congr fun a => and_congr_right fun _ => ⟨fun hp => ?_, ?_⟩
    · exact ⟨1, le_rfl, le_rfl, Archive.above_one.2 hp⟩
    · rintro ⟨n, h1, hn, ha⟩
      obtain rfl : n = 1 := by omega
      exact Archive.above_one.1 ha
  by_cases hneg : levels < 0
  · have hnot : ¬ 0 < levels := by omega
    simp only [if_neg hzero, if_neg hone, if_pos hneg, if_neg hnot, Predicate.holds_disj,
      List.mem_cons, List.not_mem_nil, or_false, exists_eq_or_imp, exists_eq_left, hd.holds_own]
    rw [show Predicate.inIds c.graph.id (.ancestors set levels.natAbs) =
      c.own (.ancestors set levels.natAbs) from rfl, hd.holds_own, Archive.id_mem_members_ancestors]
    constructor
    · rintro (hu | ⟨a, ha, n, h1, hn, hua⟩)
      · exact ⟨u, hu, .inl rfl⟩
      · exact ⟨a, ha, .inr ⟨n, h1, by omega, hua⟩⟩
    · rintro ⟨a, ha, rfl | ⟨n, h1, hn, hua⟩⟩
      · exact .inl ha
      · exact .inr ⟨a, ha, n, h1, by omega, hua⟩
  · have hpos : 0 < levels := by omega
    simp only [if_neg hzero, if_neg hone, if_neg hneg, if_pos hpos, Predicate.holds_disj,
      List.mem_map, List.mem_range, exists_exists_and_eq_and]
    constructor
    · rintro ⟨k, hk, hold⟩
      obtain ⟨a, ha, hau⟩ := (hd.holds_ancestorsAt (by omega)).1 hold
      exact ⟨a, ha, k + 1, by omega, by omega, hau⟩
    · rintro ⟨a, ha, n, h1, hn, hau⟩
      obtain ⟨k, rfl⟩ := Nat.exists_eq_add_of_le' h1
      exact ⟨k, by omega, (hd.holds_ancestorsAt (by omega)).2 ⟨a, ha, hau⟩⟩

/-- The scope of a later step, seen from what the step before it matched. -/
theorem holds_stepScope (hd : docs.Describe c g) {qualifier : Option Depth} :
    (c.stepScope set qualifier).Holds (g.reading docs results) u ↔
      ∃ a, g.id a ∈ g.members results set ∧ g.Places qualifier a u := by
  match qualifier with
  | none => exact hd.holds_descendants
  | some (.relative levels h) => exact hd.holds_relativeScope h
  | some (.exact level h) =>
    simp only [Configuration.stepScope, Predicate.holds_conj, List.forall_mem_cons,
      hd.carryDepths.holds_depthRange, hd.holds_descendants, Archive.Places]
    grind

/-- The scope of a first step without roots counts from the top. -/
theorem holds_topScope (hd : docs.Describe c g) {qualifier : Option Depth} :
    (c.topScope qualifier).Holds (g.reading docs results) u ↔ g.Starts [] qualifier u := by
  match qualifier with
  | none => simp [Configuration.topScope, Archive.Starts]
  | some (.relative levels h) =>
    simp only [Configuration.topScope, hd.carryDepths.holds_minDepth, Archive.Starts, if_true]
  | some (.exact level h) =>
    simp only [Configuration.topScope, hd.carryDepths.holds_depthRange, Archive.Starts, if_true]

/-- Two scopes that together are the set and what a qualifier places around it. -/
theorem holds_own_or (hd : docs.Describe c g) {scope : Predicate} {R : U → Prop}
    (hs : scope.Holds (g.reading docs results) u ↔ ∃ a, g.id a ∈ g.members results set ∧ R a) :
    (Predicate.disj [c.own set, scope]).Holds (g.reading docs results) u ↔
      ∃ a, g.id a ∈ g.members results set ∧ (u = a ∨ R a) := by
  simp only [Predicate.holds_disj, List.mem_cons, List.not_mem_nil, or_false, exists_eq_or_imp,
    exists_eq_left, hd.holds_own, hs]
  constructor
  · rintro (hu | ⟨a, ha, hau⟩)
    · exact ⟨u, hu, .inl rfl⟩
    · exact ⟨a, ha, .inr hau⟩
  · rintro ⟨a, ha, rfl | hau⟩
    · exact .inl ha
    · exact .inr ⟨a, ha, hau⟩

theorem holds_anchoredScope (hd : docs.Describe c g) {roots : List String} (hr : roots ≠ [])
    {q : Query} : (c.anchoredScope (.literal roots) q).Holds (g.reading docs results) u ↔
      g.Starts roots q.depth u := by
  simp only [Archive.Starts, if_neg hr]
  cases q with
  | path ids => exact hd.holds_own_or hd.holds_descendants
  | condition q =>
    simp only [Configuration.anchoredScope, Query.depth]
    cases q.qualifier with
    | none => exact hd.holds_own_or hd.holds_stepScope
    | some depth =>
      cases depth with
      | exact level h =>
        dsimp only
        rw [Predicate.holds_conj, List.forall_mem_cons, List.forall_mem_singleton,
          hd.carryDepths.holds_depthRange, hd.holds_own_or hd.holds_descendants]
        constructor
        · rintro ⟨hspan, a, ha, hua⟩
          exact ⟨a, ha, hua, hspan⟩
        · rintro ⟨a, ha, hua, hspan⟩
          exact ⟨hspan, a, ha, hua⟩
      | relative levels h =>
        dsimp only
        by_cases hle : levels ≤ 0
        · rw [if_pos hle, hd.holds_relativeScope h]
          refine exists_congr fun a => and_congr_right fun _ => ?_
          simp only [Archive.Places]
          grind
        · rw [if_neg hle]
          exact hd.holds_own_or hd.holds_stepScope

/-- The scope of a first step. -/
theorem holds_rootScope (hd : docs.Describe c g) {roots : List String} {q : Query} :
    (c.rootScope roots (some q)).Holds (g.reading docs results) u ↔ g.Starts roots q.depth u := by
  cases roots with
  | nil =>
    cases q with
    | path ids => simp [Configuration.rootScope, Query.depth, Archive.Starts]
    | condition q => exact hd.holds_topScope
  | cons root rest => exact hd.holds_anchoredScope (by simp)

end Documents.Describe

end Fonds
