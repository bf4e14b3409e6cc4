import Fonds.Proofs.Query.Compiled
import Fonds.Proofs.Store.WellFormed

/-! Compiled queries are well formed and refer to no step: the types of queries leave no choice. -/
namespace Fonds

open Store

variable {c : Configuration}

namespace Bounds

/-- The bounds of a range that lie on one side. -/
theorem length_filter_toList_le (b : Bounds) (side : Bound → Bool)
    (hside : ∀ x y : Bound, side x = true → side y = true →
      x.operator.isLower = y.operator.isLower) : (b.toList.filter side).length ≤ 1 := by
  cases hsecond : b.second with
  | none =>
    rw [toList, hsecond]
    exact List.length_filter_le side [b.first]
  | some second =>
    have hopposite := b.opposite second hsecond
    rw [toList, hsecond, Option.toList_some]
    by_cases hfirst : side b.first
    · have hnot : side second ≠ true := fun h => hopposite (hside _ _ h hfirst)
      simp [hfirst, hnot]
    · rw [List.filter_cons, if_neg hfirst]
      exact List.length_filter_le side [second]

end Bounds

theorem BoundOperator.isLower_comparison (b : BoundOperator) :
    b.comparison.isLower = b.isLower := by
  cases b <;> rfl

theorem BoundOperator.isUpper_comparison (b : BoundOperator) :
    b.comparison.isUpper = !b.isLower := by
  cases b <;> rfl

theorem Check.wellFormed_toFieldTest (check : Check) : check.toFieldTest.WellFormed := by
  cases check with
  | oneOf values => simp [toFieldTest, FieldTest.WellFormed, values.toList_ne_nil]
  | noneOf values => simp [toFieldTest, FieldTest.WellFormed, values.toList_ne_nil]
  | range bounds =>
    simp only [toFieldTest, FieldTest.WellFormed, List.filter_map, List.length_map, ne_eq,
      List.map_eq_nil_iff]
    refine ⟨by simp [Bounds.toList], ?_, ?_⟩
    · apply bounds.length_filter_toList_le
      intro x y hx hy
      simp_all [BoundOperator.isLower_comparison]
    · apply bounds.length_filter_toList_le
      intro x y hx hy
      simp_all [BoundOperator.isUpper_comparison]
  | _ => simp [toFieldTest, FieldTest.WellFormed]

theorem Check.idTests_toFieldTest (check : Check) (field : String) :
    check.toFieldTest.idTests field = [] := by
  cases check <;> rfl

namespace Condition

variable {junction : Junction} {p : Predicate} {ps : List Predicate}

theorem wellFormed_tie (hp : p.WellFormed) (hps : ∀ q ∈ ps, q.WellFormed) :
    (tie junction p ps).WellFormed := by
  cases junction with
  | all => simpa [tie] using ⟨hp, hps⟩
  | any => simpa [tie] using ⟨hp, hps⟩
  | notAll =>
    cases ps with
    | nil => simpa [tie] using hp
    | cons q qs =>
      rw [List.forall_mem_cons] at hps
      simpa [tie] using ⟨hp, hps⟩

theorem idTests_tie : (tie junction p ps).idTests = (p :: ps).flatMap Predicate.idTests := by
  cases junction with
  | all => simp [tie]
  | any => simp [tie]
  | notAll => cases ps <;> simp [tie]

mutual

theorem wellFormed_predicate : ∀ q : Condition, (q.predicate c).WellFormed
  | .test field check _ => by
    rw [predicate, Predicate.WellFormed]
    exact check.wellFormed_toFieldTest
  | .group _ first rest _ => by
    rw [predicate]
    exact wellFormed_tie (wellFormed_predicate first) (wellFormed_predicates rest)

theorem wellFormed_predicates : ∀ qs : List Condition, ∀ p ∈ predicates c qs, p.WellFormed
  | [] => by simp [predicates]
  | q :: qs => by
    rw [predicates, List.forall_mem_cons]
    exact ⟨wellFormed_predicate q, wellFormed_predicates qs⟩

end

mutual

/-- Only paths are looked up by identifiers. -/
theorem idTests_predicate : ∀ q : Condition, (q.predicate c).idTests = []
  | .test field check _ => by
    rw [predicate, Predicate.idTests_test, check.idTests_toFieldTest]
  | .group _ first rest _ => by
    rw [predicate, idTests_tie, List.flatMap_cons, idTests_predicate first,
      idTests_predicates rest, List.append_nil]

theorem idTests_predicates : ∀ qs : List Condition,
    (predicates c qs).flatMap Predicate.idTests = []
  | [] => by simp [predicates]
  | q :: qs => by
    rw [predicates, List.flatMap_cons, idTests_predicate q, idTests_predicates qs,
      List.append_nil]

end

end Condition

/-- A path asks for one known identifier at a time. -/
theorem pathPredicate_eq_conj (c : Configuration) (ids : List String) :
    ∃ ps, c.pathPredicate ids = .conj ps ∧
      ∀ p ∈ ps, ∃ field id, p = .inIds field (.literal [id]) := by
  rw [Configuration.pathPredicate]
  split
  · exact ⟨[], rfl, by simp⟩
  · rename_i last above _
    refine ⟨_, rfl, List.forall_mem_cons.2 ⟨⟨c.graph.id, last, rfl⟩, ?_⟩⟩
    intro p hp
    obtain ⟨e, _, rfl⟩ := List.mem_map.1 hp
    exact ⟨c.ancestorsAt e.2, e.1, rfl⟩

namespace Query

theorem wellFormed_predicate (q : Query) : (q.predicate c).WellFormed := by
  cases q with
  | path ids =>
    obtain ⟨ps, heq, hps⟩ := pathPredicate_eq_conj c (ids.toList.map NonBlank.text)
    rw [predicate, heq]
    refine Predicate.wellFormed_conj fun p hp => ?_
    obtain ⟨field, id, rfl⟩ := hps p hp
    simp [IdSet.WellFormed]
  | condition q => exact q.wellFormed_predicate

theorem refs_predicate (q : Query) : (q.predicate c).refs = [] := by
  cases q with
  | path ids =>
    obtain ⟨ps, heq, hps⟩ := pathPredicate_eq_conj c (ids.toList.map NonBlank.text)
    rw [predicate, heq, Predicate.refs, Predicate.idTests_conj, List.flatMap_eq_nil_iff]
    intro e he
    obtain ⟨p, hp, hep⟩ := List.mem_flatMap.1 he
    obtain ⟨field, id, rfl⟩ := hps p hp
    obtain rfl : e = (field, .literal [id]) := by simpa using hep
    rfl
  | condition q => rw [predicate, Predicate.refs, q.idTests_predicate, List.flatMap_nil]

end Query

end Fonds
