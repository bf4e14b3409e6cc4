import Fonds.Proofs.Store.Meaning

/-!
Which predicates the store can be asked, and which identifiers a predicate depends on. Putting
predicates together keeps the tests for identifiers, in order.
-/
namespace Fonds

namespace Comparison

/-- Whether a comparison limits values from below. -/
def isLower : Comparison → Bool
  | .gt | .gte => true
  | _ => false

/-- Whether a comparison limits values from above. -/
def isUpper : Comparison → Bool
  | .lt | .lte => true
  | _ => false

end Comparison

namespace Store

namespace IdSet

/-- The earlier steps that a set refers to. -/
def refs : IdSet → List Nat
  | .literal _ => []
  | .step index => [index]
  | .ancestors below _ => below.refs

/-- How far above other sets a set reaches. -/
def distances : IdSet → List Nat
  | .literal _ | .step _ => []
  | .ancestors below levels => levels :: below.distances

/-- No list of known identifiers is empty. -/
def WellFormed : IdSet → Prop
  | .literal ids => ids ≠ []
  | .step _ => True
  | .ancestors below _ => below.WellFormed

end IdSet

/-- No list of values is empty, and a range has bounds, at most one on each side. -/
def FieldTest.WellFormed : FieldTest → Prop
  | .oneOf values | .noneOf values => values ≠ []
  | .range bounds => bounds ≠ [] ∧ (bounds.filter (·.1.isLower)).length ≤ 1 ∧
      (bounds.filter (·.1.isUpper)).length ≤ 1
  | .ids set => set.WellFormed
  | _ => True

/-- The tests for identifiers that a test of a field amounts to. -/
def FieldTest.idTests (field : String) : FieldTest → List (String × IdSet)
  | .ids set => [(field, set)]
  | _ => []

namespace Predicate

mutual

/-- No group is empty, at any level, and every test is well formed. -/
def WellFormed : Predicate → Prop
  | .all members | .any members | .none members => members ≠ [] ∧ AllWellFormed members
  | .always => True
  | .test _ t => t.WellFormed

def AllWellFormed : List Predicate → Prop
  | [] => True
  | p :: ps => p.WellFormed ∧ AllWellFormed ps

end

mutual

/-- The tests for identifiers at all levels of a predicate, in order. -/
def idTests : Predicate → List (String × IdSet)
  | .all members | .any members | .none members => allIdTests members
  | .always => []
  | .test field t => t.idTests field

def allIdTests : List Predicate → List (String × IdSet)
  | [] => []
  | p :: ps => p.idTests ++ allIdTests ps

end

/-- The earlier steps that a predicate refers to, at any level. -/
def refs (p : Predicate) : List Nat := p.idTests.flatMap (·.2.refs)

variable {p : Predicate} {ps : List Predicate}

theorem allWellFormed_iff : AllWellFormed ps ↔ ∀ p ∈ ps, p.WellFormed := by
  induction ps with
  | nil => simp [AllWellFormed]
  | cons p ps ih => simp [AllWellFormed, ih]

theorem allIdTests_eq : allIdTests ps = ps.flatMap idTests := by
  induction ps with
  | nil => rfl
  | cons p ps ih => simp [allIdTests, ih]

@[simp] theorem wellFormed_all : (all ps).WellFormed ↔ ps ≠ [] ∧ ∀ p ∈ ps, p.WellFormed := by
  rw [WellFormed, allWellFormed_iff]

@[simp] theorem wellFormed_any : (any ps).WellFormed ↔ ps ≠ [] ∧ ∀ p ∈ ps, p.WellFormed := by
  rw [WellFormed, allWellFormed_iff]

@[simp] theorem wellFormed_none : (none ps).WellFormed ↔ ps ≠ [] ∧ ∀ p ∈ ps, p.WellFormed := by
  rw [WellFormed, allWellFormed_iff]

@[simp] theorem wellFormed_always : always.WellFormed := by simp [WellFormed]

@[simp] theorem wellFormed_inIds {field : String} {set : IdSet} :
    (inIds field set).WellFormed ↔ set.WellFormed := by
  rw [inIds, WellFormed, FieldTest.WellFormed]

@[simp] theorem idTests_all : (all ps).idTests = ps.flatMap idTests := by
  rw [idTests, allIdTests_eq]

@[simp] theorem idTests_any : (any ps).idTests = ps.flatMap idTests := by
  rw [idTests, allIdTests_eq]

@[simp] theorem idTests_none : (none ps).idTests = ps.flatMap idTests := by
  rw [idTests, allIdTests_eq]

@[simp] theorem idTests_always : always.idTests = [] := by simp [idTests]

@[simp] theorem idTests_test {field : String} {t : FieldTest} :
    (test field t).idTests = t.idTests field := by rw [idTests]

@[simp] theorem idTests_inIds {field : String} {set : IdSet} :
    (inIds field set).idTests = [(field, set)] := by
  rw [inIds, idTests_test, FieldTest.idTests]

theorem wellFormed_of_mem_conjuncts {q : Predicate} (h : p.WellFormed) (hq : q ∈ p.conjuncts) :
    q.WellFormed := by
  cases p <;> simp_all [conjuncts]

theorem wellFormed_of_mem_disjuncts {q : Predicate} (h : p.WellFormed) (hq : q ∈ p.disjuncts) :
    q.WellFormed := by
  cases p <;> simp_all [disjuncts]

theorem wellFormed_conj (h : ∀ p ∈ ps, p.WellFormed) : (conj ps).WellFormed := by
  have hflat : ∀ q ∈ ps.flatMap conjuncts, q.WellFormed :=
    List.forall_mem_flatMap.2 fun p hp q hq => wellFormed_of_mem_conjuncts (h p hp) hq
  rw [conj]
  split <;> rename_i heq
  · exact wellFormed_always
  · exact hflat _ (by simp [heq])
  · rw [wellFormed_all]
    exact ⟨by assumption, hflat⟩

/-- The empty disjunction is spelled as a denial, which the store accepts. -/
theorem wellFormed_disj (h : ∀ p ∈ ps, p.WellFormed) : (disj ps).WellFormed := by
  have hflat : ∀ q ∈ ps.flatMap disjuncts, q.WellFormed :=
    List.forall_mem_flatMap.2 fun p hp q hq => wellFormed_of_mem_disjuncts (h p hp) hq
  rw [disj]
  split
  · exact wellFormed_always
  · split <;> rename_i heq
    · simp [never]
    · exact hflat _ (by simp [heq])
    · rw [wellFormed_any]
      exact ⟨by assumption, hflat⟩

theorem idTests_conj : (conj ps).idTests = ps.flatMap idTests := by
  have hflat : (ps.flatMap conjuncts).flatMap idTests = ps.flatMap idTests := by
    rw [List.flatMap_assoc]
    congr 1
    funext p
    cases p <;> simp [conjuncts]
  rw [← hflat, conj]
  split <;> rename_i heq <;> simp [heq]

theorem idTests_disj (h : ps.any isAlways = false) : (disj ps).idTests = ps.flatMap idTests := by
  have hflat : (ps.flatMap disjuncts).flatMap idTests = ps.flatMap idTests := by
    rw [List.flatMap_assoc]
    congr 1
    funext p
    cases p <;> simp [disjuncts]
  rw [← hflat, disj, h, if_neg Bool.false_ne_true]
  split <;> rename_i heq <;> simp [heq, never]

section Congruence

variable {Doc : Type} {r : Reading Doc} {d : Doc} {ids ids' : Doc → String → IdSet → Prop}

mutual

/-- A predicate depends on the tests for identifiers in it and on no others. -/
theorem holds_congr : ∀ p : Predicate, (∀ e ∈ p.idTests, ids d e.1 e.2 ↔ ids' d e.1 e.2) →
    (p.Holds { r with ids := ids } d ↔ p.Holds { r with ids := ids' } d)
  | .all members, h => by
    rw [Holds, Holds]
    exact (members_congr members h).1
  | .any members, h => by
    rw [Holds, Holds]
    exact (members_congr members h).2
  | .none members, h => by
    rw [Holds, Holds]
    exact not_congr (members_congr members h).2
  | .always, _ => by simp
  | .test field t, h => by
    cases t with
    | ids set => simpa [FieldTest.Holds] using h (field, set) (by simp [FieldTest.idTests])
    | presence present => cases present <;> simp [FieldTest.Holds]
    | _ => simp [FieldTest.Holds]

theorem members_congr : ∀ ps : List Predicate,
    (∀ e ∈ allIdTests ps, ids d e.1 e.2 ↔ ids' d e.1 e.2) →
    (AllHold { r with ids := ids } d ps ↔ AllHold { r with ids := ids' } d ps) ∧
      (AnyHolds { r with ids := ids } d ps ↔ AnyHolds { r with ids := ids' } d ps)
  | [], _ => by simp [AllHold, AnyHolds]
  | p :: ps, h => by
    simp only [allIdTests, List.forall_mem_append] at h
    have hp := holds_congr p h.1
    have hps := members_congr ps h.2
    simp only [AllHold, AnyHolds, hp, hps.1, hps.2, and_self]

end

end Congruence

end Predicate

end Store

end Fonds
