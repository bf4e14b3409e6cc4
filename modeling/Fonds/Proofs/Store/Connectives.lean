import Fonds.Store.Predicate

/-!
What the connectives say, whatever the tests of single fields say. The combinators rearrange what
they are given, at the top and one level below it, and keep what it says.
-/
namespace Fonds.Store.Predicate

variable {atoms : String → FieldTest → Prop} {p : Predicate} {ps : List Predicate}

mutual

/-- Whether a predicate is true where the tests of single fields are true or false as given. -/
def IsTrue (atoms : String → FieldTest → Prop) : Predicate → Prop
  | .all members => AllTrue atoms members
  | .any members => AnyTrue atoms members
  | .none members => ¬ AnyTrue atoms members
  | .always => True
  | .test field t => atoms field t

def AllTrue (atoms : String → FieldTest → Prop) : List Predicate → Prop
  | [] => True
  | p :: ps => p.IsTrue atoms ∧ AllTrue atoms ps

def AnyTrue (atoms : String → FieldTest → Prop) : List Predicate → Prop
  | [] => False
  | p :: ps => p.IsTrue atoms ∨ AnyTrue atoms ps

end

theorem allTrue_iff : AllTrue atoms ps ↔ ∀ p ∈ ps, p.IsTrue atoms := by
  induction ps with
  | nil => simp [AllTrue]
  | cons p ps ih => simp [AllTrue, ih]

theorem anyTrue_iff : AnyTrue atoms ps ↔ ∃ p ∈ ps, p.IsTrue atoms := by
  induction ps with
  | nil => simp [AnyTrue]
  | cons p ps ih => simp [AnyTrue, ih]

@[simp] theorem isTrue_all : (all ps).IsTrue atoms ↔ ∀ p ∈ ps, p.IsTrue atoms := by
  rw [IsTrue, allTrue_iff]

@[simp] theorem isTrue_any : (any ps).IsTrue atoms ↔ ∃ p ∈ ps, p.IsTrue atoms := by
  rw [IsTrue, anyTrue_iff]

@[simp] theorem isTrue_none : (none ps).IsTrue atoms ↔ ∀ p ∈ ps, ¬ p.IsTrue atoms := by
  rw [IsTrue, anyTrue_iff]
  simp

@[simp] theorem isTrue_always : always.IsTrue atoms := by simp [IsTrue]

@[simp] theorem isTrue_test {field : String} {t : FieldTest} :
    (test field t).IsTrue atoms ↔ atoms field t := by rw [IsTrue]

theorem not_isTrue_never : ¬ never.IsTrue atoms := by simp [never]

theorem isTrue_conjuncts : (∀ q ∈ p.conjuncts, q.IsTrue atoms) ↔ p.IsTrue atoms := by
  cases p <;> simp [conjuncts]

/-- An empty disjunction contributes nothing, as it can never be true. -/
theorem isTrue_disjuncts : (∃ q ∈ p.disjuncts, q.IsTrue atoms) ↔ p.IsTrue atoms := by
  cases p <;> simp [disjuncts]

theorem isTrue_conj : (conj ps).IsTrue atoms ↔ ∀ p ∈ ps, p.IsTrue atoms := by
  have hflat : (∀ q ∈ ps.flatMap conjuncts, q.IsTrue atoms) ↔ ∀ p ∈ ps, p.IsTrue atoms := by
    simp only [List.forall_mem_flatMap, isTrue_conjuncts]
  rw [← hflat, conj]
  split <;> rename_i h <;> simp [h]

theorem eq_always_of_isAlways (h : p.isAlways = true) : p = .always := by
  cases p <;> simp_all [isAlways]

theorem isTrue_disj : (disj ps).IsTrue atoms ↔ ∃ p ∈ ps, p.IsTrue atoms := by
  have hflat : (∃ q ∈ ps.flatMap disjuncts, q.IsTrue atoms) ↔ ∃ p ∈ ps, p.IsTrue atoms := by
    constructor
    · rintro ⟨q, hq, htrue⟩
      obtain ⟨p, hp, hqp⟩ := List.mem_flatMap.1 hq
      exact ⟨p, hp, isTrue_disjuncts.1 ⟨q, hqp, htrue⟩⟩
    · rintro ⟨p, hp, htrue⟩
      obtain ⟨q, hqp, hq⟩ := isTrue_disjuncts.2 htrue
      exact ⟨q, List.mem_flatMap.2 ⟨p, hp, hqp⟩, hq⟩
  by_cases halways : ps.any isAlways
  · obtain ⟨p, hp, hpa⟩ := List.any_eq_true.1 halways
    rw [disj, if_pos halways]
    exact iff_of_true isTrue_always ⟨p, hp, eq_always_of_isAlways hpa ▸ isTrue_always⟩
  · rw [← hflat, disj, if_neg halways]
    split <;> rename_i h
    · simp [h, not_isTrue_never]
    · simp [h]
    · simp

/-- A conjunction is true exactly if all its members are and a disjunction exactly if one is,
whatever the members are and however their tests come out. -/
theorem isTrue_combinators (atoms : String → FieldTest → Prop) (ps : List Predicate) :
    ((conj ps).IsTrue atoms ↔ ∀ p ∈ ps, p.IsTrue atoms) ∧
      ((disj ps).IsTrue atoms ↔ ∃ p ∈ ps, p.IsTrue atoms) :=
  ⟨isTrue_conj, isTrue_disj⟩

end Fonds.Store.Predicate
