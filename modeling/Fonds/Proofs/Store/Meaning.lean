import Fonds.Proofs.Store.Connectives

/-! What predicates of the store say of a document, for every way of testing its single fields. -/
namespace Fonds.Store

/-- How a store tests single fields of its documents. No law ties the tests to each other. -/
structure Reading (Doc : Type) where
  present : Doc → String → Prop
  compare : Doc → String → Comparison → Json → Prop
  oneOf : Doc → String → List Json → Prop
  noneOf : Doc → String → List Json → Prop
  size : Doc → String → Nat → Prop
  regex : Doc → String → String → Prop
  term : Doc → String → String → Prop
  ids : Doc → String → IdSet → Prop

variable {Doc : Type} {r : Reading Doc} {d : Doc} {p : Predicate} {ps : List Predicate}

/-- What the test of a field says. A range holds when every one of its bounds does. -/
def FieldTest.Holds (r : Reading Doc) (d : Doc) (field : String) : FieldTest → Prop
  | .presence true => r.present d field
  | .presence false => ¬ r.present d field
  | .compare comparison value => r.compare d field comparison value
  | .oneOf values => r.oneOf d field values
  | .noneOf values => r.noneOf d field values
  | .size n => r.size d field n
  | .range bounds => ∀ b ∈ bounds, r.compare d field b.1 b.2
  | .regex pattern => r.regex d field pattern
  | .term text => r.term d field text
  | .ids set => r.ids d field set

namespace Predicate

mutual

/-- What a predicate says of a document. -/
def Holds (r : Reading Doc) (d : Doc) : Predicate → Prop
  | .all members => AllHold r d members
  | .any members => AnyHolds r d members
  | .none members => ¬ AnyHolds r d members
  | .always => True
  | .test field t => t.Holds r d field

def AllHold (r : Reading Doc) (d : Doc) : List Predicate → Prop
  | [] => True
  | p :: ps => p.Holds r d ∧ AllHold r d ps

def AnyHolds (r : Reading Doc) (d : Doc) : List Predicate → Prop
  | [] => False
  | p :: ps => p.Holds r d ∨ AnyHolds r d ps

end

theorem allHold_iff : AllHold r d ps ↔ ∀ p ∈ ps, p.Holds r d := by
  induction ps with
  | nil => simp [AllHold]
  | cons p ps ih => simp [AllHold, ih]

theorem anyHolds_iff : AnyHolds r d ps ↔ ∃ p ∈ ps, p.Holds r d := by
  induction ps with
  | nil => simp [AnyHolds]
  | cons p ps ih => simp [AnyHolds, ih]

@[simp] theorem holds_all : (all ps).Holds r d ↔ ∀ p ∈ ps, p.Holds r d := by
  rw [Holds, allHold_iff]

@[simp] theorem holds_any : (any ps).Holds r d ↔ ∃ p ∈ ps, p.Holds r d := by
  rw [Holds, anyHolds_iff]

@[simp] theorem holds_none : (none ps).Holds r d ↔ ∀ p ∈ ps, ¬ p.Holds r d := by
  rw [Holds, anyHolds_iff]
  simp

@[simp] theorem holds_always : always.Holds r d := by simp [Holds]

@[simp] theorem holds_test {field : String} {t : FieldTest} :
    (test field t).Holds r d ↔ t.Holds r d field := by rw [Holds]

@[simp] theorem holds_inIds {field : String} {set : IdSet} :
    (inIds field set).Holds r d ↔ r.ids d field set := by
  rw [inIds, holds_test, FieldTest.Holds]

mutual

/-- A document says how the tests of single fields come out; the connectives add nothing of their
own. -/
theorem holds_iff_isTrue :
    ∀ p : Predicate, p.Holds r d ↔ p.IsTrue fun field t => t.Holds r d field
  | .all members => by rw [Holds, IsTrue, allHold_iff_allTrue members]
  | .any members => by rw [Holds, IsTrue, anyHolds_iff_anyTrue members]
  | .none members => by rw [Holds, IsTrue, anyHolds_iff_anyTrue members]
  | .always => by rw [Holds, IsTrue]
  | .test field t => by rw [Holds, IsTrue]

theorem allHold_iff_allTrue : ∀ ps : List Predicate,
    AllHold r d ps ↔ AllTrue (fun field t => t.Holds r d field) ps
  | [] => by rw [AllHold, AllTrue]
  | p :: ps => by rw [AllHold, AllTrue, holds_iff_isTrue p, allHold_iff_allTrue ps]

theorem anyHolds_iff_anyTrue : ∀ ps : List Predicate,
    AnyHolds r d ps ↔ AnyTrue (fun field t => t.Holds r d field) ps
  | [] => by rw [AnyHolds, AnyTrue]
  | p :: ps => by rw [AnyHolds, AnyTrue, holds_iff_isTrue p, anyHolds_iff_anyTrue ps]

end

@[simp] theorem holds_conj : (conj ps).Holds r d ↔ ∀ p ∈ ps, p.Holds r d := by
  simp only [holds_iff_isTrue, isTrue_conj]

@[simp] theorem holds_disj : (disj ps).Holds r d ↔ ∃ p ∈ ps, p.Holds r d := by
  simp only [holds_iff_isTrue, isTrue_disj]

end Predicate

end Fonds.Store
