import Fonds.Proofs.Query.Compiled
import Fonds.Proofs.Store.Meaning

/-!
What queries say of a document, and that the predicates they are compiled to say the same in every
store. A group that must not hold all together is the negation of all its conditions at once.
-/
namespace Fonds

open Store

variable {Doc : Type} {r : Reading Doc} {d : Doc} {c : Configuration}

/-- The field that lists the units so many levels above a unit, the unit itself for none. -/
def Configuration.lineageField (c : Configuration) : Nat → String
  | 0 => c.graph.id
  | levels + 1 => c.graph.ancestorsByDistance ++ "." ++ toString (levels + 1)

/-- What a bound says of a field of a document. -/
def Bound.Holds (r : Reading Doc) (d : Doc) (field : String) : Bound → Prop
  | ⟨.gt, value⟩ => r.compare d field .gt value.toJson
  | ⟨.gte, value⟩ => r.compare d field .gte value.toJson
  | ⟨.lt, value⟩ => r.compare d field .lt value.toJson
  | ⟨.lte, value⟩ => r.compare d field .lte value.toJson

/-- What a check says of a field of a document. -/
def Check.Holds (r : Reading Doc) (d : Doc) (field : String) : Check → Prop
  | .present => r.present d field
  | .absent => ¬ r.present d field
  | .isNull => r.compare d field .eq .null
  | .oneOf values => r.oneOf d field (values.toList.map Literal.toJson)
  | .noneOf values => r.noneOf d field (values.toList.map Literal.toJson)
  | .size n _ => r.size d field n
  | .compare comparison value => r.compare d field comparison value.toJson
  | .range bounds => ∀ b ∈ bounds.toList, b.Holds r d field
  | .term text => r.term d field text
  | .regex pattern _ => r.regex d field pattern

namespace Condition

mutual

/-- What a condition says of a document. Its names are those of the request. -/
def Holds (c : Configuration) (r : Reading Doc) (d : Doc) : Condition → Prop
  | .test field check _ => check.Holds r d (c.mapped field)
  | .group .all first rest _ => first.Holds c r d ∧ AllHold c r d rest
  | .group .any first rest _ => first.Holds c r d ∨ AnyHolds c r d rest
  | .group .notAll first rest _ => ¬ (first.Holds c r d ∧ AllHold c r d rest)

def AllHold (c : Configuration) (r : Reading Doc) (d : Doc) : List Condition → Prop
  | [] => True
  | q :: qs => q.Holds c r d ∧ AllHold c r d qs

def AnyHolds (c : Configuration) (r : Reading Doc) (d : Doc) : List Condition → Prop
  | [] => False
  | q :: qs => q.Holds c r d ∨ AnyHolds c r d qs

end

end Condition

/-- What a query says of a document. Each identifier of a path is found as many levels above the
unit as it stands before the last. -/
def Query.Holds (c : Configuration) (r : Reading Doc) (d : Doc) : Query → Prop
  | .path ids => ∀ (i : Nat) (id : NonBlank), ids.toList[i]? = some id →
      r.ids d (c.lineageField (ids.toList.length - 1 - i)) (.literal [id.text])
  | .condition q => q.Holds c r d

theorem Bound.holds_iff {field : String} (b : Bound) :
    b.Holds r d field ↔ r.compare d field b.operator.comparison b.value.toJson := by
  obtain ⟨operator, value⟩ := b
  cases operator <;> rfl

theorem Check.holds_toFieldTest {field : String} (check : Check) :
    check.toFieldTest.Holds r d field ↔ check.Holds r d field := by
  cases check <;> simp [Check.toFieldTest, FieldTest.Holds, Check.Holds, Bound.holds_iff]

namespace Condition

/-- The negation is of one predicate, so that it denies all members together and none by itself. -/
theorem holds_tie {junction : Junction} {p : Predicate} {ps : List Predicate} :
    (tie junction p ps).Holds r d ↔
      match junction with
      | .all => ∀ q ∈ p :: ps, q.Holds r d
      | .any => ∃ q ∈ p :: ps, q.Holds r d
      | .notAll => ¬ ∀ q ∈ p :: ps, q.Holds r d := by
  cases junction with
  | all => simp [tie]
  | any => simp [tie]
  | notAll =>
    cases ps with
    | nil => simp [tie]
    | cons q qs => simp [tie]

mutual

theorem holds_predicate : ∀ q : Condition, (q.predicate c).Holds r d ↔ q.Holds c r d
  | .test field check _ => by simp [predicate, check.holds_toFieldTest, Holds]
  | .group .all first rest _ => by
    simp [predicate, holds_tie, holds_predicate first, forall_predicates rest, Holds]
  | .group .any first rest _ => by
    simp [predicate, holds_tie, holds_predicate first, exists_predicates rest, Holds]
  | .group .notAll first rest _ => by
    simp only [predicate, holds_tie, List.forall_mem_cons, holds_predicate first,
      forall_predicates rest, Holds]

theorem forall_predicates : ∀ qs : List Condition,
    (∀ p ∈ predicates c qs, p.Holds r d) ↔ AllHold c r d qs
  | [] => by simp [predicates, AllHold]
  | q :: qs => by simp [predicates, AllHold, holds_predicate q, forall_predicates qs]

theorem exists_predicates : ∀ qs : List Condition,
    (∃ p ∈ predicates c qs, p.Holds r d) ↔ AnyHolds c r d qs
  | [] => by simp [predicates, AnyHolds]
  | q :: qs => by simp [predicates, AnyHolds, holds_predicate q, exists_predicates qs]

end

end Condition

/-- Seen from its last identifier, a path asks for one identifier at each level. -/
theorem holds_pathPredicate_reverse {ids : List String} :
    (c.pathPredicate ids).Holds r d ↔ ∀ (k : Nat) (id : String), ids.reverse[k]? = some id →
      r.ids d (c.lineageField k) (.literal [id]) := by
  rw [Configuration.pathPredicate]
  cases ids.reverse with
  | nil => simp
  | cons last above =>
    simp only [Predicate.holds_conj, List.forall_mem_cons, Configuration.own,
      Predicate.holds_inIds, List.forall_mem_map]
    constructor
    · rintro ⟨hlast, habove⟩ k id hk
      cases k with
      | zero =>
        obtain rfl : last = id := by simpa using hk
        exact hlast
      | succ k =>
        have hmem : (id, k + 1) ∈ above.zipIdx 1 := by
          simpa [List.mk_mem_zipIdx_iff_le_and_getElem?_sub] using hk
        exact habove (id, k + 1) hmem
    · intro h
      refine ⟨h 0 last rfl, fun e he => ?_⟩
      obtain ⟨hle, hget⟩ := List.mem_zipIdx_iff_le_and_getElem?_sub.1 he
      obtain ⟨k, hk⟩ := Nat.exists_eq_add_of_le' hle
      rw [hk, Configuration.ancestorsAt_eq]
      exact h (k + 1) e.1 (by simpa [hk] using hget)

theorem holds_pathPredicate {ids : List String} :
    (c.pathPredicate ids).Holds r d ↔ ∀ (i : Nat) (id : String), ids[i]? = some id →
      r.ids d (c.lineageField (ids.length - 1 - i)) (.literal [id]) := by
  rw [holds_pathPredicate_reverse]
  constructor
  · intro h i id hi
    have hlt : i < ids.length := (List.getElem?_eq_some_iff.1 hi).1
    refine h (ids.length - 1 - i) id ?_
    rw [List.getElem?_reverse (by omega), show ids.length - 1 - (ids.length - 1 - i) = i by omega]
    exact hi
  · intro h k id hk
    have hlt : k < ids.length := by simpa using (List.getElem?_eq_some_iff.1 hk).1
    rw [List.getElem?_reverse hlt] at hk
    simpa [show ids.length - 1 - (ids.length - 1 - k) = k by omega] using h _ id hk

namespace Query

theorem holds_predicate (q : Query) : (q.predicate c).Holds r d ↔ q.Holds c r d := by
  cases q with
  | condition q => exact q.holds_predicate
  | path ids =>
    rw [predicate, holds_pathPredicate, Holds, List.length_map]
    refine forall_congr' fun i => ⟨fun h id hid => h id.text (by simp [hid]), fun h text ht => ?_⟩
    obtain ⟨id, hid, rfl⟩ : ∃ id, ids.toList[i]? = some id ∧ id.text = text := by
      simpa using ht
    exact h id hid

/-- A query and the predicate it is compiled to hold of the same documents, whatever the tests of
single fields mean. -/
theorem compile_iff {q : Query} {p : Predicate} (h : (q.compile c).outcome = .ok p)
    (r : Reading Doc) (d : Doc) : p.Holds r d ↔ q.Holds c r d := by
  rw [eq_predicate_of_compile h, holds_predicate]

/-- Two documents with every field, but for a date that one of them lacks. -/
def dated : Reading Bool where
  present d field := field ≠ "Date" ∨ d = true
  compare _ _ _ _ := False
  oneOf _ _ _ := False
  noneOf _ _ _ := True
  size _ _ _ := False
  regex _ _ _ := False
  term _ _ _ := False
  ids _ _ _ := False

/-- Documents that do not have an author without a date. -/
def authorWithDate : Query :=
  .condition (.group .notAll (.test ⟨"Author", by decide, by decide⟩ .present none)
    [.test ⟨"Date", by decide, by decide⟩ .absent none] none)

/-- The negated conjunction holds of the document with a date and not of the one without. -/
theorem compile_iff_authorWithDate :
    (authorWithDate.compile .initial).outcome =
        .ok (.none [.all [.test "Author" (.presence true), .test "Date" (.presence false)]]) ∧
      authorWithDate.Holds .initial dated true ∧
      ¬ authorWithDate.Holds .initial dated false := by
  have h : (authorWithDate.compile .initial).outcome =
      .ok (.none [.all [.test "Author" (.presence true), .test "Date" (.presence false)]]) := rfl
  refine ⟨h, (compile_iff h _ _).1 ?_, fun hold => ?_⟩
  · simp [FieldTest.Holds, dated]
  · have := (compile_iff h _ _).2 hold
    simp [FieldTest.Holds, dated] at this

end Query

end Fonds
