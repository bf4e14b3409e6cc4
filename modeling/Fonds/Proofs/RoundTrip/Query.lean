import Fonds.Proofs.RoundTrip.Shape
import Fonds.Query.Printer
import Fonds.Query.Reader

/-!
Queries come out of their documents as they went in. The operand of an operator gives back its test
or group without a qualifier; the qualifier comes last, and by then the query has none yet.
-/
namespace Fonds

theorem Literal.buildAll_toList (construct : String) (values : NonEmpty Literal) :
    Literal.buildAll construct (values.toList.map Literal.toJson) = .ok values := by
  have hread : (values.toList.map Literal.toJson).mapM (Literal.build construct) =
      .ok (values.toList.map id) :=
    mapM_map_eq_ok fun l _ => Literal.build_toJson construct l
  rw [buildAll, hread, ok_bind, List.map_id, NonEmpty.ofList?_toList]

theorem BoundOperator.token_injective : Function.Injective token :=
  token_injective_of_find? ofToken?_token

namespace Bounds

/-- The bounds of a range differ in their operators, so each has an entry of its own. -/
theorem toJson_eq (b : Bounds) : b.toJson =
    .object (b.toList.map fun bound => (bound.operator.token, bound.value.toJson)) := by
  rw [toJson, Json.ofEntries, Entries.collect_of_nodup]
  cases hsecond : b.second with
  | none => simp [toList, hsecond, Entries.keys]
  | some second =>
    have hne : b.first.operator.token ≠ second.operator.token := by
      intro heq
      exact b.opposite second hsecond (by rw [BoundOperator.token_injective heq])
    simpa [toList, hsecond, Entries.keys] using hne

theorem readBound_toList (construct : String) (b : Bounds) :
    (b.toList.map fun bound => (bound.operator.token, bound.value.toJson)).mapM
        (Query.readBound construct) =
      .ok (b.toList.map fun bound => (bound.operator, bound.value.toJson)) := by
  apply mapM_map_eq_ok
  intro bound _
  rw [Query.readBound, BoundOperator.ofToken?_token]

/-- The second bound finds its side open. -/
theorem extend_some (construct : String) (field : Name) {first second : Bound}
    (h : second.operator.isLower ≠ first.operator.isLower) :
    extend construct field (some ⟨first, none, by simp⟩) (second.operator, second.value.toJson) =
      .ok ⟨first, some second, by simpa using h⟩ := by
  have hopen : (Bounds.mk first none (by simp)).clash? second.operator = none := by
    simp [clash?, h]
  rw [extend]
  split
  · simp_all
  · rw [Literal.build_toJson, ok_bind, add]

theorem build_toList (construct : String) (field : Name) (b : Bounds) :
    build construct field (b.toList.map fun bound => (bound.operator, bound.value.toJson)) =
      .ok b := by
  obtain ⟨first, second, hopposite⟩ := b
  have hfirst : extend construct field none (first.operator, first.value.toJson) =
      .ok ⟨first, none, by simp⟩ := by
    rw [extend, Literal.build_toJson, ok_bind]
  cases second with
  | none => simp [build, toList, hfirst]
  | some second =>
    have hsecond := extend_some construct field (hopposite second rfl)
    simp [build, toList, hfirst, hsecond]

end Bounds

namespace Query

theorem ofTest_text (operator : TestOperator) (field : Name) {build : Name → Built Check}
    {check : Check} (h : build field = .ok check) :
    ofTest operator field.text build = .ok (.condition (.test field check none)) := by
  rw [ofTest, Name.build_text, ok_bind, h, ok_bind]

theorem readEntry_single {α : Type} (operator : TestOperator) (field : String) (v : Json)
    {read : String → Json → Built α} {value : α} (h : read operator.token v = .ok value) :
    readEntry operator (.single field v) read = .ok (field, value) := by
  rw [readEntry, Json.expectSingle_single, ok_bind]
  simp only [h, ok_bind]

/-- Every test of a field is read back from its operand. -/
theorem readTest_operand (field : Name) (check : Check) :
    readTest check.operator (check.operand field) = .ok (.condition (.test field check none)) := by
  cases check with
  | present =>
    simp only [Check.operator, Check.operand, readTest, Json.expectString_string, ok_bind]
    exact ofTest_text .present field rfl
  | absent =>
    simp only [Check.operator, Check.operand, readTest, Json.expectString_string, ok_bind]
    exact ofTest_text .absent field rfl
  | isNull =>
    simp only [Check.operator, Check.operand, readTest, Json.expectString_string, ok_bind]
    exact ofTest_text .isNull field rfl
  | oneOf values =>
    simp only [Check.operator, Check.operand, readTest,
      readEntry_single .oneOf field.text _ (Json.expectArray_array _), ok_bind]
    apply ofTest_text
    rw [Literal.buildAll_toList, map_ok]
  | noneOf values =>
    simp only [Check.operator, Check.operand, readTest,
      readEntry_single .noneOf field.text _ (Json.expectArray_array _), ok_bind]
    apply ofTest_text
    rw [Literal.buildAll_toList, map_ok]
  | size n bounded =>
    obtain ⟨m, hm, hn⟩ : ∃ m : Int64, Json.expectInt64 TestOperator.size.token (.ofNat n) = .ok m ∧
        m.toInt = n := Json.expectInt64_ofInt (by rw [Int64.toInt_minValue]; omega) bounded
    simp only [Check.operator, Check.operand, readTest,
      readEntry_single .size field.text _ hm, ok_bind]
    apply ofTest_text
    have hnonneg : 0 ≤ m.toInt := by omega
    rw [dif_pos hnonneg]
    simp [hn]
  | compare comparison value =>
    simp only [Check.operator, Check.operand, readTest]
    rw [readEntry_single (.compare comparison) field.text value.toJson rfl, ok_bind]
    apply ofTest_text
    rw [Literal.build_toJson, map_ok]
  | range bounds =>
    simp only [Check.operator, Check.operand, readTest, bounds.toJson_eq,
      readEntry_single .range field.text _ (Json.expectObject_object _), ok_bind,
      bounds.readBound_toList]
    apply ofTest_text
    rw [bounds.build_toList, map_ok]
  | term text =>
    simp only [Check.operator, Check.operand, readTest,
      readEntry_single .term field.text _ (Json.expectString_string _), ok_bind]
    exact ofTest_text .term field rfl
  | regex pattern nonempty =>
    simp only [Check.operator, Check.operand, readTest,
      readEntry_single .regex field.text _ (Json.expectString_string _), ok_bind]
    apply ofTest_text
    rw [dif_neg nonempty]

theorem mapM_condition? (cs : List Condition) : (cs.map condition).mapM condition? = some cs := by
  induction cs with
  | nil => rfl
  | cons c cs ih =>
    rw [List.map_cons, List.mapM_cons, ih]
    rfl

theorem group_condition (junction : Junction) (first : Condition) (rest : List Condition) :
    group junction ((first :: rest).map condition) =
      .ok (.condition (.group junction first rest none)) := by
  rw [group, mapM_condition?]

theorem ofPath_text (ids : NonEmpty NonBlank) :
    ofPath (ids.toList.map NonBlank.text) = .ok (.path ids) := by
  have hread : (ids.toList.map NonBlank.text).mapM
      (NonBlank.build Operator.path.token .emptyIdentifier) = .ok (ids.toList.map id) :=
    mapM_map_eq_ok fun id _ => NonBlank.build_text _ _ id
  rw [ofPath, hread, ok_bind, List.map_id, NonEmpty.ofList?_toList]

/-- What is read from the operand of an operator. -/
def readBody (operator : Operator) (operand : Json) : Built Query :=
  match operator with
  | .test operator => readTest operator operand
  | .path => readPath operand
  | .junction junction => do group junction (← readMembers operand)

/-- The operator is met first, as its token is neither of the qualifiers'. -/
theorem readKeys_token (operator : Operator) (operand : Json) (rest : List (String × Json)) :
    readKeys {} ((operator.token, operand) :: rest) =
      readKeys { body := some (readBody operator operand) } rest := by
  have hne : ∀ keyword, Operator.ofToken? keyword = none → operator.token ≠ keyword := by
    rintro _ hnone rfl
    rw [Operator.ofToken?_token] at hnone
    exact Option.some_ne_none operator hnone
  rw [readKeys, if_neg (hne Keyword.depth rfl), if_neg (hne Keyword.exactDepth rfl),
    Operator.ofToken?_token]
  cases operator <;> rfl

theorem qualify_condition {c : Condition} (hc : c.qualifier = none) (keyword : String)
    (depth : Depth) :
    qualify (.condition c) keyword depth = .ok (.condition (c.withQualifier depth)) := by
  simp only [qualify, hc]

/-- A qualifier is put on a condition that has none. -/
theorem readKeys_qualifier {c : Condition} (hc : c.qualifier = none) (qualifier : Option Depth) :
    (readKeys { body := some (.ok (.condition c)) } (qualifier.map Depth.entry).toList >>= ofKeys) =
      .ok (.condition (qualifier.elim c c.withQualifier)) := by
  match qualifier with
  | none => simp [readKeys, ofKeys]
  | some (.relative levels h) =>
    obtain ⟨m, hm, hlevels⟩ : ∃ m : Int64,
        Json.expectInt64 Keyword.depth (.ofInt levels) = .ok m ∧ m.toInt = levels :=
      Json.expectInt64_of_natAbs_lt (Nat.lt_of_le_of_lt h (by decide))
    simp only [Option.map_some, Option.toList_some, Depth.entry, readKeys, if_true, hm, ok_bind,
      ofKeys, Option.elim_some, Option.elim_none, hlevels, withDepth, dif_pos h,
      qualify_condition hc]
  | some (.exact level h) =>
    obtain ⟨m, hm, hlevel⟩ : ∃ m : Int64,
        Json.expectInt64 Keyword.exactDepth (.ofNat level) = .ok m ∧ m.toInt = level :=
      Json.expectInt64_of_natAbs_lt (Nat.lt_of_le_of_lt h (by decide))
    have hne : Keyword.exactDepth ≠ Keyword.depth := by decide
    have hbounds : 0 ≤ (level : Int) ∧ (level : Int).toNat ≤ maxDepth := ⟨by omega, h⟩
    simp only [Option.map_some, Option.toList_some, Depth.entry, readKeys, if_neg hne, if_true, hm,
      ok_bind, ofKeys, Option.elim_some, Option.elim_none, hlevel, withExactDepth, dif_pos hbounds,
      qualify_condition hc]
    rfl

theorem read_document {operator : Operator} {operand : Json} {c : Condition}
    (hc : c.qualifier = none) (h : readBody operator operand = .ok (.condition c))
    (qualifier : Option Depth) :
    read (Condition.document operator.token operand qualifier) =
      .ok (.condition (qualifier.elim c c.withQualifier)) := by
  rw [Condition.document, read, readKeys_token, h]
  exact readKeys_qualifier hc qualifier

mutual

/-- Conditions are read back at all levels, each with its own qualifier. -/
theorem read_condition : ∀ c : Condition, read c.toJson = .ok (.condition c)
  | .test field check qualifier => by
    have hbody : readBody (.test check.operator) (check.operand field) =
        .ok (.condition (.test field check none)) := readTest_operand field check
    have hread := read_document rfl hbody qualifier
    rw [Condition.toJson]
    cases qualifier <;> exact hread
  | .group junction first rest qualifier => by
    have hfirst := read_condition first
    have hrest := readAll_conditions rest
    have hbody : readBody (.junction junction)
        (.array (first.toJson :: Condition.allToJson rest)) =
          .ok (.condition (.group junction first rest none)) := by
      rw [readBody, readMembers, readAll, hfirst, ok_bind, hrest, ok_bind, ok_bind]
      exact group_condition junction first rest
    have hread := read_document rfl hbody qualifier
    rw [Condition.toJson]
    cases qualifier <;> exact hread

theorem readAll_conditions : ∀ cs : List Condition,
    readAll (Condition.allToJson cs) = .ok (cs.map condition)
  | [] => by rw [Condition.allToJson, readAll, List.map_nil]
  | c :: cs => by
    rw [Condition.allToJson, readAll, read_condition c, ok_bind, readAll_conditions cs, ok_bind,
      List.map_cons]

end

/-- A query is read back from its document. -/
theorem read_toJson (q : Query) : read q.toJson = .ok q := by
  cases q with
  | condition c => exact read_condition c
  | path ids =>
    have hbody : readBody .path (.array (ids.toList.map fun id => .string id.text)) =
        .ok (.path ids) := by
      rw [readBody, readPath, Json.expectArray_array, ok_bind, Json.expectStrings_map, ok_bind,
        ofPath_text]
    rw [toJson, Json.single, read, readKeys_token, hbody]
    simp [readKeys, ofKeys]

end Query

end Fonds
