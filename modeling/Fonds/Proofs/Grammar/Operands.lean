import Fonds.Proofs.Grammar.Bounds
import Mathlib.Data.Set.List

/-!
The operands that the operators take. That of a test or a path is read if and only if it has the
form that the grammar gives it, that of a group if and only if its members are read as conditions.
-/
namespace Fonds

theorem Literal.exists_buildAll_iff {construct : String} {vs : List Json} :
    (∃ ls, buildAll construct vs = .ok ls) ↔ vs ≠ [] ∧ ∀ v ∈ vs, v.IsScalar := by
  have hread : ∀ ls : List Literal, vs.mapM (build construct) = .ok ls ↔ vs = ls.map toJson :=
    fun ls => mapM_eq_ok_iff fun _ _ => build_eq_ok_iff
  have hscalars : (∃ ls : List Literal, vs = ls.map toJson) ↔ ∀ v ∈ vs, v.IsScalar := by
    simp only [← hread, ← exists_build_iff construct]
    simpa using exists_mapM_eq_ok id
  rw [buildAll, exists_bind_eq_ok, ← hscalars]
  simp only [hread]
  constructor
  · rintro ⟨ls, rfl, h⟩
    cases ls with
    | nil => exact absurd h (by simp [NonEmpty.ofList?])
    | cons l ls => exact ⟨by simp, _, rfl⟩
  · rintro ⟨hne, ls, rfl⟩
    cases ls with
    | nil => exact absurd rfl hne
    | cons l ls => exact ⟨_, rfl, ⟨l, ls⟩, rfl⟩

namespace Query

/-- A test is built if its field has a name and its operands are as the operator wants them. -/
theorem exists_ofTest_iff {operator : TestOperator} {field : String} {check : Name → Built Check}
    {IsOperand : Prop} (h : ∀ name, (∃ c, check name = .ok c) ↔ IsOperand) :
    (∃ q, ofTest operator field check = .ok q) ↔ ¬ Text.Blank field ∧ IsOperand := by
  have htest : ∀ name, (∃ q, (do
      let c ← check name
      .ok (.condition (.test name c none)) : Built Query) = .ok q) ↔ IsOperand := by
    intro name
    rw [← h name, exists_bind_eq_ok]
    simp
  rw [ofTest, exists_bind_eq_ok, ← Name.exists_build_iff operator.token]
  simp only [htest, exists_and_right]

/-- An operand that is a single entry is read if its field has a name and its value is of the form
that the operator wants. -/
theorem exists_readEntry_iff {α : Type} {operator : TestOperator} {operand : Json}
    {read : String → Json → Built α} {form : Json → Prop} (make : String → α → Built Query)
    (IsPart : α → Prop)
    (hmake : ∀ field part, (∃ q, make field part = .ok q) ↔ ¬ Text.Blank field ∧ IsPart part)
    (hread : ∀ field v, operand = .single field v →
      ((∃ part, read operator.token v = .ok part ∧ IsPart part) ↔ form v)) :
    (∃ q, (readEntry operator operand read >>= fun part => make part.1 part.2) = .ok q) ↔
      operand.IsEntryOf form := by
  have hentry : ∀ part : String × α, readEntry operator operand read = .ok part ↔
      ∃ v, operand = .single part.1 v ∧ read operator.token v = .ok part.2 := by
    rintro ⟨field, part⟩
    simp [readEntry, bind_eq_ok, Json.expectSingle_eq_ok_iff]
  simp only [exists_bind_eq_ok, hentry, hmake]
  constructor
  · rintro ⟨⟨field, part⟩, ⟨v, hv, hpart⟩, hfield, hform⟩
    exact ⟨field, v, hv, hfield, (hread field v hv).1 ⟨part, hpart, hform⟩⟩
  · rintro ⟨field, v, hv, hfield, hform⟩
    obtain ⟨part, hpart, hpart'⟩ := (hread field v hv).2 hform
    exact ⟨(field, part), ⟨v, hv, hpart⟩, hfield, hpart'⟩

/-- An operand that is the name of a field. -/
theorem exists_readField_iff {operator : TestOperator} {operand : Json} {check : Check} :
    (∃ q, (operand.expectString operator.token >>= fun field =>
        ofTest operator field fun _ => .ok check) = .ok q) ↔ operand.IsNonBlank := by
  have hfield : ∀ field, (∃ q, ofTest operator field (fun _ => .ok check) = .ok q) ↔
      ¬ Text.Blank field ∧ True := fun field => exists_ofTest_iff fun _ => by simp
  simp only [exists_bind_eq_ok, hfield, Json.expectString_eq_ok_iff, and_true]
  rfl

/-- An operand that lists values for a field. -/
theorem exists_readValues_iff {operator : TestOperator} {operand : Json}
    {check : NonEmpty Literal → Check} {construct : String} :
    (∃ q, (readEntry operator operand Json.expectArray >>= fun part =>
        ofTest operator part.1 fun _ => check <$> Literal.buildAll construct part.2) = .ok q) ↔
      operand.IsEntryOf (Json.IsArrayOf Json.IsScalar) := by
  apply exists_readEntry_iff
    (fun field values => ofTest operator field fun _ => check <$> Literal.buildAll construct values)
    fun values => values ≠ [] ∧ ∀ v ∈ values, v.IsScalar
  · intro field values
    exact exists_ofTest_iff fun _ => exists_map_eq_ok.trans Literal.exists_buildAll_iff
  · intro field v _
    simp only [Json.expectArray_eq_ok_iff]
    rfl

theorem exists_readSize_iff {operand : Json} :
    (∃ q, readTest .size operand = .ok q) ↔
      operand.IsEntryOf (Json.IsIntegerIn 0 (2 ^ 63 - 1)) := by
  apply exists_readEntry_iff size fun n : Int64 => 0 ≤ n.toInt
  · intro field n
    refine exists_ofTest_iff fun _ => ?_
    by_cases h : 0 ≤ n.toInt <;> simp [h]
  · exact fun _ _ _ => Json.exists_expectInt64_from_iff _ (by decide)

theorem exists_readComparison_iff {comparison : Comparison} {operand : Json} :
    (∃ q, readTest (.compare comparison) operand = .ok q) ↔ operand.IsEntryOf Json.IsScalar := by
  apply exists_readEntry_iff (compare comparison) Json.IsScalar
  · intro field v
    have hbuild := Literal.exists_build_iff comparison.token (v := v)
    exact exists_ofTest_iff fun _ => exists_map_eq_ok.trans hbuild
  · intro field v _
    simp

theorem exists_readRange_iff {operand : Json} (hoperand : operand.WellFormed) :
    (∃ q, readTest .range operand = .ok q) ↔ operand.IsEntryOf Json.IsBounds := by
  let readBounds (entries : List (String × Json)) : Built (List (BoundOperator × Json)) :=
    entries.mapM (readBound TestOperator.range.token)
  apply exists_readEntry_iff (fun field entries => readBounds entries >>= range field)
    fun entries => ∃ bounds, readBounds entries = .ok bounds ∧ Bounds.Fit bounds
  · intro field entries
    have hrange : ∀ bounds, (∃ q, range field bounds = .ok q) ↔
        ¬ Text.Blank field ∧ Bounds.Fit bounds :=
      fun bounds => exists_ofTest_iff fun _ => exists_map_eq_ok.trans Bounds.exists_build_iff
    simp only [exists_bind_eq_ok, hrange]
    constructor
    · rintro ⟨bounds, hbounds, hfield, hfit⟩
      exact ⟨hfield, bounds, hbounds, hfit⟩
    · rintro ⟨hfield, bounds, hbounds, hfit⟩
      exact ⟨bounds, hbounds, hfield, hfit⟩
  · rintro field v rfl
    have hv : v.WellFormed := hoperand.2.1
    simp only [Json.expectObject_eq_ok_iff]
    constructor
    · rintro ⟨entries, rfl, hentries⟩
      exact (exists_fit_iff hv.1).1 hentries
    · intro hbounds
      obtain ⟨entries, rfl, -⟩ := id hbounds
      exact ⟨entries, rfl, (exists_fit_iff hv.1).2 hbounds⟩

theorem exists_readTerm_iff {operand : Json} :
    (∃ q, readTest .term operand = .ok q) ↔ operand.IsEntryOf (Json.IsText fun _ => True) := by
  apply exists_readEntry_iff term fun _ => True
  · intro field text
    exact exists_ofTest_iff fun _ => by simp
  · intro field v _
    simp only [Json.expectString_eq_ok_iff]
    rfl

theorem exists_readRegex_iff {operand : Json} :
    (∃ q, readTest .regex operand = .ok q) ↔ operand.IsEntryOf (Json.IsText fun s => s ≠ "") := by
  apply exists_readEntry_iff regex fun s => s ≠ ""
  · intro field pattern
    refine exists_ofTest_iff fun _ => ?_
    by_cases h : pattern = "" <;> simp [h]
  · intro field v _
    simp only [Json.expectString_eq_ok_iff]
    rfl

/-- A test is read if and only if its operand is of the form that its operator takes. -/
theorem exists_readTest_iff {operator : TestOperator} {operand : Json}
    (hoperand : operand.WellFormed) :
    (∃ q, readTest operator operand = .ok q) ↔ operator.Accepts operand := by
  cases operator with
  | present => exact exists_readField_iff
  | absent => exact exists_readField_iff
  | isNull => exact exists_readField_iff
  | oneOf => exact exists_readValues_iff
  | noneOf => exact exists_readValues_iff
  | size => exact exists_readSize_iff
  | compare comparison => exact exists_readComparison_iff
  | range => exact exists_readRange_iff hoperand
  | term => exact exists_readTerm_iff
  | regex => exact exists_readRegex_iff

theorem ofPath_eq_ok_iff {texts : List String} {q : Query} : ofPath texts = .ok q ↔
    ∃ ids : NonEmpty NonBlank, texts = ids.toList.map NonBlank.text ∧ q = .path ids := by
  have hread : ∀ ids : List NonBlank,
      texts.mapM (NonBlank.build Operator.path.token .emptyIdentifier) = .ok ids ↔
        texts = ids.map NonBlank.text :=
    fun ids => mapM_eq_ok_iff fun _ _ => NonBlank.build_eq_ok_iff
  rw [ofPath, bind_eq_ok]
  simp only [hread]
  constructor
  · rintro ⟨ids, rfl, h⟩
    cases ids with
    | nil => exact absurd h (by simp [NonEmpty.ofList?])
    | cons id ids =>
      obtain rfl := Except.ok.inj h
      exact ⟨⟨id, ids⟩, rfl, rfl⟩
  · rintro ⟨ids, rfl, rfl⟩
    exact ⟨ids.toList, rfl, by rw [NonEmpty.ofList?_toList]⟩

/-- A path is read from the array of its identifiers and from nothing else. -/
theorem readPath_eq_ok_iff {operand : Json} {q : Query} : readPath operand = .ok q ↔
    ∃ ids : NonEmpty NonBlank, operand = .array (ids.toList.map fun id => .string id.text) ∧
      q = .path ids := by
  simp only [readPath, bind_eq_ok, Json.expectArray_eq_ok_iff, Json.expectStrings_eq_ok_iff,
    ofPath_eq_ok_iff]
  constructor
  · rintro ⟨_, rfl, _, rfl, ids, rfl, rfl⟩
    exact ⟨ids, by simp, rfl⟩
  · rintro ⟨ids, rfl, rfl⟩
    exact ⟨_, rfl, ids.toList.map NonBlank.text, by simp, ids, rfl, rfl⟩

theorem isArrayOf_isNonBlank_iff {v : Json} : v.IsArrayOf Json.IsNonBlank ↔
    ∃ ids : NonEmpty NonBlank, v = .array (ids.toList.map fun id => .string id.text) := by
  constructor
  · rintro ⟨elems, rfl, hne, hforms⟩
    have htexts : elems ∈ Set.range (List.map fun id : NonBlank => Json.string id.text) := by
      rw [Set.range_list_map]
      intro w hw
      obtain ⟨s, rfl, hs⟩ := hforms w hw
      exact ⟨⟨s, hs⟩, rfl⟩
    obtain ⟨ids, rfl⟩ := htexts
    cases ids with
    | nil => exact absurd rfl hne
    | cons id ids => exact ⟨⟨id, ids⟩, rfl⟩
  · rintro ⟨ids, rfl⟩
    refine ⟨_, rfl, by simp [NonEmpty.toList], ?_⟩
    intro w hw
    obtain ⟨id, -, rfl⟩ := List.mem_map.1 hw
    exact ⟨id.text, rfl, id.not_blank⟩

theorem eq_test_of_ofTest {operator : TestOperator} {field : String} {check : Name → Built Check}
    {q : Query} (h : ofTest operator field check = .ok q) :
    ∃ name c, q = .condition (.test name c none) := by
  obtain ⟨name, -, h⟩ := bind_eq_ok.1 h
  obtain ⟨c, -, h⟩ := bind_eq_ok.1 h
  exact ⟨name, c, (Except.ok.inj h).symm⟩

theorem eq_test_of_readTest {operator : TestOperator} {operand : Json} {q : Query}
    (h : readTest operator operand = .ok q) : ∃ name c, q = .condition (.test name c none) := by
  cases operator <;> obtain ⟨_, _, h⟩ := bind_eq_ok.1 h
  case range =>
    obtain ⟨_, _, h⟩ := bind_eq_ok.1 h
    exact eq_test_of_ofTest h
  all_goals exact eq_test_of_ofTest h

theorem mapM_condition?_eq_some {qs : List Query} {cs : List Condition}
    (h : qs.mapM condition? = some cs) : qs = cs.map condition := by
  induction qs generalizing cs with
  | nil =>
    obtain rfl := Option.some.inj h
    rfl
  | cons q qs ih =>
    rw [List.mapM_cons, Option.bind_eq_bind, Option.bind_eq_some_iff] at h
    obtain ⟨c, hc, h⟩ := h
    obtain ⟨cs, hcs, h⟩ := Option.bind_eq_some_iff.1 h
    obtain rfl := Option.some.inj h
    cases q with
    | path => exact absurd hc (by simp [condition?])
    | condition c' =>
      obtain rfl := Option.some.inj hc
      rw [ih hcs, List.map_cons]

/-- The members of a group are conditions, and there is a first one. -/
theorem group_eq_ok_iff {junction : Junction} {members : List Query} {q : Query} :
    group junction members = .ok q ↔ ∃ first rest, members = (first :: rest).map condition ∧
      q = .condition (.group junction first rest none) := by
  constructor
  · intro h
    rw [group] at h
    split at h
    next => exact absurd h (by simp)
    next => exact absurd h (by simp)
    next first rest hmembers =>
      obtain rfl := Except.ok.inj h
      exact ⟨first, rest, mapM_condition?_eq_some hmembers, rfl⟩
  · rintro ⟨first, rest, rfl, rfl⟩
    exact group_condition junction first rest

theorem readAll_eq_mapM (vs : List Json) : readAll vs = vs.mapM read := by
  induction vs with
  | nil => rw [readAll]; rfl
  | cons v vs ih => rw [readAll, ih, List.mapM_cons]; rfl

theorem readMembers_eq_readAll (v : Json) : readMembers v = readAll v.oneOrMany := by
  cases v with
  | array elems => rw [readMembers, Json.oneOrMany_array]
  | object entries => simp [readMembers, Json.oneOrMany, readAll, read]
  | _ => rfl

/-- A group is read if and only if it has a member and all of them are conditions. -/
theorem exists_readGroup_iff (junction : Junction) {operand : Json} :
    (∃ q, readBody (.junction junction) operand = .ok q) ↔ operand.oneOrMany ≠ [] ∧
      ∀ v ∈ operand.oneOrMany, ∃ c, read v = .ok (.condition c) := by
  simp only [readBody, readMembers_eq_readAll, readAll_eq_mapM, exists_bind_eq_ok, group_eq_ok_iff]
  rw [← exists_mapM_eq_ok condition]
  constructor
  · rintro ⟨_, hread, _, first, rest, rfl, -⟩
    refine ⟨?_, first :: rest, hread⟩
    intro hnil
    rw [hnil] at hread
    exact absurd (Except.ok.inj hread) (by simp)
  · rintro ⟨hne, cs, hread⟩
    cases cs with
    | nil =>
      obtain ⟨v, vs, hvs⟩ := List.exists_cons_of_ne_nil hne
      rw [hvs] at hread
      exact absurd hread mapM_cons_ne_nil
    | cons first rest => exact ⟨_, hread, _, first, rest, rfl, rfl⟩

/-- What an operator makes of its operand has no qualifier. -/
theorem depth_of_readBody {operator : Operator} {operand : Json} {q : Query}
    (h : readBody operator operand = .ok q) : q.depth = none := by
  cases operator with
  | test operator =>
    obtain ⟨_, _, rfl⟩ := eq_test_of_readTest h
    rfl
  | path =>
    obtain ⟨_, _, rfl⟩ := readPath_eq_ok_iff.1 h
    rfl
  | junction junction =>
    obtain ⟨members, -, h⟩ := bind_eq_ok.1 h
    obtain ⟨_, _, -, rfl⟩ := group_eq_ok_iff.1 h
    rfl

end Query

end Fonds
