import Fonds.Proofs.Grammar.Keys
import Fonds.Proofs.Json.WellFormed

/-!
The reader of queries takes the documents of the grammar and no other values.
-/
namespace Fonds.Query

variable {entries : List (String × Json)} {v : Json}

/-- A condition is read where an operator heads the entries and makes a condition of its operand. -/
theorem exists_read_condition_iff (hentries : (Entries.keys entries).Nodup) :
    (∃ c, read (.object entries) = .ok (.condition c)) ↔
      ∃ operator operand, Headed entries operator operand ∧
        ∃ c, readBody operator operand = .ok (.condition c) := by
  simp only [read_object_eq_ok_iff hentries, headed_iff_perm hentries]
  constructor
  · rintro ⟨c, operator, operand, b, qualifier, hperm, hb, hq⟩
    cases b with
    | path ids => cases qualifier <;> exact absurd hq (by simp [qualified?])
    | condition c => exact ⟨operator, operand, ⟨qualifier, hperm⟩, c, hb⟩
  · rintro ⟨operator, operand, ⟨qualifier, hperm⟩, c, hb⟩
    cases qualifier with
    | none => exact ⟨c, operator, operand, _, none, hperm, hb, rfl⟩
    | some depth => exact ⟨c.withQualifier depth, operator, operand, _, some depth, hperm, hb, rfl⟩

/-- Only the operator of paths makes a path. -/
theorem readBody_eq_path_iff {operator : Operator} {operand : Json} {ids : NonEmpty NonBlank} :
    readBody operator operand = .ok (.path ids) ↔ operator = .path ∧
      operand = .array (ids.toList.map fun id => .string id.text) := by
  cases operator with
  | test operator =>
    constructor
    · intro h
      obtain ⟨_, _, hq⟩ := eq_test_of_readTest h
      exact absurd hq (by simp)
    · exact fun h => absurd h.1 (by simp)
  | junction junction =>
    constructor
    · intro h
      obtain ⟨_, -, h⟩ := bind_eq_ok.1 h
      obtain ⟨_, _, -, hq⟩ := group_eq_ok_iff.1 h
      exact absurd hq (by simp)
    · exact fun h => absurd h.1 (by simp)
  | path =>
    rw [readBody, readPath_eq_ok_iff]
    constructor
    · rintro ⟨ids', hoperand, hq⟩
      obtain rfl := Query.path.inj hq
      exact ⟨rfl, hoperand⟩
    · rintro ⟨-, hoperand⟩
      exact ⟨ids, hoperand, rfl⟩

/-- A path is read from the entry of its operator alone. -/
theorem exists_read_path_iff (hentries : (Entries.keys entries).Nodup) :
    (∃ ids, read (.object entries) = .ok (.path ids)) ↔ IsPath (.object entries) := by
  simp only [read_object_eq_ok_iff hentries]
  constructor
  · rintro ⟨ids, operator, operand, b, qualifier, hperm, hb, hq⟩
    match b, qualifier with
    | .path _, none =>
      obtain ⟨rfl, hoperand⟩ := readBody_eq_path_iff.1 hb
      obtain rfl := List.perm_singleton.1 hperm
      exact ⟨operand, rfl, isArrayOf_isNonBlank_iff.2 ⟨_, hoperand⟩⟩
    | .path _, some _ => exact absurd hq (by simp [qualified?])
    | .condition _, none => exact absurd hq (by simp [qualified?])
    | .condition _, some _ => exact absurd hq (by simp [qualified?])
  · rintro ⟨operand, hv, hoperand⟩
    obtain rfl := Json.object.inj hv
    obtain ⟨ids, rfl⟩ := isArrayOf_isNonBlank_iff.1 hoperand
    exact ⟨ids, .path, _, .path ids, none, .refl _, readBody_eq_path_iff.2 ⟨rfl, rfl⟩, rfl⟩

/-- A condition is read from nothing but the document of one. The recursion is on the value, as it
is in the reader. -/
theorem isCondition_of_read {v : Json} {c : Condition} (hv : v.WellFormed)
    (h : read v = .ok (.condition c)) : IsCondition v := by
  match v, hv, h with
  | .object entries, hv, h =>
    obtain ⟨operator, operand, head, c, hc⟩ := (exists_read_condition_iff hv.1).1 ⟨c, h⟩
    have hoperand : operand.WellFormed := hv.of_mem_entries head.written
    cases operator with
    | test operator => exact .test head ((exists_readTest_iff hoperand).1 ⟨_, hc⟩)
    | path =>
      obtain ⟨_, _, hpath⟩ := readPath_eq_ok_iff.1 hc
      exact absurd hpath (by simp)
    | junction junction =>
      obtain ⟨hne, hmembers⟩ := (exists_readGroup_iff junction).1 ⟨_, hc⟩
      refine .group head hne ?_
      intro w hw
      obtain ⟨c, hc⟩ := hmembers w hw
      exact isCondition_of_read (hoperand.of_mem_oneOrMany hw) hc
termination_by sizeOf v
decreasing_by
  have hmember : sizeOf w ≤ sizeOf operand := Json.sizeOf_le_of_mem_oneOrMany hw
  have hentry : sizeOf operand < sizeOf (Json.object entries) :=
    Json.sizeOf_lt_of_mem_entries head.written
  omega

/-- By induction on the document: its members are well formed with it. -/
theorem exists_read_of_isCondition (hv : v.WellFormed) (h : IsCondition v) :
    ∃ c, read v = .ok (.condition c) := by
  induction h with
  | @test entries operator operand head accepts =>
    have hoperand : operand.WellFormed := hv.of_mem_entries head.written
    obtain ⟨q, hq⟩ := (exists_readTest_iff hoperand).2 accepts
    obtain ⟨_, _, rfl⟩ := eq_test_of_readTest hq
    exact (exists_read_condition_iff hv.1).2 ⟨.test operator, operand, head, _, hq⟩
  | @group entries junction operand head nonempty members ih =>
    have hoperand : operand.WellFormed := hv.of_mem_entries head.written
    have hmembers : ∀ w ∈ operand.oneOrMany, ∃ c, read w = .ok (.condition c) :=
      fun w hw => ih w hw (hoperand.of_mem_oneOrMany hw)
    obtain ⟨q, hq⟩ := (exists_readGroup_iff junction).2 ⟨nonempty, hmembers⟩
    obtain ⟨_, -, hgroup⟩ := bind_eq_ok.1 hq
    obtain ⟨_, _, -, rfl⟩ := group_eq_ok_iff.1 hgroup
    exact (exists_read_condition_iff hv.1).2 ⟨.junction junction, operand, head, _, hq⟩

theorem isQuery_of_read {q : Query} (hv : v.WellFormed) (h : read v = .ok q) : IsQuery v := by
  cases q with
  | condition c => exact .inl (isCondition_of_read hv h)
  | path ids =>
    match v, hv, h with
    | .object entries, hv, h => exact .inr ((exists_read_path_iff hv.1).1 ⟨ids, h⟩)

theorem exists_read_of_isQuery (hv : v.WellFormed) (h : IsQuery v) : ∃ q, read v = .ok q := by
  rcases h with h | h
  · obtain ⟨c, hc⟩ := exists_read_of_isCondition hv h
    exact ⟨_, hc⟩
  · obtain ⟨operand, rfl, -⟩ := id h
    obtain ⟨ids, hids⟩ := (exists_read_path_iff hv.1).2 h
    exact ⟨_, hids⟩

theorem isPath_iff_of_read {q : Query} (hv : v.WellFormed) (h : read v = .ok q) :
    IsPath v ↔ q.isPath := by
  match v, hv, h with
  | .object entries, hv, h =>
    rw [← exists_read_path_iff hv.1, h]
    cases q <;> simp [isPath]

/-- A query is read from a value if and only if the value is a query document. What comes from a
text is well formed by `Json.wellFormed_of_parse?`. -/
theorem exists_read_iff_isQuery (hv : v.WellFormed) : (∃ q, read v = .ok q) ↔ IsQuery v :=
  ⟨fun ⟨_, hq⟩ => isQuery_of_read hv hq, exists_read_of_isQuery hv⟩

/-- A map by its title. -/
def mapTitle : Json := .single TestOperator.term.token (.single "Title" (.string "map"))

/-- A date in the first half of the century. -/
def earlyDate : Json := .single TestOperator.range.token (.single "Date" (.object
  [(BoundOperator.gte.token, .ofInt 1900), (BoundOperator.lt.token, .ofInt 1950)]))

/-- The maps two levels further down that are not early. The qualifier comes first, and the group
that excludes has its only member as it is. -/
def lateMapsBelow : Json := .object [(Keyword.depth, .ofInt 2),
  (Junction.all.token, .array [mapTitle, .single Junction.notAll.token earlyDate])]

theorem isCondition_mapTitle : IsCondition mapTitle :=
  .test (headed_qualifier (.test .term) _ none) ⟨"Title", _, rfl, by decide, "map", rfl, trivial⟩

theorem isCondition_earlyDate : IsCondition earlyDate := by
  refine .test (headed_qualifier (.test .range) _ none) ⟨"Date", _, rfl, by decide, _, rfl, ?_⟩
  refine ⟨by simp, ?_, by decide, by decide⟩
  intro e he
  rcases List.mem_pair.1 he with rfl | rfl
  · exact ⟨⟨.gte, rfl⟩, trivial⟩
  · exact ⟨⟨.lt, rfl⟩, trivial⟩

theorem isQuery_lateMapsBelow : IsQuery lateMapsBelow := by
  have hnot : IsCondition (.single Junction.notAll.token earlyDate) := by
    refine .group (headed_qualifier (.junction .notAll) earlyDate none) (List.cons_ne_nil _ _) ?_
    intro v hv
    obtain rfl := List.mem_singleton.1 hv
    exact isCondition_earlyDate
  have head := headed_qualifier (.junction .all)
    (.array [mapTitle, .single Junction.notAll.token earlyDate]) (some (.relative 2 (by decide)))
  refine .inl (.group (head.of_perm (.swap _ _ [])) (by simp) ?_)
  intro v hv
  rcases List.mem_pair.1 hv with rfl | rfl
  · exact isCondition_mapTitle
  · exact hnot

/-- Keys differ at every level, so the document is read. -/
theorem exists_read_lateMapsBelow :
    lateMapsBelow.WellFormed ∧ ∃ q, read lateMapsBelow = .ok q := by
  have hv : lateMapsBelow.WellFormed := by
    have hbounds : BoundOperator.gte.token ≠ BoundOperator.lt.token := by decide
    have hdepth : Keyword.depth ≠ Junction.all.token := by decide
    simp [lateMapsBelow, mapTitle, earlyDate, Json.single, Json.ofInt, Json.WellFormed,
      Json.AllWellFormed, Json.EntriesWellFormed, hbounds, hdepth]
  exact ⟨hv, (exists_read_iff_isQuery hv).2 isQuery_lateMapsBelow⟩

end Fonds.Query
