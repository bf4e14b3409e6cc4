import Fonds.Proofs.Outcome
import Fonds.Proofs.Store.Tests
import Mathlib.Data.List.Nodup

/-!
What the rendered form of a predicate tells of it. Two predicates are rendered alike if they differ
only in how their tests are put: a range of one bound is a comparison, and a list of texts is a set
of known identifiers. The reader of rendered predicates below shows that they are rendered alike in
no other case, whatever the fields are called.
-/
namespace Fonds

/-- The texts that values are, where all of them are texts. -/
def Json.texts? (values : List Json) : Option (List String) := values.mapM asString?

theorem Json.texts?_eq_some_iff {values : List Json} {texts : List String} :
    texts? values = some texts ↔ values = texts.map .string := by
  induction values generalizing texts with
  | nil => cases texts <;> simp [texts?]
  | cons v values ih =>
    rw [texts?] at ih ⊢
    cases v <;> cases texts <;>
      simp_all [List.mapM_cons, asString?, Option.bind_eq_some_iff, and_comm]

theorem Comparison.token_injective : Function.Injective token := by
  intro a b h
  have hread : ofToken? a.token = ofToken? b.token := by rw [h]
  simpa using hread

namespace Store

namespace FieldTest

/-- The plainest way to put a test. -/
def canonical : FieldTest → FieldTest
  | .range [(comparison, value)] => .compare comparison value
  | .oneOf values =>
    match Json.texts? values with
    | some texts => .ids (.literal texts)
    | none => .oneOf values
  | t => t

/-- No two bounds of a range use one operator. -/
def DistinctBounds : FieldTest → Prop
  | .range bounds => (bounds.map Prod.fst).Nodup
  | _ => True

end FieldTest

namespace Predicate

mutual

/-- A predicate with its tests at all levels put in the plainest way. -/
def canonical : Predicate → Predicate
  | .all members => .all (allCanonical members)
  | .any members => .any (allCanonical members)
  | .none members => .none (allCanonical members)
  | .always => .always
  | .test field t => .test field t.canonical

def allCanonical : List Predicate → List Predicate
  | [] => []
  | p :: ps => p.canonical :: allCanonical ps

end

/-- No two bounds of a range use one operator, at any level. -/
def DistinctBounds (p : Predicate) : Prop := ∀ t ∈ p.tests, t.2.DistinctBounds

end Predicate

/-- The set that was rendered. -/
def IdSet.ofJson? : Json → Option IdSet
  | .array ids => .literal <$> Json.texts? ids
  | .object [("$step", .number (.integer index))] => some (.step index.toNat)
  | .object [("$ancestors", .object [("$of", below), ("$depth", .number (.integer levels))])] =>
    (.ancestors · levels.toNat) <$> ofJson? below
  | _ => none

namespace FieldTest

/-- The test that was rendered as an object of one entry. -/
def ofSingle? (key : String) (v : Json) : Option FieldTest :=
  match Comparison.ofToken? key with
  | some comparison => some (.compare comparison v)
  | none =>
    match key, v with
    | "$exists", .bool present => some (.presence present)
    | "$in", .array values => some (canonical (.oneOf values))
    | "$in", set => .ids <$> IdSet.ofJson? set
    | "$nin", .array values => some (.noneOf values)
    | "$size", .number (.integer n) => some (.size n.toNat)
    | "$regex", .string pattern => some (.regex pattern)
    | _, _ => none

/-- The bound that was rendered as an entry. -/
def boundOf? (e : String × Json) : Option (Comparison × Json) :=
  (·, e.2) <$> Comparison.ofToken? e.1

/-- The test that was rendered, put in the plainest way. -/
def ofJson? : Json → Option FieldTest
  | .string text => some (.term text)
  | .object [(key, v)] => ofSingle? key v
  | .object entries => .range <$> entries.mapM boundOf?
  | _ => none

end FieldTest

namespace Predicate

mutual

/-- The predicate that was rendered. Only a group has an array under its token, so that a field may
be called like one. -/
def ofJson? : Json → Option Predicate
  | .object [] => some .always
  | .object [("$and", .array members)] => .all <$> allOfJson? members
  | .object [("$or", .array members)] => .any <$> allOfJson? members
  | .object [("$nor", .array members)] => .none <$> allOfJson? members
  | .object [(field, t)] => .test field <$> FieldTest.ofJson? t
  | _ => Option.none

def allOfJson? : List Json → Option (List Predicate)
  | [] => some []
  | v :: vs => do
    let p ← ofJson? v
    let ps ← allOfJson? vs
    some (p :: ps)

end

end Predicate

theorem IdSet.ofJson?_toJson (s : IdSet) : ofJson? s.toJson = some s := by
  induction s with
  | literal ids =>
    have htexts : Json.texts? (ids.map .string) = some ids := Json.texts?_eq_some_iff.2 rfl
    rw [toJson, ofJson?, htexts]
    rfl
  | step index => simp [toJson, Json.single, Json.ofNat, Json.ofInt, ofJson?]
  | ancestors below levels ih => simp [toJson, Json.single, Json.ofNat, Json.ofInt, ofJson?, ih]

namespace FieldTest

variable {t : FieldTest} {bounds : List (Comparison × Json)}

theorem canonical_oneOf_strings (ids : List String) :
    canonical (.oneOf (ids.map .string)) = .ids (.literal ids) := by
  have htexts : Json.texts? (ids.map .string) = some ids := Json.texts?_eq_some_iff.2 rfl
  rw [canonical, htexts]

theorem toJson_range (h : (bounds.map Prod.fst).Nodup) :
    (range bounds).toJson = .object (bounds.map fun b => (b.1.token, b.2)) := by
  rw [toJson, Json.ofEntries, Entries.collect_of_nodup]
  have hkeys : Entries.keys (bounds.map fun b => (b.1.token, b.2)) =
      (bounds.map Prod.fst).map Comparison.token := by
    simp [Entries.keys, Function.comp_def]
  rw [hkeys]
  exact List.Nodup.map Comparison.token_injective h

theorem mapM_boundOf? (bounds : List (Comparison × Json)) :
    (bounds.map fun b => (b.1.token, b.2)).mapM boundOf? = some bounds := by
  induction bounds with
  | nil => rfl
  | cons b bounds ih =>
    have hb : boundOf? (b.1.token, b.2) = some b := by simp [boundOf?]
    rw [List.map_cons, List.mapM_cons, hb, ih]
    rfl

theorem ofJson?_range (h : (bounds.map Prod.fst).Nodup) :
    ofJson? (range bounds).toJson = some (range bounds).canonical := by
  rw [toJson_range h]
  match bounds with
  | [] => rfl
  | [(comparison, value)] => simp [ofJson?, ofSingle?, canonical]
  | b :: b' :: rest =>
    have hread := mapM_boundOf? (b :: b' :: rest)
    simp only [List.map_cons] at hread ⊢
    rw [ofJson?, hread]
    · rfl
    · simp

theorem ofJson?_ids (set : IdSet) : ofJson? (ids set).toJson = some (ids set) := by
  have hset := set.ofJson?_toJson
  cases set with
  | literal texts => exact congrArg some (canonical_oneOf_strings texts)
  | step index => exact congrArg (ids <$> ·) hset
  | ancestors below levels => exact congrArg (ids <$> ·) hset

/-- A rendered test can be read back. -/
theorem ofJson?_toJson (h : t.DistinctBounds) : ofJson? t.toJson = some t.canonical := by
  cases t with
  | range bounds => exact ofJson?_range h
  | compare comparison value => simp [toJson, Json.single, ofJson?, ofSingle?, canonical]
  | ids set => exact ofJson?_ids set
  | _ => rfl

/-- The two ways to put a test look the same. -/
theorem toJson_canonical (t : FieldTest) : t.canonical.toJson = t.toJson := by
  fun_cases canonical t with
  | case1 comparison value => rfl
  | case2 values texts h =>
    rw [Json.texts?_eq_some_iff.1 h]
    rfl
  | case3 => rfl
  | case4 => rfl

theorem toJson_ne_array (t : FieldTest) (elems : List Json) : t.toJson ≠ .array elems := by
  cases t <;> simp [toJson, Json.single, Json.ofEntries]

end FieldTest

namespace Predicate

variable {p q : Predicate}

/-- What stands under a field is no array, so that it is not taken for a group. -/
theorem ofJson?_single {field : String} {t : FieldTest} :
    ofJson? (.single field t.toJson) = .test field <$> FieldTest.ofJson? t.toJson := by
  have harray := t.toJson_ne_array
  cases hv : t.toJson with
  | array elems => exact absurd hv (harray elems)
  | _ => simp [ofJson?, Json.single]

theorem distinctBounds_flatMap {ps : List Predicate} :
    (∀ t ∈ ps.flatMap tests, t.2.DistinctBounds) ↔ ∀ p ∈ ps, p.DistinctBounds :=
  List.forall_mem_flatMap

mutual

/-- A rendered predicate can be read back. -/
theorem ofJson?_toJson : ∀ p : Predicate, p.DistinctBounds → ofJson? p.toJson = some p.canonical
  | .all members, h => by
    rw [DistinctBounds, tests_all, distinctBounds_flatMap] at h
    simp [toJson, Json.single, ofJson?, allOfJson?_allToJson members h, canonical]
  | .any members, h => by
    rw [DistinctBounds, tests_any, distinctBounds_flatMap] at h
    simp [toJson, Json.single, ofJson?, allOfJson?_allToJson members h, canonical]
  | .none members, h => by
    rw [DistinctBounds, tests_none, distinctBounds_flatMap] at h
    simp [toJson, Json.single, ofJson?, allOfJson?_allToJson members h, canonical]
  | .always, _ => by simp [toJson, ofJson?, canonical]
  | .test field t, h => by
    have ht : t.DistinctBounds := h (field, t) (by simp)
    rw [toJson, ofJson?_single, FieldTest.ofJson?_toJson ht, canonical]
    rfl

theorem allOfJson?_allToJson : ∀ ps : List Predicate, (∀ p ∈ ps, p.DistinctBounds) →
    allOfJson? (allToJson ps) = some (allCanonical ps)
  | [], _ => rfl
  | p :: ps, h => by
    obtain ⟨hp, hps⟩ := List.forall_mem_cons.1 h
    simp [allToJson, allOfJson?, ofJson?_toJson p hp, allOfJson?_allToJson ps hps, allCanonical]

end

mutual

theorem toJson_canonical : ∀ p : Predicate, p.canonical.toJson = p.toJson
  | .all members => by rw [canonical, toJson, toJson, allToJson_allCanonical members]
  | .any members => by rw [canonical, toJson, toJson, allToJson_allCanonical members]
  | .none members => by rw [canonical, toJson, toJson, allToJson_allCanonical members]
  | .always => by rw [canonical]
  | .test field t => by rw [canonical, toJson, toJson, t.toJson_canonical]

theorem allToJson_allCanonical : ∀ ps : List Predicate,
    allToJson (allCanonical ps) = allToJson ps
  | [] => rfl
  | p :: ps => by
    rw [allCanonical, allToJson, allToJson, toJson_canonical p, allToJson_allCanonical ps]

end

/-- Predicates that are rendered alike are the same in the plainest form. -/
theorem canonical_eq_of_toJson_eq (hp : p.DistinctBounds) (hq : q.DistinctBounds)
    (h : p.toJson = q.toJson) : p.canonical = q.canonical := by
  have hread : some p.canonical = some q.canonical := by
    rw [← ofJson?_toJson p hp, ← ofJson?_toJson q hq, h]
  exact Option.some.inj hread

theorem toJson_eq_of_canonical_eq (h : p.canonical = q.canonical) : p.toJson = q.toJson := by
  rw [← toJson_canonical p, ← toJson_canonical q, h]

end Predicate

end Store

end Fonds
