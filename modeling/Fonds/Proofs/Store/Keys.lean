import Fonds.Literal
import Fonds.Proofs.Json.WellFormed
import Fonds.Proofs.Store.Tests

/-!
The keys in a rendered predicate. Each is an operator or placeholder that the printer writes, the
field of a test, or a key inside a value that a field is tested against.
-/
namespace Fonds

namespace Json

mutual

/-- The keys of the objects in a value, at all levels. -/
def keys : Json → List String
  | .array elems => keysOfAll elems
  | .object entries => keysOfEntries entries
  | _ => []

def keysOfAll : List Json → List String
  | [] => []
  | v :: vs => v.keys ++ keysOfAll vs

def keysOfEntries : List (String × Json) → List String
  | [] => []
  | (key, v) :: rest => key :: (v.keys ++ keysOfEntries rest)

end

@[simp] theorem keys_array {elems : List Json} : (array elems).keys = elems.flatMap keys := by
  rw [keys]
  induction elems with
  | nil => rfl
  | cons v elems ih => rw [keysOfAll, ih, List.flatMap_cons]

@[simp] theorem keys_object {entries : List (String × Json)} :
    (object entries).keys = entries.flatMap fun e => e.1 :: e.2.keys := by
  rw [keys]
  induction entries with
  | nil => rfl
  | cons e entries ih => simp [keysOfEntries, ih]

@[simp] theorem keys_single {key : String} {v : Json} : (single key v).keys = key :: v.keys := by
  simp [single]

@[simp] theorem keys_bool {b : Bool} : (bool b).keys = [] := by simp [keys]

@[simp] theorem keys_string {s : String} : (string s).keys = [] := by simp [keys]

@[simp] theorem keys_ofInt {n : Int} : (ofInt n).keys = [] := by simp [ofInt, keys]

@[simp] theorem keys_ofNat {n : Nat} : (ofNat n).keys = [] := keys_ofInt

theorem exists_mem_of_mem_keys_ofEntries {k : String} {entries : List (String × Json)}
    (h : k ∈ (ofEntries entries).keys) : ∃ e ∈ entries, k = e.1 ∨ k ∈ e.2.keys := by
  rw [ofEntries, keys_object] at h
  obtain ⟨e, he, hk⟩ := List.mem_flatMap.1 h
  exact ⟨e, Entries.mem_of_mem_collect he, List.mem_cons.1 hk⟩

end Json

theorem Literal.keys_toJson (l : Literal) : l.toJson.keys = [] := by
  cases l <;> simp [toJson, Json.keys]

namespace Store

/-- The operators and placeholders that rendered predicates are written with. -/
def operatorKeys : List String :=
  ["$and", "$or", "$nor", "$exists", "$in", "$nin", "$size", "$regex",
    "$step", "$ancestors", "$of", "$depth"] ++ Comparison.all.map Comparison.token

theorem token_mem_operatorKeys (comparison : Comparison) :
    comparison.token ∈ operatorKeys := by
  cases comparison <;> decide

/-- The values that a test compares its field with. -/
def FieldTest.values : FieldTest → List Json
  | .compare _ value => [value]
  | .oneOf values | .noneOf values => values
  | .range bounds => bounds.map Prod.snd
  | _ => []

theorem IdSet.keys_toJson_subset (s : IdSet) : s.toJson.keys ⊆ operatorKeys := by
  induction s with
  | literal ids =>
    have hnil : (ids.map Json.string).flatMap Json.keys = [] := by
      simp only [List.flatMap_eq_nil_iff, List.forall_mem_map, Json.keys_string, implies_true]
    rw [toJson, Json.keys_array, hnil]
    exact List.nil_subset _
  | step index =>
    have hstep : "$step" ∈ operatorKeys := by decide
    simpa [toJson] using hstep
  | ancestors below levels ih =>
    have hancestors : "$ancestors" ∈ operatorKeys := by decide
    have hof : "$of" ∈ operatorKeys := by decide
    have hdepth : "$depth" ∈ operatorKeys := by decide
    simpa [toJson, List.cons_subset, hancestors, hof, hdepth] using ih

/-- A key of a rendered test is one of the printer's, or stands inside a value. -/
theorem FieldTest.mem_keys_toJson {t : FieldTest} {k : String} (h : k ∈ t.toJson.keys) :
    k ∈ operatorKeys ∨ ∃ v ∈ t.values, k ∈ v.keys := by
  cases t with
  | presence present =>
    obtain rfl : k = "$exists" := by simpa [toJson] using h
    exact .inl (by decide)
  | compare comparison value =>
    rw [toJson, Json.keys_single, List.mem_cons] at h
    rcases h with rfl | h
    · exact .inl (token_mem_operatorKeys comparison)
    · exact .inr ⟨value, List.mem_singleton_self value, h⟩
  | oneOf values =>
    rw [toJson, Json.keys_single, Json.keys_array, List.mem_cons, List.mem_flatMap] at h
    rcases h with rfl | h
    · exact .inl (by decide)
    · exact .inr h
  | noneOf values =>
    rw [toJson, Json.keys_single, Json.keys_array, List.mem_cons, List.mem_flatMap] at h
    rcases h with rfl | h
    · exact .inl (by decide)
    · exact .inr h
  | size n =>
    obtain rfl : k = "$size" := by simpa [toJson] using h
    exact .inl (by decide)
  | range bounds =>
    obtain ⟨e, he, hk⟩ := Json.exists_mem_of_mem_keys_ofEntries h
    obtain ⟨b, hb, rfl⟩ := List.mem_map.1 he
    rcases hk with rfl | hk
    · exact .inl (token_mem_operatorKeys b.1)
    · exact .inr ⟨b.2, List.mem_map_of_mem hb, hk⟩
  | regex pattern =>
    obtain rfl : k = "$regex" := by simpa [toJson] using h
    exact .inl (by decide)
  | term text => simp [toJson] at h
  | ids set =>
    rw [toJson, Json.keys_single, List.mem_cons] at h
    rcases h with rfl | h
    · exact .inl (by decide)
    · exact .inl (set.keys_toJson_subset h)

/-- A key that the printer writes, the field of one of some tests, or a key inside a value that one
of them compares with. -/
def KeySource (tests : List (String × FieldTest)) (k : String) : Prop :=
  k ∈ operatorKeys ∨ ∃ t ∈ tests, k = t.1 ∨ ∃ v ∈ t.2.values, k ∈ v.keys

variable {tests tests' : List (String × FieldTest)} {k : String}

theorem KeySource.mono (h : KeySource tests k) (hsub : tests ⊆ tests') : KeySource tests' k := by
  refine h.imp_right ?_
  rintro ⟨t, ht, hk⟩
  exact ⟨t, hsub ht, hk⟩

theorem keySource_group {token : String} {members : List Json} (htoken : token ∈ operatorKeys)
    (hmembers : ∀ k ∈ members.flatMap Json.keys, KeySource tests k) :
    ∀ k ∈ (Json.single token (.array members)).keys, KeySource tests k := by
  rw [Json.keys_single, Json.keys_array]
  exact List.forall_mem_cons.2 ⟨.inl htoken, hmembers⟩

namespace Predicate

mutual

/-- The printer adds no keys but its own. -/
theorem keySource_of_mem_keys : ∀ p : Predicate, ∀ k ∈ p.toJson.keys, KeySource p.tests k
  | .all members => by
    rw [toJson, Predicate.tests]
    exact keySource_group (by decide) (keySource_of_mem_allKeys members)
  | .any members => by
    rw [toJson, Predicate.tests]
    exact keySource_group (by decide) (keySource_of_mem_allKeys members)
  | .none members => by
    rw [toJson, Predicate.tests]
    exact keySource_group (by decide) (keySource_of_mem_allKeys members)
  | .always => by simp [toJson]
  | .test field t => by
    rw [toJson, Predicate.tests, Json.keys_single, List.forall_mem_cons]
    refine ⟨.inr ⟨(field, t), List.mem_singleton_self _, .inl rfl⟩, fun k hk => ?_⟩
    refine (FieldTest.mem_keys_toJson hk).imp_right fun hv => ?_
    exact ⟨(field, t), List.mem_singleton_self _, .inr hv⟩

theorem keySource_of_mem_allKeys : ∀ ps : List Predicate,
    ∀ k ∈ (allToJson ps).flatMap Json.keys, KeySource (allTests ps) k
  | [] => by simp [allToJson]
  | p :: ps => by
    rw [allToJson, List.flatMap_cons, allTests, List.forall_mem_append]
    constructor
    · intro k hk
      exact (keySource_of_mem_keys p k hk).mono (List.subset_append_left _ _)
    · intro k hk
      exact (keySource_of_mem_allKeys ps k hk).mono (List.subset_append_right _ _)

end

end Predicate

end Store

end Fonds
