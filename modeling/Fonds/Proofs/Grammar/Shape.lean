import Fonds.Proofs.Outcome
import Fonds.Shape
import Mathlib.Algebra.Group.Int.Defs

/-!
The shapes of JSON values that constructs ask for, and the readers of shapes: each succeeds on the
values of its shape and on no others.
-/
namespace Fonds

namespace Json

/-- Neither an array nor an object. -/
def IsScalar : Json → Prop
  | .array _ | .object _ => False
  | _ => True

/-- A whole number between two others or equal to one of them. -/
def IsIntegerIn (least greatest : Int) (v : Json) : Prop :=
  ∃ n : Int, v = .ofInt n ∧ least ≤ n ∧ n ≤ greatest

/-- A text of some form. -/
def IsText (form : String → Prop) (v : Json) : Prop := ∃ s : String, v = .string s ∧ form s

def IsNonBlank : Json → Prop := IsText fun s => ¬ Text.Blank s

/-- An array of at least one element, all of some form. -/
def IsArrayOf (form : Json → Prop) (v : Json) : Prop :=
  ∃ elems : List Json, v = .array elems ∧ elems ≠ [] ∧ ∀ w ∈ elems, form w

/-- One entry, for the name of a field, with a value of some form. -/
def IsEntryOf (form : Json → Prop) (v : Json) : Prop :=
  ∃ (field : String) (w : Json), v = .single field w ∧ ¬ Text.Blank field ∧ form w

section Readers

variable {α : Type} {construct : String} {v : Json}

theorem expect_eq_ok_iff {parts? : Json → Option α} {shape : Shape} {parts : α} :
    expect parts? shape construct v = .ok parts ↔ parts? v = some parts := by
  rw [expect]
  cases parts? v <;> simp

theorem expectObject_eq_ok_iff {entries : List (String × Json)} :
    expectObject construct v = .ok entries ↔ v = .object entries := by
  rw [expectObject, expect_eq_ok_iff]
  cases v <;> simp [asObject?]

theorem expectArray_eq_ok_iff {elems : List Json} :
    expectArray construct v = .ok elems ↔ v = .array elems := by
  rw [expectArray, expect_eq_ok_iff]
  cases v <;> simp [asArray?]

theorem expectString_eq_ok_iff {s : String} :
    expectString construct v = .ok s ↔ v = .string s := by
  rw [expectString, expect_eq_ok_iff]
  cases v <;> simp [asString?]

theorem expectStrings_eq_ok_iff {vs : List Json} {texts : List String} :
    expectStrings construct vs = .ok texts ↔ vs = texts.map .string :=
  mapM_eq_ok_iff fun _ _ => expectString_eq_ok_iff

theorem expectInt64_eq_ok_iff {n : Int64} :
    expectInt64 construct v = .ok n ↔ v = .ofInt n.toInt := by
  constructor
  · intro h
    rw [expectInt64, expect_eq_ok_iff] at h
    match v, h with
    | .number (.integer m), h =>
      simp only [asInt64?, Number.toInt64?] at h
      split at h
      next hbounds =>
        obtain rfl := Option.some.inj h
        have hmin := Int64.toInt_minValue
        have hmax := Int64.toInt_maxValue
        rw [Int64.toInt_ofInt_of_le (by omega) (by omega)]
        rfl
      next => exact absurd h (by simp)
  · rintro rfl
    have hbounds : Int64.minValue.toInt ≤ n.toInt ∧ n.toInt ≤ Int64.maxValue.toInt :=
      ⟨n.minValue_le_toInt, n.toInt_le⟩
    rw [expectInt64, expect_eq_ok_iff, ofInt, asInt64?, Number.toInt64?, if_pos hbounds,
      Int64.ofInt_toInt]

/-- An integer is read within its bounds, where these are bounds on 64 bits. -/
theorem exists_expectInt64_iff (construct : String) {least greatest : Int}
    (hleast : -2 ^ 63 ≤ least) (hgreatest : greatest ≤ 2 ^ 63 - 1) :
    (∃ n, expectInt64 construct v = .ok n ∧ least ≤ n.toInt ∧ n.toInt ≤ greatest) ↔
      v.IsIntegerIn least greatest := by
  simp only [expectInt64_eq_ok_iff]
  constructor
  · rintro ⟨n, rfl, hbounds⟩
    exact ⟨n.toInt, rfl, hbounds⟩
  · rintro ⟨n, rfl, hbounds⟩
    have htoInt : (Int64.ofInt n).toInt = n := Int64.toInt_ofInt_of_le (by omega) (by omega)
    exact ⟨.ofInt n, by rw [htoInt], htoInt.symm ▸ hbounds⟩

theorem exists_expectInt64_from_iff (construct : String) {least : Int} (hleast : -2 ^ 63 ≤ least) :
    (∃ n, expectInt64 construct v = .ok n ∧ least ≤ n.toInt) ↔
      v.IsIntegerIn least (2 ^ 63 - 1) := by
  have hmax : ∀ n : Int64, n.toInt ≤ 2 ^ 63 - 1 := fun n => by
    have hle := n.toInt_le
    rw [Int64.toInt_maxValue] at hle
    omega
  rw [← exists_expectInt64_iff construct hleast (Int.le_refl _)]
  simp only [hmax, and_true]

theorem expectUInt64_eq_ok_iff {n : UInt64} :
    expectUInt64 construct v = .ok n ↔ v = .ofNat n.toNat := by
  constructor
  · intro h
    rw [expectUInt64, expect_eq_ok_iff] at h
    match v, h with
    | .number (.integer m), h =>
      simp only [asUInt64?, Number.toUInt64?] at h
      split at h
      next hbounds =>
        obtain rfl := Option.some.inj h
        obtain ⟨k, rfl⟩ := Int.eq_ofNat_of_zero_le hbounds.1
        have hk : k < UInt64.size := by omega
        rw [Int.toNat_natCast, UInt64.toNat_ofNat_of_lt' hk]
        rfl
      next => exact absurd h (by simp)
  · rintro rfl
    have hbounds : (0 : Int) ≤ n.toNat ∧ (n.toNat : Int) < UInt64.size :=
      ⟨Int.natCast_nonneg _, by exact_mod_cast n.toNat_lt⟩
    rw [expectUInt64, expect_eq_ok_iff, ofNat, ofInt, asUInt64?, Number.toUInt64?, if_pos hbounds,
      Int.toNat_natCast, UInt64.ofNat_toNat]

theorem exists_expectUInt64_iff :
    (∃ n, expectUInt64 construct v = .ok n) ↔ v.IsIntegerIn 0 (2 ^ 64 - 1) := by
  simp only [expectUInt64_eq_ok_iff]
  constructor
  · rintro ⟨n, rfl⟩
    have hlt := n.toNat_lt
    exact ⟨n.toNat, rfl, by omega, by omega⟩
  · rintro ⟨n, rfl, hlow, hhigh⟩
    obtain ⟨k, rfl⟩ := Int.eq_ofNat_of_zero_le hlow
    have hk : k < UInt64.size := by
      rw [UInt64.size]
      omega
    exact ⟨.ofNat k, by rw [UInt64.toNat_ofNat_of_lt' hk]; rfl⟩

theorem expectSingle_eq_ok_iff {entry : String × Json} :
    expectSingle construct v = .ok entry ↔ v = .single entry.1 entry.2 := by
  rw [expectSingle, bind_eq_ok]
  simp only [expectObject_eq_ok_iff]
  constructor
  · rintro ⟨entries, rfl, h⟩
    split at h
    next e =>
      obtain rfl := Except.ok.inj h
      rfl
    next => exact absurd h (by simp)
  · rintro rfl
    exact ⟨[entry], rfl, rfl⟩

end Readers

theorem isScalar_iff {v : Json} : v.IsScalar ↔ ∃ l : Literal, v = l.toJson := by
  constructor
  · intro h
    cases v with
    | null => exact ⟨.null, rfl⟩
    | bool b => exact ⟨.bool b, rfl⟩
    | number n => exact ⟨.number n, rfl⟩
    | string s => exact ⟨.string s, rfl⟩
    | array _ => exact h.elim
    | object _ => exact h.elim
  · rintro ⟨l, rfl⟩
    cases l <;> trivial

end Json

theorem Literal.build_eq_ok_iff {construct : String} {v : Json} {l : Literal} :
    build construct v = .ok l ↔ v = l.toJson := by
  rw [build]
  constructor
  · intro h
    split at h
    next l' hl' =>
      obtain rfl := Except.ok.inj h
      exact (toJson_of_ofJson? hl').symm
    next => exact absurd h (by simp)
  · rintro rfl
    rw [ofJson?_toJson]

theorem Literal.exists_build_iff (construct : String) {v : Json} :
    (∃ l, build construct v = .ok l) ↔ v.IsScalar := by
  simp only [build_eq_ok_iff, Json.isScalar_iff]

theorem NonBlank.build_eq_ok_iff {construct : String} {rule : Rule} {s : String} {n : NonBlank} :
    build construct rule s = .ok n ↔ s = n.text := by
  constructor
  · intro h
    rw [build] at h
    split at h
    next n' hn' =>
      obtain rfl := Except.ok.inj h
      rw [ofString?] at hn'
      split at hn'
      next => exact absurd hn' (by simp)
      next =>
        obtain rfl := Option.some.inj hn'
        rfl
    next => exact absurd h (by simp)
  · rintro rfl
    exact build_text construct rule n

theorem NonBlank.exists_build_iff (construct : String) (rule : Rule) {s : String} :
    (∃ n, build construct rule s = .ok n) ↔ ¬ Text.Blank s := by
  rw [build, ← ofString?_eq_none_iff]
  cases ofString? s <;> simp

theorem Name.text_of_build {construct s : String} {n : Name} (h : build construct s = .ok n) :
    Text.trim s = n.text := by
  rw [build] at h
  split at h
  next name hname =>
    obtain rfl := Except.ok.inj h
    rw [ofString?] at hname
    split at hname
    next => exact absurd hname (by simp)
    next =>
      obtain rfl := Option.some.inj hname
      rfl
  next => exact absurd h (by simp)

/-- Every text names a field, unless it is blank. -/
theorem Name.exists_build_iff (construct : String) {s : String} :
    (∃ name, build construct s = .ok name) ↔ ¬ Text.Blank s := by
  rw [build, ← ofString?_eq_none_iff]
  cases ofString? s <;> simp

end Fonds
