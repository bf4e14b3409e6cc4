import Fonds.Decimal.Double
import Fonds.Ordered.Entries

/-!
JSON values. An object lists its entries in order; a value is well formed when no object in it has a
key twice. Whole numbers are kept apart from numbers with a point or an exponent, also when they are
equal: only the former count as integers.
-/
namespace Fonds

/-- A JSON number. -/
inductive Number where
  | integer (value : Int)
  | real (value : Decimal.Double)
  deriving DecidableEq

/-- A JSON value. -/
inductive Json where
  | null
  | bool (value : Bool)
  | number (value : Number)
  | string (value : String)
  | array (elems : List Json)
  | object (entries : List (String × Json))

namespace Number

/-- Whether the number is above zero. -/
def isPositive : Number → Bool
  | .integer n => 0 < n
  | .real x => x.isPositive

/-- A whole number that fits 64 bits with a sign. -/
def toInt64? : Number → Option Int64
  | .integer n =>
    if Int64.minValue.toInt ≤ n ∧ n ≤ Int64.maxValue.toInt then some (Int64.ofInt n) else none
  | .real _ => none

/-- A whole number that fits 64 bits without a sign. -/
def toUInt64? : Number → Option UInt64
  | .integer n => if 0 ≤ n ∧ n < UInt64.size then some (UInt64.ofNat n.toNat) else none
  | .real _ => none

end Number

namespace Json

def ofInt (n : Int) : Json := .number (.integer n)

def ofNat (n : Nat) : Json := .ofInt n

/-- An object with one entry. -/
def single (key : String) (value : Json) : Json := .object [(key, value)]

/-- The object that entries, written one after the other, amount to: a repeated key keeps its first
place and its last value. -/
def ofEntries (entries : List (String × Json)) : Json := .object (Entries.collect entries)

def asString? : Json → Option String
  | .string s => some s
  | _ => none

def asArray? : Json → Option (List Json)
  | .array elems => some elems
  | _ => none

def asObject? : Json → Option (List (String × Json))
  | .object entries => some entries
  | _ => none

def asInt64? : Json → Option Int64
  | .number n => n.toInt64?
  | _ => none

def asUInt64? : Json → Option UInt64
  | .number n => n.toUInt64?
  | _ => none

/-- The elements of an array, or the value itself where it is not an array. -/
def oneOrMany : Json → List Json
  | .array elems => elems
  | value => [value]

mutual

/-- No object in the value has a key twice. -/
def WellFormed : Json → Prop
  | .array elems => AllWellFormed elems
  | .object entries => (Entries.keys entries).Nodup ∧ EntriesWellFormed entries
  | _ => True

def AllWellFormed : List Json → Prop
  | [] => True
  | v :: vs => v.WellFormed ∧ AllWellFormed vs

def EntriesWellFormed : List (String × Json) → Prop
  | [] => True
  | (_, v) :: rest => v.WellFormed ∧ EntriesWellFormed rest

end

end Json

end Fonds
