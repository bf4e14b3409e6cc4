import Fonds.Decimal.Reading
import Fonds.Json.Basic

/-!
JSON as it is spelled: keys may repeat, escapes need not name a character, numbers are digits and
nesting has no bound. Any text of the right form has a spelling; only some spellings have a value,
so text that nobody looks at need only be well spelled.
-/
namespace Fonds

/-- One unit of a string: a character, or the 16-bit code of a `\u` escape. -/
inductive StringUnit where
  | char (c : Char)
  | code (n : Nat)
  deriving DecidableEq

namespace StringUnit

def isLeading (n : Nat) : Bool := 0xD800 ≤ n && n < 0xDC00

def isTrailing (n : Nat) : Bool := 0xDC00 ≤ n && n < 0xE000

/-- The characters that units stand for. A surrogate code needs its partner. -/
def decode? : List StringUnit → Option (List Char)
  | [] => some []
  | .char c :: rest => (decode? rest).map (c :: ·)
  | .code n :: .code m :: rest =>
    if isLeading n then
      if isTrailing m then
        (decode? rest).map (Char.ofNat (0x10000 + (n - 0xD800) * 0x400 + (m - 0xDC00)) :: ·)
      else none
    else if isTrailing n then none
    else (decode? (.code m :: rest)).map (Char.ofNat n :: ·)
  | .code n :: rest =>
    if isLeading n || isTrailing n then none else (decode? rest).map (Char.ofNat n :: ·)

end StringUnit

/-- The parts of a number: its sign, the digits before the point, those after it, and the sign and
digits of its exponent. -/
structure Numeral where
  negative : Bool
  whole : List Char
  fraction : Option (List Char)
  exponent : Option (Bool × List Char)
  deriving DecidableEq

namespace Numeral

def exponentValue : Option (Bool × List Char) → Int
  | none => 0
  | some (negative, digits) =>
    let size : Int := Nat.ofDigitChars 10 digits 0
    if negative then -size else size

def real? (n : Numeral) : Option Number :=
  let decimal := Decimal.scaledOfDigits n.whole (n.fraction.getD []) (exponentValue n.exponent)
  (Decimal.Double.ofScaled? n.negative decimal).map .real

/-- The number that a numeral denotes. Without point and exponent it is an integer if it fits 64
bits, with a sign below zero and without one from zero on. Minus zero has no such integer. -/
def toNumber? (n : Numeral) : Option Number :=
  if n.fraction.isSome || n.exponent.isSome then n.real?
  else
    let size := Nat.ofDigitChars 10 n.whole 0
    if n.negative then
      if 0 < size ∧ size ≤ Int64.minValue.toInt.natAbs then some (.integer (-size)) else n.real?
    else if size < UInt64.size then some (.integer size) else n.real?

end Numeral

/-- A JSON text, its blanks apart. -/
inductive Spelling where
  | null
  | bool (value : Bool)
  | number (numeral : Numeral)
  | string (units : List StringUnit)
  | array (elems : List Spelling)
  | object (entries : List (List StringUnit × Spelling))

namespace Spelling

/-- The text that units stand for. -/
def textOf? (units : List StringUnit) : Option String :=
  (StringUnit.decode? units).map String.ofList

mutual

/-- The value of a spelling whose arrays and objects nest at most `depth` deep. -/
def toJson? (depth : Nat) : Spelling → Option Json
  | .null => some .null
  | .bool b => some (.bool b)
  | .number n => n.toNumber?.map .number
  | .string units => (textOf? units).map .string
  | .array elems =>
    match depth with
    | 0 => none
    | depth + 1 => (allToJson? depth elems).map .array
  | .object entries =>
    match depth with
    | 0 => none
    | depth + 1 => (entriesToJson? depth entries).map Json.ofEntries

def allToJson? (depth : Nat) : List Spelling → Option (List Json)
  | [] => some []
  | v :: vs => do
    let first ← toJson? depth v
    let others ← allToJson? depth vs
    some (first :: others)

def entriesToJson? (depth : Nat) : List (List StringUnit × Spelling) → Option (List (String × Json))
  | [] => some []
  | (key, v) :: rest => do
    let name ← textOf? key
    let value ← toJson? depth v
    let others ← entriesToJson? depth rest
    some ((name, value) :: others)

end

end Spelling

end Fonds
