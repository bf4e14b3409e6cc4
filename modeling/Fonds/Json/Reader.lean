import Fonds.Json.Spelling

/-!
Reading JSON text. Blanks are the space, the tab and the two line ends, and may stand around any
token; nothing may follow the value. Every call of the reader either takes a character or hands on
to one that does, so twice the length of the text bounds the calls.
-/
namespace Fonds.Spelling

def isSpace (c : Char) : Bool := c = ' ' || c = '\t' || c = '\n' || c = '\r'

def skipSpaces (cs : List Char) : List Char := cs.dropWhile isSpace

/-- The digits that a text starts with, and what follows them. -/
def spanDigits (cs : List Char) : List Char × List Char :=
  (cs.takeWhile Char.isDigit, cs.dropWhile Char.isDigit)

/-- At least one digit. -/
def readDigits? (cs : List Char) : Option (List Char × List Char) :=
  let (digits, rest) := spanDigits cs
  if digits = [] then none else some (digits, rest)

/-- A point with its digits, if there is one. -/
def readFraction? : List Char → Option (Option (List Char) × List Char)
  | '.' :: cs => (readDigits? cs).map fun (digits, rest) => (some digits, rest)
  | cs => some (none, cs)

/-- An exponent with its sign and digits, if there is one. -/
def readExponent? (cs : List Char) : Option (Option (Bool × List Char) × List Char) :=
  match cs with
  | [] => some (none, [])
  | c :: rest =>
    if c = 'e' ∨ c = 'E' then
      match rest with
      | '-' :: rest => (readDigits? rest).map fun (digits, rest) => (some (true, digits), rest)
      | '+' :: rest => (readDigits? rest).map fun (digits, rest) => (some (false, digits), rest)
      | rest => (readDigits? rest).map fun (digits, rest) => (some (false, digits), rest)
    else some (none, cs)

/-- A number after its sign. A leading zero stands alone before the point. -/
def readNumeral? (negative : Bool) (cs : List Char) : Option (Numeral × List Char) := do
  let (whole, rest) ← readDigits? cs
  if whole.head? = some '0' ∧ whole.length ≠ 1 then none
  else
    let (fraction, rest) ← readFraction? rest
    let (exponent, rest) ← readExponent? rest
    some (⟨negative, whole, fraction, exponent⟩, rest)

/-- The value of a hexadecimal digit. -/
def hexValue? (c : Char) : Option Nat :=
  if '0' ≤ c ∧ c ≤ '9' then some (c.toNat - 48)
  else if 'a' ≤ c ∧ c ≤ 'f' then some (c.toNat - 87)
  else if 'A' ≤ c ∧ c ≤ 'F' then some (c.toNat - 55)
  else none

/-- The character that a letter after a backslash stands for. -/
def unescape? : Char → Option Char
  | '"' => some '"'
  | '\\' => some '\\'
  | '/' => some '/'
  | 'b' => some '\x08'
  | 'f' => some '\x0c'
  | 'n' => some '\n'
  | 'r' => some '\r'
  | 't' => some '\t'
  | _ => none

/-- The units of a string up to its closing quote. Control characters have to be escaped. -/
def readString? : List Char → Option (List StringUnit × List Char)
  | [] => none
  | '"' :: rest => some ([], rest)
  | '\\' :: 'u' :: a :: b :: c :: d :: rest => do
    let a ← hexValue? a
    let b ← hexValue? b
    let c ← hexValue? c
    let d ← hexValue? d
    let (units, rest) ← readString? rest
    some (.code (((a * 16 + b) * 16 + c) * 16 + d) :: units, rest)
  | '\\' :: c :: rest => do
    let c ← unescape? c
    let (units, rest) ← readString? rest
    some (.char c :: units, rest)
  | c :: rest =>
    if c.toNat < 0x20 ∨ c = '\\' then none
    else do
      let (units, rest) ← readString? rest
      some (.char c :: units, rest)

mutual

/-- One value, and what follows it. -/
def readValue? : Nat → List Char → Option (Spelling × List Char)
  | 0, _ => none
  | fuel + 1, cs =>
    match skipSpaces cs with
    | 'n' :: 'u' :: 'l' :: 'l' :: rest => some (.null, rest)
    | 't' :: 'r' :: 'u' :: 'e' :: rest => some (.bool true, rest)
    | 'f' :: 'a' :: 'l' :: 's' :: 'e' :: rest => some (.bool false, rest)
    | '"' :: rest => (readString? rest).map fun (units, rest) => (.string units, rest)
    | '-' :: rest => (readNumeral? true rest).map fun (n, rest) => (.number n, rest)
    | '[' :: rest =>
      match skipSpaces rest with
      | ']' :: rest => some (.array [], rest)
      | rest => (readElements? fuel rest).map fun (elems, rest) => (.array elems, rest)
    | '\x7b' :: rest =>
      match skipSpaces rest with
      | '\x7d' :: rest => some (.object [], rest)
      | rest => (readEntries? fuel rest).map fun (entries, rest) => (.object entries, rest)
    | cs => (readNumeral? false cs).map fun (n, rest) => (.number n, rest)

/-- At least one element, up to the end of the array. -/
def readElements? : Nat → List Char → Option (List Spelling × List Char)
  | 0, _ => none
  | fuel + 1, cs => do
    let (v, rest) ← readValue? fuel cs
    match skipSpaces rest with
    | ']' :: rest => some ([v], rest)
    | ',' :: rest =>
      let (vs, rest) ← readElements? fuel rest
      some (v :: vs, rest)
    | _ => none

/-- At least one entry, up to the end of the object. -/
def readEntries? : Nat → List Char → Option (List (List StringUnit × Spelling) × List Char)
  | 0, _ => none
  | fuel + 1, cs =>
    match skipSpaces cs with
    | '"' :: rest => do
      let (key, rest) ← readString? rest
      match skipSpaces rest with
      | ':' :: rest =>
        let (v, rest) ← readValue? fuel rest
        match skipSpaces rest with
        | '\x7d' :: rest => some ([(key, v)], rest)
        | ',' :: rest =>
          let (entries, rest) ← readEntries? fuel rest
          some ((key, v) :: entries, rest)
        | _ => none
      | _ => none
    | _ => none

end

/-- The spelling that a whole text is. -/
def read? (text : String) : Option Spelling := do
  let cs := text.toList
  let (v, rest) ← readValue? (2 * cs.length + 2) cs
  if skipSpaces rest = [] then some v else none

end Fonds.Spelling

namespace Fonds.Json

/-- How deep arrays and objects may nest in a value that is read. -/
def maxNesting : Nat := 127

/-- The value of a JSON text. -/
def parse? (text : String) : Option Json := do
  (← Spelling.read? text).toJson? maxNesting

end Fonds.Json
