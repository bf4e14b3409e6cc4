import Fonds.Decimal.Shortest
import Fonds.Json.Basic

/-!
The text of JSON values. One printer serves both styles: compact text has no blanks at all, indented
text puts each member on a line of its own, two blanks deeper than what holds it.
-/
namespace Fonds

/-- How a value is set out. -/
inductive Json.Style where
  | compact
  | indented
  deriving DecidableEq

namespace Json.Style

/-- What stands before a member or a closing bracket at a depth. -/
def lineBreak : Style → Nat → List Char
  | .compact, _ => []
  | .indented, depth => '\n' :: List.replicate (2 * depth) ' '

/-- What stands between a key and its value. -/
def colon : Style → List Char
  | .compact => [':']
  | .indented => [':', ' ']

end Json.Style

namespace Decimal.Double

/-- Numbers are written out from `10^-5` up to below `10^16`, and with an exponent outside of
that. -/
def writtenOut (leading : Int) : Bool := -5 ≤ leading ∧ leading < 16

/-- Digits with the point after the first `before` of them, filled up with zeros to have at least
one digit on each side. -/
def placePoint (digits : List Char) (before : Int) : List Char :=
  if before ≤ 0 then '0' :: '.' :: (List.replicate (-before).toNat '0' ++ digits)
  else
    let padded := digits ++ List.replicate (before.toNat - digits.length) '0'
    let fraction := padded.drop before.toNat
    padded.take before.toNat ++ '.' :: (if fraction = [] then ['0'] else fraction)

/-- One digit, the others after a point, and the power of ten with its sign. -/
def withExponent (digits : List Char) (leading : Int) : List Char :=
  digits.take 1 ++ (if digits.length ≤ 1 then [] else '.' :: digits.drop 1) ++
    'e' :: (if leading < 0 then '-' else '+') :: Nat.toDigits 10 leading.natAbs

/-- The text of the size of a double: zero keeps one decimal, any other number has the fewest digits
that read back. -/
def sizeText (x : Double) : List Char :=
  if x.significand = 0 then ['0', '.', '0']
  else
    let decimal := x.shortest
    let digits := Nat.toDigits 10 decimal.coefficient
    let leading := decimal.exponent + digits.length - 1
    if writtenOut leading then placePoint digits (leading + 1) else withExponent digits leading

def text (x : Double) : List Char := if x.negative then '-' :: x.sizeText else x.sizeText

end Decimal.Double

namespace Number

def intText (n : Int) : List Char :=
  if n < 0 then '-' :: Nat.toDigits 10 n.natAbs else Nat.toDigits 10 n.natAbs

def text : Number → List Char
  | .integer n => intText n
  | .real x => x.text

end Number

namespace Json

/-- The lower-case hexadecimal digit of a number below 16. -/
def hexDigit (n : Nat) : Char := if n < 10 then Char.ofNat (48 + n) else Char.ofNat (87 + n)

/-- A character inside a string. Quotes, backslashes and control characters are escaped, all others
stand for themselves. -/
def escapeChar (c : Char) : List Char :=
  if c = '"' then ['\\', '"']
  else if c = '\\' then ['\\', '\\']
  else if 0x20 ≤ c.toNat then [c]
  else if c = '\x08' then ['\\', 'b']
  else if c = '\t' then ['\\', 't']
  else if c = '\n' then ['\\', 'n']
  else if c = '\x0c' then ['\\', 'f']
  else if c = '\r' then ['\\', 'r']
  else ['\\', 'u', '0', '0', hexDigit (c.toNat / 16), hexDigit (c.toNat % 16)]

def quote (s : String) : List Char := '"' :: (s.toList.flatMap escapeChar ++ ['"'])

mutual

/-- The characters of a value whose members stand at `depth + 1`. -/
def write (style : Style) (depth : Nat) : Json → List Char
  | .null => ['n', 'u', 'l', 'l']
  | .bool true => ['t', 'r', 'u', 'e']
  | .bool false => ['f', 'a', 'l', 's', 'e']
  | .number n => n.text
  | .string s => quote s
  | .array [] => ['[', ']']
  | .array (v :: vs) =>
    '[' :: (style.lineBreak (depth + 1) ++ write style (depth + 1) v ++
      writeRest style depth vs)
  | .object [] => ['\x7b', '\x7d']
  | .object ((key, v) :: rest) =>
    '\x7b' :: (style.lineBreak (depth + 1) ++ quote key ++ style.colon ++
      write style (depth + 1) v ++ writeRestEntries style depth rest)

/-- The elements of an array after the first, and its end. -/
def writeRest (style : Style) (depth : Nat) : List Json → List Char
  | [] => style.lineBreak depth ++ [']']
  | v :: vs =>
    ',' :: (style.lineBreak (depth + 1) ++ write style (depth + 1) v ++ writeRest style depth vs)

/-- The entries of an object after the first, and its end. -/
def writeRestEntries (style : Style) (depth : Nat) : List (String × Json) → List Char
  | [] => style.lineBreak depth ++ ['\x7d']
  | (key, v) :: rest =>
    ',' :: (style.lineBreak (depth + 1) ++ quote key ++ style.colon ++ write style (depth + 1) v ++
      writeRestEntries style depth rest)

end

/-- The text without blanks. -/
def compact (v : Json) : String := String.ofList (write .compact 0 v)

/-- The text with a line for each member. -/
def indented (v : Json) : String := String.ofList (write .indented 0 v)

end Json

end Fonds
