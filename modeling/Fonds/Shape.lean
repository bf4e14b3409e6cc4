import Fonds.Error
import Fonds.Keyword
import Fonds.Literal
import Fonds.Name

/-!
Taking JSON values apart by the shape that a construct asks for. Each function gives the parts of a
value of its shape and refuses any other value in the name of the construct.
-/
namespace Fonds

/-- The result of building a part of a request. -/
abbrev Built (α : Type) := Except RequestError α

namespace Json

variable {α : Type}

/-- The parts of a value, where it has the expected shape. -/
def expect (parts? : Json → Option α) (shape : Shape) (construct : String) (v : Json) : Built α :=
  match parts? v with
  | some parts => .ok parts
  | none => .error (.unreadable construct (.expected shape v))

def expectObject : String → Json → Built (List (String × Json)) := expect asObject? .object

def expectArray : String → Json → Built (List Json) := expect asArray? .array

def expectString : String → Json → Built String := expect asString? .string

def expectInt64 : String → Json → Built Int64 := expect asInt64? .integer

def expectUInt64 : String → Json → Built UInt64 := expect asUInt64? .nonNegativeInteger

/-- The key and value of an object with exactly one entry. -/
def expectSingle (construct : String) (v : Json) : Built (String × Json) := do
  match ← v.expectObject construct with
  | [entry] => .ok entry
  | _ => .error (.unreadable construct (.expected .singleEntry v))

/-- The elements of an array of strings. -/
def expectStrings (construct : String) (vs : List Json) : Built (List String) :=
  vs.mapM (expectString construct)

/-- The text under a key of an object, if the key is there. -/
def expectStringAt? (construct : String) (entries : List (String × Json)) (key : String) :
    Built (Option String) :=
  match Entries.get? key entries with
  | some v => some <$> v.expectString construct
  | none => .ok none

end Json

/-- The name of a field of the construct. -/
def Name.build (construct : String) (s : String) : Built Name :=
  match Name.ofString? s with
  | some name => .ok name
  | none => .error (.invalid construct .emptyField)

/-- A text that the construct does not allow to be blank. -/
def NonBlank.build (construct : String) (rule : Rule) (s : String) : Built NonBlank :=
  match NonBlank.ofString? s with
  | some text => .ok text
  | none => .error (.invalid construct rule)

/-- A value the construct takes as a scalar. -/
def Literal.build (construct : String) (v : Json) : Built Literal :=
  match Literal.ofJson? v with
  | some literal => .ok literal
  | none => .error (.invalid construct (.notA .literal v))

@[simp] theorem Name.build_text (construct : String) (n : Name) :
    Name.build construct n.text = .ok n := by
  simp [Name.build]

@[simp] theorem NonBlank.build_text (construct : String) (rule : Rule) (n : NonBlank) :
    NonBlank.build construct rule n.text = .ok n := by
  simp [NonBlank.build]

@[simp] theorem Literal.build_toJson (construct : String) (l : Literal) :
    Literal.build construct l.toJson = .ok l := by
  simp [Literal.build]

end Fonds
