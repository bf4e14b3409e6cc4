import Fonds.Json.Basic

/-!
Updates of the document store: one entry per operator, with the operands by field. Values to add to
an array pile up; any other operand replaces the one before it.
-/
namespace Fonds.Store

inductive UpdateOperator where
  | set
  | unset
  | inc
  | min
  | max
  | rename
  | push
  | addToSet
  | pop
  | pullAll
  deriving DecidableEq

/-- What an operator applies to a field. -/
inductive Operand where
  | value (value : Json)
  /-- Values that are added to an array one by one. -/
  | each (values : List Json)

/-- The operands by operator and field, both in order of first appearance. -/
structure Update where
  groups : List (UpdateOperator × List (String × Operand))

namespace UpdateOperator

def all : List UpdateOperator :=
  [.set, .unset, .inc, .min, .max, .rename, .push, .addToSet, .pop, .pullAll]

def token : UpdateOperator → String
  | .set => "$set"
  | .unset => "$unset"
  | .inc => "$inc"
  | .min => "$min"
  | .max => "$max"
  | .rename => "$rename"
  | .push => "$push"
  | .addToSet => "$addToSet"
  | .pop => "$pop"
  | .pullAll => "$pullAll"

def ofToken? (token : String) : Option UpdateOperator := all.find? (·.token = token)

end UpdateOperator

namespace Operand

def toJson : Operand → Json
  | .value v => v
  | .each values => .single "$each" (.array values)

/-- The operand of a field that is named again. -/
def merge : Operand → Operand → Operand
  | .each known, .each more => .each (known ++ more)
  | _, new => new

end Operand

namespace Update

def empty : Update := ⟨[]⟩

/-- Adds the operand of a field to its group. -/
def addOperand (group : List (String × Operand)) (entry : String × Operand) :
    List (String × Operand) :=
  match Entries.get? entry.1 group with
  | some known => Entries.insert entry.1 (known.merge entry.2) group
  | none => Entries.insert entry.1 entry.2 group

/-- Adds the operands of one action to the group of its operator. -/
def add (u : Update) (operator : UpdateOperator) (operands : List (String × Operand)) : Update :=
  let group := (Entries.get? operator u.groups).getD []
  ⟨Entries.insert operator (operands.foldl addOperand group) u.groups⟩

def toJson (u : Update) : Json :=
  .ofEntries (u.groups.map fun g =>
    (g.1.token, .ofEntries (g.2.map fun e => (e.1, e.2.toJson))))

end Update

end Fonds.Store
