import Fonds.Ordered.Map
import Fonds.Ordered.NonEmpty
import Fonds.Shape

/-!
Actions: the changes an update makes to the fields of documents. Every action names at least one
field; but for `$unset` it names none of them twice.
-/
namespace Fonds

/-- An end of an array. -/
inductive ArrayEnd where
  | first
  | last
  deriving DecidableEq

/-- Operands of an action by the fields they apply to. -/
structure Fields (α : Type) where
  map : OrderedMap Name α
  nonempty : map.entries ≠ []

/-- One change and the fields it applies to. -/
inductive Action where
  | set (values : Fields Json)
  | unset (fields : NonEmpty Name)
  | inc (amounts : Fields Number)
  | min (values : Fields Literal)
  | max (values : Fields Literal)
  | rename (targets : Fields Name)
  | push (values : Fields (NonEmpty Json))
  /-- Adds to an array the values it does not hold yet. -/
  | add (values : Fields (NonEmpty Json))
  | pop (ends : Fields ArrayEnd)
  | pull (values : Fields (NonEmpty Json))

inductive ActionOperator where
  | set
  | unset
  | inc
  | min
  | max
  | rename
  | push
  | add
  | pop
  | pull
  deriving DecidableEq

namespace ActionOperator

def all : List ActionOperator :=
  [.set, .unset, .inc, .min, .max, .rename, .push, .add, .pop, .pull]

def token : ActionOperator → String
  | .set => "$set"
  | .unset => "$unset"
  | .inc => "$inc"
  | .min => "$min"
  | .max => "$max"
  | .rename => "$rename"
  | .push => "$push"
  | .add => "$add"
  | .pop => "$pop"
  | .pull => "$pull"

def ofToken? (token : String) : Option ActionOperator := all.find? (·.token = token)

@[simp] theorem ofToken?_token (op : ActionOperator) : ofToken? op.token = some op := by
  cases op <;> rfl

end ActionOperator

namespace ArrayEnd

def number : ArrayEnd → Int
  | .first => -1
  | .last => 1

/-- One is the last element, minus one the first. -/
def build (n : Int) : Built ArrayEnd :=
  if n = 1 then .ok .last
  else if n = -1 then .ok .first
  else .error (.invalid ActionOperator.pop.token (.arrayEnd n))

@[simp] theorem build_number (e : ArrayEnd) : build e.number = .ok e := by
  cases e <;> rfl

end ArrayEnd

namespace Fields

variable {α β : Type}

def entries (f : Fields α) : List (Name × α) := f.map.entries

/-- Adds the operand of a field. The field's name is checked before its operand, and both before the
field is looked up among those known. -/
def extend (construct : String) (check : β → Built α) (known : OrderedMap Name α)
    (entry : String × β) : Built (OrderedMap Name α) := do
  let name ← Name.build construct entry.1
  let operand ← check entry.2
  if (known.get? name).isSome then .error (.invalid construct (.repeatedField name.text))
  else .ok (known.insert name operand)

def build (operator : ActionOperator) (check : β → Built α) (entries : List (String × β)) :
    Built (Fields α) := do
  let known ← entries.foldlM (extend operator.token check) .empty
  if h : known.entries = [] then .error (.invalid operator.token .noFields) else .ok ⟨known, h⟩

end Fields

namespace Action

def operator : Action → ActionOperator
  | .set _ => .set
  | .unset _ => .unset
  | .inc _ => .inc
  | .min _ => .min
  | .max _ => .max
  | .rename _ => .rename
  | .push _ => .push
  | .add _ => .add
  | .pop _ => .pop
  | .pull _ => .pull

def buildNumber (construct : String) (v : Json) : Built Number :=
  match v with
  | .number n => .ok n
  | _ => .error (.invalid construct (.notANumber v))

def buildValues (construct : String) (vs : List Json) : Built (NonEmpty Json) :=
  match NonEmpty.ofList? vs with
  | some values => .ok values
  | none => .error (.invalid construct .noArrayValues)

def ofSet (entries : List (String × Json)) : Built Action :=
  .set <$> Fields.build .set .ok entries

def ofInc (entries : List (String × Json)) : Built Action :=
  .inc <$> Fields.build .inc (buildNumber ActionOperator.inc.token) entries

def ofMin (entries : List (String × Json)) : Built Action :=
  .min <$> Fields.build .min (Literal.build ActionOperator.min.token) entries

def ofMax (entries : List (String × Json)) : Built Action :=
  .max <$> Fields.build .max (Literal.build ActionOperator.max.token) entries

def ofUnset (fields : List String) : Built Action := do
  match NonEmpty.ofList? (← fields.mapM (Name.build ActionOperator.unset.token)) with
  | some names => .ok (.unset names)
  | none => .error (.invalid ActionOperator.unset.token .noFields)

def ofRename (entries : List (String × String)) : Built Action :=
  .rename <$> Fields.build .rename (Name.build ActionOperator.rename.token) entries

def ofPop (entries : List (String × Int64)) : Built Action :=
  .pop <$> Fields.build .pop (fun n => ArrayEnd.build n.toInt) entries

def ofPush (entries : List (String × List Json)) : Built Action :=
  .push <$> Fields.build .push (buildValues ActionOperator.push.token) entries

def ofAdd (entries : List (String × List Json)) : Built Action :=
  .add <$> Fields.build .add (buildValues ActionOperator.add.token) entries

def ofPull (entries : List (String × List Json)) : Built Action :=
  .pull <$> Fields.build .pull (buildValues ActionOperator.pull.token) entries

end Action

end Fonds
