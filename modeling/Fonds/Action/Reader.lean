import Fonds.Action.Basic

/-!
Reading actions: one object, or an array of them, each keyed by operators. The operands of one
action are all taken apart before any is checked.
-/
namespace Fonds.Action

/-- The values for an array, listed under the keyword that every such operand has to use. -/
def readEach (construct : String) (v : Json) : Built (List Json) := do
  let (key, values) ← v.expectSingle construct
  if key = Keyword.each then values.expectArray construct
  else .error (.unreadable construct (.expectedEach key))

def readFields {α : Type} (construct : String) (operand : Json) (read : Json → Built α) :
    Built (List (String × α)) := do
  (← operand.expectObject construct).mapM fun entry => do
    let value ← read entry.2
    .ok (entry.1, value)

/-- The action that an operator makes of its operand. -/
def readOperand (operator : ActionOperator) (operand : Json) : Built Action :=
  let token := operator.token
  match operator with
  | .set => do ofSet (← operand.expectObject token)
  | .inc => do ofInc (← operand.expectObject token)
  | .min => do ofMin (← operand.expectObject token)
  | .max => do ofMax (← operand.expectObject token)
  | .unset => do ofUnset (← Json.expectStrings token operand.oneOrMany)
  | .rename => do ofRename (← readFields token operand (Json.expectString token))
  | .pop => do ofPop (← readFields token operand (Json.expectInt64 token))
  | .push => do ofPush (← readFields token operand (readEach token))
  | .add => do ofAdd (← readFields token operand (readEach token))
  | .pull => do ofPull (← readFields token operand (readEach token))

def readEntry (entry : String × Json) : Built Action :=
  match ActionOperator.ofToken? entry.1 with
  | none => .error (.unreadable Section.action.token (.unknownAction entry.1))
  | some operator => readOperand operator entry.2

def readObject (v : Json) : Built (List Action) := do
  (← v.expectObject Section.action.token).mapM readEntry

/-- Reads the actions of one object or of an array of them, in order. -/
def readAll (v : Json) : Built (List Action) :=
  List.flatten <$> v.oneOrMany.mapM readObject

end Fonds.Action
