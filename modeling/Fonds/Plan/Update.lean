import Fonds.Action.Basic
import Fonds.Plan.Fields
import Fonds.Store.Update

/-!
What actions come to in the store.
-/
namespace Fonds

open Store

namespace Action

/-- The operator of the store that carries out the action. -/
def storeOperator : Action → UpdateOperator
  | .set _ => .set
  | .unset _ => .unset
  | .inc _ => .inc
  | .min _ => .min
  | .max _ => .max
  | .rename _ => .rename
  | .push _ => .push
  | .add _ => .addToSet
  | .pop _ => .pop
  | .pull _ => .pullAll

/-- The operands of an action by document field. -/
def operandsOf {α : Type} (c : Configuration) (fields : Fields α) (render : α → Operand) :
    List (String × Operand) :=
  fields.entries.map fun e => (c.field e.1, render e.2)

def operands (c : Configuration) : Action → List (String × Operand)
  | .set values => operandsOf c values .value
  | .unset fields => fields.toList.map fun name => (c.field name, .value (.string ""))
  | .inc amounts => operandsOf c amounts fun n => .value (.number n)
  | .min values | .max values => operandsOf c values fun v => .value v.toJson
  | .rename targets => operandsOf c targets fun target => .value (.string (c.field target))
  | .push values | .add values => operandsOf c values fun vs => .each vs.toList
  | .pop ends => operandsOf c ends fun e => .value (.ofInt e.number)
  | .pull values => operandsOf c values fun vs => .value (.array vs.toList)

/-- The update that actions, one after the other, amount to. -/
def compileAll (c : Configuration) (actions : List Action) : Update :=
  actions.foldl (fun u a => u.add a.storeOperator (a.operands c)) .empty

end Action

end Fonds
