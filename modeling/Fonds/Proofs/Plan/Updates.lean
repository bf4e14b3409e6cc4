import Fonds.Plan.Update
import Fonds.Proofs.Ordered.Collected
import Fonds.Proofs.Plan.Fields

/-!
Updates as the sum of their actions. An operator stands where an action first asks for it and has
the fields in the order in which its actions come to them. What is added to an array is there in the
order in which it was asked for; of anything else the last counts.
-/
namespace Fonds

open Store

@[simp] theorem Store.UpdateOperator.ofToken?_token (operator : UpdateOperator) :
    ofToken? operator.token = some operator := by
  cases operator <;> rfl

theorem Store.UpdateOperator.token_injective : Function.Injective token :=
  token_injective_of_find? ofToken?_token

namespace Store.Operand

/-- An operand as the store is sent it: values that pile up come in a list of their own. -/
def rendered : Operand → Json
  | .value v => v
  | .each values => .object [("$each", .array values)]

theorem toJson_eq_rendered (o : Operand) : o.toJson = o.rendered := by
  cases o <;> rfl

/-- The operand of a field that may have one already. -/
def onto (new : Operand) : Option Operand → Operand
  | none => new
  | some known => known.merge new

/-- What operands of one field come to, one after the other. -/
def sum (operands : List Operand) : Option Operand :=
  operands.foldl (fun known new => some (new.onto known)) none

end Store.Operand

namespace Store.Update

variable {op op' : UpdateOperator}

/-- Where nothing is there twice, all that is there is written. -/
theorem toJson_eq {u : Update} (hgroups : (Entries.keys u.groups).Nodup)
    (hfields : ∀ g ∈ u.groups, (Entries.keys g.2).Nodup) :
    u.toJson = .object (u.groups.map fun g =>
      (g.1.token, .object (g.2.map fun e => (e.1, e.2.rendered)))) := by
  simp only [← Operand.toJson_eq_rendered]
  rw [toJson, Json.ofEntries_map UpdateOperator.token_injective hgroups fun group =>
    Json.ofEntries (group.map fun e => (e.1, e.2.toJson))]
  refine congrArg Json.object (List.map_congr_left fun g hg => ?_)
  have hkeys : Entries.keys (g.2.map fun e => (e.1, e.2.toJson)) = Entries.keys g.2 := by
    simp [Entries.keys]
  rw [Json.ofEntries, Entries.collect_of_nodup (hkeys ▸ hfields g hg)]

end Store.Update

namespace Action

variable {c : Configuration} {actions : List Action} {op : UpdateOperator} {field : String}

/-- The names of the fields that an action applies to, in order. -/
def names : Action → List Name
  | .set values => Entries.keys values.entries
  | .unset fields => fields.toList
  | .inc amounts => Entries.keys amounts.entries
  | .min values | .max values => Entries.keys values.entries
  | .rename targets => Entries.keys targets.entries
  | .push values | .add values | .pull values => Entries.keys values.entries
  | .pop ends => Entries.keys ends.entries

/-- What is pushed in two actions, under two names of one field, is all there in the end. -/
example :
    let id : Name := ⟨"#id", by decide, by decide⟩
    let mapped : Name := ⟨"_id", by decide, by decide⟩
    let title : Name := ⟨"Title", by decide, by decide⟩
    (compileAll .initial
      [.push ⟨⟨[(mapped, ⟨.string "a", []⟩)], by decide⟩, by simp⟩,
        .set ⟨⟨[(title, .string "Maps")], by decide⟩, by simp⟩,
        .push ⟨⟨[(id, ⟨.string "b", [.string "c"]⟩)], by decide⟩, by simp⟩]).toJson =
      .object [("$push", .single "_id"
          (.single "$each" (.array [.string "a", .string "b", .string "c"]))),
        ("$set", .single "Title" (.string "Maps"))] := by
  rfl

end Action

end Fonds
