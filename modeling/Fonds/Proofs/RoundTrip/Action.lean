import Fonds.Action.Printer
import Fonds.Action.Reader
import Fonds.Proofs.RoundTrip.Shape

/-!
Actions come out of their documents as they went in. What the operands have in common is proved once
for all operators: the fields, in order, with whatever stands for an operand of each.
-/
namespace Fonds

namespace Fields

variable {α β : Type}

theorem toJson_eq (f : Fields α) (render : α → Json) :
    f.toJson render = .object (f.entries.map fun e => (e.1.text, render e.2)) :=
  Json.ofEntries_map Name.text_injective f.map.nodup render

/-- The fields are built again from what stands for their operands. -/
theorem build_entries (f : Fields α) (operator : ActionOperator) {check : β → Built α}
    (written : α → β) (h : ∀ a, check (written a) = .ok a) :
    build operator check (f.entries.map fun e => (e.1.text, written e.2)) = .ok f := by
  have hfold : (f.entries.map fun e => (e.1.text, written e.2)).foldlM
      (extend operator.token check) .empty = .ok f.map := by
    refine f.map.foldlM_entries id fun known e hnew => ?_
    have hnone : known.get? e.1 = none := Entries.get?_eq_none hnew
    simp [extend, h, hnone]
  rw [build, hfold, ok_bind, dif_neg f.nonempty]

theorem readFields_toJson (f : Fields α) (construct : String) {render : α → Json}
    {read : Json → Built β} {written : α → β} (h : ∀ a, read (render a) = .ok (written a)) :
    Action.readFields construct (f.toJson render) read =
      .ok (f.entries.map fun e => (e.1.text, written e.2)) := by
  rw [Action.readFields, toJson_eq, Json.expectObject_object, ok_bind]
  apply mapM_map_eq_ok
  intro e _
  rw [h, ok_bind]

end Fields

namespace Action

theorem readEach_eachToJson (construct : String) (values : NonEmpty Json) :
    readEach construct (eachToJson values) = .ok values.toList := by
  rw [readEach, eachToJson, Json.expectSingle_single, ok_bind]
  rfl

theorem buildValues_toList (construct : String) (values : NonEmpty Json) :
    buildValues construct values.toList = .ok values := by
  rw [buildValues, NonEmpty.ofList?_toList]

theorem ofUnset_text (fields : NonEmpty Name) :
    ofUnset (fields.toList.map Name.text) = .ok (.unset fields) := by
  have hread : (fields.toList.map Name.text).mapM (Name.build ActionOperator.unset.token) =
      .ok (fields.toList.map id) :=
    mapM_map_eq_ok fun name _ => Name.build_text _ name
  rw [ofUnset, hread, ok_bind, List.map_id, NonEmpty.ofList?_toList]

/-- Every action is read back from its operand. -/
theorem readOperand_operand (a : Action) : readOperand a.operator a.operand = .ok a := by
  cases a with
  | set values =>
    rw [operator, operand, readOperand, values.toJson_eq, Json.expectObject_object, ok_bind, ofSet,
      values.build_entries .set id fun _ => rfl, map_ok]
  | unset fields =>
    rw [operator, operand, readOperand, Json.oneOrMany_array, Json.expectStrings_map, ok_bind,
      ofUnset_text]
  | inc amounts =>
    rw [operator, operand, readOperand, amounts.toJson_eq, Json.expectObject_object, ok_bind, ofInc,
      amounts.build_entries .inc Json.number fun _ => rfl, map_ok]
  | min values =>
    rw [operator, operand, readOperand, values.toJson_eq, Json.expectObject_object, ok_bind, ofMin,
      values.build_entries .min Literal.toJson (Literal.build_toJson _), map_ok]
  | max values =>
    rw [operator, operand, readOperand, values.toJson_eq, Json.expectObject_object, ok_bind, ofMax,
      values.build_entries .max Literal.toJson (Literal.build_toJson _), map_ok]
  | rename targets =>
    rw [operator, operand, readOperand,
      targets.readFields_toJson _ fun name => Json.expectString_string name.text, ok_bind, ofRename,
      targets.build_entries .rename Name.text (Name.build_text _), map_ok]
  | push values =>
    rw [operator, operand, readOperand, values.readFields_toJson _ (readEach_eachToJson _), ok_bind,
      ofPush, values.build_entries .push NonEmpty.toList (buildValues_toList _), map_ok]
  | add values =>
    rw [operator, operand, readOperand, values.readFields_toJson _ (readEach_eachToJson _), ok_bind,
      ofAdd, values.build_entries .add NonEmpty.toList (buildValues_toList _), map_ok]
  | pop ends =>
    have hread : ∀ e : ArrayEnd, Json.expectInt64 ActionOperator.pop.token (.ofInt e.number) =
        .ok (Int64.ofInt e.number) := by
      intro e
      cases e <;> rfl
    have hbuild : ∀ e : ArrayEnd, ArrayEnd.build (Int64.ofInt e.number).toInt = .ok e := by
      intro e
      cases e <;> rfl
    rw [operator, operand, readOperand, ends.readFields_toJson _ hread, ok_bind, ofPop,
      ends.build_entries .pop (fun e => Int64.ofInt e.number) hbuild, map_ok]
  | pull values =>
    rw [operator, operand, readOperand, values.readFields_toJson _ (readEach_eachToJson _), ok_bind,
      ofPull, values.build_entries .pull NonEmpty.toList (buildValues_toList _), map_ok]

theorem readObject_toJson (a : Action) : readObject a.toJson = .ok [a] := by
  have hentry : readEntry (a.operator.token, a.operand) = .ok a := by
    rw [readEntry, ActionOperator.ofToken?_token]
    exact readOperand_operand a
  rw [readObject, toJson, Json.single, Json.expectObject_object, ok_bind, List.mapM_cons, hentry]
  rfl

/-- Actions are read back from an array of them, in order. -/
theorem readAll_array (actions : List Action) :
    readAll (.array (actions.map toJson)) = .ok actions := by
  have hread : (actions.map toJson).mapM readObject = .ok (actions.map fun a => [a]) :=
    mapM_map_eq_ok fun a _ => readObject_toJson a
  rw [readAll, Json.oneOrMany_array, hread, map_ok, ← List.flatMap_def, List.flatMap_singleton']

end Action

end Fonds
