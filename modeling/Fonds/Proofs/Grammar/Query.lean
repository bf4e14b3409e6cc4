import Fonds.Proofs.Grammar.Shape

/-!
The grammar of queries, as a judgment on JSON values. It says what a query document looks like and
nothing of how one is read.
-/
namespace Fonds

/-- No two of the bounds that the keys name limit the same side. -/
def BoundOperator.Compatible (keys : List String) : Prop :=
  ¬ (gt.token ∈ keys ∧ gte.token ∈ keys) ∧ ¬ (lt.token ∈ keys ∧ lte.token ∈ keys)

/-- At least one bound, each with a scalar, and no two on one side. -/
def Json.IsBounds (v : Json) : Prop :=
  ∃ entries : List (String × Json), v = .object entries ∧ entries ≠ [] ∧
    (∀ e ∈ entries, (∃ bound : BoundOperator, e.1 = bound.token) ∧ e.2.IsScalar) ∧
    BoundOperator.Compatible (Entries.keys entries)

/-- The operands of an operator that tests a field. -/
def TestOperator.Accepts : TestOperator → Json → Prop
  | .present | .absent | .isNull => Json.IsNonBlank
  | .oneOf | .noneOf => Json.IsEntryOf (Json.IsArrayOf Json.IsScalar)
  | .size => Json.IsEntryOf (Json.IsIntegerIn 0 (2 ^ 63 - 1))
  | .compare _ => Json.IsEntryOf Json.IsScalar
  | .range => Json.IsEntryOf Json.IsBounds
  | .term => Json.IsEntryOf (Json.IsText fun _ => True)
  | .regex => Json.IsEntryOf (Json.IsText fun s => s ≠ "")

namespace Query

/-- Entries in any order: that of an operator with its operand, and perhaps one of a qualifier that
names a level within its bounds. -/
structure Headed (entries : List (String × Json)) (operator : Operator) (operand : Json) :
    Prop where
  written : (operator.token, operand) ∈ entries
  known : ∀ key ∈ Entries.keys entries,
    key = operator.token ∨ key = Keyword.depth ∨ key = Keyword.exactDepth
  depth : ∀ v, (Keyword.depth, v) ∈ entries → v.IsIntegerIn (-100) 100
  exactDepth : ∀ v, (Keyword.exactDepth, v) ∈ entries → v.IsIntegerIn 0 100
  exclusive : ¬ (Keyword.depth ∈ Entries.keys entries ∧ Keyword.exactDepth ∈ Entries.keys entries)

/-- A query that is not a path. A group has one member, as it is or in an array, or more of them in
an array, and no path among them. -/
inductive IsCondition : Json → Prop
  | test {entries : List (String × Json)} {operator : TestOperator} {operand : Json}
      (head : Headed entries (.test operator) operand) (accepts : operator.Accepts operand) :
      IsCondition (.object entries)
  | group {entries : List (String × Json)} {junction : Junction} {operand : Json}
      (head : Headed entries (.junction junction) operand) (nonempty : operand.oneOrMany ≠ [])
      (members : ∀ v ∈ operand.oneOrMany, IsCondition v) : IsCondition (.object entries)

/-- A path has at least one identifier and no qualifier. -/
def IsPath (v : Json) : Prop :=
  ∃ ids : Json, v = .single Operator.path.token ids ∧ ids.IsArrayOf Json.IsNonBlank

/-- A query document. -/
def IsQuery (v : Json) : Prop := IsCondition v ∨ IsPath v

end Query

end Fonds
