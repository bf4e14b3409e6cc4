import Fonds.Plan.Aggregations

/-!
Where documents hold what a request names, read off the settings. A reserved name stands for the
field that is set for it, and a field is inside another if its name goes on from that one's after a
dot.
-/
namespace Fonds

/-- Whether a field of documents is inside another. -/
def Store.Within (field path : String) : Prop := path.toList ++ ['.'] <+: field.toList

instance (field path : String) : Decidable (Store.Within field path) :=
  inferInstanceAs (Decidable (_ <+: _))

/-- Names are under one another as fields are inside one another. -/
theorem FacetField.isUnder_iff {field path : Name} :
    IsUnder field path ↔ Store.Within field.text path.text := Iff.rfl

namespace Configuration

variable {c : Configuration} {name : Name} {field : String}

/-- The field that the settings give for a name: the one that is set for it if the name is reserved,
and the one of that name if it is not. -/
def mapped (c : Configuration) (name : Name) : String :=
  match c.reserved.get? name.text with
  | some field => field
  | none => name.text

theorem mapped_of_reserved (h : c.reserved.get? name.text = some field) :
    c.mapped name = field := by
  rw [mapped, h]

theorem mapped_of_free (h : c.reserved.get? name.text = none) : c.mapped name = name.text := by
  rw [mapped, h]

theorem field_eq_mapped (c : Configuration) (name : Name) : c.field name = c.mapped name := by
  rw [Configuration.field, mapped]
  cases c.reserved.get? name.text <;> rfl

/-- The ancestors at each distance have a field inside one that is set for all distances. -/
theorem ancestorsAt_eq (c : Configuration) (levels : Nat) :
    c.ancestorsAt levels = c.graph.ancestorsByDistance ++ "." ++ toString levels := rfl

end Configuration

end Fonds
