import Fonds.Facet.Basic
import Fonds.Plan.Compile
import Fonds.Store.Aggregation

/-!
What facets come to in the store. A facet over sub-documents becomes an aggregation at their path,
under the facet's own name.
-/
namespace Fonds

open Store

namespace BucketOrder

def direction : BucketOrder → Direction
  | .ascending => .ascending
  | .descending => .descending

end BucketOrder

namespace DateRange

def toBucket (r : DateRange) : DateBucket := ⟨r.start?, r.stop?⟩

end DateRange

namespace FacetField

/-- Whether the field is one of the sub-documents at a path. -/
def IsUnder (field path : Name) : Prop := path.text.toList ++ ['.'] <+: field.text.toList

instance (field path : Name) : Decidable (IsUnder field path) :=
  inferInstanceAs (Decidable (_ <+: _))

/-- Runs an aggregation over the sub-documents of the facet, if it has any. -/
def aggregate (c : Configuration) (name : NonBlank) (source : FacetField) (a : Aggregation) :
    Except PlanError Aggregation :=
  match source.nested with
  | none => .ok a
  | some path =>
    if IsUnder source.field path then .ok (.nested (c.field path) name.text a)
    else .error (.fieldOutsideNested name.text source.field.text path.text)

end FacetField

namespace Facet

/-- The queries of a facet as predicates under their names. -/
def compileFilters (c : Configuration) :
    List (NonBlank × Query) → Reported PlanError (List (String × Predicate))
  | [] => return []
  | (name, q) :: rest => do
    let first ← q.compile c
    let others ← compileFilters c rest
    return (name.text, first) :: others

def compileBody (c : Configuration) (name : NonBlank) : FacetBody → Reported PlanError Aggregation
  | .terms source size _ order =>
    .ofExcept <| source.aggregate c name
      (.terms (c.field source.field) size.toNat order.direction)
  | .dateRange source format ranges =>
    .ofExcept <| source.aggregate c name
      (.dateRange (c.field source.field) format.text (ranges.toList.map DateRange.toBucket))
  | .filters queries _ => do
    let named ← compileFilters c queries.entries
    return .filters named

/-- The aggregations of facets, in order. -/
def compileAll (c : Configuration) : List Facet → Reported PlanError (List (String × Aggregation))
  | [] => return []
  | facet :: rest => do
    let first ← compileBody c facet.name facet.body
    let others ← compileAll c rest
    return (facet.name.text, first) :: others

end Facet

end Fonds
