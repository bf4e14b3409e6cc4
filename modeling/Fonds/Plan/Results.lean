import Fonds.Filter.Basic
import Fonds.Plan.Fields
import Fonds.Projection.Basic
import Fonds.Store.Results

/-!
What a filter and a projection come to in the store.
-/
namespace Fonds

open Store

namespace Filter

/-- The keys to sort by, in the order requested. -/
def sortKeys (c : Configuration) (f : Filter) : List SortKey :=
  f.orderBy.entries.map fun e => ⟨c.field e.1, e.2⟩

/-- The paging of a request. A select has a limit in any case, and a cursor takes the place of the
offset. -/
def paging (c : Configuration) (kind : Kind) (f : Filter) : Paging where
  limit := f.limit <|> (if kind = .select then some c.defaultLimit else none)
  offset := if f.scroll.isSome then none else f.offset
  cursor := f.scroll.map fun s => ⟨s.id.text, s.timeout⟩

end Filter

namespace FieldProjection

def toReturn : FieldProjection → FieldReturn
  | .excluded => .exclude
  | .included => .include
  | .count n => .count n.toInt
  | .window skip limit _ => .window skip.toInt limit.toInt.toNat

end FieldProjection

namespace Projection

/-- The fields to return, in the order requested. -/
def returns (c : Configuration) (p : Projection) : List (String × FieldReturn) :=
  p.fields.entries.map fun e => (c.field e.1, e.2.toReturn)

end Projection

end Fonds
