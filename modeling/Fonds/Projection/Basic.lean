import Fonds.Ordered.Map
import Fonds.Shape

/-!
Projections: which fields of the found documents a select returns, and for what use. A projection
without fields returns whole documents.
-/
namespace Fonds

/-- How much of a field is returned. -/
inductive FieldProjection where
  | excluded
  | included
  /-- The first elements of an array, or the last ones where the count is negative. -/
  | count (n : Int64)
  /-- So many elements of an array after those skipped. -/
  | window (skip limit : Int64) (positive : 0 < limit.toInt)
  deriving DecidableEq

/-- The fields to return and the usage they are read for. -/
structure Projection where
  fields : OrderedMap Name FieldProjection := .empty
  usage : Option String := none
  deriving DecidableEq

namespace FieldProjection

def ofFlag (flag : Bool) : FieldProjection := if flag then .included else .excluded

def slice (skip limit : Int64) : Built FieldProjection :=
  if h : 0 < limit.toInt then .ok (.window skip limit h)
  else .error (.invalid Keyword.slice .sliceLimit)

def toJson : FieldProjection → Json
  | .excluded => .ofNat 0
  | .included => .ofNat 1
  | .count n => .single Keyword.slice (.ofInt n.toInt)
  | .window skip limit _ =>
    .single Keyword.slice (.array [.ofInt skip.toInt, .ofInt limit.toInt])

end FieldProjection

/-- The name that stands for every field of a document. -/
def Name.allFields : Name := ⟨Keyword.allFields, by decide, by decide⟩

namespace Projection

def isEmpty (p : Projection) : Bool := p.fields.isEmpty && p.usage.isNone

/-- Whether whole documents are returned. -/
def isAll (p : Projection) : Bool :=
  p.fields.isEmpty || p.fields.get? Name.allFields = some .included

def addField (p : Projection) (field : String) (projection : FieldProjection) :
    Built Projection := do
  let name ← Name.build Keyword.fields field
  .ok { p with fields := p.fields.insert name projection }

def toJson (p : Projection) : Json :=
  .object <|
    (if p.fields.isEmpty then []
      else [(Keyword.fields,
        Json.ofEntries (p.fields.entries.map fun e => (e.1.text, e.2.toJson)))]) ++
    (p.usage.map fun usage => (Keyword.usage, Json.string usage)).toList

end Projection

end Fonds
