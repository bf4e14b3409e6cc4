import Fonds.Filter.Basic
import Fonds.Store.Predicate

/-!
Aggregations of the document store: counts over the values of a field, over ranges of dates, over
documents that satisfy a predicate, or any of these over sub-documents.
-/
namespace Fonds.Store

/-- A range of dates, open where it names no end. -/
structure DateBucket where
  start : Option String
  stop : Option String
  deriving DecidableEq

inductive Aggregation where
  | terms (field : String) (size : Nat) (order : Direction)
  | dateRange (field format : String) (buckets : List DateBucket)
  | filters (named : List (String × Predicate))
  /-- A named aggregation over the sub-documents at a path. -/
  | nested (path name : String) (inner : Aggregation)

namespace DateBucket

def toJson (b : DateBucket) : Json :=
  .object <|
    (b.start.map fun start => ("from", Json.string start)).toList ++
    (b.stop.map fun stop => ("to", Json.string stop)).toList

end DateBucket

namespace Aggregation

def countOrder : Direction → String
  | .ascending => "asc"
  | .descending => "desc"

def toJson : Aggregation → Json
  | .terms field size order =>
    .single "terms" (.object [("field", .string field), ("size", .ofNat size),
      ("order", .single "_count" (.string (countOrder order)))])
  | .dateRange field format buckets =>
    .single "date_range" (.object [("field", .string field), ("format", .string format),
      ("ranges", .array (buckets.map DateBucket.toJson))])
  | .filters named =>
    .single "filters" (.single "filters" (.ofEntries (named.map fun f => (f.1, f.2.toJson))))
  | .nested path name inner =>
    .object [("nested", .single "path" (.string path)), ("aggs", .single name inner.toJson)]

/-- Aggregations by their names. -/
def allToJson (aggregations : List (String × Aggregation)) : Json :=
  .ofEntries (aggregations.map fun a => (a.1, a.2.toJson))

end Aggregation

end Fonds.Store
