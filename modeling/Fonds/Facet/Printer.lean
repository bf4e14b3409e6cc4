import Fonds.Facet.Basic
import Fonds.Query.Printer

/-!
Facets in the form of a request document: the name, then the kind with its body.
-/
namespace Fonds

namespace DateRange

def toJson (r : DateRange) : Json :=
  .object <|
    (r.start?.map fun start => (Keyword.rangeFrom, Json.string start)).toList ++
    (r.stop?.map fun stop => (Keyword.rangeTo, Json.string stop)).toList

end DateRange

namespace FacetField

/-- The entry that the path of sub-documents adds to a body. -/
def nestedEntry (source : FacetField) : List (String × Json) :=
  (source.nested.map fun path => (Keyword.subobject, .string path.text)).toList

end FacetField

namespace FacetBody

def filterToJson (filter : NonBlank × Query) : Json :=
  .object [(Keyword.name, .string filter.1.text), (Section.query.token, filter.2.toJson)]

def entries : FacetBody → List (String × Json)
  | .terms source size _ order =>
    [(Keyword.field, .string source.field.text), (Keyword.size, .ofNat size.toNat),
      (Keyword.order, .string order.token)] ++ source.nestedEntry
  | .dateRange source format ranges =>
    [(Keyword.field, .string source.field.text), (Keyword.format, .string format.text),
      (Keyword.ranges, .array (ranges.toList.map DateRange.toJson))] ++ source.nestedEntry
  | .filters queries _ => [(Keyword.queryFilters, .array (queries.entries.map filterToJson))]

end FacetBody

namespace Facet

def toJson (f : Facet) : Json :=
  .object [(Keyword.name, .string f.name.text), (f.kind.token, .object f.body.entries)]

end Facet

end Fonds
