import Fonds.Facet.Basic
import Fonds.Query.Reader

/-!
Reading facets. A missing name, field or format reads as an empty text, which the builders then
refuse. Keys that the kind does not use are passed over.
-/
namespace Fonds.Facet

/-- What the entries of a facet have shown so far: its kind with the body. -/
abbrev Body := Option (FacetKind × Json)

def readEntry (body : Body) (entry : String × Json) : Built Body :=
  if entry.1 = Keyword.name then .ok body
  else
    match FacetKind.ofToken? entry.1 with
    | none => .error (.unreadable Section.facets.token (.unknownFacet entry.1))
    | some kind =>
      if body.isSome then .error (.unreadable Section.facets.token .severalFacets)
      else .ok (some (kind, entry.2))

/-- The number of values a facet lists. Without one it reads as zero. -/
def readSize (entries : List (String × Json)) : Built Int64 :=
  match Entries.get? Keyword.size entries with
  | some v => v.expectInt64 Keyword.size
  | none => .ok 0

def readOrder (entries : List (String × Json)) : Built (Option BucketOrder) := do
  match ← Json.expectStringAt? FacetKind.terms.token entries Keyword.order with
  | none => .ok none
  | some token =>
    match BucketOrder.ofToken? token with
    | some order => .ok (some order)
    | none => .error (.unreadable Keyword.order (.unknownOrder token))

def readRange (v : Json) : Built DateRange := do
  let entries ← v.expectObject Keyword.ranges
  let start ← Json.expectStringAt? Keyword.ranges entries Keyword.rangeFrom
  let stop ← Json.expectStringAt? Keyword.ranges entries Keyword.rangeTo
  DateRange.build start stop

def readFilter (v : Json) : Built (String × Query) := do
  let entries ← v.expectObject Keyword.queryFilters
  let name ← Json.expectStringAt? Keyword.queryFilters entries Keyword.name
  match Entries.get? Section.query.token entries with
  | none => .error (.invalid Keyword.queryFilters .filterWithoutQuery)
  | some q => do
    let query ← Query.read q
    .ok (name.getD "", query)

/-- The elements under a key of an object, each read in turn, or none if the key is not there. -/
def readListAt {α : Type} (entries : List (String × Json)) (key : String) (read : Json → Built α) :
    Built (List α) :=
  match Entries.get? key entries with
  | none => .ok []
  | some v => do (← v.expectArray key).mapM read

def readBody (name : String) (kind : FacetKind) (v : Json) : Built Facet := do
  let entries ← v.expectObject kind.token
  let field ← Json.expectStringAt? kind.token entries Keyword.field
  let field := field.getD ""
  let nested ← Json.expectStringAt? kind.token entries Keyword.subobject
  match kind with
  | .terms => do
    let size ← readSize entries
    let order ← readOrder entries
    terms name field nested size order
  | .dateRange => do
    let format ← Json.expectStringAt? kind.token entries Keyword.format
    let ranges ← readListAt entries Keyword.ranges readRange
    dateRange name field nested (format.getD "") ranges
  | .filters => do
    let queries ← readListAt entries Keyword.queryFilters readFilter
    filters name queries

/-- Reads one facet: its name and exactly one kind. -/
def read (v : Json) : Built Facet := do
  let entries ← v.expectObject Section.facets.token
  let name ← Json.expectStringAt? Keyword.name entries Keyword.name
  match ← entries.foldlM readEntry none with
  | none => .error (.unreadable Section.facets.token .noFacet)
  | some (kind, body) => readBody (name.getD "") kind body

end Fonds.Facet
