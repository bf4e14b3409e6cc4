import Fonds.Ordered.Map
import Fonds.Query.Build

/-!
Facets: counts that a select returns beside its results, over the values of a field, over ranges of
dates, or over the documents that match named queries.
-/
namespace Fonds

/-- The order in which the values of a facet are listed, by their counts. -/
inductive BucketOrder where
  | ascending
  | descending
  deriving DecidableEq

/-- A range of dates that is open on at most one side. -/
inductive DateRange where
  | from (start : String)
  | to (stop : String)
  | between (start stop : String)
  deriving DecidableEq

/-- The field a facet counts over, and the path of the sub-documents that hold it, if any. -/
structure FacetField where
  field : Name
  nested : Option Name
  deriving DecidableEq

/-- What a facet counts. -/
inductive FacetBody where
  /-- The most or least frequent values of a field. -/
  | terms (source : FacetField) (size : UInt32) (positive : 0 < size.toNat) (order : BucketOrder)
  /-- The documents per range of dates. -/
  | dateRange (source : FacetField) (format : NonBlank) (ranges : NonEmpty DateRange)
  /-- The documents per named query. -/
  | filters (queries : OrderedMap NonBlank Query) (nonempty : queries.entries ≠ [])

structure Facet where
  name : NonBlank
  body : FacetBody

/-- The kinds of facet. -/
inductive FacetKind where
  | terms
  | dateRange
  | filters
  deriving DecidableEq

namespace FacetKind

def all : List FacetKind := [.terms, .dateRange, .filters]

def token : FacetKind → String
  | .terms => "$terms"
  | .dateRange => "$date_range"
  | .filters => "$filters"

def ofToken? (token : String) : Option FacetKind := all.find? (·.token = token)

@[simp] theorem ofToken?_token (k : FacetKind) : ofToken? k.token = some k := by
  cases k <;> rfl

end FacetKind

namespace BucketOrder

def all : List BucketOrder := [.ascending, .descending]

def token : BucketOrder → String
  | .ascending => "ASC"
  | .descending => "DESC"

def ofToken? (token : String) : Option BucketOrder := all.find? (·.token = token)

@[simp] theorem ofToken?_token (o : BucketOrder) : ofToken? o.token = some o := by
  cases o <;> rfl

end BucketOrder

namespace DateRange

def start? : DateRange → Option String
  | .from start | .between start _ => some start
  | .to _ => none

def stop? : DateRange → Option String
  | .to stop | .between _ stop => some stop
  | .from _ => none

/-- A range with at least one end. -/
def build : Option String → Option String → Built DateRange
  | some start, some stop => .ok (.between start stop)
  | some start, none => .ok (.from start)
  | none, some stop => .ok (.to stop)
  | none, none => .error (.invalid Keyword.ranges .openDateRange)

@[simp] theorem build_start?_stop? (r : DateRange) : build r.start? r.stop? = .ok r := by
  cases r <;> rfl

end DateRange

namespace FacetBody

def kind : FacetBody → FacetKind
  | .terms _ _ _ _ => .terms
  | .dateRange _ _ _ => .dateRange
  | .filters _ _ => .filters

/-- Whether a query of the facet needs the full-text index. -/
def isFullText : FacetBody → Bool
  | .filters queries _ => queries.values.any Query.isFullText
  | _ => false

end FacetBody

namespace FacetField

/-- The field is checked before the path of its sub-documents. -/
def build (construct : String) (field : String) (nested : Option String) : Built FacetField := do
  let name ← Name.build construct field
  match nested with
  | none => .ok ⟨name, none⟩
  | some path => do
    let path ← Name.build construct path
    .ok ⟨name, some path⟩

end FacetField

namespace Facet

def kind (f : Facet) : FacetKind := f.body.kind

def isFullText (f : Facet) : Bool := f.body.isFullText

def buildName (name : String) : Built NonBlank := NonBlank.build Keyword.name .emptyFacetName name

def terms (name field : String) (nested : Option String) (size : Int64)
    (order : Option BucketOrder) : Built Facet := do
  let name ← buildName name
  let source ← FacetField.build FacetKind.terms.token field nested
  if h : 0 < size.toInt ∧ size.toInt < UInt32.size then
    match order with
    | none => .error (.invalid Keyword.order .noOrder)
    | some order =>
      .ok ⟨name, .terms source (UInt32.ofNat size.toInt.toNat) (by
        have hlt : size.toInt.toNat < UInt32.size := by omega
        rw [UInt32.toNat_ofNat_of_lt' hlt]
        omega) order⟩
  else .error (.invalid Keyword.size (.facetSize size.toInt))

def dateRange (name field : String) (nested : Option String) (format : String)
    (ranges : List DateRange) : Built Facet := do
  let name ← buildName name
  let source ← FacetField.build FacetKind.dateRange.token field nested
  let format ← NonBlank.build Keyword.format .emptyDateFormat format
  match NonEmpty.ofList? ranges with
  | some ranges => .ok ⟨name, .dateRange source format ranges⟩
  | none => .error (.invalid Keyword.ranges .noDateRanges)

/-- Adds a named query. A name that is there already is refused. -/
def addFilter (known : OrderedMap NonBlank Query) (filter : String × Query) :
    Built (OrderedMap NonBlank Query) := do
  let name ← NonBlank.build Keyword.queryFilters .emptyFilterName filter.1
  if (known.get? name).isSome then
    .error (.invalid Keyword.queryFilters (.repeatedFilter filter.1))
  else .ok (known.insert name filter.2)

def filters (name : String) (queries : List (String × Query)) : Built Facet := do
  let name ← buildName name
  let known ← queries.foldlM addFilter .empty
  if h : known.entries = [] then .error (.invalid Keyword.queryFilters .noFilters)
  else .ok ⟨name, .filters known h⟩

end Facet

end Fonds
