import Fonds.Action.Basic
import Fonds.Facet.Basic
import Fonds.Projection.Basic
import Fonds.Proofs.Grammar.Query

/-!
The grammar of requests, section by section. Like that of queries it is a judgment on JSON values:
what the sections of a document look like, and nothing of how they are read.
-/
namespace Fonds

namespace Entries

/-- The value under a key, where there is one, is of some form. -/
def Allows (entries : List (String × Json)) (key : String) (form : Json → Prop) : Prop :=
  ∀ v, (key, v) ∈ entries → form v

/-- There is a value under a key, and it is of some form. -/
def Requires (entries : List (String × Json)) (key : String) (form : Json → Prop) : Prop :=
  ∃ v, (key, v) ∈ entries ∧ form v

end Entries

namespace Json

/-- An array of any length whose elements are of some form. -/
def IsListOf (form : Json → Prop) (v : Json) : Prop :=
  ∃ elems : List Json, v = .array elems ∧ ∀ w ∈ elems, form w

/-- An object of any size whose entries are of some form. -/
def IsObjectOf (form : String × Json → Prop) (v : Json) : Prop :=
  ∃ entries : List (String × Json), v = .object entries ∧ ∀ e ∈ entries, form e

def IsAnyText : Json → Prop := IsText fun _ => True

def IsInt64 : Json → Prop := IsIntegerIn (-2 ^ 63) (2 ^ 63 - 1)

def IsUInt64 : Json → Prop := IsIntegerIn 0 (2 ^ 64 - 1)

/-- One, or minus one. -/
def IsSign (v : Json) : Prop := v = .ofInt 1 ∨ v = .ofInt (-1)

/-- The text under `$name`, if the value has one. -/
def name? (v : Json) : Option String :=
  (v.asObject?.bind (Entries.get? Keyword.name)).bind asString?

end Json

/-- The operands of a filter keyword. -/
def FilterKeyword.Accepts : FilterKeyword → Json → Prop
  | .offset | .limit | .scrollTimeout => Json.IsUInt64
  | .orderBy => Json.IsObjectOf fun e => ¬ Text.Blank e.1 ∧ e.2.IsSign
  | .hint => fun v => ∀ w ∈ v.oneOrMany, w.IsNonBlank
  | .scrollId => Json.IsNonBlank
  | .multiple => fun v => ∃ b, v = .bool b

/-- A filter uses keywords that are allowed, and a timeout only beside a cursor. -/
def IsFilter (allowed : List FilterKeyword) (v : Json) : Prop :=
  ∃ entries : List (String × Json), v = .object entries ∧
    (∀ e ∈ entries, ∃ keyword ∈ allowed, e.1 = keyword.token ∧ keyword.Accepts e.2) ∧
    (FilterKeyword.scrollTimeout.token ∈ Entries.keys entries →
      FilterKeyword.scrollId.token ∈ Entries.keys entries)

/-- How much of an array is returned: so many elements, or so many after those skipped. -/
def IsSlice (v : Json) : Prop :=
  v.IsInt64 ∨ ∃ skip limit : Json, v = .array [skip, limit] ∧ skip.IsInt64 ∧
    limit.IsIntegerIn 1 (2 ^ 63 - 1)

/-- A flag, or a slice. -/
def IsFieldProjection (v : Json) : Prop :=
  (∃ n, v = .number n) ∨ (∃ b, v = .bool b) ∨
    ∃ slice, v = .single Keyword.slice slice ∧ IsSlice slice

def IsProjection : Json → Prop :=
  Json.IsObjectOf fun e =>
    (e.1 = Keyword.fields ∧
      e.2.IsObjectOf fun field => ¬ Text.Blank field.1 ∧ IsFieldProjection field.2) ∨
    (e.1 = Keyword.usage ∧ e.2.IsAnyText)

/-- A range of dates with an end on at least one side. -/
def IsDateRange (v : Json) : Prop :=
  ∃ entries : List (String × Json), v = .object entries ∧
    Entries.Allows entries Keyword.rangeFrom Json.IsAnyText ∧
    Entries.Allows entries Keyword.rangeTo Json.IsAnyText ∧
    (Keyword.rangeFrom ∈ Entries.keys entries ∨ Keyword.rangeTo ∈ Entries.keys entries)

/-- A query under a name. -/
def IsNamedQuery (v : Json) : Prop :=
  ∃ entries : List (String × Json), v = .object entries ∧
    Entries.Requires entries Keyword.name Json.IsNonBlank ∧
    Entries.Requires entries Section.query.token Query.IsQuery

/-- Named queries, at least one and no two of one name. -/
def IsNamedQueries (v : Json) : Prop :=
  ∃ elems : List Json, v = .array elems ∧ elems ≠ [] ∧ (∀ w ∈ elems, IsNamedQuery w) ∧
    (elems.map Json.name?).Nodup

/-- The field that a facet counts over, and perhaps the path of its sub-documents. -/
structure FacetField.Given (entries : List (String × Json)) : Prop where
  field : Entries.Requires entries Keyword.field Json.IsNonBlank
  nested : Entries.Allows entries Keyword.subobject Json.IsNonBlank

/-- The body of a facet, by its kind. Facets of named queries have no use for a field, yet what is
given for one has to be a text. Keys that the kind does not know are passed over. -/
def FacetKind.Describes (entries : List (String × Json)) : FacetKind → Prop
  | .terms => FacetField.Given entries ∧
    Entries.Requires entries Keyword.size (Json.IsIntegerIn 1 (2 ^ 32 - 1)) ∧
    Entries.Requires entries Keyword.order fun v => ∃ order : BucketOrder, v = .string order.token
  | .dateRange => FacetField.Given entries ∧
    Entries.Requires entries Keyword.format Json.IsNonBlank ∧
    Entries.Requires entries Keyword.ranges (Json.IsArrayOf IsDateRange)
  | .filters => Entries.Allows entries Keyword.field Json.IsAnyText ∧
    Entries.Allows entries Keyword.subobject Json.IsAnyText ∧
    Entries.Requires entries Keyword.queryFilters IsNamedQueries

/-- Entries in any order: that of a kind of facet with its body, and perhaps one of a name. -/
structure Facet.Headed (entries : List (String × Json)) (kind : FacetKind) (body : Json) :
    Prop where
  written : (kind.token, body) ∈ entries
  known : ∀ key ∈ Entries.keys entries, key = Keyword.name ∨ key = kind.token

/-- A facet has a name and one kind. -/
def IsFacet (v : Json) : Prop :=
  ∃ (entries body : List (String × Json)) (kind : FacetKind), v = .object entries ∧
    Entries.Requires entries Keyword.name Json.IsNonBlank ∧
    Facet.Headed entries kind (.object body) ∧ kind.Describes body

/-- Facets, no two of one name. -/
def IsFacets (v : Json) : Prop :=
  ∃ elems : List Json, v = .array elems ∧ (∀ w ∈ elems, IsFacet w) ∧ (elems.map Json.name?).Nodup

/-- Operands by the fields they apply to: at least one, and no field twice. Fields are told apart by
their names without the blanks at the ends. -/
def Fields.IsFieldsOf (form : Json → Prop) (v : Json) : Prop :=
  ∃ entries : List (String × Json), v = .object entries ∧ entries ≠ [] ∧
    (∀ e ∈ entries, ¬ Text.Blank e.1 ∧ form e.2) ∧ (entries.map fun e => Text.trim e.1).Nodup

/-- The values for an array. -/
def IsEach (v : Json) : Prop :=
  ∃ values : List Json, v = .single Keyword.each (.array values) ∧ values ≠ []

/-- The operands of an action. -/
def ActionOperator.Accepts : ActionOperator → Json → Prop
  | .set => Fields.IsFieldsOf fun _ => True
  | .unset => fun v => v.oneOrMany ≠ [] ∧ ∀ w ∈ v.oneOrMany, w.IsNonBlank
  | .inc => Fields.IsFieldsOf fun v => ∃ n, v = .number n
  | .min | .max => Fields.IsFieldsOf Json.IsScalar
  | .rename => Fields.IsFieldsOf Json.IsNonBlank
  | .pop => Fields.IsFieldsOf Json.IsSign
  | .push | .add | .pull => Fields.IsFieldsOf IsEach

/-- Actions by their operators. -/
def IsActionObject : Json → Prop :=
  Json.IsObjectOf fun e => ∃ operator : ActionOperator, e.1 = operator.token ∧ operator.Accepts e.2

/-- One object of actions or an array of them, with an action in at least one. -/
def IsActions (v : Json) : Prop :=
  (∀ w ∈ v.oneOrMany, IsActionObject w) ∧ ∃ w ∈ v.oneOrMany, w ≠ .object []

/-- One query or an array of them, where only the first may be a path. -/
def IsSteps (v : Json) : Prop :=
  (∀ w ∈ v.oneOrMany, Query.IsQuery w) ∧ ∀ w ∈ v.oneOrMany.tail, ¬ Query.IsPath w

/-- What a section holds in requests of a kind. -/
def Section.Accepts (kind : Kind) : Section → Json → Prop
  | .roots => Json.IsListOf Json.IsNonBlank
  | .query => IsSteps
  | .filter => IsFilter kind.filterKeywords
  | .projection => IsProjection
  | .facets => IsFacets
  | .data => fun v => ∃ entries, v = .object entries ∧ entries ≠ []
  | .action => IsActions

/-- The sections that a request of the kind cannot do without. -/
def Kind.required : Kind → List Section
  | .select | .delete => []
  | .insert => [.data]
  | .update => [.action]

/-- A request document of a kind: its sections in any order, the required ones among them. -/
def IsRequest (kind : Kind) (v : Json) : Prop :=
  ∃ entries : List (String × Json), v = .object entries ∧
    (∀ e ∈ entries, ∃ s ∈ kind.sections, e.1 = s.token ∧ s.Accepts kind e.2) ∧
    ∀ s ∈ kind.required, s.token ∈ Entries.keys entries

end Fonds
