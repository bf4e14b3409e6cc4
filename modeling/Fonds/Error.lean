import Fonds.Json.Printer
import Fonds.Query.Operator
import Fonds.Request.Kind

/-!
Why a request is refused. A fault of shape is reported as unreadable, a broken rule as invalid; both
name the construct at fault and give the cause as a value, whose wording stands here alone.
-/
namespace Fonds

/-- What a reader expects to find. -/
inductive Shape where
  | object
  | array
  | string
  | integer
  | nonNegativeInteger
  | singleEntry
  | literal
  deriving DecidableEq

/-- A rule of the query language that is broken. -/
inductive Rule where
  | emptyField
  | emptyHint
  | emptyScrollId
  | emptyRoot
  | emptyIdentifier
  | emptyPattern
  | emptyFacetName
  | emptyFilterName
  | emptyDateFormat
  | notA (shape : Shape) (value : Json)
  | noValues
  | negativeSize (size : Int)
  | boundConflict (bound known : BoundOperator) (field : String)
  | noBounds
  | nestedPath
  | noConditions
  | noIdentifiers
  | depthOutOfRange (depth : Int)
  | qualifiedPath
  | alreadyRelative
  | alreadyExact
  | pathNotFirst
  | noSuchStep (index steps : Nat)
  | direction (field : String) (number : Int)
  | keywordNotAllowed (keyword : FilterKeyword)
  | timeoutWithoutScroll
  | sliceLimit
  | facetSize (size : Int)
  | noOrder
  | openDateRange
  | noDateRanges
  | noFilters
  | filterWithoutQuery
  | repeatedFilter (name : String)
  | repeatedFacet (name : String)
  | noFields
  | notANumber (value : Json)
  | arrayEnd (number : Int)
  | noArrayValues
  | repeatedField (field : String)
  | nothingToInsert
  | noActions

/-- What makes a part of a request unreadable. -/
inductive Misreading where
  | expected (shape : Shape) (value : Json)
  | unexpectedSection (key : String) (kind : Kind)
  | unknownOperator (token : String)
  | severalOperators
  | noOperator
  | unknownBound (token : String)
  | unknownKeyword (key : String)
  | notABoolean (value : Json)
  | notAnInteger (value : Json)
  | sliceParts
  | slice (construct : String) (rule : Rule)
  | projection (value : Json)
  | unknownFacet (key : String)
  | severalFacets
  | noFacet
  | unknownOrder (token : String)
  | unknownAction (token : String)
  | expectedEach (key : String)

/-- Why a request cannot be built. -/
inductive RequestError where
  /-- The construct is not shaped like the query language expects. -/
  | unreadable (construct : String) (cause : Misreading)
  /-- The construct is well shaped but breaks a rule. -/
  | invalid (construct : String) (rule : Rule)

namespace Shape

def text : Shape → String
  | .object => "an object"
  | .array => "an array"
  | .string => "a string"
  | .integer => "an integer"
  | .nonNegativeInteger => "a non-negative integer"
  | .singleEntry => "a single entry"
  | .literal => "a literal value"

/-- The wording for a value of another shape. -/
def mismatch (shape : Shape) (value : Json) : String :=
  "expected " ++ shape.text ++ ", got " ++ value.compact

end Shape

namespace Rule

def message : Rule → String
  | .emptyField => "field name is empty"
  | .emptyHint => "hint is empty"
  | .emptyScrollId => "scroll id is empty"
  | .emptyRoot => "root identifier is empty"
  | .emptyIdentifier => "identifiers cannot be empty"
  | .emptyPattern => "pattern is empty"
  | .emptyFacetName => "facet name is empty"
  | .emptyFilterName => "filter name is empty"
  | .emptyDateFormat => "date format is empty"
  | .notA shape value => shape.mismatch value
  | .noValues => "no values given"
  | .negativeSize size => s!"size {size} is negative"
  | .boundConflict bound known field =>
    bound.token ++ " conflicts with " ++ known.token ++ " on field " ++ field
  | .noBounds => "at least one bound is required"
  | .nestedPath => "a $path query cannot be nested"
  | .noConditions => "at least one sub-query is required"
  | .noIdentifiers => "at least one identifier is required"
  | .depthOutOfRange depth => s!"{depth} is outside of -100..=100"
  | .qualifiedPath => "a $path query cannot carry a depth qualifier"
  | .alreadyRelative => "the query already carries a $depth"
  | .alreadyExact => "the query already carries an $exactdepth"
  | .pathNotFirst => "only the first step can be a $path"
  | .noSuchStep index steps => s!"no step {index} in a request of {steps} steps"
  | .direction field number => s!"direction of {field} must be 1 or -1, not {number}"
  | .keywordNotAllowed keyword => keyword.token ++ " is not allowed in this request"
  | .timeoutWithoutScroll => "a scroll timeout needs a scroll id"
  | .sliceLimit => "slice limit must be positive"
  | .facetSize size => s!"{size} is not a positive size"
  | .noOrder => "order is required"
  | .openDateRange => "a range needs at least one of $from and $to"
  | .noDateRanges => "at least one range is required"
  | .noFilters => "at least one filter is required"
  | .filterWithoutQuery => "filter without $query"
  | .repeatedFilter name => s!"filter {name} is declared twice"
  | .repeatedFacet name => s!"facet {name} is declared twice"
  | .noFields => "at least one field is required"
  | .notANumber value => value.compact ++ " is not a number"
  | .arrayEnd number => s!"{number} must be 1 or -1"
  | .noArrayValues => "$each needs at least one value"
  | .repeatedField field => s!"field {field} appears twice"
  | .nothingToInsert => "nothing to insert"
  | .noActions => "an update needs at least one action"

/-- The wording for a construct that breaks the rule. -/
def messageFor (construct : String) (rule : Rule) : String :=
  "invalid " ++ construct ++ ": " ++ rule.message

end Rule

namespace Misreading

def message : Misreading → String
  | .expected shape value => shape.mismatch value
  | .unexpectedSection key kind =>
    "unexpected section " ++ key ++ " in a " ++ kind.title ++ " request"
  | .unknownOperator token => s!"unknown operator {token}"
  | .severalOperators => "a query holds exactly one operator"
  | .noOperator => "no operator found"
  | .unknownBound token => s!"unknown bound {token}"
  | .unknownKeyword key => s!"unknown keyword {key}"
  | .notABoolean value => value.compact ++ " is not a boolean"
  | .notAnInteger value => value.compact ++ " is not an integer"
  | .sliceParts => "expected [skip, limit]"
  | .slice construct rule => rule.messageFor construct
  | .projection value => "unsupported projection " ++ value.compact
  | .unknownFacet key => s!"unknown facet kind {key}"
  | .severalFacets => "a facet holds exactly one kind"
  | .noFacet => "no facet kind found"
  | .unknownOrder token => s!"{token} is not ASC or DESC"
  | .unknownAction token => s!"unknown action {token}"
  | .expectedEach key => s!"expected $each, got {key}"

end Misreading

def RequestError.message : RequestError → String
  | .unreadable construct cause => "cannot parse " ++ construct ++ ": " ++ cause.message
  | .invalid construct rule => rule.messageFor construct

end Fonds
