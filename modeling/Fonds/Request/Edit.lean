import Fonds.Filter.Reader
import Fonds.Request.Basic

/-!
Edits: building a request step by step. An edit that is refused leaves the request as it was, with
one exception: roots that come before a blank one stay.
-/
namespace Fonds

/-- One change to a request. -/
inductive Edit where
  | addRoots (ids : List String)
  | resetRoots
  | addQuery (q : Query)
  | setQuery (index : Nat) (q : Query)
  | resetQueries
  | setFilter (filter : Filter)
  /-- Sets the filter that a document reads as, with the keywords of the kind. -/
  | readFilter (document : Json)
  | resetFilter
  | addHint (hint : String)
  | resetHints
  | setLimit (n : UInt64)
  /-- Takes back the limit and the offset. -/
  | resetLimit
  | setMultiple (multiple : Bool)
  | addOrderBy (field : String) (direction : Direction)
  | resetOrderBy
  | setScroll (id : String) (timeout : Option UInt64)
  | setProjection (projection : Projection)
  | addProjection (field : String) (projection : FieldProjection)
  | resetProjectionFields
  | setUsage (usage : String)
  | resetUsage
  | addFacet (facet : Facet)
  | resetFacets
  | setData (document : Json)
  | addAction (action : Action)
  | resetActions

/-- Why an edit is not carried out. -/
inductive EditError where
  | refused (error : RequestError)
  /-- The request is of a kind that has no such section. -/
  | wrongKind

namespace Core

/-- Adds roots up to the first that is blank. -/
def addRoots (roots : OrderedSet NonBlank) : List String → Built Unit × OrderedSet NonBlank
  | [] => (.ok (), roots)
  | id :: rest =>
    match addRoot roots id with
    | .ok roots => addRoots roots rest
    | .error e => (.error e, roots)

end Core

namespace Request

/-- The result of an edit that either gives a new request or leaves the old one. -/
def attempt (r : Request) : Except EditError Request → Except EditError Unit × Request
  | .ok r' => (.ok (), r')
  | .error e => (.error e, r)

def setRoots (r : Request) (roots : OrderedSet NonBlank) : Request :=
  { r with core := { r.core with roots } }

def editSteps (r : Request) (steps : Built Steps) : Except EditError Request :=
  match steps with
  | .ok steps => .ok { r with core := { r.core with steps } }
  | .error e => .error (.refused e)

def editFilter (r : Request) (filter : Built Filter) : Except EditError Request :=
  match filter with
  | .ok filter => .ok { r with core := { r.core with filter } }
  | .error e => .error (.refused e)

def editProjection (r : Request) (edit : Projection → Built Projection) :
    Except EditError Request :=
  match r.payload with
  | .select projection facets =>
    match edit projection with
    | .ok projection => .ok { r with payload := .select projection facets }
    | .error e => .error (.refused e)
  | _ => .error .wrongKind

def editFacets (r : Request) (edit : Facets → Built Facets) : Except EditError Request :=
  match r.payload with
  | .select projection facets =>
    match edit facets with
    | .ok facets => .ok { r with payload := .select projection facets }
    | .error e => .error (.refused e)
  | _ => .error .wrongKind

def editData (r : Request) (data : Built (List (String × Json))) : Except EditError Request :=
  match r.payload with
  | .insert _ =>
    match data with
    | .ok data => .ok { r with payload := .insert data }
    | .error e => .error (.refused e)
  | _ => .error .wrongKind

def editActions (r : Request) (edit : List Action → List Action) : Except EditError Request :=
  match r.payload with
  | .update actions => .ok { r with payload := .update (edit actions) }
  | _ => .error .wrongKind

/-- Carries out an edit; gives what came of it and the request as it is then. -/
def apply (r : Request) : Edit → Except EditError Unit × Request
  | .addRoots ids =>
    let (result, roots) := Core.addRoots r.core.roots ids
    (result.mapError .refused, r.setRoots roots)
  | .resetRoots => (.ok (), r.setRoots .empty)
  | .addQuery q => r.attempt (r.editSteps (r.core.steps.add q))
  | .setQuery index q => r.attempt (r.editSteps (r.core.steps.set index q))
  | .resetQueries => r.attempt (r.editSteps (.ok .empty))
  | .setFilter filter => r.attempt (r.editFilter (.ok filter))
  | .readFilter v => r.attempt (r.editFilter (Filter.read r.kind.filterKeywords v))
  | .resetFilter => r.attempt (r.editFilter (.ok {}))
  | .addHint hint => r.attempt (r.editFilter (r.core.filter.addHint hint))
  | .resetHints => r.attempt (r.editFilter (.ok { r.core.filter with hints := .empty }))
  | .setLimit n => r.attempt (r.editFilter (.ok { r.core.filter with limit := some n }))
  | .resetLimit =>
    r.attempt (r.editFilter (.ok { r.core.filter with offset := none, limit := none }))
  | .setMultiple b => r.attempt (r.editFilter (.ok { r.core.filter with multiple := some b }))
  | .addOrderBy field direction =>
    r.attempt (r.editFilter (r.core.filter.addOrderBy field direction))
  | .resetOrderBy => r.attempt (r.editFilter (.ok { r.core.filter with orderBy := .empty }))
  | .setScroll id timeout => r.attempt (r.editFilter (r.core.filter.setScroll id timeout))
  | .setProjection p => r.attempt (r.editProjection fun _ => .ok p)
  | .addProjection field p => r.attempt (r.editProjection (·.addField field p))
  | .resetProjectionFields => r.attempt (r.editProjection fun p => .ok { p with fields := .empty })
  | .setUsage usage => r.attempt (r.editProjection fun p => .ok { p with usage := some usage })
  | .resetUsage => r.attempt (r.editProjection fun p => .ok { p with usage := none })
  | .addFacet facet => r.attempt (r.editFacets (·.add facet))
  | .resetFacets => r.attempt (r.editFacets fun _ => .ok .empty)
  | .setData v => r.attempt (r.editData (Payload.buildData v))
  | .addAction action => r.attempt (r.editActions (· ++ [action]))
  | .resetActions => r.attempt (r.editActions fun _ => [])

/-- The request after edits, refused ones included. -/
def applyAll (r : Request) (edits : List Edit) : Request :=
  edits.foldl (fun r edit => (r.apply edit).2) r

end Request

end Fonds
