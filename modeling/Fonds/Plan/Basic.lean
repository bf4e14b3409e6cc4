import Fonds.Request.Kind
import Fonds.Store.Aggregation
import Fonds.Store.Results
import Fonds.Store.Update

/-!
Plans: what the store is asked to do for a request. Each step has a scope, which may refer to what
earlier steps matched, and a predicate of its own.
-/
namespace Fonds

open Store

structure PlanStep where
  scope : Predicate
  query : Predicate

/-- What every plan has. -/
structure PlanCore where
  /-- The scope of the first step, or the units of the roots where there is no step. -/
  roots : Predicate
  steps : List PlanStep
  /-- How deep in the graph the last step ends. -/
  lastDepth : Int
  multiple : Bool
  fullText : Bool
  wantsCache : Bool
  wantsNoTimeout : Bool

structure SelectPlan where
  paging : Paging
  order : List SortKey
  projection : List (String × FieldReturn)
  /-- Whether whole documents are returned. -/
  allProjection : Bool
  usage : Option String
  aggregations : List (String × Aggregation)

/-- What a plan of each kind has beyond its core. -/
inductive PlanPayload where
  | select (select : SelectPlan)
  | insert (data : List (String × Json))
  | update (paging : Paging) (update : Update)
  | delete (paging : Paging)

structure Plan where
  core : PlanCore
  payload : PlanPayload

/-- A step was asked for that the plan does not have. -/
structure NoSuchStep where
  index : Nat
  steps : Nat
  deriving DecidableEq

namespace NoSuchStep

def message (e : NoSuchStep) : String :=
  s!"step {e.index} requested but the request has {e.steps} steps"

end NoSuchStep

/-- The documents in a scope that satisfy a predicate. -/
def Store.Predicate.within (query scope : Predicate) : Predicate := .conj [scope, query]

namespace PlanStep

/-- The whole predicate of a step. -/
def request (s : PlanStep) : Predicate := s.query.within s.scope

def toJson (s : PlanStep) : Json := .object [("$scope", s.scope.toJson), ("$query", s.query.toJson)]

end PlanStep

namespace PlanCore

def step (c : PlanCore) (index : Nat) : Except NoSuchStep PlanStep :=
  match c.steps[index]? with
  | some s => .ok s
  | none => .error ⟨index, c.steps.length⟩

/-- The hints that the store heeds. -/
def hints (c : PlanCore) : List String :=
  (if c.wantsCache then [Keyword.cache] else []) ++
    (if c.wantsNoTimeout then [Keyword.noTimeout] else [])

def entries (c : PlanCore) : List (String × Json) :=
  [("$roots", c.roots.toJson),
    ("$steps", .array (c.steps.map PlanStep.toJson)),
    ("$lastDepth", .ofInt c.lastDepth),
    ("$multiple", .bool c.multiple),
    ("$fullText", .bool c.fullText),
    ("$hints", .array (c.hints.map .string))]

end PlanCore

namespace PlanPayload

def kind : PlanPayload → Kind
  | .select _ => .select
  | .insert _ => .insert
  | .update _ _ => .update
  | .delete _ => .delete

/-- How results are paged. An insert has none. -/
def paging? : PlanPayload → Option Paging
  | .select s => some s.paging
  | .insert _ => none
  | .update paging _ => some paging
  | .delete paging => some paging

def entries : PlanPayload → List (String × Json)
  | .select s =>
    [("$paging", s.paging.toJson),
      ("$orderby", SortKey.allToJson s.order),
      ("$projection", FieldReturn.allToJson s.projection),
      ("$allProjection", .bool s.allProjection)] ++
    (s.usage.map fun usage => ("$usage", .string usage)).toList ++
    (if s.aggregations.isEmpty then []
      else [("$aggregations", Aggregation.allToJson s.aggregations)])
  | .insert data => [("$data", .object data)]
  | .update paging u => [("$paging", paging.toJson), ("$update", u.toJson)]
  | .delete paging => [("$paging", paging.toJson)]

end PlanPayload

namespace Plan

def kind (p : Plan) : Kind := p.payload.kind

def toJson (p : Plan) : Json :=
  .object (("$kind", .string p.kind.name) :: (p.core.entries ++ p.payload.entries))

end Plan

end Fonds
