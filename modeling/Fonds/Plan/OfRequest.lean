import Fonds.Plan.Aggregations
import Fonds.Plan.Basic
import Fonds.Plan.Results
import Fonds.Plan.Update
import Fonds.Request.Reader

/-!
The plan of a request. Steps are compiled in order and facets after them, so the first offence in
that order is the one that is reported.
-/
namespace Fonds.Request

/-- The scope of a step: that of the roots for the first, and what its qualifier says of the step
before it for any other. -/
def scopeOf (c : Configuration) (roots : Store.Predicate) (q : Query) : Nat → Store.Predicate
  | 0 => roots
  | rank + 1 => c.stepScope (.step rank) q.depth

/-- The steps from one rank on, and the depth that the last of them reaches. -/
def compileSteps (c : Configuration) (roots : Store.Predicate) (rank : Nat) (last : Int) :
    List Query → Reported PlanError (List PlanStep × Int)
  | [] => return ([], last)
  | q :: rest => do
    let predicate ← q.compile c
    let depth := q.nextDepth last
    Reported.report (.stepCompiled rank q.operator q.depth depth)
    let (steps, final) ← compileSteps c roots (rank + 1) depth rest
    return (⟨scopeOf c roots q rank, predicate⟩ :: steps, final)

def compileCore (c : Configuration) (r : Request) : Reported PlanError PlanCore := do
  let queries := r.core.steps.queries
  let roots := c.rootScope (r.core.roots.elems.map NonBlank.text) queries.head?
  let (steps, lastDepth) ← compileSteps c roots 0 0 queries
  return {
    roots, steps, lastDepth
    multiple := r.core.filter.isMultiple
    fullText := r.isFullText
    wantsCache := r.core.filter.wantsCache
    wantsNoTimeout := r.core.filter.wantsNoTimeout }

def compilePayload (c : Configuration) (f : Filter) : Payload → Reported PlanError PlanPayload
  | .select projection facets => do
    let aggregations ← Facet.compileAll c facets.list
    return .select {
      paging := f.paging c .select
      order := f.sortKeys c
      projection := projection.returns c
      allProjection := projection.isAll
      usage := projection.usage
      aggregations }
  | .insert data => return .insert data
  | .update actions => return .update (f.paging c .update) (Action.compileAll c actions)
  | .delete => return .delete (f.paging c .delete)

/-- Compiles a request, with the events on the way. -/
def compile (c : Configuration) (r : Request) : Reported PlanError Plan := do
  Reported.report (.compiling r.kind r.core.steps.size)
  let core ← r.compileCore c
  let payload ← compilePayload c r.core.filter r.payload
  return ⟨core, payload⟩

/-- The plan of a request. -/
def plan (c : Configuration) (r : Request) : Except PlanError Plan := (r.compile c).outcome

end Fonds.Request

namespace Fonds

/-- Why a document has no plan. -/
inductive Refusal where
  | request (error : RequestError)
  | plan (error : PlanError)

namespace Request

/-- Reads a request, reporting it once it is read. -/
def readReported (kind : Kind) (v : Json) : Reported RequestError Request := do
  let r ← Reported.ofExcept (read kind v)
  Reported.report (.requestRead r.kind r.core.steps.size)
  return r

/-- Reads and compiles a request, with the events of both. -/
def run (c : Configuration) (kind : Kind) (v : Json) : Reported Refusal Plan := do
  let r ← (readReported kind v).mapError Refusal.request
  (r.compile c).mapError Refusal.plan

end Request

end Fonds
