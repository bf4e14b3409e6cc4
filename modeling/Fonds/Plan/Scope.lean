import Fonds.Plan.Fields
import Fonds.Query.Basic
import Fonds.Store.Predicate

/-!
Scopes: which units a step may match at all, by where they lie in the graph. The first step is seen
from the roots of the request, or from the top of the graph where there are none; every other step
is seen from the units that the step before it matched.
-/
namespace Fonds

open Store

namespace Configuration

/-- The strict descendants of a set of units. -/
def descendants (c : Configuration) (anchor : IdSet) : Predicate :=
  .inIds c.graph.ancestors anchor

/-- The units of a set. -/
def own (c : Configuration) (anchor : IdSet) : Predicate := .inIds c.graph.id anchor

/-- The units that can lie at a depth: it is neither less than their least nor more than their
greatest depth. -/
def depthRange (c : Configuration) (level : Nat) : Predicate :=
  .all [.test c.graph.minDepth (.compare .lte (.ofNat level)),
    .test c.graph.maxDepth (.compare .gte (.ofNat level))]

/-- The units so many levels below a set: the set itself for none, its children for one, and all
descendants up to that level for more. Above a set lie its ancestors up to that level, and the set
itself is among them. -/
def relativeScope (c : Configuration) (anchor : IdSet) (levels : Int) : Predicate :=
  if levels = 0 then c.own anchor
  else if levels = 1 then .inIds c.graph.parents anchor
  else if levels < 0 then
    .disj [c.own anchor, .inIds c.graph.id (.ancestors anchor levels.natAbs)]
  else
    .disj ((List.range levels.natAbs).map fun k => .inIds (c.ancestorsAt (k + 1)) anchor)

/-- The units that a qualifier places relative to a set. Without one they are the descendants. -/
def stepScope (c : Configuration) (anchor : IdSet) : Option Depth → Predicate
  | none => c.descendants anchor
  | some (.relative levels _) => c.relativeScope anchor levels
  | some (.exact level _) => .conj [c.depthRange level, c.descendants anchor]

/-- The scope of a first step without roots. The units at the top count as one level below it. -/
def topScope (c : Configuration) : Option Depth → Predicate
  | none => .always
  | some (.exact level _) => c.depthRange level
  | some (.relative levels _) =>
    .test c.graph.minDepth (.compare .lte (.ofInt (max (levels - 1) 0)))

/-- The scope of a first step from roots. The roots themselves belong to it. -/
def anchoredScope (c : Configuration) (anchor : IdSet) : Query → Predicate
  | .path _ => .disj [c.own anchor, c.descendants anchor]
  | .condition condition =>
    match condition.qualifier with
    | some (.exact level _) =>
      .conj [c.depthRange level, .disj [c.own anchor, c.descendants anchor]]
    | some (.relative levels h) =>
      if levels ≤ 0 then c.relativeScope anchor levels
      else .disj [c.own anchor, c.stepScope anchor (some (.relative levels h))]
    | none => .disj [c.own anchor, c.stepScope anchor none]

/-- The scope of the first step, or the units of the roots where there is no step. -/
def rootScope (c : Configuration) (roots : List String) (first : Option Query) : Predicate :=
  match roots, first with
  | [], none => .always
  | [], some (.path _) => .always
  | [], some (.condition condition) => c.topScope condition.qualifier
  | roots, none => c.own (.literal roots)
  | roots, some q => c.anchoredScope (.literal roots) q

/-- The unit that a path ends at, provided that the units before it lie above it at their
distances. -/
def pathPredicate (c : Configuration) (ids : List String) : Predicate :=
  match ids.reverse with
  | [] => .conj []
  | last :: above =>
    .conj (c.own (.literal [last]) ::
      (above.zipIdx 1).map fun (id, levels) => .inIds (c.ancestorsAt levels) (.literal [id]))

end Configuration

/-- The depth reached by a step: a path is as deep as it is long, an exact depth is taken as it is,
and otherwise the levels add up, a step without a qualifier counting as one. -/
def Query.nextDepth (last : Int) (q : Query) : Int :=
  match q with
  | .path ids => ids.toList.length
  | .condition c =>
    match c.qualifier with
    | some (.exact level _) => level
    | some (.relative levels _) => last + levels
    | none => last + 1

/-- The depths that steps reach one after the other, starting from a depth. -/
def Query.depths (last : Int) : List Query → List Int
  | [] => []
  | q :: rest => q.nextDepth last :: depths (q.nextDepth last) rest

end Fonds
