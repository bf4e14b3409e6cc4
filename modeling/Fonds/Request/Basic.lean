import Fonds.Action.Basic
import Fonds.Facet.Basic
import Fonds.Filter.Basic
import Fonds.Projection.Basic

/-!
Requests: the roots to start from, the steps to take from there and the filter, which all kinds
share, and what a kind needs beyond them.
-/
namespace Fonds

/-- The steps of a request. Only the first can be a path. -/
structure Steps where
  queries : List Query
  path_first : ∀ q ∈ queries.tail, q.isPath = false

/-- The facets of a select, no two of one name. -/
structure Facets where
  list : List Facet
  names_nodup : (list.map Facet.name).Nodup

/-- What every request has. -/
structure Core where
  roots : OrderedSet NonBlank
  steps : Steps
  filter : Filter

/-- What a request of each kind has beyond its core. -/
inductive Payload where
  | select (projection : Projection) (facets : Facets)
  /-- The document to insert, passed on as it is. -/
  | insert (data : List (String × Json))
  | update (actions : List Action)
  | delete

structure Request where
  core : Core
  payload : Payload

namespace Steps

def empty : Steps := ⟨[], by simp⟩

def size (s : Steps) : Nat := s.queries.length

def isFullText (s : Steps) : Bool := s.queries.any Query.isFullText

/-- A path at any place but the first is refused. -/
def pathNotFirst : RequestError := .invalid Operator.path.token .pathNotFirst

def add (s : Steps) (q : Query) : Built Steps :=
  if h : s.queries ≠ [] ∧ q.isPath then .error pathNotFirst
  else .ok ⟨s.queries ++ [q], by
    intro p hp
    cases hs : s.queries with
    | nil => simp [hs] at hp
    | cons first rest =>
      have hq : q.isPath = false := by simpa [hs] using h
      simp only [hs, List.cons_append, List.tail_cons, List.mem_append, List.mem_singleton] at hp
      rcases hp with hp | hp
      · exact s.path_first p (by simpa [hs] using hp)
      · exact hp ▸ hq⟩

/-- Replaces the step at an index. That a path may not stand there is found out first. -/
def set (s : Steps) (index : Nat) (q : Query) : Built Steps :=
  if h : 0 < index ∧ q.isPath then .error pathNotFirst
  else if index < s.size then
    .ok ⟨s.queries.set index q, by
      intro p hp
      cases hs : s.queries with
      | nil => simp [hs] at hp
      | cons first rest =>
        cases index with
        | zero => exact s.path_first p (by simpa [hs] using hp)
        | succ i =>
          have hq : q.isPath = false := by simpa using h
          simp only [hs, List.set_cons_succ, List.tail_cons] at hp
          rcases List.mem_or_eq_of_mem_set hp with hp | hp
          · exact s.path_first p (by simpa [hs] using hp)
          · exact hp ▸ hq⟩
  else .error (.invalid Section.query.token (.noSuchStep index s.size))

end Steps

namespace Facets

def empty : Facets := ⟨[], by simp⟩

def add (fs : Facets) (f : Facet) : Built Facets :=
  if h : f.name ∈ fs.list.map Facet.name then
    .error (.invalid Section.facets.token (.repeatedFacet f.name.text))
  else .ok ⟨fs.list ++ [f], by
    rw [List.map_append, List.nodup_append]
    refine ⟨fs.names_nodup, by simp, ?_⟩
    intro a ha b hb
    simp only [List.map_cons, List.map_nil, List.mem_singleton] at hb
    subst hb
    exact fun he => h (he ▸ ha)⟩

end Facets

namespace Core

def empty : Core := ⟨.empty, .empty, {}⟩

/-- Adds a root. One that is there already keeps its place. -/
def addRoot (roots : OrderedSet NonBlank) (id : String) : Built (OrderedSet NonBlank) := do
  let id ← NonBlank.build Section.roots.token .emptyRoot id
  .ok (roots.insert id)

end Core

namespace Payload

def kind : Payload → Kind
  | .select _ _ => .select
  | .insert _ => .insert
  | .update _ => .update
  | .delete => .delete

def empty : Kind → Payload
  | .select => .select {} .empty
  | .insert => .insert []
  | .update => .update []
  | .delete => .delete

/-- The document to insert has to be an object. -/
def buildData (v : Json) : Built (List (String × Json)) :=
  match v with
  | .object entries => .ok entries
  | _ => .error (.invalid Section.data.token (.notA .object v))

end Payload

namespace Request

/-- A request that asks for nothing yet. -/
def empty (kind : Kind) : Request := ⟨.empty, .empty kind⟩

def kind (r : Request) : Kind := r.payload.kind

/-- The projection of a select. Other requests project nothing. -/
def projection (r : Request) : Projection :=
  match r.payload with
  | .select projection _ => projection
  | _ => {}

def facets (r : Request) : List Facet :=
  match r.payload with
  | .select _ facets => facets.list
  | _ => []

/-- Whether a step or the query of a facet needs the full-text index. -/
def isFullText (r : Request) : Bool := r.core.steps.isFullText || r.facets.any Facet.isFullText

/-- An insert needs a document and an update needs an action. -/
def checkComplete (r : Request) : Built Unit :=
  match r.payload with
  | .insert [] => .error (.invalid Section.data.token .nothingToInsert)
  | .update [] => .error (.invalid Section.action.token .noActions)
  | _ => .ok ()

end Request

end Fonds
