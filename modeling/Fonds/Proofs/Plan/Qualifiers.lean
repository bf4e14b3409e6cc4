import Fonds.Proofs.Plan.Steps
import Mathlib.Data.List.Nodup

/-!
The qualifiers that count. Only the outermost condition of a step is placed in the graph, so a
request comes to the same plan without the qualifiers further in and those of its facets.
-/
namespace Fonds

variable {c : Configuration}

namespace Condition

mutual

/-- The condition without a qualifier at any level. -/
def unqualified : Condition → Condition
  | .test field check _ => .test field check none
  | .group junction first rest _ => .group junction first.unqualified (allUnqualified rest) none

def allUnqualified : List Condition → List Condition
  | [] => []
  | q :: qs => q.unqualified :: allUnqualified qs

end

/-- The condition with its own qualifier and none further in. -/
def outermost : Condition → Condition
  | .test field check qualifier => .test field check qualifier
  | .group junction first rest qualifier =>
    .group junction first.unqualified (allUnqualified rest) qualifier

mutual

theorem compile_unqualified (c : Configuration) :
    ∀ q : Condition, q.unqualified.compile c = q.compile c
  | .test field check qualifier => by
    rw [unqualified, compile, compile]
  | .group junction first rest qualifier => by
    rw [unqualified, compile, compile, compile_unqualified c first,
      compileAll_allUnqualified c rest]

theorem compileAll_allUnqualified (c : Configuration) :
    ∀ qs : List Condition, compileAll c (allUnqualified qs) = compileAll c qs
  | [] => rfl
  | q :: qs => by
    rw [allUnqualified, compileAll, compileAll, compile_unqualified c q,
      compileAll_allUnqualified c qs]

end

mutual

theorem isFullText_unqualified : ∀ q : Condition, q.unqualified.isFullText = q.isFullText
  | .test field check qualifier => by
    rw [unqualified, isFullText, isFullText]
  | .group junction first rest qualifier => by
    rw [unqualified, isFullText, isFullText, isFullText_unqualified first,
      anyFullText_allUnqualified rest]

theorem anyFullText_allUnqualified :
    ∀ qs : List Condition, anyFullText (allUnqualified qs) = anyFullText qs
  | [] => rfl
  | q :: qs => by
    rw [allUnqualified, anyFullText, anyFullText, isFullText_unqualified q,
      anyFullText_allUnqualified qs]

end

@[simp] theorem operator_outermost (q : Condition) : q.outermost.operator = q.operator := by
  cases q <;> rfl

@[simp] theorem qualifier_outermost (q : Condition) : q.outermost.qualifier = q.qualifier := by
  cases q <;> rfl

theorem compile_outermost (q : Condition) : q.outermost.compile c = q.compile c := by
  cases q with
  | test field check qualifier => rfl
  | group junction first rest qualifier =>
    rw [outermost, compile, compile, compile_unqualified, compileAll_allUnqualified]

theorem isFullText_outermost (q : Condition) : q.outermost.isFullText = q.isFullText := by
  cases q with
  | test field check qualifier => rfl
  | group junction first rest qualifier =>
    rw [outermost, isFullText, isFullText, isFullText_unqualified, anyFullText_allUnqualified]

end Condition

namespace Query

/-- The query without a qualifier at any level. -/
def unqualified : Query → Query
  | .path ids => .path ids
  | .condition q => .condition q.unqualified

/-- The query with its own qualifier and none further in. -/
def outermost : Query → Query
  | .path ids => .path ids
  | .condition q => .condition q.outermost

theorem compile_unqualified (q : Query) : q.unqualified.compile c = q.compile c := by
  cases q with
  | path ids => rfl
  | condition q => exact q.compile_unqualified c

theorem isFullText_unqualified (q : Query) : q.unqualified.isFullText = q.isFullText := by
  cases q with
  | path ids => rfl
  | condition q => exact q.isFullText_unqualified

@[simp] theorem isPath_outermost (q : Query) : q.outermost.isPath = q.isPath := by
  cases q <;> rfl

@[simp] theorem operator_outermost (q : Query) : q.outermost.operator = q.operator := by
  cases q with
  | path ids => rfl
  | condition q => exact q.operator_outermost

@[simp] theorem depth_outermost (q : Query) : q.outermost.depth = q.depth := by
  cases q with
  | path ids => rfl
  | condition q => exact q.qualifier_outermost

theorem compile_outermost (q : Query) : q.outermost.compile c = q.compile c := by
  cases q with
  | path ids => rfl
  | condition q => exact q.compile_outermost

theorem isFullText_outermost (q : Query) : q.outermost.isFullText = q.isFullText := by
  cases q with
  | path ids => rfl
  | condition q => exact q.isFullText_outermost

theorem nextDepth_outermost (last : Int) (q : Query) :
    q.outermost.nextDepth last = q.nextDepth last := by
  cases q with
  | path ids => rfl
  | condition q => simp only [outermost, nextDepth, Condition.qualifier_outermost]

theorem anchoredScope_outermost (anchor : Store.IdSet) (q : Query) :
    c.anchoredScope anchor q.outermost = c.anchoredScope anchor q := by
  cases q with
  | path ids => rfl
  | condition q =>
    simp only [outermost, Configuration.anchoredScope, Condition.qualifier_outermost]

theorem rootScope_outermost (roots : List String) (first : Option Query) :
    c.rootScope roots (first.map outermost) = c.rootScope roots first := by
  cases first with
  | none => rfl
  | some q =>
    cases roots with
    | cons id ids => exact q.anchoredScope_outermost _
    | nil =>
      cases q with
      | path ids => rfl
      | condition q =>
        simp only [Option.map_some, outermost, Configuration.rootScope,
          Condition.qualifier_outermost]

end Query

/-- The map with something else under each key. -/
def OrderedMap.mapValues {κ α β : Type} (m : OrderedMap κ α) (f : α → β) : OrderedMap κ β where
  entries := m.entries.map fun e => (e.1, f e.2)
  nodup := by simpa [Entries.keys, Function.comp_def] using m.nodup

namespace Facet

/-- The facet without a qualifier in its queries. -/
def unqualified (f : Facet) : Facet where
  name := f.name
  body :=
    match f.body with
    | .terms source size positive order => .terms source size positive order
    | .dateRange source format ranges => .dateRange source format ranges
    | .filters queries nonempty =>
      .filters (queries.mapValues Query.unqualified) (by
        intro h
        exact nonempty (List.map_eq_nil_iff.1 h))

theorem compileFilters_unqualified (queries : List (NonBlank × Query)) :
    compileFilters c (queries.map fun e => (e.1, e.2.unqualified)) = compileFilters c queries := by
  induction queries with
  | nil => rfl
  | cons e rest ih =>
    rw [List.map_cons, compileFilters, compileFilters, ih, e.2.compile_unqualified]

theorem compileBody_unqualified (f : Facet) :
    compileBody c f.name f.unqualified.body = compileBody c f.name f.body := by
  obtain ⟨name, body⟩ := f
  cases body with
  | filters queries nonempty =>
    have hqueries := compileFilters_unqualified (c := c) queries.entries
    simp only [unqualified, compileBody, OrderedMap.mapValues, hqueries]
  | _ => rfl

theorem isFullText_unqualified (f : Facet) : f.unqualified.isFullText = f.isFullText := by
  obtain ⟨name, body⟩ := f
  cases body with
  | filters queries nonempty =>
    simp [unqualified, isFullText, FacetBody.isFullText, OrderedMap.values, OrderedMap.mapValues,
      Function.comp_def, Query.isFullText_unqualified]
  | _ => rfl

theorem compileAll_unqualified (facets : List Facet) :
    compileAll c (facets.map unqualified) = compileAll c facets := by
  induction facets with
  | nil => rfl
  | cons f rest ih =>
    have hbody : compileBody c f.unqualified.name f.unqualified.body =
        compileBody c f.name f.body := f.compileBody_unqualified
    have hname : f.unqualified.name = f.name := rfl
    rw [List.map_cons, compileAll, compileAll, hbody, ih, hname]

end Facet

def Steps.outermost (s : Steps) : Steps where
  queries := s.queries.map Query.outermost
  path_first := by
    intro q hq
    rw [← List.map_tail] at hq
    obtain ⟨p, hp, rfl⟩ := List.mem_map.1 hq
    rw [Query.isPath_outermost, s.path_first p hp]

def Facets.unqualified (fs : Facets) : Facets where
  list := fs.list.map Facet.unqualified
  names_nodup := by
    rw [List.map_map]
    exact fs.names_nodup

def Payload.unqualified : Payload → Payload
  | .select projection facets => .select projection facets.unqualified
  | payload => payload

namespace Request

/-- The request with the qualifiers of its steps, each on the outermost condition, and no others. -/
def outermost (r : Request) : Request where
  core := { r.core with steps := r.core.steps.outermost }
  payload := r.payload.unqualified

theorem compileSteps_outermost (roots : Store.Predicate) (rank : Nat) (last : Int)
    (qs : List Query) :
    compileSteps c roots rank last (qs.map Query.outermost) =
      compileSteps c roots rank last qs := by
  induction qs generalizing rank last with
  | nil => rfl
  | cons q rest ih =>
    have hscope : scopeOf c roots q.outermost rank = scopeOf c roots q rank := by
      cases rank with
      | zero => rfl
      | succ rank => simp only [scopeOf, Query.depth_outermost]
    rw [List.map_cons, compileSteps, compileSteps, q.compile_outermost, q.nextDepth_outermost,
      q.operator_outermost, q.depth_outermost, hscope]
    simp only [ih]

theorem kind_outermost (r : Request) : r.outermost.kind = r.kind := by
  obtain ⟨core, payload⟩ := r
  cases payload <;> rfl

theorem facets_outermost (r : Request) : r.outermost.facets = r.facets.map Facet.unqualified := by
  obtain ⟨core, payload⟩ := r
  cases payload <;> rfl

theorem isFullText_outermost (r : Request) : r.outermost.isFullText = r.isFullText := by
  rw [isFullText, isFullText, facets_outermost]
  simp [outermost, Steps.isFullText, Steps.outermost, Function.comp_def,
    Query.isFullText_outermost, Facet.isFullText_unqualified]

theorem compileCore_outermost (r : Request) : r.outermost.compileCore c = r.compileCore c := by
  have hroots : c.rootScope (r.core.roots.elems.map NonBlank.text)
      (r.core.steps.queries.map Query.outermost).head? =
        c.rootScope (r.core.roots.elems.map NonBlank.text) r.core.steps.queries.head? := by
    rw [List.head?_map, Query.rootScope_outermost]
  rw [compileCore, compileCore, isFullText_outermost]
  simp only [outermost, Steps.outermost, hroots, compileSteps_outermost]

theorem compilePayload_unqualified (f : Filter) (payload : Payload) :
    compilePayload c f payload.unqualified = compilePayload c f payload := by
  cases payload with
  | select projection facets =>
    simp only [Payload.unqualified, compilePayload, Facets.unqualified,
      Facet.compileAll_unqualified]
  | _ => rfl

/-- No other qualifier has a say in the plan, nor in the events on the way to it. -/
theorem compile_outermost (r : Request) : r.outermost.compile c = r.compile c := by
  have hsize : r.outermost.core.steps.size = r.core.steps.size := List.length_map _
  have hpayload : compilePayload c r.outermost.core.filter r.outermost.payload =
      compilePayload c r.core.filter r.payload := compilePayload_unqualified _ _
  rw [compile, compile, kind_outermost, hsize, compileCore_outermost, hpayload]

/-- Two requests that differ in nothing but the qualifiers of nested conditions, and of conditions
in facets, come to the same plan or fail for the same reason, with the same events. -/
theorem plan_eq_of_outermost_eq (c : Configuration) {r s : Request}
    (h : r.outermost = s.outermost) : r.plan c = s.plan c ∧ r.compile c = s.compile c := by
  have hcompile : r.compile c = s.compile c := by
    rw [← compile_outermost r, h, compile_outermost s]
  exact ⟨by rw [plan, plan, hcompile], hcompile⟩

/-- Asks for what is signed up to three levels below the top, and counts it as well. Where the
signature is asked for, a level is named that means nothing there. -/
def signedBelow (meaningless : Option Depth) : Request where
  core := {
    roots := .empty
    steps := {
      queries := [.condition (.group .any (signed meaningless) [] (some (.relative 3 (by decide))))]
      path_first := fun _ h => absurd h List.not_mem_nil }
    filter := {} }
  payload := .select {} ⟨[signatures], List.nodup_singleton _⟩
where
  signed (qualifier : Option Depth) : Condition :=
    .test ⟨"Signature", rfl, by decide⟩ .present qualifier
  signatures : Facet :=
    ⟨⟨"signatures", by decide⟩, .filters
      ⟨[(⟨"signed", by decide⟩, .condition (signed meaningless))], List.nodup_singleton _⟩
      (List.cons_ne_nil _ _)⟩

/-- The level named where it means nothing leaves no trace in the plan. -/
theorem plan_eq_signedBelow :
    (signedBelow (some (.exact 7 (by decide)))).outermost = (signedBelow none).outermost ∧
      (signedBelow (some (.exact 7 (by decide)))).plan .initial =
        (signedBelow none).plan .initial := by
  have hsame : (signedBelow (some (.exact 7 (by decide)))).outermost =
      (signedBelow none).outermost := rfl
  exact ⟨hsame, (plan_eq_of_outermost_eq .initial hsame).1⟩

end Request

end Fonds
