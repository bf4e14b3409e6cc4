import Fonds.Plan.OfRequest
import Fonds.Proofs.Query.Depth
import Fonds.Proofs.Query.Tests

/-!
The course that compiling takes: the events, tests and facets that it comes to, in order. It ends at
the first that asks for what the store cannot do, so what was reported by then and the reason that
is given both follow from the course.
-/
namespace Fonds

open Store

variable {ε α β : Type} {c : Configuration}

/-- How a computation fails, if it does. -/
def Reported.failure? (x : Reported ε α) : Option ε :=
  match x.outcome with
  | .ok _ => none
  | .error e => some e

theorem Reported.failure?_eq_some_iff {x : Reported ε α} {e : ε} :
    x.failure? = some e ↔ x.outcome = .error e := by
  rw [failure?]
  cases x.outcome <;> simp

theorem Reported.ofExcept_ok_bind {a : α} {f : α → Reported ε β} :
    (ofExcept (.ok a) >>= f) = f a := rfl

/-- Something that a request asks for and that the store may be unable to do. -/
inductive Demand where
  | test (field : Name)
  /-- A facet is counted over a field of the sub-documents at a path. -/
  | nested (facet : NonBlank) (field path : Name)

/-- Why a demand cannot be met, if it cannot. -/
def Demand.refusal? : Demand → Option PlanError
  | .test field => if field.text = "#all" then some .testOfAllFields else none
  | .nested facet field path =>
    if Within field.text path.text then none
    else some (.fieldOutsideNested facet.text field.text path.text)

/-- The first of some demands that cannot be met gives the reason. -/
def Demand.firstRefusal? (demands : List Demand) : Option PlanError :=
  demands.findSome? refusal?

/-- The warning that the store has no index for a test. -/
def Check.indexWarnings (field : Name) : Check → List Event
  | .absent => [.unindexed .absent field]
  | .isNull => [.unindexed .isNull field]
  | .size _ _ => [.unindexed .size field]
  | _ => []

/-- The warning that a test has to look at every document. -/
def Check.scanWarnings (c : Configuration) (field : Name) : Check → List Event
  | .regex _ _ => if c.mapped field = c.graph.id then [.identifierScan c.graph.id] else []
  | _ => []

/-- What a course is made of. -/
inductive Mark where
  | event (event : Event)
  | test (field : Name) (check : Check)
  | nested (facet : NonBlank) (field path : Name)

namespace Mark

def demand? : Mark → Option Demand
  | .event _ => none
  | .test field _ => some (.test field)
  | .nested facet field path => some (.nested facet field path)

def refusal? (m : Mark) : Option PlanError := m.demand?.bind Demand.refusal?

theorem refusal?_test (field : Name) (check : Check) : (test field check).refusal? =
    if field.text = "#all" then some .testOfAllFields else none := rfl

theorem refusal?_nested (facet : NonBlank) (field path : Name) :
    (nested facet field path).refusal? = if Within field.text path.text then none
      else some (.fieldOutsideNested facet.text field.text path.text) := rfl

/-- What is reported at a mark that is passed. -/
def events (c : Configuration) : Mark → List Event
  | .event e => [e]
  | .test field check => check.indexWarnings field ++ check.scanWarnings c field
  | .nested _ _ _ => []

/-- What is reported at a mark that is not passed. A missing index is found out before the field
of the test is looked up. -/
def eventsRefused : Mark → List Event
  | .event _ | .nested _ _ _ => []
  | .test field check => check.indexWarnings field

theorem eventsRefused_prefix_events (m : Mark) : m.eventsRefused <+: m.events c := by
  cases m with
  | test field check => exact List.prefix_append _ _
  | _ => exact List.nil_prefix

/-- The first mark that is not passed gives the reason. -/
def firstRefusal? (course : List Mark) : Option PlanError := course.findSome? refusal?

theorem firstRefusal?_cons (m : Mark) (course : List Mark) :
    firstRefusal? (m :: course) = m.refusal?.or (firstRefusal? course) := by
  rw [firstRefusal?, List.findSome?_cons, firstRefusal?]
  cases m.refusal? <;> rfl

/-- The events up to the first mark that is not passed. -/
def reached (c : Configuration) : List Mark → List Event
  | [] => []
  | m :: rest =>
    match m.refusal? with
    | none => m.events c ++ reached c rest
    | some _ => m.eventsRefused

variable {xs ys : List Mark}

theorem firstRefusal?_append :
    firstRefusal? (xs ++ ys) = (firstRefusal? xs).or (firstRefusal? ys) :=
  List.findSome?_append

/-- A course that can be gone to its end goes on with the next. -/
theorem reached_append : reached c (xs ++ ys) =
    reached c xs ++ if firstRefusal? xs = none then reached c ys else [] := by
  induction xs with
  | nil => rfl
  | cons m xs ih =>
    rw [List.cons_append, reached, reached, firstRefusal?_cons]
    cases m.refusal? with
    | none => rw [ih, Option.none_or, List.append_assoc]
    | some e => simp

/-- Nothing is reported but what is on the course, and in that order. -/
theorem reached_prefix_flatMap (xs : List Mark) : reached c xs <+: xs.flatMap (events c) := by
  induction xs with
  | nil => exact List.prefix_rfl
  | cons m xs ih =>
    rw [reached, List.flatMap_cons]
    cases m.refusal? with
    | none => exact (List.prefix_append_right_inj _).2 ih
    | some e => exact m.eventsRefused_prefix_events.trans (List.prefix_append _ _)

theorem reached_of_passed (h : ∀ m ∈ xs, m.refusal? = none) :
    reached c xs = xs.flatMap (events c) := by
  induction xs with
  | nil => rfl
  | cons m xs ih =>
    obtain ⟨hm, hxs⟩ := List.forall_mem_cons.1 h
    rw [reached, hm, List.flatMap_cons, ih hxs]

theorem reached_of_refused {m : Mark} {e : PlanError} (h : ∀ m ∈ xs, m.refusal? = none)
    (hm : m.refusal? = some e) :
    reached c (xs ++ m :: ys) = xs.flatMap (events c) ++ m.eventsRefused := by
  have hpassed : firstRefusal? xs = none := List.findSome?_eq_none_iff.2 h
  rw [reached_append, if_pos hpassed, reached_of_passed h, reached, hm]

end Mark

namespace Reported

/-- A computation takes a course: it reports what is reached on it and fails where it ends. -/
structure Follows (c : Configuration) (x : Reported PlanError α) (course : List Mark) : Prop where
  events : x.events = Mark.reached c course
  failure : x.failure? = Mark.firstRefusal? course

namespace Follows

variable {x : Reported PlanError α} {f : α → Reported PlanError β} {xs ys : List Mark}

theorem pure (a : α) : Follows c (Pure.pure a : Reported PlanError α) [] := ⟨rfl, rfl⟩

/-- What comes after a computation may depend on its result, but not the course of it. -/
theorem bind (hx : Follows c x xs) (hf : ∀ a, Follows c (f a) ys) :
    Follows c (x >>= f) (xs ++ ys) := by
  obtain ⟨events, outcome⟩ := x
  cases outcome with
  | ok a =>
    have hpassed : Mark.firstRefusal? xs = none := hx.failure.symm
    constructor
    · rw [Mark.reached_append, if_pos hpassed, ← hx.events, ← (hf a).events]
      rfl
    · rw [Mark.firstRefusal?_append, hpassed, Option.none_or, ← (hf a).failure]
      rfl
  | error e =>
    have hrefused : Mark.firstRefusal? xs = some e := hx.failure.symm
    constructor
    · rw [Mark.reached_append, if_neg (by simp [hrefused]), List.append_nil, ← hx.events]
      rfl
    · rw [Mark.firstRefusal?_append, hrefused, Option.some_or]
      rfl

/-- What is made of a result is not on the course. -/
theorem bind_pure {g : α → β} (hx : Follows c x xs) :
    Follows c (x >>= fun a => Pure.pure (g a)) xs := by
  have h := hx.bind fun a => Follows.pure (c := c) (g a)
  rwa [List.append_nil] at h

theorem report_bind {event : Event} {f : Unit → Reported PlanError β} (hf : Follows c (f ()) ys) :
    Follows c (Reported.report event >>= f) (.event event :: ys) :=
  (⟨rfl, rfl⟩ : Follows c (Reported.report event) [.event event]).bind fun _ => hf

end Follows

end Reported

/-- The course of a query: its tests, from left to right. -/
def Query.course (q : Query) : List Mark := q.tests.map fun t => .test t.1 t.2

/-- The course of a facet. One over queries takes the course of each. -/
def Facet.course (f : Facet) : List Mark :=
  match f.body with
  | .terms source _ _ _ | .dateRange source _ _ =>
    (source.nested.map (Mark.nested f.name source.field)).toList
  | .filters queries _ => queries.values.flatMap Query.course

namespace Request

/-- What is reported of a request before anything in it is compiled. -/
def opening (r : Request) : Event :=
  .compiling
    (match r.payload with
      | .select _ _ => .select
      | .insert _ => .insert
      | .update _ => .update
      | .delete => .delete)
    r.core.steps.queries.length

theorem opening_eq (r : Request) : r.opening = .compiling r.kind r.core.steps.size := by
  obtain ⟨core, payload⟩ := r
  cases payload <;> rfl

/-- What is reported of one of some steps, once it is compiled. -/
def stepEvent (queries : List Query) (rank : Nat) (q : Query) : Event :=
  .stepCompiled rank q.heading.1 q.heading.2 (Query.depthAfter (queries.take (rank + 1)))

/-- The course of the steps that are left after others. -/
def stepsCourse (before queries : List Query) : List Mark :=
  (queries.zipIdx before.length).flatMap fun (q, rank) =>
    q.course ++ [.event (stepEvent (before ++ queries) rank q)]

theorem stepsCourse_cons (before : List Query) (q : Query) (rest : List Query) :
    stepsCourse before (q :: rest) = q.course ++
      .event (.stepCompiled before.length q.operator q.depth
        (q.nextDepth (Query.depthAfter before))) :: stepsCourse (before ++ [q]) rest := by
  have htake : (before ++ q :: rest).take (before.length + 1) = before ++ [q] :=
    List.take_length_add_append 1
  simp [stepsCourse, stepEvent, htake, q.heading_eq, Query.depthAfter_concat]

/-- The course of a request: its start, its steps, and its facets. -/
def course (r : Request) : List Mark :=
  .event r.opening :: (stepsCourse [] r.core.steps.queries ++ r.facets.flatMap Facet.course)

end Request

namespace Condition

theorem follows_compileTest (field : Name) (check : Check) :
    Reported.Follows c (compileTest c field check) [.test field check] := by
  constructor
  · rw [Mark.reached, Mark.refusal?_test, compileTest, Configuration.testedField,
      Configuration.field_eq_mapped, Keyword.allFields]
    by_cases hall : field.text = "#all"
    · simp only [hall, if_true]
      cases check <;> rfl
    · simp only [hall, if_false, Reported.ofExcept_ok_bind]
      cases check with
      | regex pattern nonempty =>
        rw [Mark.events, Check.scanWarnings]
        by_cases hscan : c.mapped field = c.graph.id
        · simp only [hscan, if_true, Check.isRegex, and_self]
          rfl
        · simp only [hscan, if_false, and_false]
          rfl
      | _ => rfl
  · rw [Reported.failure?, compileTest_outcome, Mark.firstRefusal?_cons, Mark.refusal?_test,
      Keyword.allFields]
    by_cases hall : field.text = "#all"
    · simp only [hall, if_true, Option.some_or]
    · simp only [hall, if_false]
      rfl

mutual

theorem follows_compile (c : Configuration) : ∀ q : Condition,
    Reported.Follows c (q.compile c) (q.tests.map fun t => .test t.1 t.2)
  | .test field check _ => follows_compileTest field check
  | .group _ first rest _ => by
    rw [compile, tests, List.map_append]
    exact .bind (follows_compile c first) fun _ => .bind_pure (follows_compileAll c rest)

theorem follows_compileAll (c : Configuration) : ∀ qs : List Condition,
    Reported.Follows c (compileAll c qs) ((allTests qs).map fun t => .test t.1 t.2)
  | [] => .pure []
  | q :: qs => by
    rw [compileAll, allTests, List.map_append]
    exact .bind (follows_compile c q) fun _ => .bind_pure (follows_compileAll c qs)

end

end Condition

theorem Query.follows_compile (c : Configuration) (q : Query) :
    Reported.Follows c (q.compile c) q.course := by
  cases q with
  | path ids => exact .pure _
  | condition q => exact q.follows_compile c

namespace Facet

theorem follows_aggregate {name : NonBlank} {source : FacetField} {a : Aggregation} :
    Reported.Follows c (.ofExcept (source.aggregate c name a))
      (source.nested.map (Mark.nested name source.field)).toList := by
  rw [FacetField.aggregate]
  cases source.nested with
  | none => exact .pure a
  | some path =>
    constructor
    · rw [Option.map_some, Option.toList_some, Mark.reached]
      cases (Mark.nested name source.field path).refusal? <;> rfl
    · rw [Option.map_some, Option.toList_some, Mark.firstRefusal?_cons, Mark.refusal?_nested]
      by_cases hunder : Within source.field.text path.text
      · simp only [FacetField.isUnder_iff, hunder, if_true]
        rfl
      · simp only [FacetField.isUnder_iff, hunder, if_false]
        rfl

theorem follows_compileFilters (c : Configuration) (queries : List (NonBlank × Query)) :
    Reported.Follows c (compileFilters c queries)
      ((queries.map Prod.snd).flatMap Query.course) := by
  induction queries with
  | nil => exact .pure []
  | cons e rest ih =>
    rw [compileFilters, List.map_cons, List.flatMap_cons]
    exact .bind (e.2.follows_compile c) fun _ => .bind_pure ih

theorem follows_compileBody (c : Configuration) (f : Facet) :
    Reported.Follows c (compileBody c f.name f.body) f.course := by
  obtain ⟨name, body⟩ := f
  cases body with
  | terms source size positive order => exact follows_aggregate
  | dateRange source format ranges => exact follows_aggregate
  | filters queries nonempty => exact .bind_pure (follows_compileFilters c queries.entries)

theorem follows_compileAll (c : Configuration) (facets : List Facet) :
    Reported.Follows c (compileAll c facets) (facets.flatMap course) := by
  induction facets with
  | nil => exact .pure []
  | cons f rest ih =>
    rw [compileAll, List.flatMap_cons]
    exact .bind (follows_compileBody c f) fun _ => .bind_pure ih

end Facet

namespace Request

/-- The depth that is carried along is the one that the steps so far lead to. -/
theorem follows_compileSteps (c : Configuration) (roots : Predicate) (before queries : List Query) :
    Reported.Follows c (compileSteps c roots before.length (Query.depthAfter before) queries)
      (stepsCourse before queries) := by
  induction queries generalizing before with
  | nil => exact .pure _
  | cons q rest ih =>
    have hrest := ih (before ++ [q])
    rw [List.length_append, List.length_singleton, Query.depthAfter_concat] at hrest
    rw [compileSteps, stepsCourse_cons]
    exact .bind (q.follows_compile c) fun _ => .report_bind (.bind_pure hrest)

theorem follows_compilePayload (c : Configuration) (r : Request) :
    Reported.Follows c (compilePayload c r.core.filter r.payload)
      (r.facets.flatMap Facet.course) := by
  rw [facets]
  cases r.payload with
  | select projection facets => exact .bind_pure (Facet.follows_compileAll c facets.list)
  | _ => exact .pure _

/-- Compiling a request takes its course. -/
theorem follows_compile (c : Configuration) (r : Request) :
    Reported.Follows c (r.compile c) r.course := by
  have hcore : Reported.Follows c (r.compileCore c) (stepsCourse [] r.core.steps.queries) :=
    .bind_pure (follows_compileSteps c _ [] _)
  rw [course, opening_eq]
  exact .report_bind (.bind hcore fun _ => .bind_pure (follows_compilePayload c r))

end Request

end Fonds
