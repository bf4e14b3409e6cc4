import Fonds.Proofs.Outcome
import Fonds.Request.Edit

/-!
The parts of a request that have edits of their own, and which of them an edit touches. A request is
what its parts hold, and so are a filter and a projection.
-/
namespace Fonds

/-- A part of a filter that has edits of its own. -/
inductive FilterPart where
  | hints
  /-- The limit together with the offset. -/
  | paging
  | order
  | cursor
  | multiple
  deriving DecidableEq

/-- A part of a projection that has edits of its own. -/
inductive ProjectionPart where
  | fields
  | usage
  deriving DecidableEq

/-- A part of a request that has edits of its own. -/
inductive Part where
  | roots
  | steps
  | filter (part : FilterPart)
  | projection (part : ProjectionPart)
  | facets
  | data
  | actions
  deriving DecidableEq

namespace FilterPart

def all : List FilterPart := [.hints, .paging, .order, .cursor, .multiple]

theorem mem_all (part : FilterPart) : part ∈ all := by
  cases part <;> decide

theorem not_mem_map_all_iff {part : Part} :
    part ∉ all.map Part.filter ↔ ∀ p, part ≠ .filter p := by
  simp only [List.mem_map, mem_all, true_and, not_exists, ne_eq, eq_comm]

def Content : FilterPart → Type
  | .hints => OrderedSet Name
  | .paging => Option UInt64 × Option UInt64
  | .order => OrderedMap Name Direction
  | .cursor => Option Scroll
  | .multiple => Option Bool

end FilterPart

namespace ProjectionPart

def all : List ProjectionPart := [.fields, .usage]

theorem mem_all (part : ProjectionPart) : part ∈ all := by
  cases part <;> decide

theorem not_mem_map_all_iff {part : Part} :
    part ∉ all.map Part.projection ↔ ∀ p, part ≠ .projection p := by
  simp only [List.mem_map, mem_all, true_and, not_exists, ne_eq, eq_comm]

def Content : ProjectionPart → Type
  | .fields => OrderedMap Name FieldProjection
  | .usage => Option String

end ProjectionPart

/-- What a part holds. Of the parts that only some kinds of request have, the others have none. -/
def Part.Content : Part → Type
  | .roots => OrderedSet NonBlank
  | .steps => Steps
  | .filter part => part.Content
  | .projection part => Option part.Content
  | .facets => Option Facets
  | .data => Option (List (String × Json))
  | .actions => Option (List Action)

def Filter.content (f : Filter) : (part : FilterPart) → part.Content
  | .hints => f.hints
  | .paging => (f.offset, f.limit)
  | .order => f.orderBy
  | .cursor => f.scroll
  | .multiple => f.multiple

def Projection.content (p : Projection) : (part : ProjectionPart) → part.Content
  | .fields => p.fields
  | .usage => p.usage

namespace Payload

def projection? : Payload → Option Projection
  | .select projection _ => some projection
  | _ => none

def facets? : Payload → Option Facets
  | .select _ facets => some facets
  | _ => none

def data? : Payload → Option (List (String × Json))
  | .insert data => some data
  | _ => none

def actions? : Payload → Option (List Action)
  | .update actions => some actions
  | _ => none

end Payload

def Request.content (r : Request) : (part : Part) → part.Content
  | .roots => r.core.roots
  | .steps => r.core.steps
  | .filter part => r.core.filter.content part
  | .projection part => r.payload.projection?.map fun p => p.content part
  | .facets => r.payload.facets?
  | .data => r.payload.data?
  | .actions => r.payload.actions?

namespace Edit

/-- The parts that an edit touches. A filter or a projection is replaced with all its parts. -/
def parts : Edit → List Part
  | .addRoots _ | .resetRoots => [.roots]
  | .addQuery _ | .setQuery _ _ | .resetQueries => [.steps]
  | .setFilter _ | .readFilter _ | .resetFilter => FilterPart.all.map .filter
  | .addHint _ | .resetHints => [.filter .hints]
  | .setLimit _ | .resetLimit => [.filter .paging]
  | .setMultiple _ => [.filter .multiple]
  | .addOrderBy _ _ | .resetOrderBy => [.filter .order]
  | .setScroll _ _ => [.filter .cursor]
  | .setProjection _ => ProjectionPart.all.map .projection
  | .addProjection _ _ | .resetProjectionFields => [.projection .fields]
  | .setUsage _ | .resetUsage => [.projection .usage]
  | .addFacet _ | .resetFacets => [.facets]
  | .setData _ => [.data]
  | .addAction _ | .resetActions => [.actions]

/-- Whether the edit takes its parts back to what they were at first. -/
def isReset : Edit → Bool
  | .resetRoots | .resetQueries | .resetFilter | .resetHints | .resetLimit | .resetOrderBy
  | .resetProjectionFields | .resetUsage | .resetFacets | .resetActions => true
  | _ => false

end Edit

/-- A change that looks at one part and leaves all others as they are. -/
structure Confined {σ π : Type} {Content : π → Type} (content : σ → (part : π) → Content part)
    (part : π) (change : σ → Built σ) : Prop where
  leaves : ∀ s t, change s = .ok t → ∀ other, other ≠ part → content t other = content s other
  looks : ∀ s t, content s part = content t part →
    (fun u => content u part) <$> change s = (fun u => content u part) <$> change t

/-- A change is confined to a part if it only replaces what that part holds. -/
theorem Confined.of_replace {σ π : Type} {Content : π → Type}
    {content : σ → (part : π) → Content part} {replace : σ → (part : π) → Content part → σ}
    (hsame : ∀ s part c, content (replace s part c) part = c)
    (hother : ∀ s part c other, other ≠ part → content (replace s part c) other = content s other)
    {part : π} {change : σ → Built σ} (g : Content part → Built (Content part))
    (h : ∀ s, change s = replace s part <$> g (content s part)) : Confined content part change where
  leaves s t ht other hne := by
    rw [h] at ht
    obtain ⟨c, -, rfl⟩ := map_eq_ok.1 ht
    exact hother s part c other hne
  looks s t heq := by
    rw [h, h, heq]
    cases g (content t part) with
    | error e => rfl
    | ok c => simp only [map_ok, hsame]

namespace Filter

def replace (f : Filter) : (part : FilterPart) → part.Content → Filter
  | .hints, hints => { f with hints }
  | .paging, (offset, limit) => { f with offset, limit }
  | .order, orderBy => { f with orderBy }
  | .cursor, scroll => { f with scroll }
  | .multiple, multiple => { f with multiple }

variable {part : FilterPart}

theorem content_replace (f : Filter) (part : FilterPart) (c : part.Content) :
    (f.replace part c).content part = c := by
  cases part <;> rfl

theorem content_replace_of_ne (f : Filter) (part : FilterPart) (c : part.Content)
    (other : FilterPart) (hne : other ≠ part) :
    (f.replace part c).content other = f.content other := by
  cases part <;> cases other <;> first | rfl | exact absurd rfl hne

theorem confined_of_eq {change : Filter → Built Filter} (g : part.Content → Built part.Content)
    (h : ∀ f, change f = f.replace part <$> g (f.content part)) : Confined content part change :=
  .of_replace content_replace content_replace_of_ne g h

theorem confined_replace (part : FilterPart) (g : part.Content → part.Content) :
    Confined content part fun f => .ok (f.replace part (g (f.content part))) :=
  confined_of_eq (fun c => .ok (g c)) fun _ => rfl

theorem confined_addHint (hint : String) : Confined content .hints fun f => f.addHint hint := by
  refine confined_of_eq (fun hints => (Name.ofString? hint).elim
    (.error (.invalid FilterKeyword.hint.token .emptyHint))
    fun name => .ok (OrderedSet.insert hints name)) fun f => ?_
  rw [addHint]
  cases Name.ofString? hint <;> rfl

theorem confined_addOrderBy (field : String) (direction : Direction) :
    Confined content .order fun f => f.addOrderBy field direction := by
  refine confined_of_eq (fun order => (fun name => OrderedMap.insert order name direction) <$>
    Name.build FilterKeyword.orderBy.token field) fun f => ?_
  rw [addOrderBy]
  cases Name.build FilterKeyword.orderBy.token field <;> rfl

theorem confined_setScroll (id : String) (timeout : Option UInt64) :
    Confined content .cursor fun f => f.setScroll id timeout := by
  refine confined_of_eq (fun _ => (fun id => some ⟨id, timeout⟩) <$>
    NonBlank.build FilterKeyword.scrollId.token .emptyScrollId id) fun f => ?_
  rw [setScroll]
  cases NonBlank.build FilterKeyword.scrollId.token .emptyScrollId id <;> rfl

/-- A filter is what its parts are. -/
theorem ext_content {f g : Filter} (h : ∀ part, f.content part = g.content part) : f = g := by
  obtain ⟨offset, limit, orderBy, hints, scroll, multiple⟩ := f
  obtain ⟨rfl, rfl⟩ := Prod.mk.inj (h .paging)
  obtain rfl : orderBy = g.orderBy := h .order
  obtain rfl : hints = g.hints := h .hints
  obtain rfl : scroll = g.scroll := h .cursor
  obtain rfl : multiple = g.multiple := h .multiple
  rfl

end Filter

namespace Projection

def replace (p : Projection) : (part : ProjectionPart) → part.Content → Projection
  | .fields, fields => { p with fields }
  | .usage, usage => { p with usage }

variable {part : ProjectionPart}

theorem content_replace (p : Projection) (part : ProjectionPart) (c : part.Content) :
    (p.replace part c).content part = c := by
  cases part <;> rfl

theorem content_replace_of_ne (p : Projection) (part : ProjectionPart) (c : part.Content)
    (other : ProjectionPart) (hne : other ≠ part) :
    (p.replace part c).content other = p.content other := by
  cases part <;> cases other <;> first | rfl | exact absurd rfl hne

theorem confined_of_eq {change : Projection → Built Projection}
    (g : part.Content → Built part.Content)
    (h : ∀ p, change p = p.replace part <$> g (p.content part)) : Confined content part change :=
  .of_replace content_replace content_replace_of_ne g h

theorem confined_replace (part : ProjectionPart) (g : part.Content → part.Content) :
    Confined content part fun p => .ok (p.replace part (g (p.content part))) :=
  confined_of_eq (fun c => .ok (g c)) fun _ => rfl

theorem confined_addField (field : String) (projection : FieldProjection) :
    Confined content .fields fun p => p.addField field projection := by
  refine confined_of_eq (fun fields => (fun name => OrderedMap.insert fields name projection) <$>
    Name.build Keyword.fields field) fun p => ?_
  rw [addField]
  cases Name.build Keyword.fields field <;> rfl

/-- A projection is what its parts are. -/
theorem ext_content {p q : Projection} (h : ∀ part, p.content part = q.content part) : p = q := by
  obtain ⟨fields, usage⟩ := p
  obtain rfl : fields = q.fields := h .fields
  obtain rfl : usage = q.usage := h .usage
  rfl

end Projection

namespace Request

/-- A request is what its parts are. -/
theorem ext_content {r r' : Request} (h : ∀ part, r.content part = r'.content part) : r = r' := by
  obtain ⟨⟨roots, steps, filter⟩, payload⟩ := r
  obtain ⟨⟨roots', steps', filter'⟩, payload'⟩ := r'
  obtain rfl : roots = roots' := h .roots
  obtain rfl : steps = steps' := h .steps
  obtain rfl : filter = filter' := Filter.ext_content fun part => h (.filter part)
  have hprojection := fun part => h (.projection part)
  have hfacets : payload.facets? = payload'.facets? := h .facets
  have hdata : payload.data? = payload'.data? := h .data
  have hactions : payload.actions? = payload'.actions? := h .actions
  congr 1
  cases payload with
  | select projection facets =>
    cases payload' with
    | select projection' facets' =>
      obtain rfl := Option.some.inj hfacets
      obtain rfl : projection = projection' :=
        Projection.ext_content fun part => Option.some.inj (hprojection part)
      rfl
    | _ => exact absurd hfacets (Option.some_ne_none _)
  | insert data =>
    cases payload' with
    | insert data' => rw [Option.some.inj hdata]
    | _ => exact absurd hdata (Option.some_ne_none _)
  | update actions =>
    cases payload' with
    | update actions' => rw [Option.some.inj hactions]
    | _ => exact absurd hactions (Option.some_ne_none _)
  | delete =>
    cases payload' with
    | select projection' facets' => exact absurd hfacets.symm (Option.some_ne_none _)
    | insert data' => exact absurd hdata.symm (Option.some_ne_none _)
    | update actions' => exact absurd hactions.symm (Option.some_ne_none _)
    | delete => rfl

end Request

end Fonds
