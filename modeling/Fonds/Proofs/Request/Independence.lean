import Fonds.Proofs.Request.Edits
import Fonds.Proofs.Request.Parts

/-!
The parts of a request evolve independently. An edit looks at no part but those that it touches and
changes no other, so what a part comes to is decided by the edits that touch it, and edits of
different parts may change places.
-/
namespace Fonds.Request

variable {r r' : Request} {edit edit' : Edit} {part : Part}

/-- How an edit works: on one part, given what that holds, or by putting a filter or a projection in
the place of the one before. -/
inductive Works (edit : Edit) : Prop
  | roots (change : OrderedSet NonBlank → Except EditError Unit × OrderedSet NonBlank)
      (parts : edit.parts = [.roots])
      (apply : ∀ r : Request, r.apply edit =
        ((change r.core.roots).1, r.setRoots (change r.core.roots).2))
  | steps (change : Steps → Built Steps) (parts : edit.parts = [.steps])
      (apply : ∀ r : Request, r.apply edit = r.attempt (r.editSteps (change r.core.steps)))
  | filter (build : Kind → Built Filter) (parts : edit.parts = FilterPart.all.map .filter)
      (apply : ∀ r : Request, r.apply edit = r.attempt (r.editFilter (build r.kind)))
  | filterPart {part : FilterPart} {change : Filter → Built Filter}
      (confined : Confined Filter.content part change) (parts : edit.parts = [.filter part])
      (apply : ∀ r : Request, r.apply edit = r.attempt (r.editFilter (change r.core.filter)))
  | projection (projection : Projection) (parts : edit.parts = ProjectionPart.all.map .projection)
      (apply : ∀ r : Request, r.apply edit = r.attempt (r.editProjection fun _ => .ok projection))
  | projectionPart {part : ProjectionPart} {change : Projection → Built Projection}
      (confined : Confined Projection.content part change)
      (parts : edit.parts = [.projection part])
      (apply : ∀ r : Request, r.apply edit = r.attempt (r.editProjection change))
  | facets (change : Facets → Built Facets) (parts : edit.parts = [.facets])
      (apply : ∀ r : Request, r.apply edit = r.attempt (r.editFacets change))
  | data (data : Built (List (String × Json))) (parts : edit.parts = [.data])
      (apply : ∀ r : Request, r.apply edit = r.attempt (r.editData data))
  | actions (change : List Action → List Action) (parts : edit.parts = [.actions])
      (apply : ∀ r : Request, r.apply edit = r.attempt (r.editActions change))

theorem works (edit : Edit) : Works edit := by
  cases edit with
  | addRoots ids =>
    exact .roots (fun roots => ((Core.addRoots roots ids).1.mapError .refused,
      (Core.addRoots roots ids).2)) rfl fun _ => rfl
  | resetRoots => exact .roots (fun _ => (.ok (), .empty)) rfl fun _ => rfl
  | addQuery q => exact .steps (fun steps => steps.add q) rfl fun _ => rfl
  | setQuery index q => exact .steps (fun steps => steps.set index q) rfl fun _ => rfl
  | resetQueries => exact .steps (fun _ => .ok .empty) rfl fun _ => rfl
  | setFilter filter => exact .filter (fun _ => .ok filter) rfl fun _ => rfl
  | readFilter v => exact .filter (fun kind => Filter.read kind.filterKeywords v) rfl fun _ => rfl
  | resetFilter => exact .filter (fun _ => .ok {}) rfl fun _ => rfl
  | addHint hint => exact .filterPart (Filter.confined_addHint hint) rfl fun _ => rfl
  | resetHints =>
    exact .filterPart (Filter.confined_replace .hints fun _ => .empty) rfl fun _ => rfl
  | setLimit n =>
    exact .filterPart (Filter.confined_replace .paging fun c => (c.1, some n)) rfl fun _ => rfl
  | resetLimit =>
    exact .filterPart (Filter.confined_replace .paging fun _ => (none, none)) rfl fun _ => rfl
  | setMultiple b =>
    exact .filterPart (Filter.confined_replace .multiple fun _ => some b) rfl fun _ => rfl
  | addOrderBy field direction =>
    exact .filterPart (Filter.confined_addOrderBy field direction) rfl fun _ => rfl
  | resetOrderBy =>
    exact .filterPart (Filter.confined_replace .order fun _ => .empty) rfl fun _ => rfl
  | setScroll id timeout =>
    exact .filterPart (Filter.confined_setScroll id timeout) rfl fun _ => rfl
  | setProjection p => exact .projection p rfl fun _ => rfl
  | addProjection field p =>
    exact .projectionPart (Projection.confined_addField field p) rfl fun _ => rfl
  | resetProjectionFields =>
    exact .projectionPart (Projection.confined_replace .fields fun _ => .empty) rfl fun _ => rfl
  | setUsage usage =>
    exact .projectionPart (Projection.confined_replace .usage fun _ => some usage) rfl fun _ => rfl
  | resetUsage =>
    exact .projectionPart (Projection.confined_replace .usage fun _ => none) rfl fun _ => rfl
  | addFacet facet => exact .facets (fun facets => facets.add facet) rfl fun _ => rfl
  | resetFacets => exact .facets (fun _ => .ok .empty) rfl fun _ => rfl
  | setData v => exact .data (Payload.buildData v) rfl fun _ => rfl
  | addAction action => exact .actions (fun actions => actions ++ [action]) rfl fun _ => rfl
  | resetActions => exact .actions (fun _ => []) rfl fun _ => rfl

section Leaves

theorem content_setRoots {roots : OrderedSet NonBlank} (hpart : part ≠ .roots) :
    (r.setRoots roots).content part = r.content part := by
  cases part with
  | roots => exact absurd rfl hpart
  | _ => rfl

theorem content_editSteps {steps : Built Steps} (hpart : part ≠ .steps) :
    (r.attempt (r.editSteps steps)).2.content part = r.content part := by
  cases steps with
  | error e => rfl
  | ok steps =>
    cases part with
    | steps => exact absurd rfl hpart
    | _ => rfl

theorem content_editFilter {filter : Built Filter} (hpart : ∀ p, part ≠ .filter p) :
    (r.attempt (r.editFilter filter)).2.content part = r.content part := by
  cases filter with
  | error e => rfl
  | ok f =>
    cases part with
    | filter p => exact absurd rfl (hpart p)
    | _ => rfl

theorem content_editFilter_of_leaves {p : FilterPart} {filter : Built Filter}
    (hleaves : ∀ f, filter = .ok f → ∀ other, other ≠ p →
      f.content other = r.core.filter.content other) (hpart : part ≠ .filter p) :
    (r.attempt (r.editFilter filter)).2.content part = r.content part := by
  cases filter with
  | error e => rfl
  | ok f =>
    cases part with
    | filter q => exact hleaves f rfl q fun hq => hpart (congrArg Part.filter hq)
    | _ => rfl

theorem content_editProjection {change : Projection → Built Projection}
    (hpart : ∀ p, part ≠ .projection p) :
    (r.attempt (r.editProjection change)).2.content part = r.content part := by
  obtain ⟨core, payload⟩ := r
  cases payload with
  | select projection facets =>
    simp only [editProjection]
    cases change projection with
    | error e => rfl
    | ok new =>
      cases part with
      | projection p => exact absurd rfl (hpart p)
      | _ => rfl
  | _ => rfl

theorem content_editProjection_of_leaves {p : ProjectionPart}
    {change : Projection → Built Projection} (hleaves : ∀ old new, change old = .ok new →
      ∀ other, other ≠ p → new.content other = old.content other) (hpart : part ≠ .projection p) :
    (r.attempt (r.editProjection change)).2.content part = r.content part := by
  obtain ⟨core, payload⟩ := r
  cases payload with
  | select projection facets =>
    simp only [editProjection]
    cases hnew : change projection with
    | error e => rfl
    | ok new =>
      cases part with
      | projection q =>
        have hq : q ≠ p := fun hq => hpart (congrArg Part.projection hq)
        exact congrArg some (hleaves projection new hnew q hq)
      | _ => rfl
  | _ => rfl

theorem content_editFacets {change : Facets → Built Facets} (hpart : part ≠ .facets) :
    (r.attempt (r.editFacets change)).2.content part = r.content part := by
  obtain ⟨core, payload⟩ := r
  cases payload with
  | select projection facets =>
    simp only [editFacets]
    cases change facets with
    | error e => rfl
    | ok new =>
      cases part with
      | facets => exact absurd rfl hpart
      | _ => rfl
  | _ => rfl

theorem content_editData {data : Built (List (String × Json))} (hpart : part ≠ .data) :
    (r.attempt (r.editData data)).2.content part = r.content part := by
  obtain ⟨core, payload⟩ := r
  cases payload with
  | insert old =>
    cases data with
    | error e => rfl
    | ok new =>
      cases part with
      | data => exact absurd rfl hpart
      | _ => rfl
  | _ => rfl

theorem content_editActions {change : List Action → List Action} (hpart : part ≠ .actions) :
    (r.attempt (r.editActions change)).2.content part = r.content part := by
  obtain ⟨core, payload⟩ := r
  cases payload with
  | update actions =>
    cases part with
    | actions => exact absurd rfl hpart
    | _ => rfl
  | _ => rfl

end Leaves

/-- An edit leaves the parts alone that it does not touch. -/
theorem content_apply_of_not_mem (hpart : part ∉ edit.parts) :
    (r.apply edit).2.content part = r.content part := by
  have hne : ∀ {p : Part}, edit.parts = [p] → part ≠ p := by
    intro p hparts
    exact List.ne_of_not_mem_cons (hparts ▸ hpart)
  cases works edit with
  | roots change parts apply => exact apply r ▸ content_setRoots (hne parts)
  | steps change parts apply => exact apply r ▸ content_editSteps (hne parts)
  | filter build parts apply =>
    exact apply r ▸ content_editFilter (FilterPart.not_mem_map_all_iff.1 (parts ▸ hpart))
  | filterPart confined parts apply =>
    exact apply r ▸ content_editFilter_of_leaves (confined.leaves _) (hne parts)
  | projection projection parts apply =>
    exact apply r ▸ content_editProjection (ProjectionPart.not_mem_map_all_iff.1 (parts ▸ hpart))
  | projectionPart confined parts apply =>
    exact apply r ▸ content_editProjection_of_leaves confined.leaves (hne parts)
  | facets change parts apply => exact apply r ▸ content_editFacets (hne parts)
  | data data parts apply => exact apply r ▸ content_editData (hne parts)
  | actions change parts apply => exact apply r ▸ content_editActions (hne parts)

/-- What came of an edit, with the request after it, is the same in both cases as far as a part is
concerned. -/
structure AgreeAt (part : Part) (a b : Except EditError Unit × Request) : Prop where
  result : a.1 = b.1
  content : a.2.content part = b.2.content part

section Looks

theorem agreeAt_editSteps (h : r.content .steps = r'.content .steps)
    (change : Steps → Built Steps) :
    AgreeAt .steps (r.attempt (r.editSteps (change r.core.steps)))
      (r'.attempt (r'.editSteps (change r'.core.steps))) := by
  have hsteps : r.core.steps = r'.core.steps := h
  rw [hsteps]
  cases change r'.core.steps with
  | error e => exact ⟨rfl, h⟩
  | ok steps => exact ⟨rfl, rfl⟩

theorem agreeAt_editFilter {p : FilterPart} {x y : Built Filter}
    (h : r.content (.filter p) = r'.content (.filter p))
    (hxy : (fun f => f.content p) <$> x = (fun f => f.content p) <$> y) :
    AgreeAt (.filter p) (r.attempt (r.editFilter x)) (r'.attempt (r'.editFilter y)) := by
  cases x with
  | error e =>
    cases y with
    | error e' =>
      obtain rfl := Except.error.inj hxy
      exact ⟨rfl, h⟩
    | ok g => exact absurd hxy (by simp)
  | ok f =>
    cases y with
    | error e => exact absurd hxy (by simp)
    | ok g => exact ⟨rfl, Except.ok.inj hxy⟩

theorem agreeAt_editProjection {p : ProjectionPart} {change : Projection → Built Projection}
    (h : r.content (.projection p) = r'.content (.projection p))
    (hlooks : ∀ old old' : Projection, old.content p = old'.content p →
      (fun new => new.content p) <$> change old = (fun new => new.content p) <$> change old') :
    AgreeAt (.projection p) (r.attempt (r.editProjection change))
      (r'.attempt (r'.editProjection change)) := by
  obtain ⟨core, payload⟩ := r
  obtain ⟨core', payload'⟩ := r'
  cases payload with
  | select projection facets =>
    cases payload' with
    | select projection' facets' =>
      have hchange := hlooks projection projection' (Option.some.inj h)
      simp only [editProjection]
      cases hnew : change projection with
      | error e =>
        cases hnew' : change projection' with
        | error e' =>
          rw [hnew, hnew'] at hchange
          obtain rfl := Except.error.inj hchange
          exact ⟨rfl, h⟩
        | ok new' => simp [hnew, hnew'] at hchange
      | ok new =>
        cases hnew' : change projection' with
        | error e => simp [hnew, hnew'] at hchange
        | ok new' =>
          rw [hnew, hnew'] at hchange
          exact ⟨rfl, congrArg some (Except.ok.inj hchange)⟩
    | _ => exact absurd h (Option.some_ne_none _)
  | _ =>
    cases payload' with
    | select projection' facets' => exact absurd h.symm (Option.some_ne_none _)
    | _ => exact ⟨rfl, h⟩

theorem agreeAt_editFacets (h : r.content .facets = r'.content .facets)
    (change : Facets → Built Facets) :
    AgreeAt .facets (r.attempt (r.editFacets change)) (r'.attempt (r'.editFacets change)) := by
  obtain ⟨core, payload⟩ := r
  obtain ⟨core', payload'⟩ := r'
  cases payload with
  | select projection facets =>
    cases payload' with
    | select projection' facets' =>
      obtain rfl := Option.some.inj h
      simp only [editFacets]
      cases change facets with
      | error e => exact ⟨rfl, h⟩
      | ok new => exact ⟨rfl, rfl⟩
    | _ => exact absurd h (Option.some_ne_none _)
  | _ =>
    cases payload' with
    | select projection' facets' => exact absurd h.symm (Option.some_ne_none _)
    | _ => exact ⟨rfl, h⟩

theorem agreeAt_editData (h : r.content .data = r'.content .data)
    (data : Built (List (String × Json))) :
    AgreeAt .data (r.attempt (r.editData data)) (r'.attempt (r'.editData data)) := by
  obtain ⟨core, payload⟩ := r
  obtain ⟨core', payload'⟩ := r'
  cases payload with
  | insert old =>
    cases payload' with
    | insert old' =>
      cases data with
      | error e => exact ⟨rfl, h⟩
      | ok new => exact ⟨rfl, rfl⟩
    | _ => exact absurd h (Option.some_ne_none _)
  | _ =>
    cases payload' with
    | insert old' => exact absurd h.symm (Option.some_ne_none _)
    | _ => exact ⟨rfl, h⟩

theorem agreeAt_editActions (h : r.content .actions = r'.content .actions)
    (change : List Action → List Action) :
    AgreeAt .actions (r.attempt (r.editActions change)) (r'.attempt (r'.editActions change)) := by
  obtain ⟨core, payload⟩ := r
  obtain ⟨core', payload'⟩ := r'
  cases payload with
  | update actions =>
    cases payload' with
    | update actions' =>
      obtain rfl := Option.some.inj h
      exact ⟨rfl, rfl⟩
    | _ => exact absurd h (Option.some_ne_none _)
  | _ =>
    cases payload' with
    | update actions' => exact absurd h.symm (Option.some_ne_none _)
    | _ => exact ⟨rfl, h⟩

end Looks

/-- An edit makes the same of a part that it touches, and comes to the same, whatever the rest of
the request is. -/
theorem agreeAt_apply (hpart : part ∈ edit.parts) (hkind : r.kind = r'.kind)
    (h : r.content part = r'.content part) : AgreeAt part (r.apply edit) (r'.apply edit) := by
  cases works edit with
  | roots change parts apply =>
    obtain rfl := List.mem_singleton.1 (parts ▸ hpart)
    have hroots : r.core.roots = r'.core.roots := h
    rw [apply, apply, hroots]
    exact ⟨rfl, rfl⟩
  | steps change parts apply =>
    obtain rfl := List.mem_singleton.1 (parts ▸ hpart)
    rw [apply, apply]
    exact agreeAt_editSteps h change
  | filter build parts apply =>
    obtain ⟨p, -, rfl⟩ := List.mem_map.1 (parts ▸ hpart)
    rw [apply, apply, hkind]
    exact agreeAt_editFilter h rfl
  | filterPart confined parts apply =>
    obtain rfl := List.mem_singleton.1 (parts ▸ hpart)
    rw [apply, apply]
    exact agreeAt_editFilter h (confined.looks _ _ h)
  | projection projection parts apply =>
    obtain ⟨p, -, rfl⟩ := List.mem_map.1 (parts ▸ hpart)
    rw [apply, apply]
    exact agreeAt_editProjection h fun _ _ _ => rfl
  | projectionPart confined parts apply =>
    obtain rfl := List.mem_singleton.1 (parts ▸ hpart)
    rw [apply, apply]
    exact agreeAt_editProjection h confined.looks
  | facets change parts apply =>
    obtain rfl := List.mem_singleton.1 (parts ▸ hpart)
    rw [apply, apply]
    exact agreeAt_editFacets h change
  | data data parts apply =>
    obtain rfl := List.mem_singleton.1 (parts ▸ hpart)
    rw [apply, apply]
    exact agreeAt_editData h data
  | actions change parts apply =>
    obtain rfl := List.mem_singleton.1 (parts ▸ hpart)
    rw [apply, apply]
    exact agreeAt_editActions h change

/-- What came of each edit, refused ones included. -/
def results (r : Request) : List Edit → List (Edit × Except EditError Unit)
  | [] => []
  | edit :: edits => (edit, (r.apply edit).1) :: (r.apply edit).2.results edits

/-- Of many edits, only those count for a part that touch it. By induction on the edits: the two
requests keep agreeing at the part, whether an edit touches it or not. -/
theorem run_of_touching (hkind : r.kind = r'.kind) (h : r.content part = r'.content part)
    (edits : List Edit) :
    (r.applyAll edits).content part =
        (r'.applyAll (edits.filter fun edit => part ∈ edit.parts)).content part ∧
      ((r.results edits).filter fun result => part ∈ result.1.parts) =
        r'.results (edits.filter fun edit => part ∈ edit.parts) := by
  induction edits generalizing r r' with
  | nil => exact ⟨h, rfl⟩
  | cons edit edits ih =>
    by_cases hpart : part ∈ edit.parts
    · have hagree : AgreeAt part (r.apply edit) (r'.apply edit) := agreeAt_apply hpart hkind h
      have hkinds : (r.apply edit).2.kind = (r'.apply edit).2.kind := by
        rw [kind_apply, kind_apply, hkind]
      obtain ⟨hcontent, hresults⟩ := ih hkinds hagree.content
      rw [List.filter_cons_of_pos (by simpa using hpart), results,
        List.filter_cons_of_pos (by simpa using hpart), results, hresults, hagree.result]
      exact ⟨hcontent, rfl⟩
    · have hkinds : (r.apply edit).2.kind = r'.kind := by rw [kind_apply, hkind]
      obtain ⟨hcontent, hresults⟩ := ih hkinds ((content_apply_of_not_mem hpart).trans h)
      rw [List.filter_cons_of_neg (by simpa using hpart), results,
        List.filter_cons_of_neg (by simpa using hpart)]
      exact ⟨hcontent, hresults⟩

theorem parts_ne_nil (edit : Edit) : edit.parts ≠ [] := by
  cases edit <;> exact List.cons_ne_nil _ _

/-- An edit comes to the same if it comes after one that touches none of its parts. -/
theorem apply_apply_fst (hparts : edit.parts.Disjoint edit'.parts) :
    ((r.apply edit).2.apply edit').1 = (r.apply edit').1 := by
  obtain ⟨part, hpart⟩ := List.exists_mem_of_ne_nil _ (parts_ne_nil edit')
  have hcontent : (r.apply edit).2.content part = r.content part :=
    content_apply_of_not_mem fun hmem => hparts hmem hpart
  exact (agreeAt_apply hpart (kind_apply r edit) hcontent).result

/-- After two edits, a part that the first does not touch is as after the second alone. -/
theorem content_apply_apply (hpart : part ∉ edit.parts) :
    ((r.apply edit).2.apply edit').2.content part = (r.apply edit').2.content part := by
  have hcontent : (r.apply edit).2.content part = r.content part := content_apply_of_not_mem hpart
  by_cases hpart' : part ∈ edit'.parts
  · exact (agreeAt_apply hpart' (kind_apply r edit) hcontent).content
  · rw [content_apply_of_not_mem hpart', content_apply_of_not_mem hpart', hcontent]

theorem apply_apply_comm (hparts : edit.parts.Disjoint edit'.parts) :
    ((r.apply edit).2.apply edit').2 = ((r.apply edit').2.apply edit).2 := by
  refine ext_content fun part => ?_
  by_cases hpart : part ∈ edit.parts
  · have hpart' : part ∉ edit'.parts := fun hmem => hparts hpart hmem
    rw [content_apply_of_not_mem hpart', content_apply_apply hpart']
  · rw [content_apply_apply hpart, content_apply_of_not_mem hpart]

/-- A reset takes its parts back to what they are in a request that asks for nothing. -/
theorem content_apply_of_isReset (hreset : edit.isReset) (hpart : part ∈ edit.parts) :
    (r.apply edit).2.content part = (empty r.kind).content part := by
  obtain ⟨core, payload⟩ := r
  cases edit with
  | resetRoots | resetQueries | resetHints | resetLimit | resetOrderBy =>
    obtain rfl := List.mem_singleton.1 hpart
    rfl
  | resetFilter =>
    obtain ⟨p, -, rfl⟩ := List.mem_map.1 hpart
    rfl
  | resetProjectionFields | resetUsage | resetFacets | resetActions =>
    obtain rfl := List.mem_singleton.1 hpart
    cases payload <;> rfl
  | _ => exact absurd hreset (by simp [Edit.isReset])

/-- The parts of a request evolve independently. What a part comes to, and what comes of each edit
that touches it, is the same if only those edits are carried out. So edits that touch different
parts may change places, and a reset takes back the parts that it touches and leaves the others as
they were. -/
theorem parts_independent (r : Request) :
    (∀ edits part,
      (r.applyAll edits).content part =
          (r.applyAll (edits.filter fun edit => part ∈ edit.parts)).content part ∧
        ((r.results edits).filter fun result => part ∈ result.1.parts) =
          r.results (edits.filter fun edit => part ∈ edit.parts)) ∧
    (∀ edit edit', edit.parts.Disjoint edit'.parts →
      ((r.apply edit).2.apply edit').2 = ((r.apply edit').2.apply edit).2 ∧
        ((r.apply edit).2.apply edit').1 = (r.apply edit').1 ∧
          ((r.apply edit').2.apply edit).1 = (r.apply edit).1) ∧
    ∀ edit, edit.isReset → ∀ part, (r.apply edit).2.content part =
      if part ∈ edit.parts then (empty r.kind).content part else r.content part := by
  refine ⟨fun edits part => run_of_touching rfl rfl edits, fun edit edit' hparts => ?_,
    fun edit hreset part => ?_⟩
  · exact ⟨apply_apply_comm hparts, apply_apply_fst hparts,
      apply_apply_fst fun _ hpart hpart' => hparts hpart' hpart⟩
  · split
    next hpart => exact content_apply_of_isReset hreset hpart
    next hpart => exact content_apply_of_not_mem hpart

/-- A hint that is refused and a reset of the limit, either of which may come first. -/
theorem parts_independent_cachedPage :
    let r := (empty .select).applyAll [.addHint "cache", .setLimit 20]
    (Edit.addHint " ").parts.Disjoint Edit.resetLimit.parts ∧
    ((r.apply (.addHint " ")).2.apply .resetLimit).2 =
      ((r.apply .resetLimit).2.apply (.addHint " ")).2 ∧
    Edit.resetLimit.isReset ∧
    (r.apply .resetLimit).2.content (.filter .paging) = (none, none) ∧
    (r.apply .resetLimit).2.content (.filter .hints) = r.content (.filter .hints) := by
  intro r
  obtain ⟨-, hcomm, hreset⟩ := parts_independent r
  have hparts : (Edit.addHint " ").parts.Disjoint Edit.resetLimit.parts := by
    simp [Edit.parts]
  exact ⟨hparts, (hcomm _ _ hparts).1, rfl, hreset _ rfl (.filter .paging),
    hreset _ rfl (.filter .hints)⟩

end Fonds.Request
