import Fonds.Proofs.Grammar.Action
import Fonds.Proofs.Grammar.Facet
import Fonds.Proofs.Grammar.Filter
import Fonds.Proofs.Grammar.Projection
import Fonds.Proofs.RoundTrip.Request

/-!
The reader of requests takes the documents of the grammar and no other values. Sections are read one
by one, so a document is read if each section is, if the kind has all of them and if none is missing
that the kind needs.
-/
namespace Fonds

variable {entries : List (String × Json)} {v w : Json} {kind : Kind} {s : Section}

/-- The sections that a kind has beyond those of every request. -/
def Kind.ownSections : Kind → List Section
  | .select => [.projection, .facets]
  | .insert => [.data]
  | .update => [.action]
  | .delete => []

theorem Kind.sections_eq (kind : Kind) :
    kind.sections = [.roots, .query, .filter] ++ kind.ownSections := by
  cases kind <;> rfl

namespace Steps

theorem queries_injective : Function.Injective queries := by
  rintro ⟨qs, _⟩ ⟨qs', _⟩ rfl
  rfl

theorem exists_queries_iff {qs : List Query} :
    (∃ steps : Steps, steps.queries = qs) ↔ ∀ q ∈ qs.tail, q.isPath = false :=
  ⟨fun ⟨steps, h⟩ => h ▸ steps.path_first, fun h => ⟨⟨qs, h⟩, rfl⟩⟩

/-- Steps can be cut off anywhere. -/
theorem exists_cut (steps : Steps) (before after : List Query)
    (h : steps.queries = before ++ after) : ∃ known : Steps, known.queries = before := by
  refine exists_queries_iff.2 fun q hq => steps.path_first q ?_
  rw [h]
  cases before with
  | nil => exact absurd hq List.not_mem_nil
  | cons first before => exact List.mem_append_left after hq

theorem add_eq_ok_iff {steps steps' : Steps} {q : Query} :
    steps.add q = .ok steps' ↔ steps'.queries = steps.queries ++ [q] := by
  rw [add]
  split
  next hpath =>
    refine ⟨fun h => absurd h (by simp), fun h => ?_⟩
    obtain ⟨first, rest, hqueries⟩ := List.exists_cons_of_ne_nil hpath.1
    have hmem : q ∈ steps'.queries.tail := by simp [h, hqueries]
    exact absurd hpath.2 (by simp [steps'.path_first q hmem])
  next => rw [Except.ok.injEq, ← queries_injective.eq_iff, eq_comm]

end Steps

namespace Facets

theorem list_injective : Function.Injective list := by
  rintro ⟨fs, _⟩ ⟨fs', _⟩ rfl
  rfl

theorem exists_cut (facets : Facets) (before after : List Facet)
    (h : facets.list = before ++ after) : ∃ known : Facets, known.list = before := by
  have hnodup := facets.names_nodup
  rw [h, List.map_append, List.nodup_append] at hnodup
  exact ⟨⟨before, hnodup.1⟩, rfl⟩

theorem add_eq_ok_iff {facets facets' : Facets} {f : Facet} :
    facets.add f = .ok facets' ↔ facets'.list = facets.list ++ [f] := by
  rw [add]
  split
  next hknown =>
    refine ⟨fun h => absurd h (by simp), fun h => ?_⟩
    have hnodup := facets'.names_nodup
    rw [h, List.map_append, List.nodup_append] at hnodup
    exact absurd rfl (hnodup.2.2 f.name hknown f.name (by simp))
  next => rw [Except.ok.injEq, ← list_injective.eq_iff, eq_comm]

end Facets

namespace Request

/-- Steps are the queries of the section, as long as they can be steps at all. -/
theorem readSteps_eq_ok_iff {steps : Steps} :
    readSteps v = .ok steps ↔ v.oneOrMany.mapM Query.read = .ok steps.queries := by
  have hstep : ∀ steps w steps', readStep steps w = .ok steps' ↔
      ∃ q, Query.read w = .ok q ∧ steps'.queries = steps.queries ++ [q] := by
    simp only [readStep, bind_eq_ok, Steps.add_eq_ok_iff, implies_true]
  rw [readSteps, foldlM_eq_ok_iff_mapM Steps.queries Steps.queries_injective Steps.exists_cut
    hstep]
  simp [Steps.empty]

theorem readFacets_eq_ok_iff {facets : Facets} : readFacets v = .ok facets ↔
    ∃ elems, v = .array elems ∧ elems.mapM Facet.read = .ok facets.list := by
  have hstep : ∀ facets w facets', readFacet facets w = .ok facets' ↔
      ∃ f, Facet.read w = .ok f ∧ facets'.list = facets.list ++ [f] := by
    simp only [readFacet, bind_eq_ok, Facets.add_eq_ok_iff, implies_true]
  simp only [readFacets, bind_eq_ok, Json.expectArray_eq_ok_iff,
    foldlM_eq_ok_iff_mapM Facets.list Facets.list_injective Facets.exists_cut hstep]
  simp [Facets.empty]

theorem exists_readSteps_iff (hv : v.WellFormed) :
    (∃ steps, readSteps v = .ok steps) ↔ IsSteps v := by
  have hread : (∃ qs, v.oneOrMany.mapM Query.read = .ok qs) ↔
      ∀ w ∈ v.oneOrMany, Query.IsQuery w := by
    rw [exists_mapM_iff]
    refine forall₂_congr fun w hw => ⟨fun ⟨q, hq⟩ => ?_, fun h => ?_⟩
    · exact Query.isQuery_of_read (hv.of_mem_oneOrMany hw) hq
    · exact Query.exists_read_of_isQuery (hv.of_mem_oneOrMany hw) h
  have hpaths : ∀ qs, v.oneOrMany.mapM Query.read = .ok qs →
      ((∀ q ∈ qs.tail, q.isPath = false) ↔ ∀ w ∈ v.oneOrMany.tail, ¬ Query.IsPath w) := by
    intro qs hqs
    have hexists : (∃ w ∈ v.oneOrMany.tail, Query.IsPath w) ↔ ∃ q ∈ qs.tail, q.isPath := by
      refine exists_mem_iff_of_mapM (fun w hw q hq => ?_) (mapM_tail hqs)
      exact Query.isPath_iff_of_read (hv.of_mem_oneOrMany (List.mem_of_mem_tail hw)) hq
    simpa using (not_congr hexists).symm
  rw [IsSteps, ← hread]
  simp only [readSteps_eq_ok_iff]
  constructor
  · rintro ⟨steps, hqs⟩
    exact ⟨⟨_, hqs⟩, (hpaths _ hqs).1 steps.path_first⟩
  · rintro ⟨⟨qs, hqs⟩, hpath⟩
    obtain ⟨steps, rfl⟩ := Steps.exists_queries_iff.2 ((hpaths qs hqs).2 hpath)
    exact ⟨steps, hqs⟩

theorem exists_readFacets_iff (hv : v.WellFormed) :
    (∃ facets, readFacets v = .ok facets) ↔ IsFacets v := by
  have hwrite := (Option.some_injective String).comp NonBlank.text_injective
  have hread : ∀ elems, v = .array elems →
      ((∃ facets : Facets, elems.mapM Facet.read = .ok facets.list) ↔
        (∀ w ∈ elems, IsFacet w) ∧ (elems.map Json.name?).Nodup) := by
    rintro elems rfl
    have helems := Json.allWellFormed_iff.1 hv
    have hforms : (∀ w ∈ elems, ∃ f, Facet.read w = .ok f) ↔ ∀ w ∈ elems, IsFacet w :=
      forall₂_congr fun w hw => Facet.exists_read_iff_isFacet (helems w hw)
    rw [← hforms, ← exists_mapM_nodup_iff hwrite Facet.name?_of_read]
    constructor
    · rintro ⟨facets, h⟩
      exact ⟨facets.list, h, facets.names_nodup⟩
    · rintro ⟨list, h, hnodup⟩
      exact ⟨⟨list, hnodup⟩, h⟩
  simp only [readFacets_eq_ok_iff, IsFacets]
  constructor
  · rintro ⟨facets, elems, hv, h⟩
    exact ⟨elems, hv, (hread elems hv).1 ⟨facets, h⟩⟩
  · rintro ⟨elems, hv, h⟩
    obtain ⟨facets, h⟩ := (hread elems hv).2 h
    exact ⟨facets, elems, hv, h⟩

theorem exists_readRoots_iff : (∃ roots, readRoots v = .ok roots) ↔ v.IsListOf Json.IsNonBlank := by
  have hadd : ∀ ids : List String, (∃ roots, ids.foldlM Core.addRoot .empty = .ok roots) ↔
      ∀ id ∈ ids, ¬ Text.Blank id := by
    refine fun ids => exists_foldlM_iff (fun roots id _ => ?_) OrderedSet.empty
    rw [Core.addRoot, exists_bind_ok_eq_ok, NonBlank.exists_build_iff]
  simp only [readRoots, exists_bind_eq_ok, Json.expectArray_eq_ok_iff,
    Json.expectStrings_eq_ok_iff, hadd, Json.exists_texts_iff]
  rfl

theorem checkSections_eq_ok_iff : checkSections kind entries = .ok () ↔
    ∀ e ∈ entries, ∃ s ∈ kind.sections, e.1 = s.token := by
  have hknown : ∀ token, token ∈ kind.sections.map Section.token ↔
      ∃ s ∈ kind.sections, token = s.token := by
    simp only [List.mem_map, eq_comm, implies_true]
  rw [checkSections]
  split
  next e he =>
    have hunknown := List.find?_some he
    rw [decide_eq_true_eq, hknown] at hunknown
    exact ⟨fun h => absurd h (by simp),
      fun h => absurd (h e (List.mem_of_find?_eq_some he)) hunknown⟩
  next hnone =>
    rw [List.find?_eq_none] at hnone
    simpa [hknown] using hnone

section Sections

variable {α : Type} {missing a : α} {read : Json → Built α} {form : Json → Prop}

theorem readSection_eq_ok_iff : readSection entries s missing read = .ok a ↔
    (Entries.get? s.token entries = none ∧ a = missing) ∨
      ∃ v, Entries.get? s.token entries = some v ∧ read v = .ok a := by
  rw [readSection]
  cases Entries.get? s.token entries with
  | none => simp [eq_comm]
  | some v => simp

/-- A section is read if it is missing, or else if what it holds is. -/
theorem exists_readSection_iff (hentries : (Entries.keys entries).Nodup)
    (hread : ∀ v, (s.token, v) ∈ entries → ((∃ a, read v = .ok a) ↔ form v)) :
    (∃ a, readSection entries s missing read = .ok a) ↔ Entries.Allows entries s.token form := by
  rw [Entries.allows_iff hentries, readSection]
  cases hget : Entries.get? s.token entries with
  | none => simp
  | some v => simpa using hread v ((Entries.get?_eq_some_iff hentries).1 hget)

/-- A section that may not be missing, as what stands in for it will not do. -/
theorem exists_readSection_and_iff {IsComplete : α → Prop} (hmissing : ¬ IsComplete missing)
    (hentries : (Entries.keys entries).Nodup)
    (hread : ∀ v, (∃ a, read v = .ok a ∧ IsComplete a) ↔ form v) :
    (∃ a, readSection entries s missing read = .ok a ∧ IsComplete a) ↔
      Entries.Requires entries s.token form := by
  rw [Entries.requires_iff hentries, readSection]
  cases Entries.get? s.token entries with
  | none => simpa using hmissing
  | some v => simpa using hread v

end Sections

theorem exists_readCore_iff (hentries : (Json.object entries).WellFormed) :
    (∃ core, readCore kind entries = .ok core) ↔ ∀ s ∈ [Section.roots, .query, .filter],
      Entries.Allows entries s.token (s.Accepts kind) := by
  have hroots : (∃ roots, readSection entries .roots .empty readRoots = .ok roots) ↔
      Entries.Allows entries Section.roots.token (Section.roots.Accepts kind) :=
    exists_readSection_iff hentries.1 fun _ _ => exists_readRoots_iff
  have hsteps : (∃ steps, readSection entries .query .empty readSteps = .ok steps) ↔
      Entries.Allows entries Section.query.token (Section.query.Accepts kind) :=
    exists_readSection_iff hentries.1 fun _ hmem =>
      exists_readSteps_iff (hentries.of_mem_entries hmem)
  have hfilter : (∃ f, readSection entries .filter {} (Filter.read kind.filterKeywords) = .ok f) ↔
      Entries.Allows entries Section.filter.token (Section.filter.Accepts kind) :=
    exists_readSection_iff hentries.1 fun _ hmem =>
      Filter.exists_read_iff_isFilter (hentries.of_mem_entries hmem)
  rw [List.forall_mem_cons, List.forall_mem_cons, List.forall_mem_singleton, ← hroots, ← hsteps,
    ← hfilter]
  simp only [readCore, exists_bind_eq_ok, Except.ok.injEq, exists_eq', and_true, exists_and_right]

theorem exists_buildData_iff : (∃ data, Payload.buildData v = .ok data ∧ data ≠ []) ↔
    Section.data.Accepts .insert v := by
  cases v <;> simp [Payload.buildData, Section.Accepts]

theorem checkComplete_insert_iff {core : Core} {data : List (String × Json)} :
    (Request.mk core (.insert data)).checkComplete = .ok () ↔ data ≠ [] := by
  cases data <;> simp [checkComplete]

theorem checkComplete_update_iff {core : Core} {actions : List Action} :
    (Request.mk core (.update actions)).checkComplete = .ok () ↔ actions ≠ [] := by
  cases actions <;> simp [checkComplete]

/-- The payload is read and complete if its sections are, and if none is missing that is needed. -/
theorem exists_readPayload_iff (hentries : (Json.object entries).WellFormed) (core : Core) :
    (∃ payload, readPayload kind entries = .ok payload ∧
      (Request.mk core payload).checkComplete = .ok ()) ↔
        (∀ s ∈ kind.ownSections, Entries.Allows entries s.token (s.Accepts kind)) ∧
          ∀ s ∈ kind.required, s.token ∈ Entries.keys entries := by
  cases kind with
  | select =>
    have hprojection : (∃ p, readSection entries .projection {} Projection.read = .ok p) ↔
        Entries.Allows entries Section.projection.token (Section.projection.Accepts .select) :=
      exists_readSection_iff hentries.1 fun _ _ => Projection.exists_read_iff_isProjection
    have hfacets : (∃ fs, readSection entries .facets .empty readFacets = .ok fs) ↔
        Entries.Allows entries Section.facets.token (Section.facets.Accepts .select) :=
      exists_readSection_iff hentries.1 fun _ hmem =>
        exists_readFacets_iff (hentries.of_mem_entries hmem)
    rw [Kind.ownSections, List.forall_mem_cons, List.forall_mem_singleton, ← hprojection, ← hfacets]
    constructor
    · rintro ⟨payload, h, -⟩
      obtain ⟨p, hp, h⟩ := bind_eq_ok.1 h
      obtain ⟨fs, hfs, -⟩ := bind_eq_ok.1 h
      exact ⟨⟨⟨p, hp⟩, fs, hfs⟩, by simp [Kind.required]⟩
    · rintro ⟨⟨⟨p, hp⟩, fs, hfs⟩, -⟩
      exact ⟨.select p fs, by rw [readPayload, hp, ok_bind, hfs, ok_bind], rfl⟩
  | insert =>
    have hdata : (∃ data, readSection entries .data [] Payload.buildData = .ok data ∧ data ≠ []) ↔
        Entries.Requires entries Section.data.token (Section.data.Accepts .insert) :=
      exists_readSection_and_iff (by simp) hentries.1 fun _ => exists_buildData_iff
    rw [Kind.ownSections, Kind.required, List.forall_mem_singleton, List.forall_mem_singleton,
      ← Entries.requires_iff_allows hentries.1, ← hdata]
    constructor
    · rintro ⟨payload, h, hcomplete⟩
      obtain ⟨data, hdata, rfl⟩ := map_eq_ok.1 h
      exact ⟨data, hdata, checkComplete_insert_iff.1 hcomplete⟩
    · rintro ⟨data, hdata, hne⟩
      exact ⟨.insert data, map_eq_ok.2 ⟨data, hdata, rfl⟩, checkComplete_insert_iff.2 hne⟩
  | update =>
    have hactions : (∃ as, readSection entries .action [] Action.readAll = .ok as ∧ as ≠ []) ↔
        Entries.Requires entries Section.action.token (Section.action.Accepts .update) :=
      exists_readSection_and_iff (by simp) hentries.1 fun _ => Action.exists_readAll_iff_isActions
    rw [Kind.ownSections, Kind.required, List.forall_mem_singleton, List.forall_mem_singleton,
      ← Entries.requires_iff_allows hentries.1, ← hactions]
    constructor
    · rintro ⟨payload, h, hcomplete⟩
      obtain ⟨actions, hactions, rfl⟩ := map_eq_ok.1 h
      exact ⟨actions, hactions, checkComplete_update_iff.1 hcomplete⟩
    · rintro ⟨actions, hactions, hne⟩
      exact ⟨.update actions, map_eq_ok.2 ⟨actions, hactions, rfl⟩, checkComplete_update_iff.2 hne⟩
  | delete =>
    refine ⟨fun _ => ⟨by simp [Kind.ownSections], by simp [Kind.required]⟩, fun _ => ?_⟩
    exact ⟨.delete, rfl, rfl⟩

theorem isRequest_object_iff : IsRequest kind (.object entries) ↔
    (∀ e ∈ entries, ∃ s ∈ kind.sections, e.1 = s.token) ∧
      (∀ s ∈ kind.sections, Entries.Allows entries s.token (s.Accepts kind)) ∧
        ∀ s ∈ kind.required, s.token ∈ Entries.keys entries := by
  constructor
  · rintro ⟨_, ⟨⟩, hall, hrequired⟩
    refine ⟨fun e he => ?_, fun s hs v hv => ?_, hrequired⟩
    · obtain ⟨s, hs, htoken, -⟩ := hall e he
      exact ⟨s, hs, htoken⟩
    · obtain ⟨s', -, htoken, haccepts⟩ := hall _ hv
      obtain rfl : s = s' := Section.token_injective htoken
      exact haccepts
  · rintro ⟨hknown, hall, hrequired⟩
    refine ⟨entries, rfl, fun e he => ?_, hrequired⟩
    obtain ⟨s, hs, htoken⟩ := hknown e he
    exact ⟨s, hs, htoken, hall s hs e.2 (htoken ▸ he)⟩

theorem read_object_eq_ok_iff {r : Request} : read kind (.object entries) = .ok r ↔
    checkSections kind entries = .ok () ∧ readCore kind entries = .ok r.core ∧
      readPayload kind entries = .ok r.payload ∧ r.checkComplete = .ok () := by
  rw [read, Json.expectObject_object, ok_bind]
  constructor
  · intro h
    obtain ⟨_, hsections, h⟩ := bind_eq_ok.1 h
    obtain ⟨core, hcore, h⟩ := bind_eq_ok.1 h
    obtain ⟨payload, hpayload, h⟩ := bind_eq_ok.1 h
    obtain ⟨_, hcomplete, h⟩ := bind_eq_ok.1 h
    obtain rfl := Except.ok.inj h
    exact ⟨hsections, hcore, hpayload, hcomplete⟩
  · rintro ⟨hsections, hcore, hpayload, hcomplete⟩
    rw [hsections, ok_bind, hcore, ok_bind, hpayload, ok_bind]
    exact bind_eq_ok.2 ⟨(), hcomplete, rfl⟩

theorem isRequest_of_read {r : Request} (hv : v.WellFormed) (h : read kind v = .ok r) :
    IsRequest kind v := by
  obtain ⟨entries, hentries, -⟩ := bind_eq_ok.1 h
  obtain rfl := Json.expectObject_eq_ok_iff.1 hentries
  obtain ⟨hsections, hcore, hpayload, hcomplete⟩ := read_object_eq_ok_iff.1 h
  obtain ⟨hown, hrequired⟩ := (exists_readPayload_iff hv r.core).1 ⟨_, hpayload, hcomplete⟩
  have hall : ∀ s ∈ kind.sections, Entries.Allows entries s.token (s.Accepts kind) := by
    rw [Kind.sections_eq, List.forall_mem_append]
    exact ⟨(exists_readCore_iff hv).1 ⟨_, hcore⟩, hown⟩
  exact isRequest_object_iff.2 ⟨checkSections_eq_ok_iff.1 hsections, hall, hrequired⟩

theorem exists_read_of_isRequest (hv : v.WellFormed) (h : IsRequest kind v) :
    ∃ r, read kind v = .ok r := by
  obtain ⟨entries, rfl, -⟩ := id h
  rw [isRequest_object_iff, ← checkSections_eq_ok_iff] at h
  obtain ⟨hsections, hall, hrequired⟩ := h
  rw [Kind.sections_eq, List.forall_mem_append] at hall
  obtain ⟨core, hcore⟩ := (exists_readCore_iff hv).2 hall.1
  obtain ⟨payload, hpayload, hcomplete⟩ :=
    (exists_readPayload_iff hv core).2 ⟨hall.2, hrequired⟩
  exact ⟨⟨core, payload⟩, read_object_eq_ok_iff.2 ⟨hsections, hcore, hpayload, hcomplete⟩⟩

/-- A request is read from a value if and only if the value is a request document of the kind. -/
theorem exists_read_iff_isRequest (hv : v.WellFormed) :
    (∃ r, read kind v = .ok r) ↔ IsRequest kind v :=
  ⟨fun ⟨_, h⟩ => isRequest_of_read hv h, exists_read_of_isRequest hv⟩

/-- The first twenty maps, the latest first, as a list shows them. -/
def latestMaps : Json := .object
  [(Section.query.token, Query.mapTitle),
    (Section.filter.token, .object
      [(FilterKeyword.limit.token, .ofNat 20),
        (FilterKeyword.orderBy.token, .single "Date" (.ofInt (-1)))]),
    (Section.projection.token, .single Keyword.usage (.string "list"))]

theorem wellFormed_latestMaps : latestMaps.WellFormed := by
  have hfilter : FilterKeyword.limit.token ≠ FilterKeyword.orderBy.token := by decide
  have hsections : (Section.query.token ≠ Section.filter.token ∧
      Section.query.token ≠ Section.projection.token) ∧
        Section.filter.token ≠ Section.projection.token := by decide
  simp [latestMaps, Query.mapTitle, Json.single, Json.ofNat, Json.ofInt, Json.WellFormed,
    Json.EntriesWellFormed, hfilter, hsections]

theorem isRequest_latestMaps : IsRequest .select latestMaps := by
  have hsteps : IsSteps Query.mapTitle := by
    refine ⟨fun w hw => ?_, by simp [Query.mapTitle, Json.single, Json.oneOrMany]⟩
    obtain rfl := List.mem_singleton.1 hw
    exact .inl Query.isCondition_mapTitle
  have hfilter : IsFilter FilterKeyword.all (.object [(FilterKeyword.limit.token, .ofNat 20),
      (FilterKeyword.orderBy.token, .single "Date" (.ofInt (-1)))]) := by
    refine ⟨_, rfl, fun e he => ?_, by decide⟩
    rcases List.mem_pair.1 he with rfl | rfl
    · exact ⟨.limit, by decide, rfl, 20, rfl, by decide, by decide⟩
    · refine ⟨.orderBy, by decide, rfl, _, rfl, fun field hfield => ?_⟩
      obtain rfl := List.mem_singleton.1 hfield
      exact ⟨by decide, .inr rfl⟩
  have hprojection : IsProjection (.single Keyword.usage (.string "list")) := by
    refine ⟨_, rfl, fun e he => ?_⟩
    obtain rfl := List.mem_singleton.1 he
    exact .inr ⟨rfl, "list", rfl, trivial⟩
  refine ⟨_, rfl, fun e he => ?_, by simp [Kind.required]⟩
  simp only [List.mem_cons, List.not_mem_nil, or_false] at he
  rcases he with rfl | rfl | rfl
  · exact ⟨.query, by decide, rfl, hsteps⟩
  · exact ⟨.filter, by decide, rfl, hfilter⟩
  · exact ⟨.projection, by decide, rfl, hprojection⟩

/-- The document keeps to the grammar, so it is read. -/
theorem exists_read_latestMaps :
    latestMaps.WellFormed ∧ ∃ r, read .select latestMaps = .ok r :=
  ⟨wellFormed_latestMaps, (exists_read_iff_isRequest wellFormed_latestMaps).2 isRequest_latestMaps⟩

end Request

end Fonds
