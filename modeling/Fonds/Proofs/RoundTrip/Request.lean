import Fonds.Proofs.Request.Edits
import Fonds.Proofs.RoundTrip.Action
import Fonds.Proofs.RoundTrip.Facet
import Fonds.Proofs.RoundTrip.Filter
import Fonds.Proofs.RoundTrip.Projection
import Fonds.Request.Printer
import Fonds.Request.Reader

/-!
Requests come out of their documents as they went in, section by section. It does not matter whether
a request was read or built up by edits, as long as it is complete and its filter uses the keywords
of its kind.
-/
namespace Fonds

theorem Section.token_injective : Function.Injective token := by
  intro s t h
  cases s <;> cases t <;> first | rfl | exact absurd h (by decide)

namespace Request

variable {sections : List (Section × Json)}

/-- The document of some sections. -/
def entriesOf (sections : List (Section × Json)) : List (String × Json) :=
  sections.map fun e => (e.1.token, e.2)

theorem toJson_eq (r : Request) :
    r.toJson = .object (entriesOf (r.core.sections ++ r.payload.sections)) := rfl

theorem get?_entriesOf (s : Section) :
    Entries.get? s.token (entriesOf sections) = Entries.get? s sections := by
  induction sections with
  | nil => rfl
  | cons e sections ih =>
    obtain ⟨t, v⟩ := e
    by_cases heq : t = s
    · simp [entriesOf, Entries.get?, heq]
    · have hne : t.token ≠ s.token := fun h => heq (Section.token_injective h)
      simpa [entriesOf, Entries.get?, heq, hne] using ih

theorem readSection_entriesOf {α : Type} (s : Section) (missing : α) (read : Json → Built α) :
    readSection (entriesOf sections) s missing read =
      (Entries.get? s sections).elim (.ok missing) read := by
  rw [readSection, get?_entriesOf]
  cases Entries.get? s sections <;> rfl

theorem checkSections_entriesOf {kind : Kind} (h : sections.map Prod.fst ⊆ kind.sections) :
    checkSections kind (entriesOf sections) = .ok () := by
  have hnone : (entriesOf sections).find?
      (fun entry => entry.1 ∉ kind.sections.map Section.token) = none := by
    rw [List.find?_eq_none]
    intro entry hentry
    obtain ⟨e, he, rfl⟩ := List.mem_map.1 hentry
    simpa using ⟨e.1, h (List.mem_map_of_mem he), rfl⟩
  rw [checkSections, hnone]

theorem readRoots_elems (roots : OrderedSet NonBlank) :
    readRoots (.array (roots.elems.map (.string ·.text))) = .ok roots := by
  have hfold : (roots.elems.map NonBlank.text).foldlM Core.addRoot .empty = .ok roots := by
    refine roots.foldlM_elems id fun known id => ?_
    simp [Core.addRoot]
  rw [readRoots, Json.expectArray_array, ok_bind, Json.expectStrings_map, ok_bind, hfold]

/-- A path finds its place, as only the first step can be one. -/
theorem readSteps_queries (steps : Steps) :
    readSteps (.array (steps.queries.map Query.toJson)) = .ok steps := by
  rw [readSteps, Json.oneOrMany_array]
  refine foldlM_of_steps (fun before s => s.queries = before) rfl ?_ ?_
  · rintro ⟨queries, _⟩ h
    obtain ⟨queries', _⟩ := steps
    obtain rfl : queries = queries' := h
    rfl
  · rintro before q s hpre rfl
    have hadd : ¬ (s.queries ≠ [] ∧ q.isPath = true) := by
      rintro ⟨hne, hpath⟩
      obtain ⟨after, hafter⟩ := hpre
      have hq : q ∈ steps.queries.tail := by
        rw [← hafter, List.append_assoc, List.tail_append_of_ne_nil hne]
        simp
      rw [steps.path_first q hq] at hpath
      exact Bool.false_ne_true hpath
    exact ⟨_, by rw [readStep, Query.read_toJson, ok_bind, Steps.add, dif_neg hadd], rfl⟩

/-- A facet finds its name free. -/
theorem readFacets_list (facets : Facets) :
    readFacets (.array (facets.list.map Facet.toJson)) = .ok facets := by
  rw [readFacets, Json.expectArray_array, ok_bind]
  refine foldlM_of_steps (fun before s => s.list = before) rfl ?_ ?_
  · rintro ⟨list, _⟩ h
    obtain ⟨list', _⟩ := facets
    obtain rfl : list = list' := h
    rfl
  · rintro before facet s hpre rfl
    have hnames := facets.names_nodup.sublist (hpre.sublist.map Facet.name)
    rw [List.map_append, List.nodup_append] at hnames
    have hnew : facet.name ∉ s.list.map Facet.name := by
      intro hmem
      exact hnames.2.2 _ hmem _ (by simp) rfl
    exact ⟨_, by rw [readFacet, Facet.read_toJson, ok_bind, Facets.add, dif_neg hnew], rfl⟩

theorem readCore_sections {kind : Kind} {core : Core} {payload : List (Section × Json)}
    (h : ∀ e ∈ core.filter.entries, e.1 ∈ kind.filterKeywords) :
    readCore kind (entriesOf (core.sections ++ payload)) = .ok core := by
  have hroots : Entries.get? .roots (core.sections ++ payload) =
      some (.array (core.roots.elems.map (.string ·.text))) := rfl
  have hsteps : Entries.get? .query (core.sections ++ payload) =
      some (.array (core.steps.queries.map Query.toJson)) := rfl
  have hfilter : Entries.get? .filter (core.sections ++ payload) = some core.filter.toJson := rfl
  simp only [readCore, readSection_entriesOf, hroots, hsteps, hfilter, Option.elim_some,
    readRoots_elems, readSteps_queries, Filter.read_toJson h, ok_bind]

theorem readPayload_sections (core : Core) (payload : Payload) :
    readPayload payload.kind (entriesOf (core.sections ++ payload.sections)) = .ok payload := by
  cases payload with
  | select projection facets =>
    have hprojection : Entries.get? .projection
        (core.sections ++ (Payload.select projection facets).sections) =
          some projection.toJson := rfl
    simp only [Payload.kind, readPayload, readSection_entriesOf, hprojection, Option.elim_some,
      Projection.read_toJson, ok_bind]
    by_cases hempty : facets.list = []
    · have hfacets : Entries.get? .facets
          (core.sections ++ (Payload.select projection facets).sections) = none := by
        simp [Payload.sections, Core.sections, hempty, Entries.get?]
      obtain ⟨list, names_nodup⟩ := facets
      obtain rfl : list = [] := hempty
      rw [hfacets]
      rfl
    · have hfacets : Entries.get? .facets
          (core.sections ++ (Payload.select projection facets).sections) =
            some (.array (facets.list.map Facet.toJson)) := by
        simp [Payload.sections, Core.sections, hempty, Entries.get?]
      simp only [hfacets, Option.elim_some, readFacets_list, ok_bind]
  | insert data =>
    have hdata : Entries.get? .data (core.sections ++ (Payload.insert data).sections) =
        some (.object data) := rfl
    simp only [Payload.kind, readPayload, readSection_entriesOf, hdata, Option.elim_some,
      Payload.buildData, map_ok]
  | update actions =>
    have hactions : Entries.get? .action (core.sections ++ (Payload.update actions).sections) =
        some (.array (actions.map Action.toJson)) := rfl
    simp only [Payload.kind, readPayload, readSection_entriesOf, hactions, Option.elim_some,
      Action.readAll_array, map_ok]
  | delete => rfl

/-- A request writes no section that its kind does not have. -/
theorem sections_subset (r : Request) :
    (r.core.sections ++ r.payload.sections).map Prod.fst ⊆ r.kind.sections := by
  obtain ⟨core, payload⟩ := r
  cases payload with
  | select projection facets =>
    by_cases hempty : facets.list = [] <;>
      simp [Core.sections, Payload.sections, hempty, kind, Payload.kind, Kind.sections]
  | _ => simp [Core.sections, Payload.sections, kind, Payload.kind, Kind.sections]

/-- A complete request whose filter fits its kind is read back from its document. -/
theorem read_toJson {r : Request} (hcomplete : r.checkComplete = .ok ())
    (hfilter : ∀ e ∈ r.core.filter.entries, e.1 ∈ r.kind.filterKeywords) :
    read r.kind r.toJson = .ok r := by
  have hsections := checkSections_entriesOf r.sections_subset
  have hcore : readCore r.kind (entriesOf (r.core.sections ++ r.payload.sections)) = .ok r.core :=
    readCore_sections hfilter
  have hpayload : readPayload r.kind (entriesOf (r.core.sections ++ r.payload.sections)) =
      .ok r.payload := readPayload_sections r.core r.payload
  rw [read, toJson_eq, Json.expectObject_object, ok_bind, hsections, ok_bind, hcore, ok_bind,
    hpayload, ok_bind]
  obtain ⟨core, payload⟩ := r
  simp only [hcomplete, ok_bind]

theorem kind_eq_of_readPayload {kind : Kind} {entries : List (String × Json)} {payload : Payload}
    (h : readPayload kind entries = .ok payload) : payload.kind = kind := by
  cases kind with
  | select =>
    simp only [readPayload, bind_eq_ok] at h
    obtain ⟨projection, _, facets, _, h⟩ := h
    rw [← Except.ok.inj h, Payload.kind]
  | insert =>
    obtain ⟨data, _, rfl⟩ := map_eq_ok.1 h
    rfl
  | update =>
    obtain ⟨actions, _, rfl⟩ := map_eq_ok.1 h
    rfl
  | delete => rw [← Except.ok.inj h, Payload.kind]

/-- A request that was read is of the kind asked for and complete, and its filter fits the kind. -/
theorem facts_of_read {kind : Kind} {v : Json} {r : Request} (h : read kind v = .ok r) :
    r.kind = kind ∧ r.checkComplete = .ok () ∧
      ∀ e ∈ r.core.filter.entries, e.1 ∈ kind.filterKeywords := by
  simp only [read, bind_eq_ok] at h
  obtain ⟨entries, _, _, _, core, hcore, payload, hpayload, _, hcomplete, hr⟩ := h
  obtain rfl := Except.ok.inj hr
  refine ⟨kind_eq_of_readPayload hpayload, hcomplete, ?_⟩
  simp only [readCore, bind_eq_ok] at hcore
  obtain ⟨roots, _, steps, _, filter, hfilter, hcore⟩ := hcore
  obtain rfl := Except.ok.inj hcore
  rw [readSection] at hfilter
  split at hfilter
  · exact Filter.mem_allowed_of_read hfilter
  · obtain rfl := Except.ok.inj hfilter
    intro e he
    exact absurd he List.not_mem_nil

/-- Reading undoes writing, for requests that were built up from nothing by edits, refused ones
included, and for requests that were read. -/
theorem read_undoes_toJson (kind : Kind) :
    (∀ edits, ((empty kind).applyAll edits).checkComplete = .ok () →
      (∀ e ∈ ((empty kind).applyAll edits).core.filter.entries, e.1 ∈ kind.filterKeywords) →
      read kind ((empty kind).applyAll edits).toJson = .ok ((empty kind).applyAll edits)) ∧
    ∀ v r, read kind v = .ok r → read kind r.toJson = .ok r := by
  constructor
  · intro edits hcomplete hfilter
    have hkind : ((empty kind).applyAll edits).kind = kind := by
      rw [kind_applyAll, kind_empty]
    have hread := read_toJson hcomplete (hkind.symm ▸ hfilter)
    rwa [hkind] at hread
  · intro v r h
    obtain ⟨rfl, hcomplete, hfilter⟩ := facts_of_read h
    exact read_toJson hcomplete hfilter

/-- An update of one field below a root, of which a blank root and a facet are no part. -/
def withoutNotes : Request :=
  (empty .update).applyAll [.addRoots ["fonds", " "], .resetFacets, .setMultiple true,
    .addAction (.unset ⟨⟨"Note", by decide, by decide⟩, []⟩)]

theorem read_undoes_toJson_withoutNotes :
    read .update withoutNotes.toJson = .ok withoutNotes ∧
      ∃ r, read .update withoutNotes.toJson = .ok r ∧ read .update r.toJson = .ok r := by
  have hread : read .update withoutNotes.toJson = .ok withoutNotes := by
    refine (read_undoes_toJson .update).1 _ rfl fun e he => ?_
    obtain rfl : e = (.multiple, .bool true) := List.mem_singleton.1 he
    decide
  exact ⟨hread, withoutNotes, hread, (read_undoes_toJson .update).2 _ _ hread⟩

end Request

end Fonds
