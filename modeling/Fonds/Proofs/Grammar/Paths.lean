import Fonds.Proofs.Grammar.Vocabulary
import Fonds.Proofs.Plan.Tests

/-!
Where a request may ask for a path. A path is no condition, so none stands within a query, and no
step but the first is one. The named queries of a facet are read like any other query: a path is
accepted there.
-/
namespace Fonds

variable {entries : List (String × Json)} {key : String} {v w : Json}

namespace Json

/-- The documents of the named queries of a facet, in order. -/
def namedQueries (facet : Json) : List Json :=
  (((facet.get? FacetKind.filters.token).bind (get? Keyword.queryFilters)).elim [] elems).flatMap
    fun named => (named.get? Section.query.token).toList

/-- The documents of the queries of a request: those of its steps before those of its facets. -/
def queryDocuments (v : Json) : List Json :=
  (v.get? Section.query.token).elim [] oneOrMany ++
    ((v.get? Section.facets.token).elim [] elems).flatMap namedQueries

/-- Whether a query document asks for a path. -/
def hasPath (v : Json) : Bool := (v.get? Operator.path.token).isSome

theorem WellFormed.of_get? (hv : v.WellFormed) (h : v.get? key = some w) : w.WellFormed := by
  cases v with
  | object entries => exact hv.of_mem_entries ((Entries.get?_eq_some_iff hv.1).1 h)
  | _ => exact absurd h (by simp [get?, asObject?])

theorem WellFormed.of_mem_namedQueries (hv : v.WellFormed) (hw : w ∈ v.namedQueries) :
    w.WellFormed := by
  obtain ⟨named, hnamed, hquery⟩ := List.mem_flatMap.1 hw
  obtain ⟨list, hlist, hmem⟩ := Vocabulary.mem_elim.1 hnamed
  obtain ⟨body, hbody, hlist⟩ := Option.bind_eq_some_iff.1 hlist
  have hmember := ((hv.of_get? hbody).of_get? hlist).of_mem_elems hmem
  exact hmember.of_get? (Option.mem_toList.1 hquery)

theorem WellFormed.of_mem_queryDocuments (hv : v.WellFormed) (hw : w ∈ v.queryDocuments) :
    w.WellFormed := by
  rcases List.mem_append.1 hw with hw | hw
  · obtain ⟨steps, hsteps, hmem⟩ := Vocabulary.mem_elim.1 hw
    exact (hv.of_get? hsteps).of_mem_oneOrMany hmem
  · obtain ⟨facet, hfacet, hmem⟩ := List.mem_flatMap.1 hw
    obtain ⟨facets, hfacets, helem⟩ := Vocabulary.mem_elim.1 hfacet
    exact ((hv.of_get? hfacets).of_mem_elems helem).of_mem_namedQueries hmem

end Json

namespace Facet

variable {kind : FacetKind} {f : Facet}

/-- Of the bodies that a facet may have, it has the one of its kind. -/
theorem Headed.get?_filters {body : Json} (head : Headed entries kind body)
    (hentries : (Entries.keys entries).Nodup) :
    Entries.get? FacetKind.filters.token entries = if kind = .filters then some body else none := by
  split
  next hkind => exact (Entries.get?_eq_some_iff hentries).2 (hkind ▸ head.written)
  next hkind =>
    rw [← Option.not_isSome_iff_eq_none, Entries.isSome_get?_iff]
    intro hmem
    rcases head.known _ hmem with heq | heq
    · exact token_ne_name .filters heq
    · cases kind <;> simp_all [FacetKind.token]

theorem mapM_read_elements {elems : List Json} {es : List (NonBlank × Query)}
    (h : elems.mapM (fun w => readFilter w >>= labelled) = .ok es) :
    (elems.flatMap fun named => (named.get? Section.query.token).toList).mapM Query.read =
      .ok (es.map Prod.snd) := by
  rw [List.map_eq_flatMap]
  refine mapM_flatMap_eq_ok (fun w _ e he => ?_) h
  obtain ⟨entries, u, rfl, -, hu, hq⟩ := labelled_readFilter_eq_ok_iff.1 he
  have hget : (Json.object entries).get? Section.query.token = some u := hu
  rw [hget, Option.toList_some]
  exact mapM_cons_eq_ok.2 ⟨hq, rfl⟩

/-- The queries of a facet are read of the documents that it names. -/
theorem mapM_read_namedQueries (hv : v.WellFormed) (h : read v = .ok f) :
    v.namedQueries.mapM Query.read = .ok f.queries := by
  match v, hv, h with
  | .object entries, hv, h =>
    obtain ⟨name, kind, body, -, head, h⟩ := (read_object_eq_ok_iff hv.1).1 h
    have hget : (Json.object entries).get? FacetKind.filters.token =
        if kind = .filters then some body else none := head.get?_filters hv.1
    rw [Json.namedQueries, hget]
    obtain ⟨members, hmembers, hbody⟩ := bind_eq_ok.1 h
    obtain ⟨field, -, hbody⟩ := bind_eq_ok.1 hbody
    obtain ⟨nested, -, hbody⟩ := bind_eq_ok.1 hbody
    cases kind with
    | terms =>
      obtain ⟨size, -, hbody⟩ := bind_eq_ok.1 hbody
      obtain ⟨order, -, hbody⟩ := bind_eq_ok.1 hbody
      obtain ⟨_, _, _, _, _, -, rfl⟩ := exists_of_terms hbody
      rfl
    | dateRange =>
      obtain ⟨format, -, hbody⟩ := bind_eq_ok.1 hbody
      obtain ⟨ranges, -, hbody⟩ := bind_eq_ok.1 hbody
      obtain ⟨_, _, _, _, -, rfl⟩ := exists_of_dateRange hbody
      rfl
    | filters =>
      obtain ⟨queries, hqueries, hbody⟩ := bind_eq_ok.1 hbody
      obtain ⟨n, known, nonempty, -, hknown, rfl⟩ := exists_of_filters hbody
      obtain rfl := Json.expectObject_eq_ok_iff.1 hmembers
      rcases readListAt_eq_ok_iff.1 hqueries with ⟨-, rfl⟩ | ⟨elems, hget, helems⟩
      · exact absurd (Except.ok.inj hknown).symm nonempty
      · have hmember : (Json.object members).get? Keyword.queryFilters = some (.array elems) := hget
        rw [if_pos rfl, Option.bind_some, hmember]
        exact mapM_read_elements (exists_mapM_mapM_eq_ok.1 ⟨queries, helems, hknown⟩)

end Facet

namespace Query

theorem hasPath_object : (Json.object entries).hasPath = true ↔
    Operator.path.token ∈ Entries.keys entries := Entries.isSome_get?_iff

theorem IsCondition.hasPath (h : IsCondition v) : v.hasPath = false := by
  have hknown : ∀ {entries : List (String × Json)} {operator : Operator} {operand : Json},
      operator ≠ .path → Headed entries operator operand →
        (Json.object entries).hasPath = false := by
    intro entries operator operand hne head
    rw [← Bool.not_eq_true, hasPath_object]
    intro hmem
    rcases head.known _ hmem with heq | heq | heq
    · have hsame := congrArg Operator.ofToken? heq
      rw [Operator.ofToken?_token, Operator.ofToken?_token] at hsame
      exact hne (Option.some.inj hsame).symm
    · exact absurd heq (by decide)
    · exact absurd heq (by decide)
  cases h with
  | test head => exact hknown (by simp) head
  | group head => exact hknown (by simp) head

/-- A query is a path if its document asks for one. -/
theorem hasPath_eq_isPath {q : Query} (hv : v.WellFormed) (h : read v = .ok q) :
    v.hasPath = q.isPath := by
  cases q with
  | path ids =>
    obtain ⟨operand, rfl, -⟩ := (isPath_iff_of_read hv h).2 rfl
    rfl
  | condition c => exact (isCondition_of_read hv h).hasPath

end Query

namespace Vocabulary

variable {c d : Vocabulary} {found : List (String × Json)}

/-- What stands in a condition is a condition again, or the bounds of a range. -/
theorem Occurs.isCondition (h : Occurs c v d found) (hv : v.WellFormed)
    (hc : (c = query ∧ Query.IsCondition v) ∨ c = bounds) :
    (d = query ∧ Query.IsCondition (.object found)) ∨ d = bounds := by
  induction h with
  | here => exact hc
  | member entry member inside ih =>
    rcases hc with ⟨rfl, hcondition⟩ | rfl
    · have hw := wellFormed_of_members (hv.of_mem_entries entry) member
      refine ih hw ((fits_of_isCondition hcondition hv.1 entry member).imp_right And.left)
    · exact absurd member List.not_mem_nil

/-- The members of a query are conditions, so none of them asks for a path, nor does anything that
stands in them. -/
theorem hasPath_eq_false_of_member (hv : (Json.object entries).WellFormed)
    (h : Query.IsQuery (.object entries)) (entry : (key, v) ∈ entries)
    (member : (query, w) ∈ query.members key v) (inside : Occurs query w query found) :
    (Json.object found).hasPath = false := by
  rcases h with h | ⟨ids, hobject, -⟩
  · rcases fits_of_isCondition h hv.1 entry member with ⟨-, hw⟩ | ⟨hbounds, -⟩
    · have hwell := wellFormed_of_members (hv.of_mem_entries entry) member
      rcases inside.isCondition hwell (.inl ⟨rfl, hw⟩) with ⟨-, hfound⟩ | hbounds
      · exact hfound.hasPath
      · exact absurd hbounds (by decide)
    · exact absurd hbounds (by decide)
  · obtain rfl := Json.object.inj hobject
    obtain ⟨rfl, rfl⟩ := Prod.mk.inj (List.mem_singleton.1 entry)
    exact absurd (members_operator .path v ▸ member) List.not_mem_nil

end Vocabulary

namespace Request

open Vocabulary

variable {kind : Kind} {r : Request}

theorem mapM_read_steps {core : Core} (h : readCore kind entries = .ok core) :
    ((Entries.get? Section.query.token entries).elim [] Json.oneOrMany).mapM Query.read =
      .ok core.steps.queries := by
  obtain ⟨roots, -, h⟩ := bind_eq_ok.1 h
  obtain ⟨steps, hsteps, h⟩ := bind_eq_ok.1 h
  obtain ⟨f, -, h⟩ := bind_eq_ok.1 h
  obtain rfl := Except.ok.inj h
  rcases readSection_eq_ok_iff.1 hsteps with ⟨hnone, rfl⟩ | ⟨v, hget, hread⟩
  · rw [hnone]
    rfl
  · rw [hget]
    exact readSteps_eq_ok_iff.1 hread

/-- Only a select has facets. -/
theorem get?_facets_eq_none (hsections : checkSections kind entries = .ok ())
    (hkind : kind ≠ .select) : Entries.get? Section.facets.token entries = none := by
  rw [← Option.not_isSome_iff_eq_none, Entries.isSome_get?_iff]
  intro hmem
  obtain ⟨e, he, htoken⟩ := List.mem_map.1 hmem
  obtain ⟨s, hs, heq⟩ := checkSections_eq_ok_iff.1 hsections e he
  obtain rfl : s = .facets := Section.token_injective (heq.symm.trans htoken)
  cases kind with
  | select => exact hkind rfl
  | insert | update | delete => exact absurd hs (by decide)

theorem facets_eq_nil (hkind : kind ≠ .select) (h : readPayload kind entries = .ok r.payload) :
    r.facets = [] := by
  cases kind with
  | select => exact absurd rfl hkind
  | insert =>
    obtain ⟨data, -, hpayload⟩ := map_eq_ok.1 h
    rw [facets, ← hpayload]
  | update =>
    obtain ⟨actions, -, hpayload⟩ := map_eq_ok.1 h
    rw [facets, ← hpayload]
  | delete => rw [facets, ← Except.ok.inj h]

theorem mapM_read_facets (hv : (Json.object entries).WellFormed)
    (hsections : checkSections kind entries = .ok ())
    (h : readPayload kind entries = .ok r.payload) :
    (((Entries.get? Section.facets.token entries).elim [] Json.elems).flatMap
      Json.namedQueries).mapM Query.read = .ok (r.facets.flatMap Facet.queries) := by
  by_cases hkind : kind = .select
  · subst hkind
    obtain ⟨p, -, h⟩ := bind_eq_ok.1 h
    obtain ⟨facets, hfacets, h⟩ := bind_eq_ok.1 h
    have hlist : r.facets = facets.list := by
      rw [Request.facets, ← Except.ok.inj h]
    rw [hlist]
    rcases readSection_eq_ok_iff.1 hfacets with ⟨hnone, rfl⟩ | ⟨v, hget, hread⟩
    · rw [hnone]
      rfl
    · obtain ⟨elems, rfl, helems⟩ := readFacets_eq_ok_iff.1 hread
      rw [hget]
      refine mapM_flatMap_eq_ok (fun w hw f hf => ?_) helems
      exact Facet.mapM_read_namedQueries (Facet.wellFormed_of_get? hv hget w hw) hf
  · rw [get?_facets_eq_none hsections hkind, facets_eq_nil hkind h]
    rfl

/-- The queries of a request are read of the query documents, in order. -/
theorem mapM_read_queries (hv : v.WellFormed) (h : read kind v = .ok r) :
    v.queryDocuments.mapM Query.read = .ok r.queries := by
  match v, hv, h with
  | .object entries, hv, h =>
    obtain ⟨hsections, hcore, hpayload, -⟩ := read_object_eq_ok_iff.1 h
    exact mapM_append_eq_ok (mapM_read_steps hcore) (mapM_read_facets hv hsections hpayload)

/-- A request asks for a path where the document of one of its queries does, and in no other place:
not in a step after the first, and nowhere within a query. That of a facet may be a path. -/
theorem paths_of_read (hv : v.WellFormed) (h : read kind v = .ok r) :
    v.queryDocuments.map Json.hasPath = r.queries.map Query.isPath ∧
    (∀ i q, r.core.steps.queries[i]? = some q → q.isPath = true → i = 0) ∧
    ∀ entries, Occurs (.request kind) v .query entries →
      ∀ key operand, (key, operand) ∈ entries → ∀ w, (.query, w) ∈ members .query key operand →
        ∀ found, Occurs .query w .query found → (Json.object found).hasPath = false := by
  refine ⟨?_, fun i q hq hpath => ?_, ?_⟩
  · refine map_eq_of_mapM (fun w hw q hq => ?_) (mapM_read_queries hv h)
    exact Query.hasPath_eq_isPath (hv.of_mem_queryDocuments hw) hq
  · cases i with
    | zero => rfl
    | succ i =>
      have htail : q ∈ r.core.steps.queries.tail := by
        rw [← List.getElem?_tail] at hq
        exact List.mem_of_getElem? hq
      exact absurd hpath (by rw [r.core.steps.path_first q htail]; decide)
  · intro entries hoccurs key operand entry w member found inside
    have hquery := hoccurs.fits hv (isRequest_of_read hv h)
    exact hasPath_eq_false_of_member (hoccurs.wellFormed hv) hquery entry member inside

/-- Counts the units on the path to a fonds. -/
def countedFonds : Json :=
  .single Section.facets.token (.array [.object
    [(Keyword.name, .string "maps"), (FacetKind.filters.token, .single Keyword.queryFilters
      (.array [.object [(Keyword.name, .string "fonds"),
        (Section.query.token, .single Operator.path.token (.array [.string "fonds"]))]]))]])

theorem wellFormed_countedFonds : countedFonds.WellFormed := by
  have hfacet : Keyword.name ≠ FacetKind.filters.token := by decide
  have hnamed : Keyword.name ≠ Section.query.token := by decide
  simp [countedFonds, Json.single, Json.WellFormed, Json.AllWellFormed, Json.EntriesWellFormed,
    hfacet, hnamed]

/-- The only query of the document is a path, in a facet. -/
theorem paths_of_read_countedFonds : countedFonds.WellFormed ∧
    ∃ r, read .select countedFonds = .ok r ∧ r.queries.map Query.isPath = [true] := by
  obtain ⟨r, h⟩ : ∃ r, read .select countedFonds = .ok r := ⟨_, rfl⟩
  exact ⟨wellFormed_countedFonds, r, h, (paths_of_read wellFormed_countedFonds h).1.symm⟩

/-- A request is accepted that has no step and yet asks for a path. -/
theorem countedFonds_path_in_facet : ∃ r, read .select countedFonds = .ok r ∧
    r.core.steps.queries = [] ∧ ∃ f ∈ r.facets, ∃ q ∈ f.queries, q.isPath = true :=
  ⟨_, rfl, rfl, _, List.mem_cons_self, _, List.mem_cons_self, rfl⟩

end Request

end Fonds
