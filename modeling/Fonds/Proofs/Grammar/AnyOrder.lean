import Fonds.Plan.OfRequest
import Fonds.Proofs.Grammar.Reordered
import Fonds.Proofs.Grammar.Request

/-!
Keywords may come in any order. Every reader either looks its keys up or takes them in one by one to
places of their own, so what it reads is the same in any order, and so is all that is made of it.
-/
namespace Fonds

variable {entries entries' : List (String × Json)} {α : Type}

namespace Query

variable {operator : Operator} {operand operand' : Json} {b : Query}

/-- A qualifier is a number, so there is nothing within it that may change places. -/
theorem member_qualifier (qualifier : Option Depth) :
    ∀ e ∈ (qualifier.map Depth.entry).toList, Construct.member .query e.1 = .plain := by
  intro e he
  obtain ⟨depth, -, rfl⟩ := Option.map_eq_some_iff.1 (Option.mem_toList.1 he)
  cases depth <;> rfl

theorem readBody_of_reordered (h : Reordered (.ofOperator operator) operand operand')
    (hmembers : ∀ v ∈ operand.oneOrMany, ∀ w, Reordered .query v w →
      ∀ q, read v = .ok q → read w = .ok q)
    (hread : readBody operator operand = .ok b) : readBody operator operand' = .ok b := by
  cases operator with
  | test operator => exact h.eq_of_plain ▸ hread
  | path => exact h.eq_of_plain ▸ hread
  | junction junction =>
    obtain ⟨qs, hqs, hgroup⟩ := bind_eq_ok.1 hread
    rw [readMembers_eq_readAll, readAll_eq_mapM] at hqs
    have hqs' : readMembers operand' = .ok qs := by
      rw [readMembers_eq_readAll, readAll_eq_mapM]
      exact mapM_eq_ok_of_forall₂ h.oneOrMany hmembers hqs
    exact bind_eq_ok.2 ⟨qs, hqs', hgroup⟩

/-- The recursion is on the value, as it is in the reader. -/
theorem read_of_reordered {v w : Json} {q : Query} (hv : v.WellFormed) (h : Reordered .query v w)
    (hread : read v = .ok q) : read w = .ok q := by
  match v, hv, h, hread with
  | .object entries, hv, h, hread =>
    obtain ⟨entries', rfl, hentries⟩ := h.exists_entries hv.1
    obtain ⟨operator, operand, b, qualifier, hperm, hb, hq⟩ := (read_object_eq_ok_iff hv.1).1 hread
    have hmem : (operator.token, operand) ∈ entries := hperm.mem_iff.2 List.mem_cons_self
    obtain ⟨operand', hoperand', hreordered⟩ := hentries.exists_mem hmem
    rw [Construct.member_operator] at hreordered
    have hperm' := hentries.perm_cons hv.1 hperm (member_qualifier qualifier) hoperand'
    have hb' : readBody operator operand' = .ok b := by
      refine readBody_of_reordered hreordered (fun v' hv' w' hw' q' hq' => ?_) hb
      exact read_of_reordered ((hv.of_mem_entries hmem).of_mem_oneOrMany hv') hw' hq'
    exact (read_object_eq_ok_iff (hentries.nodup hv.1)).2
      ⟨operator, operand', b, qualifier, hperm', hb', hq⟩
termination_by sizeOf v
decreasing_by
  have hmember : sizeOf v' ≤ sizeOf operand := Json.sizeOf_le_of_mem_oneOrMany hv'
  have hentry : sizeOf operand < sizeOf (Json.object entries) :=
    Json.sizeOf_lt_of_mem_entries hmem
  omega

theorem anyOrder_read : Construct.AnyOrder .query read := fun _ _ hv h _ => read_of_reordered hv h

end Query

theorem Filter.anyOrder_read (allowed : List FilterKeyword) :
    Construct.AnyOrder .filter (read allowed) := by
  refine Construct.anyOrder_object fun entries entries' hv hentries f hread => ?_
  obtain ⟨keys, hkeys, hf⟩ := bind_eq_ok.1 hread
  have hperm := hentries.perm hv.1 fun _ => rfl
  exact bind_eq_ok.2 ⟨keys, foldlM_readEntry_eq_ok_of_perm hperm hv.1 hkeys, hf⟩

theorem Projection.anyOrder_read : Construct.AnyOrder .projection read := by
  refine Construct.anyOrder_object fun entries entries' hv hentries p hread => ?_
  exact read_object_eq_ok_of_perm (hentries.perm hv.1 fun _ => rfl) hv.1 hread

namespace Facet

variable {name : String} {kind : FacetKind} {body body' : Json} {f : Facet}

theorem readListAt_of_reordered {c : Construct} {key : String} {read : Json → Built α} {l : List α}
    (hentries : (Json.object entries).WellFormed) (h : ReorderedEntries c entries entries')
    {element : Construct} (hread : element.AnyOrder read) (hl : readListAt entries key read = .ok l)
    (hkey : c.member key = element) : readListAt entries' key read = .ok l := by
  subst hkey
  rw [readListAt_eq_ok_iff] at hl ⊢
  rcases hl with ⟨hnone, rfl⟩ | ⟨elems, hget, hl⟩
  · exact .inl ⟨h.get?_eq_none hnone, rfl⟩
  · obtain ⟨w, hw, hreordered⟩ := h.get?_eq_some hentries.1 hget
    obtain ⟨elems', rfl, hall⟩ := hreordered.exists_elements
    exact .inr ⟨elems', hw, hread.mapM (wellFormed_of_get? hentries hget) hall hl⟩

theorem anyOrder_readRange : Construct.AnyOrder .dateRange readRange := by
  refine Construct.anyOrder_object fun entries entries' hv hentries r hread => ?_
  rwa [hentries.expectStringAt?_of_plain hv.1 _ rfl, hentries.expectStringAt?_of_plain hv.1 _ rfl]

theorem anyOrder_readFilter : Construct.AnyOrder .namedQuery readFilter := by
  refine Construct.anyOrder_object fun entries entries' hv hentries filter hread => ?_
  rw [hentries.expectStringAt?_of_plain hv.1 _ rfl]
  obtain ⟨name, hname, hread⟩ := bind_eq_ok.1 hread
  rw [hname, ok_bind]
  cases hget : Entries.get? Section.query.token entries with
  | none => exact absurd hread (by simp [hget])
  | some q =>
    obtain ⟨q', hget', hreordered⟩ := hentries.get?_eq_some hv.1 hget
    have hq : q.WellFormed := hv.of_mem_entries ((Entries.get?_eq_some_iff hv.1).1 hget)
    simp only [hget, hget'] at hread ⊢
    obtain ⟨query, hquery, hread⟩ := bind_eq_ok.1 hread
    exact bind_eq_ok.2 ⟨query, Query.anyOrder_read hq hreordered query hquery, hread⟩

theorem anyOrder_readBody (name : String) (kind : FacetKind) :
    Construct.AnyOrder .facetBody (readBody name kind) := by
  refine Construct.anyOrder_object fun entries entries' hv hentries f hread => ?_
  have hstring : ∀ construct key, Construct.member .facetBody key = .plain →
      Json.expectStringAt? construct entries' key = Json.expectStringAt? construct entries key :=
    fun construct _ => hentries.expectStringAt?_of_plain hv.1 construct
  rw [hstring _ _ rfl, hstring _ _ rfl]
  obtain ⟨field, hfield, hread⟩ := bind_eq_ok.1 hread
  obtain ⟨nested, hnested, hread⟩ := bind_eq_ok.1 hread
  rw [hfield, ok_bind, hnested, ok_bind]
  cases kind with
  | terms =>
    have hsize : readSize entries' = readSize entries := by
      rw [readSize, readSize, hentries.get?_of_plain hv.1 rfl]
    have horder : readOrder entries' = readOrder entries := by
      rw [readOrder, readOrder, hstring _ _ rfl]
    rwa [hsize, horder]
  | dateRange =>
    obtain ⟨format, hformat, hread⟩ := bind_eq_ok.1 hread
    obtain ⟨ranges, hranges, hread⟩ := bind_eq_ok.1 hread
    have hranges' := readListAt_of_reordered hv hentries anyOrder_readRange hranges rfl
    rw [hstring _ _ rfl, hformat, ok_bind, hranges', ok_bind]
    exact hread
  | filters =>
    obtain ⟨queries, hqueries, hread⟩ := bind_eq_ok.1 hread
    have hqueries' := readListAt_of_reordered hv hentries anyOrder_readFilter hqueries rfl
    rw [hqueries', ok_bind]
    exact hread

theorem anyOrder_read : Construct.AnyOrder .facet read := by
  refine Construct.anyOrder_object fun entries entries' hv hentries f hread => ?_
  obtain ⟨name, kind, body, hname, head, hread⟩ := (read_object_eq_ok_iff hv.1).1 hread
  obtain ⟨body', hbody', hreordered⟩ := hentries.exists_mem head.written
  rw [Construct.member_kind] at hreordered
  have hname' : Entries.get? Keyword.name entries' = name.map .string :=
    (hentries.get?_of_plain hv.1 rfl).trans hname
  have head' : Headed entries' kind body' :=
    ⟨hbody', fun key hkey => head.known key (hentries.mem_keys_iff.1 hkey)⟩
  have hread' := anyOrder_readBody _ kind (hv.of_mem_entries head.written) hreordered f hread
  exact (read_object_eq_ok_iff (hentries.nodup hv.1)).2
    ⟨name, kind, body', hname', head', hread'⟩

end Facet

namespace Request

variable {v w : Json} {kind : Kind} {s : Section}

theorem anyOrder_readSteps : Construct.AnyOrder .query readSteps := by
  intro v w hv h steps hsteps
  rw [readSteps_eq_ok_iff] at hsteps ⊢
  exact Query.anyOrder_read.mapM (fun _ => hv.of_mem_oneOrMany) h.oneOrMany hsteps

theorem anyOrder_readFacets : Construct.AnyOrder .facet readFacets := by
  intro v w hv h facets hfacets
  rw [readFacets_eq_ok_iff] at hfacets ⊢
  obtain ⟨elems, rfl, hread⟩ := hfacets
  obtain ⟨elems', rfl, hall⟩ := h.exists_elements
  exact ⟨elems', rfl, Facet.anyOrder_read.mapM (Json.allWellFormed_iff.1 hv) hall hread⟩

section Sections

variable (hentries : (Json.object entries).WellFormed)
  (h : ReorderedEntries .request entries entries')
include hentries h

theorem readSection_of_reordered {missing : α} {read : Json → Built α} {a : α}
    (ha : readSection entries s missing read = .ok a)
    (hread : (Construct.ofSection s).AnyOrder read) :
    readSection entries' s missing read = .ok a := by
  rw [readSection_eq_ok_iff] at ha ⊢
  rcases ha with ⟨hnone, rfl⟩ | ⟨v, hget, ha⟩
  · exact .inl ⟨h.get?_eq_none hnone, rfl⟩
  · obtain ⟨w, hw, hreordered⟩ := h.get?_eq_some hentries.1 hget
    rw [Construct.member_section] at hreordered
    have hv : v.WellFormed := hentries.of_mem_entries ((Entries.get?_eq_some_iff hentries.1).1 hget)
    exact .inr ⟨w, hw, hread hv hreordered a ha⟩

theorem readCore_of_reordered {core : Core} (hread : readCore kind entries = .ok core) :
    readCore kind entries' = .ok core := by
  obtain ⟨roots, hroots, hread⟩ := bind_eq_ok.1 hread
  obtain ⟨steps, hsteps, hread⟩ := bind_eq_ok.1 hread
  obtain ⟨f, hf, hread⟩ := bind_eq_ok.1 hread
  have hroots' := readSection_of_reordered hentries h hroots (Construct.anyOrder_plain _)
  have hsteps' := readSection_of_reordered hentries h hsteps anyOrder_readSteps
  have hf' := readSection_of_reordered hentries h hf (Filter.anyOrder_read _)
  rw [readCore, hroots', ok_bind, hsteps', ok_bind, hf', ok_bind]
  exact hread

theorem readPayload_of_reordered {payload : Payload}
    (hread : readPayload kind entries = .ok payload) :
    readPayload kind entries' = .ok payload := by
  cases kind with
  | select =>
    obtain ⟨p, hp, hread⟩ := bind_eq_ok.1 hread
    obtain ⟨fs, hfs, hread⟩ := bind_eq_ok.1 hread
    have hp' := readSection_of_reordered hentries h hp Projection.anyOrder_read
    have hfs' := readSection_of_reordered hentries h hfs anyOrder_readFacets
    rw [readPayload, hp', ok_bind, hfs', ok_bind]
    exact hread
  | insert =>
    obtain ⟨data, hdata, hpayload⟩ := map_eq_ok.1 hread
    have hdata' := readSection_of_reordered hentries h hdata (Construct.anyOrder_plain _)
    exact map_eq_ok.2 ⟨data, hdata', hpayload⟩
  | update =>
    obtain ⟨actions, hactions, hpayload⟩ := map_eq_ok.1 hread
    have hactions' := readSection_of_reordered hentries h hactions (Construct.anyOrder_plain _)
    exact map_eq_ok.2 ⟨actions, hactions', hpayload⟩
  | delete => exact hread

end Sections

theorem anyOrder_read (kind : Kind) : Construct.AnyOrder .request (read kind) := by
  refine Construct.anyOrder_object fun entries entries' hv hentries r hread => ?_
  obtain ⟨_, hsections, hread⟩ := bind_eq_ok.1 hread
  obtain ⟨core, hcore, hread⟩ := bind_eq_ok.1 hread
  obtain ⟨payload, hpayload, hread⟩ := bind_eq_ok.1 hread
  have hsections' : checkSections kind entries' = .ok () := by
    rw [checkSections_eq_ok_iff] at hsections ⊢
    intro e he
    have hkey : e.1 ∈ Entries.keys entries := hentries.mem_keys_iff.1 (List.mem_map_of_mem he)
    obtain ⟨first, hfirst, heq⟩ := List.mem_map.1 hkey
    exact heq ▸ hsections first hfirst
  rw [hsections', ok_bind, readCore_of_reordered hv hentries hcore, ok_bind,
    readPayload_of_reordered hv hentries hpayload, ok_bind]
  exact hread

/-- Documents that differ in the order of keywords, at whatever depth, are accepted together; they
make the same request, and for every configuration the same plan. -/
theorem read_eq_of_reordered (hv : v.WellFormed) (h : Reordered .request v w) :
    ((∃ r, read kind v = .ok r) ↔ ∃ s, read kind w = .ok s) ∧
      ∀ r s, read kind v = .ok r → read kind w = .ok s →
        r = s ∧ ∀ c : Configuration, r.plan c = s.plan c := by
  have hforth : ∀ r, read kind v = .ok r → read kind w = .ok r := anyOrder_read kind hv h
  have hback : ∀ r, read kind w = .ok r → read kind v = .ok r :=
    anyOrder_read kind (h.wellFormed hv) h.symm
  refine ⟨⟨fun ⟨r, hr⟩ => ⟨r, hforth r hr⟩, fun ⟨s, hs⟩ => ⟨s, hback s hs⟩⟩, fun r s hr hs => ?_⟩
  obtain rfl : r = s := Except.ok.inj ((hforth r hr).symm.trans hs)
  exact ⟨rfl, fun _ => rfl⟩

/-- The maps two levels further down, with a count of the early ones. -/
def countedMaps : Json := .object
  [(Section.query.token, .object
      [(Keyword.depth, .ofInt 2),
        (TestOperator.term.token, .single "Title" (.string "map"))]),
    (Section.facets.token, .array [.object
      [(Keyword.name, .string "Periods"),
        (FacetKind.filters.token, .single Keyword.queryFilters (.array [.object
          [(Keyword.name, .string "early"), (Section.query.token, Query.earlyDate)]]))]])]

/-- The same document, written from its end. -/
def countedMapsReversed : Json := .object
  [(Section.facets.token, .array [.object
      [(FacetKind.filters.token, .single Keyword.queryFilters (.array [.object
          [(Section.query.token, Query.earlyDate), (Keyword.name, .string "early")]])),
        (Keyword.name, .string "Periods")]]),
    (Section.query.token, .object
      [(TestOperator.term.token, .single "Title" (.string "map")),
        (Keyword.depth, .ofInt 2)])]

theorem wellFormed_countedMaps : countedMaps.WellFormed := by
  have hbounds : BoundOperator.gte.token ≠ BoundOperator.lt.token := by decide
  have hquery : Keyword.depth ≠ TestOperator.term.token := by decide
  have hfacet : Keyword.name ≠ FacetKind.filters.token := by decide
  have hnamed : Keyword.name ≠ Section.query.token := by decide
  have hsections : Section.query.token ≠ Section.facets.token := by decide
  simp [countedMaps, Query.earlyDate, Json.single, Json.ofInt, Json.WellFormed, Json.AllWellFormed,
    Json.EntriesWellFormed, hbounds, hquery, hfacet, hnamed, hsections]

theorem reordered_countedMaps : Reordered .request countedMaps countedMapsReversed := by
  have hquery : Reordered .query (.object [(Keyword.depth, .ofInt 2),
      (TestOperator.term.token, .single "Title" (.string "map"))]) _ :=
    .swap (by decide) (by decide) (.same _ _) (.same _ _)
  have hnamed : Reordered .namedQuery (.object [(Keyword.name, .string "early"),
      (Section.query.token, Query.earlyDate)]) _ :=
    .swap (by decide) (by decide) (.same _ _) (.same _ _)
  have hbody : Reordered .facetBody (.single Keyword.queryFilters _) _ :=
    .single (by decide) hnamed.singleton
  have hfacet : Reordered .facet (.object [(Keyword.name, .string "Periods"),
      (FacetKind.filters.token, _)]) _ :=
    .swap (by decide) (by decide) (.same _ _) hbody
  exact .swap (by decide) (by decide) hquery hfacet.singleton

/-- The document is read, so it is read as well from its end. -/
theorem exists_read_countedMapsReversed :
    countedMaps.WellFormed ∧ Reordered .request countedMaps countedMapsReversed ∧
      ∃ r, read .select countedMapsReversed = .ok r := by
  have hread : ∃ r, read .select countedMaps = .ok r := ⟨_, rfl⟩
  obtain ⟨hboth, -⟩ := read_eq_of_reordered wellFormed_countedMaps reordered_countedMaps
  exact ⟨wellFormed_countedMaps, reordered_countedMaps, hboth.1 hread⟩

end Request

end Fonds
