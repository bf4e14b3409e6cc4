import Fonds.Proofs.Grammar.Vocabulary

/-!
Unknown keywords. Most readers go through the keys of an object and refuse those that they do not
know. The bodies of facets, their ranges of dates and their named queries are only asked for the
keys that are wanted, so any other key in one of them is passed over.
-/
namespace Fonds

variable {entries : List (String × Json)} {key : String} {v w : Json}

namespace Json

/-- An object with its entries under some keys and no others. -/
def keep (keys : List String) : Json → Json
  | .object entries => .object (entries.filter (·.1 ∈ keys))
  | v => v

def mapValues (f : String → Json → Json) : Json → Json
  | .object entries => .object (entries.map fun e => (e.1, f e.1 e.2))
  | v => v

def mapElems (f : Json → Json) : Json → Json
  | .array elems => .array (elems.map f)
  | v => v

/-- A range of dates with nothing but its ends. -/
def pruneRange : Json → Json := keep [Keyword.rangeFrom, Keyword.rangeTo]

/-- A named query with nothing but its name and its query. -/
def pruneNamed : Json → Json := keep [Keyword.name, Section.query.token]

def pruneMember (key : String) (v : Json) : Json :=
  if key = Keyword.ranges then v.mapElems pruneRange
  else if key = Keyword.queryFilters then v.mapElems pruneNamed
  else v

/-- The body of a facet with the entries that are looked up, within what they hold as well. -/
def pruneBody (kind : FacetKind) (v : Json) : Json := (v.keep kind.keywords).mapValues pruneMember

def pruneKind (key : String) (v : Json) : Json :=
  (FacetKind.ofToken? key).elim v fun kind => v.pruneBody kind

def pruneFacet : Json → Json := mapValues pruneKind

def pruneSection (key : String) (v : Json) : Json :=
  if key = Section.facets.token then v.mapElems pruneFacet else v

/-- A request document without the entries that are passed over. -/
def pruneRequest : Json → Json := mapValues pruneSection

section WellFormed

theorem wellFormed_keep (keys : List String) (hv : v.WellFormed) : (v.keep keys).WellFormed := by
  cases v with
  | object entries =>
    refine ⟨hv.1.sublist (List.filter_sublist.map _), entriesWellFormed_iff.2 fun e he => ?_⟩
    exact hv.of_mem_entries (List.mem_filter.1 he).1
  | _ => exact hv

theorem wellFormed_mapValues {f : String → Json → Json}
    (hf : ∀ key w, w.WellFormed → (f key w).WellFormed) (hv : v.WellFormed) :
    (v.mapValues f).WellFormed := by
  cases v with
  | object entries =>
    refine ⟨?_, entriesWellFormed_iff.2 (List.forall_mem_map.2 fun e he => ?_)⟩
    · rw [Entries.keys, List.map_map]
      exact hv.1
    · exact hf e.1 e.2 (hv.of_mem_entries he)
  | _ => exact hv

theorem wellFormed_mapElems {f : Json → Json} (hf : ∀ w, w.WellFormed → (f w).WellFormed)
    (hv : v.WellFormed) : (v.mapElems f).WellFormed := by
  cases v with
  | array elems =>
    refine allWellFormed_iff.2 (List.forall_mem_map.2 fun w hw => ?_)
    exact hf w (allWellFormed_iff.1 hv w hw)
  | _ => exact hv

theorem wellFormed_pruneMember (key : String) (v : Json) (hv : v.WellFormed) :
    (v.pruneMember key).WellFormed := by
  rw [pruneMember]
  split
  · exact wellFormed_mapElems (fun _ => wellFormed_keep _) hv
  · split
    · exact wellFormed_mapElems (fun _ => wellFormed_keep _) hv
    · exact hv

theorem wellFormed_pruneKind (key : String) (v : Json) (hv : v.WellFormed) :
    (v.pruneKind key).WellFormed := by
  rw [pruneKind]
  cases FacetKind.ofToken? key with
  | none => exact hv
  | some kind => exact wellFormed_mapValues wellFormed_pruneMember (wellFormed_keep _ hv)

theorem wellFormed_pruneSection (key : String) (v : Json) (hv : v.WellFormed) :
    (v.pruneSection key).WellFormed := by
  rw [pruneSection]
  split
  · exact wellFormed_mapElems (fun _ => wellFormed_mapValues wellFormed_pruneKind) hv
  · exact hv

theorem wellFormed_pruneRequest (hv : v.WellFormed) : v.pruneRequest.WellFormed :=
  wellFormed_mapValues wellFormed_pruneSection hv

end WellFormed

end Json

namespace Entries

theorem get?_filter {keys : List String} (h : key ∈ keys) :
    get? key (entries.filter (·.1 ∈ keys)) = get? key entries := by
  induction entries with
  | nil => rfl
  | cons e rest ih =>
    by_cases he : e.1 ∈ keys
    · rw [List.filter_cons_of_pos (by simpa using he), get?, get?, ih]
    · have hne : e.1 ≠ key := fun heq => he (heq ▸ h)
      rw [List.filter_cons_of_neg (by simpa using he), ih, get?, if_neg hne]

theorem get?_mapValues (f : String → Json → Json) :
    get? key (entries.map fun e => (e.1, f e.1 e.2)) = (get? key entries).map (f key) := by
  induction entries with
  | nil => rfl
  | cons e rest ih =>
    rw [List.map_cons, get?, get?]
    split
    next heq => rw [← heq, Option.map_some]
    next => exact ih

end Entries

namespace Facet

open Json

/-- A reader that looks up some keys of an object reads the same where there are no others. -/
theorem expectObject_keep {α : Type} {construct : String} {keys : List String}
    {readEntries : List (String × Json) → Built α}
    (hread : ∀ entries entries' : List (String × Json),
      (∀ key ∈ keys, Entries.get? key entries' = Entries.get? key entries) →
        readEntries entries' = readEntries entries) (v : Json) :
    ((v.keep keys).expectObject construct >>= readEntries) =
      v.expectObject construct >>= readEntries := by
  cases v with
  | object entries =>
    rw [keep, expectObject_object, ok_bind, expectObject_object, ok_bind]
    exact hread _ _ fun _ => Entries.get?_filter
  | _ => rfl

theorem readRange_pruneRange : ∀ v : Json, readRange v.pruneRange = readRange v :=
  expectObject_keep fun entries entries' hfound => by
    simp only [expectStringAt?, hfound Keyword.rangeFrom (by simp),
      hfound Keyword.rangeTo (by simp)]

theorem readFilter_pruneNamed : ∀ v : Json, readFilter v.pruneNamed = readFilter v :=
  expectObject_keep fun entries entries' hfound => by
    simp only [expectStringAt?, hfound Keyword.name (by simp),
      hfound Section.query.token (by simp)]

/-- A list is read the same if each of its elements is. -/
theorem readListAt_mapElems {α : Type} {entries' : List (String × Json)} {read : Json → Built α}
    {f : Json → Json} (hread : ∀ w, read (f w) = read w)
    (hfound : Entries.get? key entries' = (Entries.get? key entries).map (mapElems f)) :
    readListAt entries' key read = readListAt entries key read := by
  rw [readListAt, readListAt, hfound]
  cases Entries.get? key entries with
  | none => rfl
  | some v =>
    cases v with
    | array elems =>
      have hsame : read ∘ f = read := funext hread
      simp only [Option.map_some, mapElems, expectArray_array, ok_bind, List.mapM_map, hsame]
    | _ => rfl

theorem readBody_pruneBody (name : String) (kind : FacetKind) (v : Json) :
    readBody name kind (v.pruneBody kind) = readBody name kind v := by
  cases v with
  | object entries =>
    -- keys that the kind looks up are found in the rest, with what is left of their values
    have hfound : ∀ key ∈ kind.keywords,
        Entries.get? key ((entries.filter (·.1 ∈ kind.keywords)).map
          fun e => (e.1, pruneMember e.1 e.2)) = (Entries.get? key entries).map (pruneMember key) :=
      fun key hkey => by rw [Entries.get?_mapValues, Entries.get?_filter hkey]
    have hplain : ∀ key ∈ kind.keywords, key ≠ Keyword.ranges → key ≠ Keyword.queryFilters →
        Entries.get? key ((entries.filter (·.1 ∈ kind.keywords)).map
          fun e => (e.1, pruneMember e.1 e.2)) = Entries.get? key entries := by
      intro key hkey hranges hqueries
      have hsame : pruneMember key = id := funext fun w => by
        rw [pruneMember, if_neg hranges, if_neg hqueries, id]
      rw [hfound key hkey, hsame, Option.map_id, id]
    have hfield := hplain Keyword.field (by simp [FacetKind.keywords]) (by decide) (by decide)
    have hnested := hplain Keyword.subobject (by simp [FacetKind.keywords]) (by decide) (by decide)
    rw [pruneBody, keep, mapValues]
    cases kind with
    | terms =>
      have hsize := hplain Keyword.size (by decide) (by decide) (by decide)
      have horder := hplain Keyword.order (by decide) (by decide) (by decide)
      simp only [readBody, expectObject_object, ok_bind, expectStringAt?, readSize, readOrder,
        hfield, hnested, hsize, horder]
    | dateRange =>
      have hformat := hplain Keyword.format (by decide) (by decide) (by decide)
      have hranges := readListAt_mapElems readRange_pruneRange (hfound Keyword.ranges (by decide))
      simp only [readBody, expectObject_object, ok_bind, expectStringAt?, hfield, hnested, hformat,
        hranges]
    | filters =>
      have hqueries :=
        readListAt_mapElems readFilter_pruneNamed (hfound Keyword.queryFilters (by decide))
      simp only [readBody, expectObject_object, ok_bind, expectStringAt?, hfield, hnested, hqueries]
  | _ => rfl

/-- The envelope shows the same kind, with what is left of its body. -/
theorem foldlM_readEntry_pruneKind (shown : Body) :
    (entries.map fun e => (e.1, pruneKind e.1 e.2)).foldlM readEntry
        (shown.map fun s => (s.1, s.2.pruneBody s.1)) =
      (Option.map fun s => (s.1, s.2.pruneBody s.1)) <$> entries.foldlM readEntry shown := by
  induction entries generalizing shown with
  | nil => rfl
  | cons e rest ih =>
    rw [List.map_cons, List.foldlM_cons, List.foldlM_cons, readEntry, readEntry, pruneKind]
    by_cases hname : e.1 = Keyword.name
    · rw [if_pos hname, if_pos hname, ok_bind, ok_bind, ih]
    · rw [if_neg hname, if_neg hname]
      cases hkind : FacetKind.ofToken? e.1 with
      | none => rfl
      | some kind =>
        cases shown with
        | none => exact ih (some (kind, e.2))
        | some s => rfl

theorem read_pruneFacet (v : Json) : read v.pruneFacet = read v := by
  cases v with
  | object entries =>
    have hplain : pruneKind Keyword.name = id := rfl
    have hname : Entries.get? Keyword.name (entries.map fun e => (e.1, pruneKind e.1 e.2)) =
        Entries.get? Keyword.name entries := by
      rw [Entries.get?_mapValues, hplain, Option.map_id, id]
    have hshown : (entries.map fun e => (e.1, pruneKind e.1 e.2)).foldlM readEntry none =
        (Option.map fun s => (s.1, s.2.pruneBody s.1)) <$> entries.foldlM readEntry none :=
      foldlM_readEntry_pruneKind none
    simp only [read, pruneFacet, mapValues, expectObject_object, ok_bind, expectStringAt?, hname,
      hshown]
    refine bind_congr fun name => ?_
    cases entries.foldlM readEntry none with
    | error e => rfl
    | ok shown =>
      cases shown with
      | none => rfl
      | some s => exact readBody_pruneBody _ s.1 s.2
  | _ => rfl

end Facet

namespace Request

open Json

variable {kind : Kind}

theorem readFacets_mapElems (v : Json) : readFacets (v.mapElems pruneFacet) = readFacets v := by
  cases v with
  | array elems =>
    have hsame : (fun facets w => readFacet facets (pruneFacet w)) = readFacet := by
      funext facets w
      rw [readFacet, readFacet, Facet.read_pruneFacet]
    simp only [readFacets, mapElems, expectArray_array, ok_bind, List.foldlM_map, hsame]
  | _ => rfl

theorem get?_pruneSection (s : Section) (hs : s ≠ .facets) :
    Entries.get? s.token (entries.map fun e => (e.1, pruneSection e.1 e.2)) =
      Entries.get? s.token entries := by
  have hplain : pruneSection s.token = id := by
    cases s with
    | facets => exact absurd rfl hs
    | _ => rfl
  rw [Entries.get?_mapValues, hplain, Option.map_id, id]

theorem readSection_pruneSection {α : Type} (s : Section) (hs : s ≠ .facets) (missing : α)
    (read : Json → Built α) :
    readSection (entries.map fun e => (e.1, pruneSection e.1 e.2)) s missing read =
      readSection entries s missing read := by
  rw [readSection, readSection, get?_pruneSection s hs]

theorem readSection_facets_pruneSection :
    readSection (entries.map fun e => (e.1, pruneSection e.1 e.2)) .facets .empty readFacets =
      readSection entries .facets .empty readFacets := by
  rw [readSection, readSection, Entries.get?_mapValues]
  cases Entries.get? Section.facets.token entries with
  | none => rfl
  | some v => exact readFacets_mapElems v

theorem checkSections_pruneSection :
    checkSections kind (entries.map fun e => (e.1, pruneSection e.1 e.2)) =
      checkSections kind entries := by
  rw [checkSections, checkSections, List.find?_map]
  simp only [Function.comp_def]
  cases entries.find? fun e => e.1 ∉ kind.sections.map Section.token <;> rfl

theorem readCore_pruneSection :
    readCore kind (entries.map fun e => (e.1, pruneSection e.1 e.2)) = readCore kind entries := by
  rw [readCore, readCore, readSection_pruneSection _ (by decide),
    readSection_pruneSection _ (by decide), readSection_pruneSection _ (by decide)]

theorem readPayload_pruneSection :
    readPayload kind (entries.map fun e => (e.1, pruneSection e.1 e.2)) =
      readPayload kind entries := by
  cases kind with
  | select =>
    rw [readPayload, readPayload, readSection_pruneSection _ (by decide),
      readSection_facets_pruneSection]
  | insert => rw [readPayload, readPayload, readSection_pruneSection _ (by decide)]
  | update => rw [readPayload, readPayload, readSection_pruneSection _ (by decide)]
  | delete => rfl

/-- Entries that no reader looks up have no say in what is read, nor in why it is not. -/
theorem read_pruneRequest (v : Json) : read kind v.pruneRequest = read kind v := by
  cases v with
  | object entries =>
    rw [pruneRequest, mapValues, read, read, expectObject_object, ok_bind, expectObject_object,
      ok_bind, checkSections_pruneSection, readCore_pruneSection, readPayload_pruneSection]
  | _ => rfl

end Request

namespace Json

theorem elems_mapElems (f : Json → Json) (v : Json) : (v.mapElems f).elems = v.elems.map f := by
  cases v <;> rfl

theorem mapValues_eq_object {f : String → Json → Json} (h : v.mapValues f = .object entries) :
    ∃ before, v = .object before ∧ entries = before.map fun e => (e.1, f e.1 e.2) := by
  cases v with
  | object before => exact ⟨before, rfl, (Json.object.inj h).symm⟩
  | _ => exact absurd h (by simp [mapValues])

theorem exists_of_mapValues {f : String → Json → Json} (h : v.mapValues f = .object entries)
    (entry : (key, w) ∈ entries) : ∃ u, w = f key u := by
  obtain ⟨before, -, rfl⟩ := mapValues_eq_object h
  obtain ⟨e, -, he⟩ := List.mem_map.1 entry
  obtain ⟨rfl, rfl⟩ := Prod.mk.inj he
  exact ⟨e.2, rfl⟩

theorem mem_keys_of_keep {keys : List String} (h : v.keep keys = .object entries) :
    ∀ key ∈ Entries.keys entries, key ∈ keys := by
  cases v with
  | object before =>
    obtain rfl := Json.object.inj h
    refine List.forall_mem_map.2 fun e he => ?_
    exact of_decide_eq_true (List.mem_filter.1 he).2
  | _ => exact absurd h (by simp [keep])

end Json

namespace Vocabulary

variable {c d : Vocabulary} {found : List (String × Json)} {u : Json}

/-- What is left of a document of some vocabulary. -/
def prune : Vocabulary → Json → Json
  | request _ => Json.pruneRequest
  | facet => Json.pruneFacet
  | facetBody kind => Json.pruneBody kind
  | dateRange => Json.pruneRange
  | namedQuery => Json.pruneNamed
  | query | bounds | filter _ | projection | slice | action | each => id

theorem exists_prune_of_elems {f : Json → Json} (hw : w ∈ (v.mapElems f).elems) :
    ∃ u, w = f u := by
  rw [Json.elems_mapElems] at hw
  obtain ⟨u, -, rfl⟩ := List.mem_map.1 hw
  exact ⟨u, rfl⟩

/-- What stands in what is left of a document is what is left of something. -/
theorem exists_prune_of_members (h : c.prune u = .object entries) (entry : (key, v) ∈ entries)
    (member : (d, w) ∈ c.members key v) : ∃ u, w = d.prune u := by
  cases c with
  | request kind =>
    obtain ⟨u, rfl⟩ := Json.exists_of_mapValues h entry
    obtain ⟨s, hs, hmem⟩ := mem_elim.1 member
    have hkey : s.token = key := by simpa using List.find?_some hs
    cases s with
    | facets =>
      obtain ⟨rfl, hw⟩ := mem_map_pair.1 hmem
      rw [Json.pruneSection, if_pos hkey.symm] at hw
      exact exists_prune_of_elems hw
    | query | action =>
      obtain ⟨rfl, -⟩ := mem_map_pair.1 hmem
      exact ⟨w, rfl⟩
    | filter | projection =>
      obtain ⟨rfl, -⟩ := Prod.mk.inj (List.mem_singleton.1 hmem)
      exact ⟨w, rfl⟩
    | roots | data => exact absurd hmem List.not_mem_nil
  | query =>
    obtain ⟨operator, -, hmem⟩ := mem_elim.1 member
    match operator with
    | .junction _ | .test .range =>
      obtain ⟨rfl, -⟩ := mem_map_pair.1 hmem
      exact ⟨w, rfl⟩
  | projection =>
    obtain ⟨-, hmem⟩ := List.mem_ite_nil_right.1 member
    obtain ⟨rfl, -⟩ := mem_map_pair.1 hmem
    exact ⟨w, rfl⟩
  | facet =>
    obtain ⟨u, rfl⟩ := Json.exists_of_mapValues h entry
    obtain ⟨kind, hkind, hmem⟩ := mem_elim.1 member
    obtain ⟨rfl, rfl⟩ := Prod.mk.inj (List.mem_singleton.1 hmem)
    exact ⟨u, by rw [Json.pruneKind, hkind]; rfl⟩
  | facetBody kind =>
    obtain ⟨u, rfl⟩ := Json.exists_of_mapValues h entry
    cases kind with
    | terms => exact absurd member List.not_mem_nil
    | dateRange =>
      obtain ⟨rfl, hmem⟩ := List.mem_ite_nil_right.1 member
      obtain ⟨rfl, hw⟩ := mem_map_pair.1 hmem
      exact exists_prune_of_elems hw
    | filters =>
      obtain ⟨rfl, hmem⟩ := List.mem_ite_nil_right.1 member
      obtain ⟨rfl, hw⟩ := mem_map_pair.1 hmem
      exact exists_prune_of_elems hw
  | namedQuery =>
    obtain ⟨-, hmem⟩ := List.mem_ite_nil_right.1 member
    obtain ⟨rfl, -⟩ := Prod.mk.inj (List.mem_singleton.1 hmem)
    exact ⟨w, rfl⟩
  | action =>
    obtain ⟨operator, -, hmem⟩ := mem_elim.1 member
    match operator with
    | .push | .add | .pull =>
      obtain ⟨rfl, -⟩ := mem_map_pair.1 hmem
      exact ⟨w, rfl⟩
  | bounds | filter | slice | dateRange | each => exact absurd member List.not_mem_nil

/-- Nothing is left but what is looked up. -/
theorem admits_of_prune (h : c.prune u = .object entries) (hc : ¬ c.IsChecked) :
    c.Admits (Entries.keys entries) := by
  cases c with
  | facetBody kind =>
    obtain ⟨before, hkept, rfl⟩ := Json.mapValues_eq_object h
    rw [Entries.keys, List.map_map]
    exact Json.mem_keys_of_keep hkept
  | dateRange => exact fun key hkey => List.mem_pair.1 (Json.mem_keys_of_keep h key hkey)
  | namedQuery => exact fun key hkey => List.mem_pair.1 (Json.mem_keys_of_keep h key hkey)
  | _ => exact absurd trivial hc

theorem Occurs.admits_of_prune (h : Occurs c v d found) (hv : ∃ u, c.prune u = v)
    (hd : ¬ d.IsChecked) : d.Admits (Entries.keys found) := by
  induction h with
  | here =>
    obtain ⟨u, hu⟩ := hv
    exact Vocabulary.admits_of_prune hu hd
  | member entry member inside ih =>
    obtain ⟨u, hu⟩ := hv
    obtain ⟨u', hu'⟩ := exists_prune_of_members hu entry member
    exact ih ⟨u', hu'.symm⟩ hd

end Vocabulary

namespace Request

open Vocabulary

variable {kind : Kind} {r : Request}

theorem admits_of_read (hv : v.WellFormed) (h : read kind v = .ok r) {c : Vocabulary}
    (hoccurs : Occurs (.request kind) v c entries) (hc : c.IsChecked) :
    c.Admits (Entries.keys entries) :=
  admits_of_fits hc (hoccurs.fits hv (isRequest_of_read hv h))

/-- In an accepted document all keys are keywords of their objects, at whatever depth, but for those
that a facet with its ranges and named queries has beside the ones that are looked up. Without these
there are none left, and the request is the same with any others in their place. -/
theorem keywords_of_read (hv : v.WellFormed) (h : read kind v = .ok r) :
    (∀ c entries, Occurs (.request kind) v c entries → c.IsChecked →
      c.Admits (Entries.keys entries)) ∧
    (∀ c entries, Occurs (.request kind) v.pruneRequest c entries →
      c.Admits (Entries.keys entries)) ∧
    ∀ w : Json, w.pruneRequest = v.pruneRequest → read kind w = .ok r := by
  have hprune : read kind v.pruneRequest = .ok r := (read_pruneRequest v).trans h
  refine ⟨fun c entries hoccurs hc => admits_of_read hv h hoccurs hc, ?_, fun w hw => ?_⟩
  · intro c entries hoccurs
    by_cases hc : c.IsChecked
    · exact admits_of_read (Json.wellFormed_pruneRequest hv) hprune hoccurs hc
    · exact hoccurs.admits_of_prune ⟨v, rfl⟩ hc
  · rw [← read_pruneRequest w, hw, hprune]

/-- Counts the units of a period by their dates. -/
def period (range : List (String × Json)) : Json :=
  .single Section.facets.token (.array [.object
    [(Keyword.name, .string "period"), (FacetKind.dateRange.token, .object (dated range))]])
where
  dated (range : List (String × Json)) : List (String × Json) :=
    [(Keyword.ranges, .array [.object range]), (Keyword.field, .string "Date"),
      (Keyword.format, .string "yyyy")]

theorem occurs_period (range : List (String × Json)) :
    Occurs (.request .select) (period range) .dateRange range := by
  have hbody : Occurs (.facetBody .dateRange) (.object (period.dated range)) .dateRange range := by
    refine .member List.mem_cons_self ?_ .here
    rw [members, if_pos rfl]
    exact List.mem_singleton_self _
  have hfacet : Occurs .facet (.object [(Keyword.name, .string "period"),
      (FacetKind.dateRange.token, .object (period.dated range))]) .dateRange range :=
    .member (List.mem_cons_of_mem _ (List.mem_singleton_self _)) (List.mem_singleton_self _) hbody
  exact .member (List.mem_singleton_self _) (List.mem_singleton_self _) hfacet

/-- The first half of a century, but for a slip in the keyword of its end. -/
def openCentury : List (String × Json) :=
  [(Keyword.rangeFrom, .string "1900"), ("$too", .string "1950")]

theorem wellFormed_openCentury : (period openCentury).WellFormed := by
  have hfacet : Keyword.name ≠ FacetKind.dateRange.token := by decide
  have hbody : (Keyword.ranges ≠ Keyword.field ∧ Keyword.ranges ≠ Keyword.format) ∧
      Keyword.field ≠ Keyword.format := by decide
  have hrange : Keyword.rangeFrom ≠ "$too" := by decide
  simp [period, period.dated, openCentury, Json.single, Json.WellFormed, Json.AllWellFormed,
    Json.EntriesWellFormed, hfacet, hbody, hrange]

/-- The end that is not recognized might as well be missing. -/
theorem keywords_of_read_openCentury : (period openCentury).WellFormed ∧
    ∃ r, read .select (period openCentury) = .ok r ∧
      read .select (period [(Keyword.rangeFrom, .string "1900")]) = .ok r := by
  obtain ⟨r, h⟩ : ∃ r, read .select (period openCentury) = .ok r := ⟨_, rfl⟩
  exact ⟨wellFormed_openCentury, r, h, (keywords_of_read wellFormed_openCentury h).2.2 _ rfl⟩

/-- A document is accepted though a range of dates in it has a key that is no keyword. -/
theorem openCentury_not_admitted : (period openCentury).WellFormed ∧
    (∃ r, read .select (period openCentury) = .ok r) ∧
    Occurs (.request .select) (period openCentury) .dateRange openCentury ∧
    ¬ Vocabulary.dateRange.Admits (Entries.keys openCentury) := by
  refine ⟨wellFormed_openCentury, ⟨_, rfl⟩, occurs_period openCentury, fun hadmits => ?_⟩
  exact absurd (hadmits "$too" (by decide)) (by decide)

end Request

end Fonds
