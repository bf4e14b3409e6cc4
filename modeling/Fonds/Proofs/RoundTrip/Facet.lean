import Fonds.Facet.Printer
import Fonds.Facet.Reader
import Fonds.Proofs.RoundTrip.Query

/-!
Facets come out of their documents as they went in. The keys of a body are looked up by name, so
each part is found where the writer put it and what the kind does not have is missed.
-/
namespace Fonds

theorem FacetField.build_text (construct : String) (source : FacetField) :
    build construct source.field.text (source.nested.map Name.text) = .ok source := by
  obtain ⟨field, nested⟩ := source
  cases nested with
  | none => simp only [build, Name.build_text, ok_bind, Option.map_none]
  | some path => simp only [build, Name.build_text, ok_bind, Option.map_some]

namespace Facet

theorem buildName_text (name : NonBlank) : buildName name.text = .ok name :=
  NonBlank.build_text _ _ name

theorem readRange_toJson (r : DateRange) : readRange r.toJson = .ok r := by
  cases r <;> rfl

theorem readFilter_filterToJson (filter : NonBlank × Query) :
    readFilter (FacetBody.filterToJson filter) = .ok (filter.1.text, filter.2) := by
  have hname : Json.expectStringAt? Keyword.queryFilters
      [(Keyword.name, .string filter.1.text), (Section.query.token, filter.2.toJson)]
      Keyword.name = .ok (some filter.1.text) := rfl
  have hquery : Entries.get? Section.query.token
      [(Keyword.name, .string filter.1.text), (Section.query.token, filter.2.toJson)] =
        some filter.2.toJson := rfl
  rw [readFilter, FacetBody.filterToJson, Json.expectObject_object, ok_bind, hname, ok_bind, hquery]
  simp only [Query.read_toJson, ok_bind, Option.getD_some]

/-- What is listed under a key is read in order. -/
theorem readListAt_of_get? {α β : Type} {entries : List (String × Json)} {key : String}
    {l : List α} {write : α → Json} {read : Json → Built β} {view : α → β}
    (hkey : Entries.get? key entries = some (.array (l.map write)))
    (h : ∀ a, read (write a) = .ok (view a)) : readListAt entries key read = .ok (l.map view) := by
  rw [readListAt, hkey]
  simp only [Json.expectArray_array, ok_bind]
  exact mapM_map_eq_ok fun a _ => h a

/-- A named query finds its name free. -/
theorem foldlM_addFilter (queries : OrderedMap NonBlank Query) :
    (queries.entries.map fun e => (e.1.text, e.2)).foldlM addFilter .empty = .ok queries := by
  refine queries.foldlM_entries id fun known e hnew => ?_
  have hnone : known.get? e.1 = none := Entries.get?_eq_none hnew
  simp [addFilter, hnone]

theorem readBody_terms (name : NonBlank) (source : FacetField) (size : UInt32)
    (positive : 0 < size.toNat) (order : BucketOrder) :
    readBody name.text .terms (.object (FacetBody.terms source size positive order).entries) =
      .ok ⟨name, .terms source size positive order⟩ := by
  have hlt := size.toNat_lt_size
  obtain ⟨m, hm, htoInt⟩ : ∃ m : Int64,
      Json.expectInt64 Keyword.size (.ofNat size.toNat) = .ok m ∧ m.toInt = size.toNat :=
    Json.expectInt64_of_natAbs_lt hlt
  have hfits : 0 < m.toInt ∧ m.toInt < UInt32.size := by omega
  have hback : UInt32.ofNat m.toInt.toNat = size := by
    rw [htoInt, Int.toNat_natCast, UInt32.ofNat_toNat]
  have hfield : Json.expectStringAt? FacetKind.terms.token
      (FacetBody.terms source size positive order).entries Keyword.field =
        .ok (some source.field.text) := rfl
  have hnested : Json.expectStringAt? FacetKind.terms.token
      (FacetBody.terms source size positive order).entries Keyword.subobject =
        .ok (source.nested.map Name.text) := by
    obtain ⟨field, nested⟩ := source
    cases nested <;> rfl
  have hsize : readSize (FacetBody.terms source size positive order).entries = .ok m := hm
  have horder : readOrder (FacetBody.terms source size positive order).entries =
      .ok (some order) := by
    cases order <;> rfl
  rw [readBody, Json.expectObject_object, ok_bind, hfield, ok_bind, hnested, ok_bind]
  simp only [Option.getD_some, hsize, horder, ok_bind, terms, buildName_text,
    FacetField.build_text, dif_pos hfits, hback]

theorem readBody_dateRange (name : NonBlank) (source : FacetField) (format : NonBlank)
    (ranges : NonEmpty DateRange) :
    readBody name.text .dateRange (.object (FacetBody.dateRange source format ranges).entries) =
      .ok ⟨name, .dateRange source format ranges⟩ := by
  have hfield : Json.expectStringAt? FacetKind.dateRange.token
      (FacetBody.dateRange source format ranges).entries Keyword.field =
        .ok (some source.field.text) := rfl
  have hnested : Json.expectStringAt? FacetKind.dateRange.token
      (FacetBody.dateRange source format ranges).entries Keyword.subobject =
        .ok (source.nested.map Name.text) := by
    obtain ⟨field, nested⟩ := source
    cases nested <;> rfl
  have hformat : Json.expectStringAt? FacetKind.dateRange.token
      (FacetBody.dateRange source format ranges).entries Keyword.format =
        .ok (some format.text) := rfl
  have hranges : readListAt (FacetBody.dateRange source format ranges).entries Keyword.ranges
      readRange = .ok (ranges.toList.map id) :=
    readListAt_of_get? rfl readRange_toJson
  rw [readBody, Json.expectObject_object, ok_bind, hfield, ok_bind, hnested, ok_bind]
  simp only [hformat, hranges, ok_bind, Option.getD_some, List.map_id, dateRange, buildName_text,
    FacetField.build_text, NonBlank.build_text, NonEmpty.ofList?_toList]

theorem readBody_filters (name : NonBlank) (queries : OrderedMap NonBlank Query)
    (nonempty : queries.entries ≠ []) :
    readBody name.text .filters (.object (FacetBody.filters queries nonempty).entries) =
      .ok ⟨name, .filters queries nonempty⟩ := by
  have hfield : Json.expectStringAt? FacetKind.filters.token
      (FacetBody.filters queries nonempty).entries Keyword.field = .ok none := rfl
  have hnested : Json.expectStringAt? FacetKind.filters.token
      (FacetBody.filters queries nonempty).entries Keyword.subobject = .ok none := rfl
  have hqueries : readListAt (FacetBody.filters queries nonempty).entries Keyword.queryFilters
      readFilter = .ok (queries.entries.map fun e => (e.1.text, e.2)) :=
    readListAt_of_get? rfl readFilter_filterToJson
  rw [readBody, Json.expectObject_object, ok_bind, hfield, ok_bind, hnested, ok_bind]
  simp only [hqueries, ok_bind, filters, buildName_text, foldlM_addFilter, dif_neg nonempty]

theorem readBody_entries (name : NonBlank) (body : FacetBody) :
    readBody name.text body.kind (.object body.entries) = .ok ⟨name, body⟩ := by
  cases body with
  | terms source size positive order => exact readBody_terms name source size positive order
  | dateRange source format ranges => exact readBody_dateRange name source format ranges
  | filters queries nonempty => exact readBody_filters name queries nonempty

/-- A facet is read back from its document: the name is passed over where the kind is looked for. -/
theorem read_toJson (f : Facet) : read f.toJson = .ok f := by
  have hname : Json.expectStringAt? Keyword.name
      [(Keyword.name, .string f.name.text), (f.kind.token, .object f.body.entries)] Keyword.name =
        .ok (some f.name.text) := rfl
  have hkind : ([(Keyword.name, .string f.name.text), (f.kind.token, .object f.body.entries)] :
      List (String × Json)).foldlM readEntry none = .ok (some (f.kind, .object f.body.entries)) := by
    cases f.kind <;> rfl
  rw [read, toJson, Json.expectObject_object, ok_bind, hname, ok_bind, hkind, ok_bind]
  exact readBody_entries f.name f.body

end Facet

end Fonds
