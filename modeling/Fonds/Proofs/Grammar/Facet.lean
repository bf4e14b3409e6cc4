import Fonds.Facet.Reader
import Fonds.Proofs.Grammar.Accepted
import Fonds.Proofs.Grammar.Lookup

/-!
Reading facets. The envelope shows a kind with its body, whatever the order of its entries; what the
body has to hold depends on the kind.
-/
namespace Fonds

theorem FacetKind.ofToken?_eq_some_iff {token : String} {k : FacetKind} :
    ofToken? token = some k ↔ token = k.token :=
  find?_token_eq_some_iff ofToken?_token

theorem BucketOrder.ofToken?_eq_some_iff {token : String} {o : BucketOrder} :
    ofToken? token = some o ↔ token = o.token :=
  find?_token_eq_some_iff ofToken?_token

variable {entries : List (String × Json)} {v : Json} {name field : String} {nested : Option String}

namespace FacetField

/-- Whether a field can be built. -/
def Buildable (field : String) (nested : Option String) : Prop :=
  ¬ Text.Blank field ∧ ∀ path ∈ nested, ¬ Text.Blank path

theorem exists_build_iff (construct : String) :
    (∃ source, build construct field nested = .ok source) ↔ Buildable field nested := by
  rw [build, exists_bind_eq_ok, Buildable, ← Name.exists_build_iff construct]
  cases nested with
  | none => simp
  | some path =>
    simp only [exists_bind_ok_eq_ok, Name.exists_build_iff, exists_and_right, Option.mem_def,
      Option.some.injEq, forall_eq']

theorem given_iff (h : (Entries.keys entries).Nodup) :
    Given entries ↔ ∃ field nested : Option String,
      Entries.get? Keyword.field entries = field.map .string ∧
        Entries.get? Keyword.subobject entries = nested.map .string ∧
          Buildable (field.getD "") nested := by
  constructor
  · rintro ⟨hfield, hnested⟩
    obtain ⟨field, hget, hfield⟩ := (Entries.requires_isNonBlank_iff h).1 hfield
    obtain ⟨nested, hget', hnested⟩ := (Entries.allows_isText_iff h).1 hnested
    exact ⟨field, nested, hget, hget', hfield, hnested⟩
  · rintro ⟨field, nested, hget, hget', hfield, hnested⟩
    exact ⟨(Entries.requires_isNonBlank_iff h).2 ⟨field, hget, hfield⟩,
      (Entries.allows_isText_iff h).2 ⟨nested, hget', hnested⟩⟩

end FacetField

namespace Facet

variable {kind : FacetKind} {body : Json}

theorem token_ne_name (kind : FacetKind) : kind.token ≠ Keyword.name := by
  cases kind <;> decide

/-- What one more entry shows: a name, or the one kind. -/
theorem readEntry_eq_ok_iff {shown shown' : Body} {e : String × Json} :
    readEntry shown e = .ok shown' ↔ (e.1 = Keyword.name ∧ shown' = shown) ∨
      ∃ kind : FacetKind, e.1 = kind.token ∧ shown = none ∧ shown' = some (kind, e.2) := by
  rw [readEntry]
  constructor
  · intro h
    split at h
    next hname => exact .inl ⟨hname, (Except.ok.inj h).symm⟩
    next =>
      split at h
      next => exact absurd h (by simp)
      next kind hkind =>
        split at h
        next => exact absurd h (by simp)
        next hnone =>
          exact .inr ⟨kind, FacetKind.ofToken?_eq_some_iff.1 hkind, by simpa using hnone,
            (Except.ok.inj h).symm⟩
  · rintro (⟨hname, rfl⟩ | ⟨kind, htoken, rfl, rfl⟩)
    · rw [if_pos hname]
    · rw [htoken, if_neg (token_ne_name kind), FacetKind.ofToken?_token]
      rfl

/-- After the kind there can only be a name. -/
theorem foldlM_readEntry_some_iff {shown : FacetKind × Json} {shown' : Body} :
    entries.foldlM readEntry (some shown) = .ok shown' ↔
      (∀ e ∈ entries, e.1 = Keyword.name) ∧ shown' = some shown := by
  induction entries with
  | nil => simp [Pure.pure, Except.pure, eq_comm]
  | cons e rest ih =>
    rw [foldlM_cons_eq_ok, List.forall_mem_cons]
    constructor
    · rintro ⟨next, hnext, hrest⟩
      rcases readEntry_eq_ok_iff.1 hnext with ⟨hname, rfl⟩ | ⟨_, _, hnone, _⟩
      · obtain ⟨hall, hshown⟩ := ih.1 hrest
        exact ⟨⟨hname, hall⟩, hshown⟩
      · exact absurd hnone (by simp)
    · rintro ⟨⟨hname, hall⟩, hshown⟩
      exact ⟨some shown, readEntry_eq_ok_iff.2 (.inl ⟨hname, rfl⟩), ih.2 ⟨hall, hshown⟩⟩

/-- The envelope shows the kind that heads its entries. -/
theorem foldlM_readEntry_eq_ok_iff (hentries : (Entries.keys entries).Nodup) :
    entries.foldlM readEntry none = .ok (some (kind, body)) ↔ Headed entries kind body := by
  induction entries with
  | nil => exact ⟨fun h => absurd (Except.ok.inj h) (by simp), fun h => absurd h.written (by simp)⟩
  | cons e rest ih =>
    obtain ⟨hfirst, hrest⟩ := List.nodup_cons.1 hentries
    rw [foldlM_cons_eq_ok]
    constructor
    · rintro ⟨shown, hstep, h⟩
      rcases readEntry_eq_ok_iff.1 hstep with ⟨hname, rfl⟩ | ⟨kind', htoken, -, rfl⟩
      · obtain ⟨written, known⟩ := (ih hrest).1 h
        refine ⟨List.mem_cons_of_mem e written, ?_⟩
        rw [Entries.keys_cons, List.forall_mem_cons]
        exact ⟨.inl hname, known⟩
      · obtain ⟨hall, hshown⟩ := foldlM_readEntry_some_iff.1 h
        obtain ⟨rfl, rfl⟩ := Prod.mk.inj (Option.some.inj hshown)
        refine ⟨htoken ▸ List.mem_cons_self, ?_⟩
        rw [Entries.keys_cons, List.forall_mem_cons]
        refine ⟨.inr htoken, fun key hkey => ?_⟩
        obtain ⟨e', he', rfl⟩ := List.mem_map.1 hkey
        exact .inl (hall e' he')
    · rintro ⟨written, known⟩
      rw [Entries.keys_cons, List.forall_mem_cons] at known
      rcases List.mem_cons.1 written with rfl | hlater
      · refine ⟨some (kind, body), readEntry_eq_ok_iff.2 (.inr ⟨kind, rfl, rfl, rfl⟩), ?_⟩
        refine foldlM_readEntry_some_iff.2 ⟨fun e' he' => ?_, rfl⟩
        have hkey : e'.1 ∈ Entries.keys rest := List.mem_map_of_mem he'
        exact (known.2 e'.1 hkey).resolve_right fun heq => hfirst (heq ▸ hkey)
      · have hkey : kind.token ∈ Entries.keys rest := List.mem_map_of_mem hlater
        have hname : e.1 = Keyword.name := known.1.resolve_right fun heq => hfirst (heq ▸ hkey)
        exact ⟨none, readEntry_eq_ok_iff.2 (.inl ⟨hname, rfl⟩), (ih hrest).2 ⟨hlater, known.2⟩⟩

theorem exists_buildName_iff : (∃ n, buildName name = .ok n) ↔ ¬ Text.Blank name :=
  NonBlank.exists_build_iff _ _

theorem exists_terms_iff {size : Int64} {order : Option BucketOrder} :
    (∃ f, terms name field nested size order = .ok f) ↔
      ¬ Text.Blank name ∧ FacetField.Buildable field nested ∧
        (1 ≤ size.toInt ∧ size.toInt ≤ 2 ^ 32 - 1) ∧ order.isSome := by
  have hsize : (0 < size.toInt ∧ size.toInt < UInt32.size) ↔
      (1 ≤ size.toInt ∧ size.toInt ≤ 2 ^ 32 - 1) := by
    have hword : (UInt32.size : Int) = 2 ^ 32 := rfl
    omega
  rw [← hsize, ← exists_buildName_iff, ← FacetField.exists_build_iff FacetKind.terms.token]
  constructor
  · rintro ⟨f, h⟩
    obtain ⟨n, hn, h⟩ := bind_eq_ok.1 h
    obtain ⟨source, hsource, h⟩ := bind_eq_ok.1 h
    split at h
    next hbounds =>
      cases order with
      | none => exact absurd h (by simp)
      | some order => exact ⟨⟨n, hn⟩, ⟨source, hsource⟩, hbounds, rfl⟩
    next => exact absurd h (by simp)
  · rintro ⟨⟨n, hn⟩, ⟨source, hsource⟩, hbounds, horder⟩
    obtain ⟨order, rfl⟩ := Option.isSome_iff_exists.1 horder
    exact ⟨_, by rw [terms, hn, ok_bind, hsource, ok_bind, dif_pos hbounds]⟩

theorem exists_dateRange_iff {format : String} {ranges : List DateRange} :
    (∃ f, dateRange name field nested format ranges = .ok f) ↔
      ¬ Text.Blank name ∧ FacetField.Buildable field nested ∧
        ¬ Text.Blank format ∧ ranges ≠ [] := by
  rw [← exists_buildName_iff, ← FacetField.exists_build_iff FacetKind.dateRange.token,
    ← NonBlank.exists_build_iff Keyword.format .emptyDateFormat]
  constructor
  · rintro ⟨f, h⟩
    obtain ⟨n, hn, h⟩ := bind_eq_ok.1 h
    obtain ⟨source, hsource, h⟩ := bind_eq_ok.1 h
    obtain ⟨format, hformat, h⟩ := bind_eq_ok.1 h
    refine ⟨⟨n, hn⟩, ⟨source, hsource⟩, ⟨format, hformat⟩, ?_⟩
    rintro rfl
    exact absurd h (by simp [NonEmpty.ofList?])
  · rintro ⟨⟨n, hn⟩, ⟨source, hsource⟩, ⟨format, hformat⟩, hranges⟩
    obtain ⟨first, rest, rfl⟩ := List.exists_cons_of_ne_nil hranges
    exact ⟨_, by rw [dateRange, hn, ok_bind, hsource, ok_bind, hformat, ok_bind]; rfl⟩

/-- The entry that a named query makes. -/
def labelled (filter : String × Query) : Built (NonBlank × Query) := do
  let name ← NonBlank.build Keyword.queryFilters .emptyFilterName filter.1
  .ok (name, filter.2)

theorem addFilter_eq_ok_iff (known : OrderedMap NonBlank Query) (filter : String × Query)
    (m : OrderedMap NonBlank Query) : addFilter known filter = .ok m ↔
      ∃ e, labelled filter = .ok e ∧ e.1 ∉ known.keys ∧ m = known.insert e.1 e.2 := by
  simp only [addFilter, labelled, bind_eq_ok]
  constructor
  · rintro ⟨name, hname, h⟩
    split at h
    next => exact absurd h (by simp)
    next hnew =>
      rw [OrderedMap.get?, Entries.isSome_get?_iff] at hnew
      exact ⟨(name, filter.2), ⟨name, hname, rfl⟩, hnew, (Except.ok.inj h).symm⟩
  · rintro ⟨e, ⟨name, hname, he⟩, hnew, rfl⟩
    obtain rfl := Except.ok.inj he
    refine ⟨name, hname, if_neg ?_⟩
    rwa [OrderedMap.get?, Entries.isSome_get?_iff]

theorem exists_filters_iff {queries : List (String × Query)} :
    (∃ f, filters name queries = .ok f) ↔ ¬ Text.Blank name ∧
      ∃ known : OrderedMap NonBlank Query,
        queries.mapM labelled = .ok known.entries ∧ known.entries ≠ [] := by
  rw [← exists_buildName_iff]
  simp only [← OrderedMap.foldlM_eq_ok_iff addFilter_eq_ok_iff]
  constructor
  · rintro ⟨f, h⟩
    obtain ⟨n, hn, h⟩ := bind_eq_ok.1 h
    obtain ⟨known, hknown, h⟩ := bind_eq_ok.1 h
    split at h
    next => exact absurd h (by simp)
    next hne => exact ⟨⟨n, hn⟩, known, hknown, hne⟩
  · rintro ⟨⟨n, hn⟩, known, hknown, hne⟩
    exact ⟨_, by rw [filters, hn, ok_bind, hknown, ok_bind, dif_neg hne]⟩

section Bodies

theorem requires_size_iff (h : (Entries.keys entries).Nodup) :
    Entries.Requires entries Keyword.size (Json.IsIntegerIn 1 (2 ^ 32 - 1)) ↔
      ∃ n, readSize entries = .ok n ∧ 1 ≤ n.toInt ∧ n.toInt ≤ 2 ^ 32 - 1 := by
  rw [Entries.requires_iff h, readSize]
  cases Entries.get? Keyword.size entries with
  | none => simp
  | some v => simp [← Json.exists_expectInt64_iff Keyword.size]

theorem requires_order_iff (h : (Entries.keys entries).Nodup) :
    (Entries.Requires entries Keyword.order fun v =>
      ∃ order : BucketOrder, v = .string order.token) ↔
      ∃ order, readOrder entries = .ok order ∧ order.isSome := by
  rw [Entries.requires_iff h]
  constructor
  · rintro ⟨_, hv, order, rfl⟩
    have hread : Json.expectStringAt? FacetKind.terms.token entries Keyword.order =
        .ok (some order.token) := Json.expectStringAt?_eq_ok_iff.2 hv
    exact ⟨some order, by simp [readOrder, hread], rfl⟩
  · rintro ⟨order, h, hsome⟩
    obtain ⟨token, htoken, h⟩ := bind_eq_ok.1 h
    rw [Json.expectStringAt?_eq_ok_iff] at htoken
    cases token with
    | none =>
      obtain rfl := Except.ok.inj h
      exact absurd hsome (by simp)
    | some token =>
      cases horder : BucketOrder.ofToken? token with
      | none => exact absurd h (by simp [horder])
      | some known =>
        obtain rfl := BucketOrder.ofToken?_eq_some_iff.1 horder
        exact ⟨_, htoken, known, rfl⟩

theorem exists_readRange_iff (hv : v.WellFormed) : (∃ r, readRange v = .ok r) ↔ IsDateRange v := by
  have hbuild : ∀ start stop, (∃ r, DateRange.build start stop = .ok r) ↔
      start.isSome ∨ stop.isSome := by
    intro start stop
    cases start <;> cases stop <;> simp [DateRange.build]
  simp only [readRange, exists_bind_eq_ok, Json.expectObject_eq_ok_iff, IsDateRange, hbuild,
    Json.expectStringAt?_eq_ok_iff]
  refine exists_congr fun entries => and_congr_right ?_
  rintro rfl
  rw [Json.IsAnyText, Entries.allows_isText_iff hv.1, Entries.allows_isText_iff hv.1,
    ← Entries.isSome_get?_iff, ← Entries.isSome_get?_iff]
  constructor
  · rintro ⟨start, hstart, stop, hstop, hends⟩
    exact ⟨⟨start, hstart, by simp⟩, ⟨stop, hstop, by simp⟩, by simpa [hstart, hstop] using hends⟩
  · rintro ⟨⟨start, hstart, -⟩, ⟨stop, hstop, -⟩, hends⟩
    exact ⟨start, hstart, stop, hstop, by simpa [hstart, hstop] using hends⟩

theorem labelled_eq_ok_iff {filter : String × Query} {e : NonBlank × Query} :
    labelled filter = .ok e ↔ filter.1 = e.1.text ∧ filter.2 = e.2 := by
  simp only [labelled, bind_eq_ok, NonBlank.build_eq_ok_iff]
  constructor
  · rintro ⟨name, hname, h⟩
    obtain rfl := Except.ok.inj h
    exact ⟨hname, rfl⟩
  · rintro ⟨hname, hquery⟩
    exact ⟨e.1, hname, by rw [hquery]⟩

/-- A query that is read under its name. -/
theorem labelled_readFilter_eq_ok_iff {e : NonBlank × Query} :
    (readFilter v >>= labelled) = .ok e ↔ ∃ entries w, v = .object entries ∧
      Entries.get? Keyword.name entries = some (.string e.1.text) ∧
        Entries.get? Section.query.token entries = some w ∧ Query.read w = .ok e.2 := by
  simp only [bind_eq_ok, labelled_eq_ok_iff, readFilter, Json.expectObject_eq_ok_iff,
    Json.expectStringAt?_eq_ok_iff]
  constructor
  · rintro ⟨filter, ⟨entries, rfl, name, hname, h⟩, hlabel, hquery⟩
    split at h
    next => exact absurd h (by simp)
    next w hw =>
      obtain ⟨q, hq, h⟩ := bind_eq_ok.1 h
      obtain rfl := Except.ok.inj h
      refine ⟨entries, w, rfl, ?_, hw, hquery ▸ hq⟩
      cases name with
      | none => exact absurd (hlabel ▸ (by decide : Text.Blank "")) e.1.not_blank
      | some s => rw [hname, ← hlabel]; rfl
  · rintro ⟨entries, w, rfl, hname, hw, hq⟩
    refine ⟨(e.1.text, e.2), ⟨entries, rfl, some e.1.text, hname, ?_⟩, rfl, rfl⟩
    simp [hw, hq]

theorem exists_labelled_readFilter_iff (hv : v.WellFormed) :
    (∃ e, (readFilter v >>= labelled) = .ok e) ↔ IsNamedQuery v := by
  simp only [labelled_readFilter_eq_ok_iff, IsNamedQuery]
  constructor
  · rintro ⟨e, entries, w, rfl, hname, hw, hq⟩
    have hmem : (Section.query.token, w) ∈ entries := (Entries.get?_eq_some_iff hv.1).1 hw
    exact ⟨entries, rfl, (Entries.requires_iff hv.1).2 ⟨_, hname, _, rfl, e.1.not_blank⟩, w, hmem,
      Query.isQuery_of_read (hv.of_mem_entries hmem) hq⟩
  · rintro ⟨entries, rfl, hname, w, hmem, hquery⟩
    obtain ⟨_, hname, s, rfl, hs⟩ := (Entries.requires_iff hv.1).1 hname
    obtain ⟨q, hq⟩ := Query.exists_read_of_isQuery (hv.of_mem_entries hmem) hquery
    exact ⟨(⟨s, hs⟩, q), entries, w, rfl, hname, (Entries.get?_eq_some_iff hv.1).2 hmem, hq⟩

theorem name?_of_labelled_readFilter (v : Json) (e : NonBlank × Query)
    (h : (readFilter v >>= labelled) = .ok e) : v.name? = some e.1.text := by
  obtain ⟨entries, _, rfl, hname, -⟩ := labelled_readFilter_eq_ok_iff.1 h
  rw [Json.name?, Json.asObject?, Option.bind_some, hname]
  rfl

theorem readListAt_eq_ok_iff {α : Type} {key : String} {read : Json → Built α} {l : List α} :
    readListAt entries key read = .ok l ↔ (Entries.get? key entries = none ∧ l = []) ∨
      ∃ elems, Entries.get? key entries = some (.array elems) ∧ elems.mapM read = .ok l := by
  rw [readListAt]
  cases Entries.get? key entries with
  | none => simp [eq_comm]
  | some v => simp [bind_eq_ok, Json.expectArray_eq_ok_iff]

theorem wellFormed_of_get? {key : String} {elems : List Json}
    (hentries : (Json.object entries).WellFormed)
    (h : Entries.get? key entries = some (.array elems)) : ∀ w ∈ elems, w.WellFormed := by
  have helems : (Json.array elems).WellFormed :=
    hentries.of_mem_entries ((Entries.get?_eq_some_iff hentries.1).1 h)
  exact Json.allWellFormed_iff.1 helems

theorem requires_ranges_iff (hentries : (Json.object entries).WellFormed) :
    Entries.Requires entries Keyword.ranges (Json.IsArrayOf IsDateRange) ↔
      ∃ ranges, readListAt entries Keyword.ranges readRange = .ok ranges ∧ ranges ≠ [] := by
  have hread : ∀ elems, Entries.get? Keyword.ranges entries = some (.array elems) →
      ((∃ ranges, elems.mapM readRange = .ok ranges) ↔ ∀ w ∈ elems, IsDateRange w) := by
    intro elems hget
    rw [exists_mapM_iff]
    exact forall₂_congr fun w hw => exists_readRange_iff (wellFormed_of_get? hentries hget w hw)
  simp only [Entries.requires_iff hentries.1, readListAt_eq_ok_iff]
  constructor
  · rintro ⟨_, hget, elems, rfl, hne, hforms⟩
    obtain ⟨ranges, hranges⟩ := (hread elems hget).2 hforms
    exact ⟨ranges, .inr ⟨elems, hget, hranges⟩, mt (eq_nil_iff_of_mapM hranges).1 hne⟩
  · rintro ⟨ranges, ⟨-, hnil⟩ | ⟨elems, hget, hranges⟩, hne⟩
    · exact absurd hnil hne
    · exact ⟨_, hget, elems, rfl, mt (eq_nil_iff_of_mapM hranges).2 hne,
        (hread elems hget).1 ⟨ranges, hranges⟩⟩

theorem requires_queryFilters_iff (hentries : (Json.object entries).WellFormed) :
    Entries.Requires entries Keyword.queryFilters IsNamedQueries ↔
      ∃ queries, readListAt entries Keyword.queryFilters readFilter = .ok queries ∧
        ∃ known : OrderedMap NonBlank Query,
          queries.mapM labelled = .ok known.entries ∧ known.entries ≠ [] := by
  have hread : ∀ elems, Entries.get? Keyword.queryFilters entries = some (.array elems) →
      ((∃ known : OrderedMap NonBlank Query,
        elems.mapM (fun w => readFilter w >>= labelled) = .ok known.entries ∧ known.entries ≠ []) ↔
          elems ≠ [] ∧ (∀ w ∈ elems, IsNamedQuery w) ∧ (elems.map Json.name?).Nodup) := by
    intro elems hget
    have hwrite := (Option.some_injective String).comp NonBlank.text_injective
    rw [OrderedMap.exists_mapM_entries_iff hwrite name?_of_labelled_readFilter]
    have hforms : (∀ w ∈ elems, ∃ e, (readFilter w >>= labelled) = .ok e) ↔
        ∀ w ∈ elems, IsNamedQuery w := forall₂_congr fun w hw =>
      exists_labelled_readFilter_iff (wellFormed_of_get? hentries hget w hw)
    rw [hforms]
  simp only [Entries.requires_iff hentries.1, readListAt_eq_ok_iff]
  constructor
  · rintro ⟨_, hget, elems, rfl, hforms⟩
    obtain ⟨known, hknown, hne⟩ := (hread elems hget).2 hforms
    obtain ⟨queries, hqueries, hlabels⟩ := exists_mapM_mapM_eq_ok.2 hknown
    exact ⟨queries, .inr ⟨elems, hget, hqueries⟩, known, hlabels, hne⟩
  · rintro ⟨queries, ⟨-, rfl⟩ | ⟨elems, hget, hqueries⟩, known, hknown, hne⟩
    · exact absurd (Except.ok.inj hknown).symm hne
    · have hboth := exists_mapM_mapM_eq_ok.1 ⟨queries, hqueries, hknown⟩
      exact ⟨_, hget, elems, rfl, (hread elems hget).1 ⟨known, hboth, hne⟩⟩

end Bodies

/-- A body is read if and only if it is one of its kind, and the facet has a name. -/
theorem exists_readBody_iff (hv : v.WellFormed) :
    (∃ f, readBody name kind v = .ok f) ↔
      ¬ Text.Blank name ∧ ∃ entries, v = .object entries ∧ kind.Describes entries := by
  cases kind with
  | terms =>
    simp only [readBody, exists_bind_eq_ok, Json.expectObject_eq_ok_iff,
      Json.expectStringAt?_eq_ok_iff, exists_terms_iff]
    constructor
    · rintro ⟨entries, rfl, field, hfield, nested, hnested, size, hsize, order, horder, hname,
        hsource, hbounds, hsome⟩
      exact ⟨hname, entries, rfl,
        (FacetField.given_iff hv.1).2 ⟨field, nested, hfield, hnested, hsource⟩,
        (requires_size_iff hv.1).2 ⟨size, hsize, hbounds⟩,
        (requires_order_iff hv.1).2 ⟨order, horder, hsome⟩⟩
    · rintro ⟨hname, entries, rfl, hgiven, hsize, horder⟩
      obtain ⟨field, nested, hfield, hnested, hsource⟩ := (FacetField.given_iff hv.1).1 hgiven
      obtain ⟨size, hsize, hbounds⟩ := (requires_size_iff hv.1).1 hsize
      obtain ⟨order, horder, hsome⟩ := (requires_order_iff hv.1).1 horder
      exact ⟨entries, rfl, field, hfield, nested, hnested, size, hsize, order, horder, hname,
        hsource, hbounds, hsome⟩
  | dateRange =>
    simp only [readBody, exists_bind_eq_ok, Json.expectObject_eq_ok_iff,
      Json.expectStringAt?_eq_ok_iff, exists_dateRange_iff]
    constructor
    · rintro ⟨entries, rfl, field, hfield, nested, hnested, format, hformat, ranges, hranges, hname,
        hsource, hblank, hne⟩
      exact ⟨hname, entries, rfl,
        (FacetField.given_iff hv.1).2 ⟨field, nested, hfield, hnested, hsource⟩,
        (Entries.requires_isNonBlank_iff hv.1).2 ⟨format, hformat, hblank⟩,
        (requires_ranges_iff hv).2 ⟨ranges, hranges, hne⟩⟩
    · rintro ⟨hname, entries, rfl, hgiven, hformat, hranges⟩
      obtain ⟨field, nested, hfield, hnested, hsource⟩ := (FacetField.given_iff hv.1).1 hgiven
      obtain ⟨format, hformat, hblank⟩ := (Entries.requires_isNonBlank_iff hv.1).1 hformat
      obtain ⟨ranges, hranges, hne⟩ := (requires_ranges_iff hv).1 hranges
      exact ⟨entries, rfl, field, hfield, nested, hnested, format, hformat, ranges, hranges, hname,
        hsource, hblank, hne⟩
  | filters =>
    simp only [readBody, exists_bind_eq_ok, Json.expectObject_eq_ok_iff,
      Json.expectStringAt?_eq_ok_iff, exists_filters_iff]
    constructor
    · rintro ⟨entries, rfl, field, hfield, nested, hnested, queries, hqueries, hname, hknown⟩
      exact ⟨hname, entries, rfl,
        (Entries.allows_isText_iff hv.1).2 ⟨field, hfield, fun _ _ => trivial⟩,
        (Entries.allows_isText_iff hv.1).2 ⟨nested, hnested, fun _ _ => trivial⟩,
        (requires_queryFilters_iff hv).2 ⟨queries, hqueries, hknown⟩⟩
    · rintro ⟨hname, entries, rfl, hfield, hnested, hqueries⟩
      obtain ⟨field, hfield, -⟩ := (Entries.allows_isText_iff hv.1).1 hfield
      obtain ⟨nested, hnested, -⟩ := (Entries.allows_isText_iff hv.1).1 hnested
      obtain ⟨queries, hqueries, hknown⟩ := (requires_queryFilters_iff hv).1 hqueries
      exact ⟨entries, rfl, field, hfield, nested, hnested, queries, hqueries, hname, hknown⟩

theorem exists_of_terms {size : Int64} {order : Option BucketOrder} {f : Facet}
    (h : terms name field nested size order = .ok f) :
    ∃ n source size positive order, name = n.text ∧ f = ⟨n, .terms source size positive order⟩ := by
  obtain ⟨n, hn, h⟩ := bind_eq_ok.1 h
  obtain ⟨source, -, h⟩ := bind_eq_ok.1 h
  split at h
  next =>
    cases order with
    | none => exact absurd h (by simp)
    | some order =>
      exact ⟨n, source, _, _, order, NonBlank.build_eq_ok_iff.1 hn, (Except.ok.inj h).symm⟩
  next => exact absurd h (by simp)

theorem exists_of_dateRange {format : String} {ranges : List DateRange} {f : Facet}
    (h : dateRange name field nested format ranges = .ok f) :
    ∃ n source format ranges, name = n.text ∧ f = ⟨n, .dateRange source format ranges⟩ := by
  obtain ⟨n, hn, h⟩ := bind_eq_ok.1 h
  obtain ⟨source, -, h⟩ := bind_eq_ok.1 h
  obtain ⟨format, -, h⟩ := bind_eq_ok.1 h
  split at h
  next ranges _ =>
    exact ⟨n, source, format, ranges, NonBlank.build_eq_ok_iff.1 hn, (Except.ok.inj h).symm⟩
  next => exact absurd h (by simp)

theorem exists_of_filters {queries : List (String × Query)} {f : Facet}
    (h : filters name queries = .ok f) : ∃ n known nonempty, name = n.text ∧
      queries.mapM labelled = .ok known.entries ∧ f = ⟨n, .filters known nonempty⟩ := by
  obtain ⟨n, hn, h⟩ := bind_eq_ok.1 h
  obtain ⟨known, hknown, h⟩ := bind_eq_ok.1 h
  rw [OrderedMap.foldlM_eq_ok_iff addFilter_eq_ok_iff] at hknown
  split at h
  next => exact absurd h (by simp)
  next hne => exact ⟨n, known, hne, NonBlank.build_eq_ok_iff.1 hn, hknown, (Except.ok.inj h).symm⟩

theorem name_of_readBody {f : Facet} (h : readBody name kind v = .ok f) : name = f.name.text := by
  obtain ⟨entries, -, h⟩ := bind_eq_ok.1 h
  obtain ⟨field, -, h⟩ := bind_eq_ok.1 h
  obtain ⟨nested, -, h⟩ := bind_eq_ok.1 h
  cases kind with
  | terms =>
    obtain ⟨size, -, h⟩ := bind_eq_ok.1 h
    obtain ⟨order, -, h⟩ := bind_eq_ok.1 h
    obtain ⟨n, _, _, _, _, hname, rfl⟩ := exists_of_terms h
    exact hname
  | dateRange =>
    obtain ⟨format, -, h⟩ := bind_eq_ok.1 h
    obtain ⟨ranges, -, h⟩ := bind_eq_ok.1 h
    obtain ⟨n, _, _, _, hname, rfl⟩ := exists_of_dateRange h
    exact hname
  | filters =>
    obtain ⟨queries, -, h⟩ := bind_eq_ok.1 h
    obtain ⟨n, _, _, hname, -, rfl⟩ := exists_of_filters h
    exact hname

/-- A facet is read from the name and the kind that its entries show. -/
theorem read_object_eq_ok_iff (hentries : (Entries.keys entries).Nodup) {f : Facet} :
    read (.object entries) = .ok f ↔ ∃ (name : Option String) (kind : FacetKind) (body : Json),
      Entries.get? Keyword.name entries = name.map .string ∧ Headed entries kind body ∧
        readBody (name.getD "") kind body = .ok f := by
  rw [read, Json.expectObject_object, ok_bind]
  simp only [bind_eq_ok, Json.expectStringAt?_eq_ok_iff]
  constructor
  · rintro ⟨name, hname, shown, hshown, h⟩
    rcases shown with - | ⟨kind, body⟩
    · exact absurd h (by simp)
    · exact ⟨name, kind, body, hname, (foldlM_readEntry_eq_ok_iff hentries).1 hshown, h⟩
  · rintro ⟨name, kind, body, hname, hheaded, h⟩
    exact ⟨name, hname, some (kind, body), (foldlM_readEntry_eq_ok_iff hentries).2 hheaded, h⟩

/-- A facet is read if and only if it is a facet document. -/
theorem exists_read_iff_isFacet (hv : v.WellFormed) : (∃ f, read v = .ok f) ↔ IsFacet v := by
  constructor
  · rintro ⟨f, h⟩
    match v, hv, h with
    | .object entries, hv, h =>
      obtain ⟨name, kind, body, hname, hheaded, h⟩ := (read_object_eq_ok_iff hv.1).1 h
      obtain ⟨hblank, bodyEntries, rfl, hdescribes⟩ :=
        (exists_readBody_iff (hv.of_mem_entries hheaded.written)).1 ⟨f, h⟩
      exact ⟨entries, bodyEntries, kind, rfl,
        (Entries.requires_isNonBlank_iff hv.1).2 ⟨name, hname, hblank⟩, hheaded, hdescribes⟩
  · rintro ⟨entries, bodyEntries, kind, rfl, hname, hheaded, hdescribes⟩
    obtain ⟨name, hname, hblank⟩ := (Entries.requires_isNonBlank_iff hv.1).1 hname
    obtain ⟨f, hf⟩ := (exists_readBody_iff (hv.of_mem_entries hheaded.written)).2
      ⟨hblank, bodyEntries, rfl, hdescribes⟩
    exact ⟨f, (read_object_eq_ok_iff hv.1).2 ⟨name, kind, _, hname, hheaded, hf⟩⟩

/-- The name of a facet is the one in its document. -/
theorem name?_of_read (v : Json) (f : Facet) (hread : read v = .ok f) :
    v.name? = some f.name.text := by
  obtain ⟨entries, hentries, h⟩ := bind_eq_ok.1 hread
  obtain ⟨name, hname, h⟩ := bind_eq_ok.1 h
  obtain ⟨shown, -, h⟩ := bind_eq_ok.1 h
  obtain rfl := Json.expectObject_eq_ok_iff.1 hentries
  rw [Json.expectStringAt?_eq_ok_iff] at hname
  rcases shown with - | ⟨kind, body⟩
  · exact absurd h (by simp)
  · have hnamed : name.getD "" = f.name.text := name_of_readBody h
    cases name with
    | none => exact absurd (hnamed ▸ (by decide : Text.Blank "")) f.name.not_blank
    | some s =>
      rw [Json.name?, Json.asObject?, Option.bind_some, hname, ← hnamed]
      rfl

end Facet

end Fonds
