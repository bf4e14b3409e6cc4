import Fonds.Filter.Reader
import Fonds.Proofs.RoundTrip.Shape

/-!
Filters come out of their documents as they went in, as long as the keywords they use are allowed;
and a filter that was read uses no others.
-/
namespace Fonds.Filter

/-- The effect of several keywords, one after the other. -/
def readKeywords (keys : Keys) (entries : List (FilterKeyword × Json)) : Built Keys :=
  entries.foldlM (fun keys e => readKeyword keys e.1 e.2) keys

theorem readKeywords_append {keys keys' : Keys} {xs ys : List (FilterKeyword × Json)}
    (h : readKeywords keys xs = .ok keys') :
    readKeywords keys (xs ++ ys) = readKeywords keys' ys := by
  rw [readKeywords, List.foldlM_append]
  rw [readKeywords] at h
  rw [h, ok_bind]
  rfl

theorem readKeywords_singleton {keys keys' : Keys} {keyword : FilterKeyword} {v : Json}
    (h : readKeyword keys keyword v = .ok keys') : readKeywords keys [(keyword, v)] = .ok keys' := by
  rw [readKeywords, List.foldlM_cons, h, ok_bind]
  rfl

/-- An entry that is left out leaves its place as it was. -/
theorem readKeywords_optional {α : Type} (o : Option α) (keyword : FilterKeyword)
    (write : α → Json) (put : Option α → Keys)
    (h : ∀ a, readKeyword (put none) keyword (write a) = .ok (put (some a))) :
    readKeywords (put none) (o.map fun a => (keyword, write a)).toList = .ok (put o) := by
  cases o with
  | none => rfl
  | some a => exact readKeywords_singleton (h a)

/-- Allowed keywords have their effects. -/
theorem foldlM_readEntry {allowed : List FilterKeyword} {entries : List (FilterKeyword × Json)}
    (h : ∀ e ∈ entries, e.1 ∈ allowed) (keys : Keys) :
    (entries.map fun e => (e.1.token, e.2)).foldlM (readEntry allowed) keys =
      readKeywords keys entries := by
  induction entries generalizing keys with
  | nil => rfl
  | cons e entries ih =>
    rw [List.forall_mem_cons] at h
    have hentry : readEntry allowed keys (e.1.token, e.2) = readKeyword keys e.1 e.2 := by
      rw [readEntry, FilterKeyword.ofToken?_token]
      exact if_pos h.1
    rw [readKeywords, List.map_cons, List.foldlM_cons, List.foldlM_cons, hentry]
    congr 1
    funext keys'
    exact ih h.2 keys'

theorem readOrderBy_entries (f : Filter) (orderBy : OrderedMap Name Direction) :
    (orderBy.entries.map fun e => (e.1.text, Json.ofInt e.2.number)).foldlM readOrderBy
      { f with orderBy := .empty } = .ok { f with orderBy } := by
  refine orderBy.foldlM_entries (fun orderBy => { f with orderBy }) fun known e _ => ?_
  obtain ⟨m, hm, hnumber⟩ : ∃ m : Int64,
      Json.expectInt64 FilterKeyword.orderBy.token (.ofInt e.2.number) = .ok m ∧
        m.toInt = e.2.number := by
    apply Json.expectInt64_of_natAbs_lt
    cases e.2 <;> decide
  simp only [readOrderBy, hm, ok_bind, hnumber, Direction.ofNumber_number, addOrderBy,
    Name.build_text]

theorem readHint_elems (f : Filter) (hints : OrderedSet Name) :
    (hints.elems.map fun hint => Json.string hint.text).foldlM readHint
      { f with hints := .empty } = .ok { f with hints } := by
  refine hints.foldlM_elems (fun hints => { f with hints }) fun known hint => ?_
  simp only [readHint, Json.expectString_string, ok_bind, addHint, Name.ofString?_text]

theorem readKeywords_orderBy (f : Filter) (orderBy : OrderedMap Name Direction) :
    readKeywords { filter := { f with orderBy := .empty } }
      (if orderBy.isEmpty then [] else [(.orderBy, .ofEntries (orderBy.entries.map fun e =>
        (e.1.text, .ofInt e.2.number)))]) = .ok { filter := { f with orderBy } } := by
  by_cases hempty : orderBy.isEmpty
  · rw [if_pos hempty, OrderedMap.eq_empty_of_isEmpty hempty]
    rfl
  · rw [if_neg hempty]
    apply readKeywords_singleton
    have hentries := Json.ofEntries_map Name.text_injective orderBy.nodup
      fun direction => .ofInt direction.number
    simp only [readKeyword, hentries, Json.expectObject_object, ok_bind, readOrderBy_entries]

theorem readKeywords_hints (f : Filter) (hints : OrderedSet Name) :
    readKeywords { filter := { f with hints := .empty } }
      (if hints.isEmpty then [] else [(.hint, .array (hints.elems.map (.string ·.text)))]) =
        .ok { filter := { f with hints } } := by
  by_cases hempty : hints.isEmpty
  · rw [if_pos hempty, OrderedSet.eq_empty_of_isEmpty hempty]
    rfl
  · rw [if_neg hempty]
    apply readKeywords_singleton
    simp only [readKeyword, Json.oneOrMany_array, readHint_elems, ok_bind]

/-- The cursor is kept apart from the filter, its identifier before its timeout. -/
theorem readKeywords_scroll (f : Filter) (scroll : Scroll) :
    readKeywords { filter := f } ((.scrollId, .string scroll.id.text) ::
      (scroll.timeout.map fun n => (.scrollTimeout, ofUInt64 n)).toList) =
        .ok { filter := f, scrollId := scroll.id.text, scrollTimeout := scroll.timeout } := by
  have hid : readKeywords { filter := f } [(.scrollId, .string scroll.id.text)] =
      .ok { filter := f, scrollId := scroll.id.text } := by
    apply readKeywords_singleton
    simp only [readKeyword, Json.expectString_string, ok_bind]
  rw [← List.singleton_append, readKeywords_append hid]
  refine readKeywords_optional scroll.timeout .scrollTimeout ofUInt64
    (fun scrollTimeout => { filter := f, scrollId := scroll.id.text, scrollTimeout }) fun n => ?_
  simp only [readKeyword, ofUInt64, Json.expectUInt64_toNat, ok_bind]

/-- What the keywords of a written filter show. The cursor is not in the filter yet. -/
theorem readKeywords_entries (f : Filter) :
    readKeywords {} f.entries = .ok {
      filter := { f with scroll := none }
      scrollId := f.scroll.map fun s => s.id.text
      scrollTimeout := f.scroll.bind Scroll.timeout } := by
  obtain ⟨offset, limit, orderBy, hints, scroll, multiple⟩ := f
  have hoffset := readKeywords_optional offset .offset ofUInt64
    (fun offset => { filter := { offset } }) fun n => by
      simp only [readKeyword, ofUInt64, Json.expectUInt64_toNat, ok_bind]
  have hlimit := readKeywords_optional limit .limit ofUInt64
    (fun limit => { filter := { offset, limit } }) fun n => by
      simp only [readKeyword, ofUInt64, Json.expectUInt64_toNat, ok_bind]
  have horder := readKeywords_orderBy { offset, limit } orderBy
  have hhints := readKeywords_hints { offset, limit, orderBy } hints
  have hmultiple (id timeout) := readKeywords_optional multiple .multiple .bool
    (fun multiple => ⟨{ offset, limit, orderBy, hints, multiple }, id, timeout⟩) fun b => rfl
  simp only [entries, List.append_assoc]
  rw [readKeywords_append hoffset, readKeywords_append hlimit, readKeywords_append horder,
    readKeywords_append hhints]
  cases scroll with
  | none => exact hmultiple none none
  | some scroll =>
    rw [readKeywords_append (readKeywords_scroll _ scroll)]
    exact hmultiple _ _

/-- A filter is read back where the keywords it uses are allowed. -/
theorem read_toJson {allowed : List FilterKeyword} {f : Filter}
    (h : ∀ e ∈ f.entries, e.1 ∈ allowed) : read allowed f.toJson = .ok f := by
  rw [read, toJson, Json.expectObject_object, ok_bind, foldlM_readEntry h, readKeywords_entries,
    ok_bind, ofKeys]
  obtain ⟨offset, limit, orderBy, hints, scroll, multiple⟩ := f
  cases scroll with
  | none => rfl
  | some scroll =>
    simp only [Option.map_some, Option.bind_some, setScroll, NonBlank.build_text, ok_bind]

/-- Whether a filter uses a keyword. -/
def Uses (f : Filter) : FilterKeyword → Prop
  | .offset => f.offset ≠ none
  | .limit => f.limit ≠ none
  | .orderBy => f.orderBy.isEmpty = false
  | .hint => f.hints.isEmpty = false
  | .scrollId => f.scroll ≠ none
  | .scrollTimeout => f.scroll.bind Scroll.timeout ≠ none
  | .multiple => f.multiple ≠ none

/-- The entries of a filter's document are those of the keywords it uses. -/
theorem uses_of_mem_entries {f : Filter} {e : FilterKeyword × Json} (h : e ∈ f.entries) :
    f.Uses e.1 := by
  obtain ⟨offset, limit, orderBy, hints, scroll, multiple⟩ := f
  simp only [entries, List.mem_append] at h
  rcases h with ((((h | h) | h) | h) | h) | h
  · obtain ⟨n, rfl, rfl⟩ : ∃ n, offset = some n ∧ (.offset, ofUInt64 n) = e := by simpa using h
    exact Option.some_ne_none n
  · obtain ⟨n, rfl, rfl⟩ : ∃ n, limit = some n ∧ (.limit, ofUInt64 n) = e := by simpa using h
    exact Option.some_ne_none n
  · by_cases hempty : orderBy.isEmpty
    · simp [hempty] at h
    · simp only [if_neg hempty, List.mem_singleton] at h
      subst h
      exact Bool.eq_false_iff.2 hempty
  · by_cases hempty : hints.isEmpty
    · simp [hempty] at h
    · simp only [if_neg hempty, List.mem_singleton] at h
      subst h
      exact Bool.eq_false_iff.2 hempty
  · cases scroll with
    | none => simp at h
    | some scroll =>
      rcases List.mem_cons.1 h with rfl | h
      · exact Option.some_ne_none scroll
      · obtain ⟨n, hn, rfl⟩ : ∃ n, scroll.timeout = some n ∧ (.scrollTimeout, ofUInt64 n) = e := by
          simpa using h
        simp [Uses, hn]
  · obtain ⟨b, rfl, rfl⟩ : ∃ b, multiple = some b ∧ (.multiple, .bool b) = e := by simpa using h
    exact Option.some_ne_none b

/-- Whether keywords read so far include one, the cursor's among them. -/
def Keys.Uses (keys : Keys) : FilterKeyword → Prop
  | .scrollId => keys.scrollId ≠ none ∨ keys.filter.Uses .scrollId
  | .scrollTimeout => keys.scrollTimeout ≠ none ∨ keys.filter.Uses .scrollTimeout
  | keyword => keys.filter.Uses keyword

theorem not_uses_default (k : FilterKeyword) : ¬ ({} : Keys).Uses k := by
  cases k <;> simp [Keys.Uses, Uses] <;> rfl

/-- The order that entries ask for depends on the order known before, not on the rest of the
filter. -/
theorem readOrderBy_frame {f f' : Filter} {entries : List (String × Json)}
    (h : entries.foldlM readOrderBy f = .ok f') :
    ∃ orderBy, f' = { f with orderBy } ∧
      ∀ g : Filter, g.orderBy = f.orderBy →
        entries.foldlM readOrderBy g = .ok { g with orderBy } := by
  induction entries generalizing f with
  | nil =>
    obtain rfl : f = f' := Except.ok.inj h
    exact ⟨f.orderBy, rfl, fun g hg => by rw [← hg]; rfl⟩
  | cons e rest ih =>
    obtain ⟨next, hnext, hrest⟩ := foldlM_cons_eq_ok.1 h
    simp only [readOrderBy, addOrderBy, bind_eq_ok] at hnext
    obtain ⟨n, hn, direction, hdirection, name, hname, hnext⟩ := hnext
    obtain rfl := Except.ok.inj hnext
    obtain ⟨orderBy, rfl, hall⟩ := ih hrest
    refine ⟨orderBy, rfl, fun g hg => ?_⟩
    have hstep : readOrderBy g e = .ok { g with orderBy := g.orderBy.insert name direction } := by
      simp only [readOrderBy, addOrderBy, hn, hdirection, hname, ok_bind]
    rw [List.foldlM_cons, hstep, ok_bind, hall _ (by rw [hg])]

/-- The hints asked for depend on the hints known before alone. -/
theorem readHint_frame {f f' : Filter} {elems : List Json} (h : elems.foldlM readHint f = .ok f') :
    ∃ hints, f' = { f with hints } ∧
      ∀ g : Filter, g.hints = f.hints → elems.foldlM readHint g = .ok { g with hints } := by
  induction elems generalizing f with
  | nil =>
    obtain rfl : f = f' := Except.ok.inj h
    exact ⟨f.hints, rfl, fun g hg => by rw [← hg]; rfl⟩
  | cons w rest ih =>
    obtain ⟨next, hnext, hrest⟩ := foldlM_cons_eq_ok.1 h
    simp only [readHint, addHint, bind_eq_ok] at hnext
    obtain ⟨hint, hhint, hnext⟩ := hnext
    split at hnext
    next name hname =>
      obtain rfl := Except.ok.inj hnext
      obtain ⟨hints, rfl, hall⟩ := ih hrest
      refine ⟨hints, rfl, fun g hg => ?_⟩
      have hstep : readHint g w = .ok { g with hints := g.hints.insert name } := by
        simp only [readHint, addHint, hhint, hname, ok_bind]
      rw [List.foldlM_cons, hstep, ok_bind, hall _ (by rw [hg])]
    next => exact absurd hnext (by simp)

/-- A keyword has an effect in its own place alone. -/
theorem uses_of_readKeyword {keys keys' : Keys} {keyword k : FilterKeyword} {v : Json}
    (h : readKeyword keys keyword v = .ok keys') (hk : keys'.Uses k) :
    k = keyword ∨ keys.Uses k := by
  cases keyword with
  | multiple =>
    simp only [readKeyword] at h
    split at h
    · obtain rfl := Except.ok.inj h
      cases k <;> simp_all [Keys.Uses, Uses]
    · cases h
  | orderBy =>
    simp only [readKeyword, bind_eq_ok] at h
    obtain ⟨entries, _, f, hf, h⟩ := h
    obtain ⟨orderBy, rfl, -⟩ := readOrderBy_frame hf
    obtain rfl := Except.ok.inj h
    cases k <;> simp_all [Keys.Uses, Uses]
  | hint =>
    simp only [readKeyword, bind_eq_ok] at h
    obtain ⟨f, hf, h⟩ := h
    obtain ⟨hints, rfl, -⟩ := readHint_frame hf
    obtain rfl := Except.ok.inj h
    cases k <;> simp_all [Keys.Uses, Uses]
  | _ =>
    simp only [readKeyword, bind_eq_ok] at h
    obtain ⟨_, _, h⟩ := h
    obtain rfl := Except.ok.inj h
    cases k <;> simp_all [Keys.Uses, Uses]

theorem uses_of_foldlM_readEntry {allowed : List FilterKeyword} {keys keys' : Keys}
    {entries : List (String × Json)} (h : entries.foldlM (readEntry allowed) keys = .ok keys')
    {k : FilterKeyword} (hk : keys'.Uses k) : k ∈ allowed ∨ keys.Uses k := by
  induction entries generalizing keys with
  | nil =>
    obtain rfl : keys = keys' := Except.ok.inj h
    exact .inr hk
  | cons e entries ih =>
    rw [List.foldlM_cons, bind_eq_ok] at h
    obtain ⟨next, hnext, hrest⟩ := h
    rcases ih hrest with hallowed | hk
    · exact .inl hallowed
    · rw [readEntry] at hnext
      split at hnext
      · cases hnext
      · split at hnext
        · rename_i hmem
          rcases uses_of_readKeyword hnext hk with rfl | hk
          · exact .inl hmem
          · exact .inr hk
        · cases hnext

theorem uses_of_ofKeys {keys : Keys} {f : Filter} (h : ofKeys keys = .ok f) {k : FilterKeyword}
    (hk : f.Uses k) : keys.Uses k := by
  rw [ofKeys] at h
  split at h
  · rename_i id timeout hid
    rw [setScroll, bind_eq_ok] at h
    obtain ⟨name, _, h⟩ := h
    obtain rfl := Except.ok.inj h
    cases k <;> simp_all [Keys.Uses, Uses]
  · cases h
  · obtain rfl := Except.ok.inj h
    cases k <;> simp_all [Keys.Uses, Uses]

/-- A filter that was read uses allowed keywords only. -/
theorem mem_allowed_of_read {allowed : List FilterKeyword} {v : Json} {f : Filter}
    (h : read allowed v = .ok f) : ∀ e ∈ f.entries, e.1 ∈ allowed := by
  intro e he
  simp only [read, bind_eq_ok] at h
  obtain ⟨entries, _, keys, hkeys, hf⟩ := h
  rcases uses_of_foldlM_readEntry hkeys (uses_of_ofKeys hf (uses_of_mem_entries he)) with
    hallowed | hnothing
  · exact hallowed
  · exact absurd hnothing (not_uses_default e.1)

end Fonds.Filter
