import Fonds.Proofs.Grammar.Lookup
import Fonds.Proofs.RoundTrip.Filter

/-!
Reading filters. Each keyword sets a place of its own, so they may come in any order; only the
identifier of a cursor and its timeout are looked at together, when all keywords have been read.
-/
namespace Fonds

theorem FilterKeyword.ofToken?_eq_some_iff {token : String} {k : FilterKeyword} :
    ofToken? token = some k ↔ token = k.token :=
  find?_token_eq_some_iff ofToken?_token

theorem FilterKeyword.token_injective : Function.Injective token :=
  token_injective_of_find? ofToken?_token

theorem Direction.exists_ofNumber_iff {field : String} {n : Int} :
    (∃ d, ofNumber field n = .ok d) ↔ n = 1 ∨ n = -1 := by
  rw [ofNumber]
  split
  next h => simp [h]
  next h =>
    split
    next h' => simp [h']
    next h' => simp [h, h']

/-- What a keyword takes when it is read. That an identifier is blank is found out only at the
end. -/
def FilterKeyword.Takes : FilterKeyword → Json → Prop
  | .scrollId => Json.IsAnyText
  | k => k.Accepts

theorem FilterKeyword.accepts_iff {k : FilterKeyword} {v : Json} :
    k.Accepts v ↔ k.Takes v ∧ (k = .scrollId → v.IsNonBlank) := by
  cases k with
  | scrollId =>
    refine ⟨fun h => ⟨?_, fun _ => h⟩, fun h => h.2 rfl⟩
    obtain ⟨s, rfl, -⟩ := h
    exact ⟨s, rfl, trivial⟩
  | _ => exact ⟨fun h => ⟨h, fun heq => absurd heq (by decide)⟩, And.left⟩

namespace Filter

variable {allowed : List FilterKeyword} {entries entries' : List (String × Json)} {f f' : Filter}
  {keys keys' keys'' : Keys} {k k' : FilterKeyword} {v v' : Json}

/-- What one more keyword sets. -/
inductive Shows (keys : Keys) : FilterKeyword → Json → Keys → Prop
  | offset (n : UInt64) :
      Shows keys .offset (ofUInt64 n) { keys with filter := { keys.filter with offset := some n } }
  | limit (n : UInt64) :
      Shows keys .limit (ofUInt64 n) { keys with filter := { keys.filter with limit := some n } }
  | orderBy (entries : List (String × Json)) (orderBy : OrderedMap Name Direction)
      (read : ∀ g : Filter, g.orderBy = keys.filter.orderBy →
        entries.foldlM readOrderBy g = .ok { g with orderBy }) :
      Shows keys .orderBy (.object entries) { keys with filter := { keys.filter with orderBy } }
  | hint (v : Json) (hints : OrderedSet Name)
      (read : ∀ g : Filter, g.hints = keys.filter.hints →
        v.oneOrMany.foldlM readHint g = .ok { g with hints }) :
      Shows keys .hint v { keys with filter := { keys.filter with hints } }
  | scrollId (id : String) : Shows keys .scrollId (.string id) { keys with scrollId := some id }
  | scrollTimeout (n : UInt64) :
      Shows keys .scrollTimeout (ofUInt64 n) { keys with scrollTimeout := some n }
  | multiple (b : Bool) :
      Shows keys .multiple (.bool b) { keys with filter := { keys.filter with multiple := some b } }

theorem readKeyword_eq_ok_iff : readKeyword keys k v = .ok keys' ↔ Shows keys k v keys' := by
  constructor
  · intro h
    cases k with
    | multiple =>
      match v, h with
      | .bool b, h =>
        obtain rfl := Except.ok.inj h
        exact .multiple b
    | offset =>
      simp only [readKeyword, bind_eq_ok, Json.expectUInt64_eq_ok_iff] at h
      obtain ⟨n, rfl, h⟩ := h
      obtain rfl := Except.ok.inj h
      exact .offset n
    | limit =>
      simp only [readKeyword, bind_eq_ok, Json.expectUInt64_eq_ok_iff] at h
      obtain ⟨n, rfl, h⟩ := h
      obtain rfl := Except.ok.inj h
      exact .limit n
    | orderBy =>
      simp only [readKeyword, bind_eq_ok, Json.expectObject_eq_ok_iff] at h
      obtain ⟨entries, rfl, f, hf, h⟩ := h
      obtain ⟨orderBy, rfl, hall⟩ := readOrderBy_frame hf
      obtain rfl := Except.ok.inj h
      exact .orderBy entries orderBy hall
    | hint =>
      simp only [readKeyword, bind_eq_ok] at h
      obtain ⟨f, hf, h⟩ := h
      obtain ⟨hints, rfl, hall⟩ := readHint_frame hf
      obtain rfl := Except.ok.inj h
      exact .hint v hints hall
    | scrollId =>
      simp only [readKeyword, bind_eq_ok, Json.expectString_eq_ok_iff] at h
      obtain ⟨id, rfl, h⟩ := h
      obtain rfl := Except.ok.inj h
      exact .scrollId id
    | scrollTimeout =>
      simp only [readKeyword, bind_eq_ok, Json.expectUInt64_eq_ok_iff] at h
      obtain ⟨n, rfl, h⟩ := h
      obtain rfl := Except.ok.inj h
      exact .scrollTimeout n
  · intro h
    cases h with
    | offset n => simp [readKeyword, ofUInt64]
    | limit n => simp [readKeyword, ofUInt64]
    | orderBy entries orderBy read => simp [readKeyword, read keys.filter rfl]
    | hint v hints read => simp [readKeyword, read keys.filter rfl]
    | scrollId id => simp [readKeyword]
    | scrollTimeout n => simp [readKeyword, ofUInt64]
    | multiple b => simp [readKeyword]

/-- Two keywords set different places, so either may be read first. -/
theorem Shows.swap (h : Shows keys k v keys') (h' : Shows keys' k' v' keys'') (hne : k ≠ k') :
    ∃ keys₁, Shows keys k' v' keys₁ ∧ Shows keys₁ k v keys'' := by
  cases h <;> cases h' <;> first
    | exact absurd rfl hne
    | exact ⟨_, by constructor <;> assumption, by constructor <;> assumption⟩

theorem readEntry_eq_ok_iff {e : String × Json} : readEntry allowed keys e = .ok keys' ↔
    ∃ k ∈ allowed, e.1 = k.token ∧ Shows keys k e.2 keys' := by
  rw [readEntry]
  constructor
  · intro h
    split at h
    next => exact absurd h (by simp)
    next k hk =>
      split at h
      next hallowed =>
        have htoken := FilterKeyword.ofToken?_eq_some_iff.1 hk
        exact ⟨k, hallowed, htoken, readKeyword_eq_ok_iff.1 h⟩
      next => exact absurd h (by simp)
  · rintro ⟨k, hallowed, htoken, hshows⟩
    rw [htoken, FilterKeyword.ofToken?_token]
    simp only [if_pos hallowed]
    exact readKeyword_eq_ok_iff.2 hshows

theorem foldlM_readEntry_eq_ok_of_perm (hperm : entries.Perm entries')
    (hentries : (Entries.keys entries).Nodup)
    (h : entries.foldlM (readEntry allowed) keys = .ok keys') :
    entries'.foldlM (readEntry allowed) keys = .ok keys' := by
  refine Entries.foldlM_eq_ok_of_perm (fun e e' s s' t hne hs hs' => ?_) hperm hentries h
  obtain ⟨k, hk, htoken, hshows⟩ := readEntry_eq_ok_iff.1 hs
  obtain ⟨k', hk', htoken', hshows'⟩ := readEntry_eq_ok_iff.1 hs'
  have hdiff : k ≠ k' := fun heq => hne (by rw [htoken, htoken', heq])
  obtain ⟨s'', h₁, h₂⟩ := hshows.swap hshows' hdiff
  exact ⟨s'', readEntry_eq_ok_iff.2 ⟨k', hk', htoken', h₁⟩,
    readEntry_eq_ok_iff.2 ⟨k, hk, htoken, h₂⟩⟩

theorem exists_readOrderBy_iff (f : Filter) (e : String × Json) :
    (∃ f', readOrderBy f e = .ok f') ↔ ¬ Text.Blank e.1 ∧ e.2.IsSign := by
  have hadd : ∀ direction, (∃ f', f.addOrderBy e.1 direction = .ok f') ↔ ¬ Text.Blank e.1 := by
    intro direction
    rw [addOrderBy, exists_bind_ok_eq_ok, Name.exists_build_iff]
  simp only [readOrderBy, exists_bind_eq_ok, hadd, exists_and_right,
    Direction.exists_ofNumber_iff, ← Json.exists_expectInt64_iff_isSign FilterKeyword.orderBy.token]
  constructor
  · rintro ⟨n, hn, hsign, hfield⟩
    exact ⟨hfield, n, hn, hsign⟩
  · rintro ⟨hfield, n, hn, hsign⟩
    exact ⟨n, hn, hsign, hfield⟩

theorem exists_readHint_iff (f : Filter) (v : Json) :
    (∃ f', readHint f v = .ok f') ↔ v.IsNonBlank := by
  have hadd : ∀ hint, (∃ f', f.addHint hint = .ok f') ↔ ¬ Text.Blank hint := by
    intro hint
    rw [addHint, ← Name.ofString?_eq_none_iff]
    cases Name.ofString? hint <;> simp
  simp only [readHint, exists_bind_eq_ok, Json.expectString_eq_ok_iff, hadd]
  rfl

theorem exists_shows_iff (keys : Keys) : (∃ keys', Shows keys k v keys') ↔ k.Takes v := by
  simp only [← readKeyword_eq_ok_iff]
  cases k with
  | offset => exact exists_bind_ok_eq_ok.trans Json.exists_expectUInt64_iff
  | limit => exact exists_bind_ok_eq_ok.trans Json.exists_expectUInt64_iff
  | orderBy =>
    have hfold : ∀ entries : List (String × Json),
        (∃ f, entries.foldlM readOrderBy keys.filter = .ok f) ↔
          ∀ e ∈ entries, ¬ Text.Blank e.1 ∧ e.2.IsSign :=
      fun entries => exists_foldlM_iff (fun f e _ => exists_readOrderBy_iff f e) keys.filter
    simp only [readKeyword, exists_bind_eq_ok (x := Json.expectObject _ _), exists_bind_ok_eq_ok,
      Json.expectObject_eq_ok_iff, hfold]
    rfl
  | hint =>
    have hfold : (∃ f, v.oneOrMany.foldlM readHint keys.filter = .ok f) ↔
        ∀ w ∈ v.oneOrMany, w.IsNonBlank :=
      exists_foldlM_iff (fun f w _ => exists_readHint_iff f w) keys.filter
    exact exists_bind_ok_eq_ok.trans hfold
  | scrollId =>
    refine exists_bind_ok_eq_ok.trans ?_
    simp [Json.expectString_eq_ok_iff, FilterKeyword.Takes, Json.IsAnyText, Json.IsText]
  | scrollTimeout => exact exists_bind_ok_eq_ok.trans Json.exists_expectUInt64_iff
  | multiple =>
    constructor
    · rintro ⟨keys', h⟩
      cases readKeyword_eq_ok_iff.1 h with
      | multiple b => exact ⟨b, rfl⟩
    · rintro ⟨b, rfl⟩
      exact ⟨_, readKeyword_eq_ok_iff.2 (.multiple b)⟩

/-- What one keyword alone sets is known from its entry. -/
theorem map_view_of_foldlM {α : Type} (view : Keys → Option α) (write : α → Json)
    (hview : ∀ {keys k' v keys'}, Shows keys k' v keys' →
      (view keys').map write = if k' = k then some v else (view keys).map write)
    (hentries : (Entries.keys entries).Nodup)
    (h : entries.foldlM (readEntry allowed) keys = .ok keys') :
    (view keys').map write = (Entries.get? k.token entries).or ((view keys).map write) := by
  induction entries generalizing keys with
  | nil =>
    obtain rfl : keys = keys' := Except.ok.inj h
    rfl
  | cons e rest ih =>
    obtain ⟨hfirst, hrest⟩ := List.nodup_cons.1 hentries
    obtain ⟨keys₁, hstep, h⟩ := foldlM_cons_eq_ok.1 h
    obtain ⟨k', -, htoken, hshows⟩ := readEntry_eq_ok_iff.1 hstep
    rw [ih hrest h, hview hshows, Entries.get?]
    by_cases hk : k' = k
    · have hkey : e.1 = k.token := by rw [htoken, hk]
      have hnone : Entries.get? k.token rest = none := Entries.get?_eq_none (hkey ▸ hfirst)
      rw [hnone, if_pos hk, if_pos hkey]
      rfl
    · have hkey : e.1 ≠ k.token := fun heq =>
        hk (FilterKeyword.token_injective (htoken.symm.trans heq))
      rw [if_neg hk, if_neg hkey]

theorem get?_scrollId (hentries : (Entries.keys entries).Nodup)
    (h : entries.foldlM (readEntry allowed) {} = .ok keys) :
    Entries.get? FilterKeyword.scrollId.token entries = keys.scrollId.map .string := by
  have hview := map_view_of_foldlM (k := .scrollId) Keys.scrollId .string
    (fun hshows => by cases hshows <;> rfl) hentries h
  rw [hview, Option.map_none, Option.or_none]

theorem get?_scrollTimeout (hentries : (Entries.keys entries).Nodup)
    (h : entries.foldlM (readEntry allowed) {} = .ok keys) :
    Entries.get? FilterKeyword.scrollTimeout.token entries = keys.scrollTimeout.map ofUInt64 := by
  have hview := map_view_of_foldlM (k := .scrollTimeout) Keys.scrollTimeout ofUInt64
    (fun hshows => by cases hshows <;> rfl) hentries h
  rw [hview, Option.map_none, Option.or_none]

theorem exists_ofKeys_iff : (∃ f, ofKeys keys = .ok f) ↔
    (∀ id ∈ keys.scrollId, ¬ Text.Blank id) ∧
      (keys.scrollTimeout.isSome → keys.scrollId.isSome) := by
  have hscroll : ∀ id timeout, (∃ f, keys.filter.setScroll id timeout = .ok f) ↔
      ¬ Text.Blank id := by
    intro id timeout
    rw [setScroll, exists_bind_ok_eq_ok, NonBlank.exists_build_iff]
  rw [ofKeys]
  cases keys.scrollId <;> cases keys.scrollTimeout <;> simp [hscroll]

theorem exists_foldlM_readEntry_iff :
    (∃ keys, entries.foldlM (readEntry allowed) {} = .ok keys) ↔
      ∀ e ∈ entries, ∃ k ∈ allowed, e.1 = k.token ∧ k.Takes e.2 := by
  refine exists_foldlM_iff (fun keys e _ => ?_) ({} : Keys)
  simp only [readEntry_eq_ok_iff, ← exists_shows_iff keys]
  constructor
  · rintro ⟨keys', k, hk, htoken, hshows⟩
    exact ⟨k, hk, htoken, keys', hshows⟩
  · rintro ⟨k, hk, htoken, keys', hshows⟩
    exact ⟨keys', k, hk, htoken, hshows⟩

/-- A filter is read if and only if it is a filter document. -/
theorem exists_read_iff_isFilter (hv : v.WellFormed) :
    (∃ f, read allowed v = .ok f) ↔ IsFilter allowed v := by
  simp only [read, exists_bind_eq_ok, Json.expectObject_eq_ok_iff, IsFilter]
  refine exists_congr fun entries => and_congr_right ?_
  rintro rfl
  simp only [← Entries.isSome_get?_iff]
  constructor
  · rintro ⟨keys, hkeys, hf⟩
    obtain ⟨hid, htimeout⟩ := exists_ofKeys_iff.1 hf
    have hscroll := get?_scrollId hv.1 hkeys
    refine ⟨fun e he => ?_, by simpa [hscroll, get?_scrollTimeout hv.1 hkeys] using htimeout⟩
    obtain ⟨k, hk, htoken, htakes⟩ := exists_foldlM_readEntry_iff.1 ⟨keys, hkeys⟩ e he
    refine ⟨k, hk, htoken, FilterKeyword.accepts_iff.2 ⟨htakes, ?_⟩⟩
    rintro rfl
    have hmem : (FilterKeyword.scrollId.token, e.2) ∈ entries := by rwa [← htoken]
    have hfound := (Entries.get?_eq_some_iff hv.1).2 hmem
    rw [hscroll, Option.map_eq_some_iff] at hfound
    obtain ⟨id, hkeys, hv⟩ := hfound
    exact ⟨id, hv.symm, hid id hkeys⟩
  · rintro ⟨hall, htimeout⟩
    have htakes : ∀ e ∈ entries, ∃ k ∈ allowed, e.1 = k.token ∧ k.Takes e.2 := by
      intro e he
      obtain ⟨k, hk, htoken, haccepts⟩ := hall e he
      exact ⟨k, hk, htoken, (FilterKeyword.accepts_iff.1 haccepts).1⟩
    obtain ⟨keys, hkeys⟩ := exists_foldlM_readEntry_iff.2 htakes
    have hscroll := get?_scrollId hv.1 hkeys
    refine ⟨keys, hkeys, exists_ofKeys_iff.2 ⟨fun id hid => ?_, ?_⟩⟩
    · have hmem : (FilterKeyword.scrollId.token, Json.string id) ∈ entries := by
        rw [← Entries.get?_eq_some_iff hv.1, hscroll, Option.mem_def.1 hid, Option.map_some]
      obtain ⟨k, -, htoken, haccepts⟩ := hall _ hmem
      obtain rfl : FilterKeyword.scrollId = k := FilterKeyword.token_injective htoken
      obtain ⟨s, hs, hblank⟩ := haccepts
      exact Json.string.inj hs ▸ hblank
    · simpa [hscroll, get?_scrollTimeout hv.1 hkeys] using htimeout

end Filter

end Fonds
