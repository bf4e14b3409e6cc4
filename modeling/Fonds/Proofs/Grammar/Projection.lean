import Fonds.Proofs.Grammar.Lookup
import Fonds.Projection.Reader

/-!
Reading projections: the fields and the usage are kept in places of their own, and each field is
read on its own.
-/
namespace Fonds

variable {v : Json} {entries entries' : List (String × Json)}

namespace FieldProjection

theorem exists_slice_iff (skip : Int64) {limit : Int64} :
    (∃ p, slice skip limit = .ok p) ↔ 1 ≤ limit.toInt := by
  rw [slice]
  split
  next h => exact ⟨fun _ => h, fun _ => ⟨_, rfl⟩⟩
  next h => exact ⟨fun ⟨_, hp⟩ => absurd hp (by simp), fun hlimit => absurd hlimit h⟩

theorem exists_readSlice_iff (document : Json) {operand : Json} :
    (∃ p, readSlice document operand = .ok p) ↔ IsSlice operand := by
  constructor
  · rintro ⟨p, h⟩
    rw [readSlice.eq_def] at h
    split at h
    next n =>
      split at h
      next m hm =>
        exact .inl ((Json.exists_expectInt64_iff_isInt64 Keyword.slice).1
          ⟨m, Json.expect_eq_ok_iff.2 hm⟩)
      next => exact absurd h (by simp)
    next skip limit =>
      obtain ⟨m, hskip, h⟩ := bind_eq_ok.1 h
      obtain ⟨n, hlimit, h⟩ := bind_eq_ok.1 h
      have hslice : ∃ p, slice m n = .ok p := by
        split at h
        next => exact absurd h (by simp)
        next => exact ⟨p, h⟩
      exact .inr ⟨skip, limit, rfl, (Json.exists_expectInt64_iff_isInt64 _).1 ⟨m, hskip⟩,
        (Json.exists_expectInt64_from_iff _ (by decide)).1
          ⟨n, hlimit, (exists_slice_iff m).1 hslice⟩⟩
    next => exact absurd h (by simp)
    next => exact absurd h (by simp)
  · rintro (hcount | ⟨skip, limit, rfl, hskip, hlimit⟩)
    · obtain ⟨m, hm⟩ := (Json.exists_expectInt64_iff_isInt64 Keyword.slice).2 hcount
      obtain rfl := Json.expectInt64_eq_ok_iff.1 hm
      have hwhole : (Number.integer m.toInt).toInt64? = some m := Json.expect_eq_ok_iff.1 hm
      exact ⟨.count m, by simp [readSlice, Json.ofInt, hwhole]⟩
    · obtain ⟨m, hm⟩ := (Json.exists_expectInt64_iff_isInt64 Keyword.slice).2 hskip
      obtain ⟨n, hn, hpositive⟩ :=
        (Json.exists_expectInt64_from_iff Keyword.slice (by decide)).2 hlimit
      obtain ⟨p, hp⟩ := (exists_slice_iff m).2 hpositive
      exact ⟨p, by simp [readSlice, hm, hn, hp]⟩

theorem exists_read_iff : (∃ p, read v = .ok p) ↔ IsFieldProjection v := by
  constructor
  · rintro ⟨p, h⟩
    rw [read.eq_def] at h
    split at h
    next n => exact .inl ⟨n, rfl⟩
    next b => exact .inr (.inl ⟨b, rfl⟩)
    next key slice =>
      split at h
      next hkey =>
        obtain rfl := hkey
        exact .inr (.inr ⟨slice, rfl, (exists_readSlice_iff _).1 ⟨p, h⟩⟩)
      next => exact absurd h (by simp)
    next => exact absurd h (by simp)
  · rintro (⟨n, rfl⟩ | ⟨b, rfl⟩ | ⟨slice, rfl, hslice⟩)
    · exact ⟨_, rfl⟩
    · exact ⟨_, rfl⟩
    · obtain ⟨p, hp⟩ :=
        (exists_readSlice_iff (.single Keyword.slice slice)).2 hslice
      exact ⟨p, hp⟩

end FieldProjection

namespace Projection

variable {p p' p'' : Projection} {e e' : String × Json}

/-- The fields that entries name depend on the fields known before, not on the usage. -/
theorem readField_frame (h : entries.foldlM readField p = .ok p') : ∃ fields,
    p' = { p with fields } ∧
      ∀ q : Projection, q.fields = p.fields →
        entries.foldlM readField q = .ok { q with fields } := by
  induction entries generalizing p with
  | nil =>
    obtain rfl : p = p' := Except.ok.inj h
    exact ⟨p.fields, rfl, fun q hq => by rw [← hq]; rfl⟩
  | cons e rest ih =>
    obtain ⟨next, hnext, hrest⟩ := foldlM_cons_eq_ok.1 h
    simp only [readField, addField, bind_eq_ok] at hnext
    obtain ⟨projection, hprojection, name, hname, hnext⟩ := hnext
    obtain rfl := Except.ok.inj hnext
    obtain ⟨fields, rfl, hall⟩ := ih hrest
    refine ⟨fields, rfl, fun q hq => ?_⟩
    have hstep : readField q e = .ok { q with fields := q.fields.insert name projection } := by
      simp only [readField, addField, hprojection, hname, ok_bind]
    rw [List.foldlM_cons, hstep, ok_bind, hall _ (by rw [hq])]

/-- What one more entry sets. -/
inductive Shows (p : Projection) : String × Json → Projection → Prop
  | fields (entries : List (String × Json)) (fields : OrderedMap Name FieldProjection)
      (read : ∀ q : Projection, q.fields = p.fields →
        entries.foldlM readField q = .ok { q with fields }) :
      Shows p (Keyword.fields, .object entries) { p with fields }
  | usage (usage : String) : Shows p (Keyword.usage, .string usage) { p with usage := some usage }

theorem readEntry_eq_ok_iff : readEntry p e = .ok p' ↔ Shows p e p' := by
  obtain ⟨key, w⟩ := e
  constructor
  · intro h
    rw [readEntry] at h
    split at h
    next hkey =>
      obtain rfl : key = Keyword.fields := hkey
      simp only [bind_eq_ok, Json.expectObject_eq_ok_iff] at h
      obtain ⟨entries, rfl, h⟩ := h
      obtain ⟨fields, rfl, hall⟩ := readField_frame h
      exact .fields entries fields hall
    next =>
      split at h
      next hkey =>
        obtain rfl : key = Keyword.usage := hkey
        simp only [bind_eq_ok, Json.expectString_eq_ok_iff] at h
        obtain ⟨usage, rfl, h⟩ := h
        obtain rfl := Except.ok.inj h
        exact .usage usage
      next => exact absurd h (by simp)
  · intro h
    cases h with
    | fields entries fields read => simp [readEntry, read p rfl]
    | usage usage =>
      have hne : Keyword.usage ≠ Keyword.fields := by decide
      simp [readEntry, hne]

theorem Shows.swap (h : Shows p e p') (h' : Shows p' e' p'') (hne : e.1 ≠ e'.1) :
    ∃ p₁, Shows p e' p₁ ∧ Shows p₁ e p'' := by
  cases h with
  | fields entries fields read =>
    cases h' with
    | fields => exact absurd rfl hne
    | usage usage => exact ⟨_, .usage usage, .fields entries fields read⟩
  | usage usage =>
    cases h' with
    | fields entries fields read => exact ⟨_, .fields entries fields read, .usage usage⟩
    | usage => exact absurd rfl hne

theorem read_object_eq_ok_of_perm (hperm : entries.Perm entries')
    (hentries : (Entries.keys entries).Nodup) (h : read (.object entries) = .ok p) :
    read (.object entries') = .ok p := by
  rw [read, Json.expectObject_object, ok_bind] at h ⊢
  refine Entries.foldlM_eq_ok_of_perm (fun e e' s s' t hne hs hs' => ?_) hperm hentries h
  simp only [readEntry_eq_ok_iff] at hs hs' ⊢
  exact hs.swap hs' hne

theorem exists_readField_iff (p : Projection) (e : String × Json) :
    (∃ p', readField p e = .ok p') ↔ ¬ Text.Blank e.1 ∧ IsFieldProjection e.2 := by
  have hadd : ∀ projection, (∃ p', p.addField e.1 projection = .ok p') ↔ ¬ Text.Blank e.1 := by
    intro projection
    rw [addField, exists_bind_ok_eq_ok, Name.exists_build_iff]
  simp only [readField, exists_bind_eq_ok, hadd, exists_and_right, FieldProjection.exists_read_iff]
  exact and_comm

/-- A projection is read if and only if it is a projection document. -/
theorem exists_read_iff_isProjection : (∃ p, read v = .ok p) ↔ IsProjection v := by
  have hfields : ∀ (p : Projection) (entries : List (String × Json)),
      (∃ p', entries.foldlM readField p = .ok p') ↔
        ∀ e ∈ entries, ¬ Text.Blank e.1 ∧ IsFieldProjection e.2 :=
    fun p _ => exists_foldlM_iff (fun p e _ => exists_readField_iff p e) p
  have hstep : ∀ (p : Projection) (e : String × Json), (∃ p', readEntry p e = .ok p') ↔
      (e.1 = Keyword.fields ∧
        e.2.IsObjectOf fun field => ¬ Text.Blank field.1 ∧ IsFieldProjection field.2) ∨
      (e.1 = Keyword.usage ∧ e.2.IsAnyText) := by
    intro p e
    have hne : Keyword.fields ≠ Keyword.usage := by decide
    rw [readEntry]
    split
    next hkey =>
      simp only [exists_bind_eq_ok, Json.expectObject_eq_ok_iff, hfields, hkey, hne, true_and,
        false_and, or_false]
      rfl
    next hkey =>
      split
      next husage =>
        simp only [exists_bind_ok_eq_ok, Json.expectString_eq_ok_iff, husage, hne.symm, false_and,
          true_and, false_or, Json.IsAnyText, Json.IsText, and_true]
      next husage => simp [hkey, husage]
  simp only [read, exists_bind_eq_ok, Json.expectObject_eq_ok_iff, IsProjection, Json.IsObjectOf]
  refine exists_congr fun entries => and_congr_right fun _ => ?_
  exact exists_foldlM_iff (fun p e _ => hstep p e) {}

end Projection

end Fonds
