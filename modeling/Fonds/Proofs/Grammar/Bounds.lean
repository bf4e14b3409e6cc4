import Fonds.Proofs.Grammar.Query
import Fonds.Proofs.RoundTrip.Query

/-!
The bounds of a range. They are taken one after the other, each on a side that is still open; so
they are taken if no two of them are on one side, in whatever order they come.
-/
namespace Fonds

namespace BoundOperator

theorem eq_token_of_ofToken? {token : String} {b : BoundOperator} (h : ofToken? token = some b) :
    token = b.token :=
  (find?_token_eq_some_iff ofToken?_token).1 h

/-- Different bounds lie on different sides, unless two of them differ in strictness only. -/
theorem nodup_map_isLower_iff {operators : List BoundOperator} (h : operators.Nodup) :
    (operators.map isLower).Nodup ↔ Compatible (operators.map token) := by
  rw [List.nodup_map_iff_inj_on h]
  simp only [Compatible, List.mem_map_of_injective token_injective]
  constructor
  · intro hinj
    refine ⟨?_, ?_⟩
    · rintro ⟨hgt, hgte⟩
      exact absurd (hinj _ hgt _ hgte rfl) (by simp)
    · rintro ⟨hlt, hlte⟩
      exact absurd (hinj _ hlt _ hlte rfl) (by simp)
  · rintro ⟨hlower, hupper⟩ a ha b hb hside
    cases a <;> cases b <;> simp_all [isLower]

end BoundOperator

namespace Bounds

variable {construct : String} {field : Name} {known : Option Bounds} {b : Bounds}
  {bound : BoundOperator × Json}

/-- The sides that have a bound. -/
def sides (known : Option Bounds) : List Bool :=
  (known.elim [] toList).map fun bound => bound.operator.isLower

theorem clash?_eq_none_iff {operator : BoundOperator} :
    b.clash? operator = none ↔ operator.isLower ∉ sides (some b) := by
  cases hsecond : b.second with
  | none => simp [clash?, sides, toList, hsecond]
  | some second =>
    have hopposite := b.opposite second hsecond
    by_cases hfirst : operator.isLower = b.first.operator.isLower
    · simp [clash?, sides, toList, hfirst]
    · have hside : operator.isLower = second.operator.isLower := by
        cases hs : second.operator.isLower <;> simp_all
      simp [clash?, sides, toList, hsecond, hside, hopposite]

theorem nodup_sides : (sides known).Nodup := by
  cases known with
  | none => simp [sides]
  | some b =>
    cases hsecond : b.second with
    | none => simp [sides, toList, hsecond]
    | some second =>
      have hopposite := b.opposite second hsecond
      simpa [sides, toList, hsecond] using hopposite.symm

/-- A bound is taken if its side is open. -/
theorem exists_extend_iff : (∃ b, extend construct field known bound = .ok b) ↔
    bound.1.isLower ∉ sides known ∧ bound.2.IsScalar := by
  rw [← Literal.exists_build_iff construct]
  cases known with
  | none =>
    rw [extend, exists_bind_eq_ok]
    simp [sides]
  | some known =>
    rw [extend, ← clash?_eq_none_iff]
    split
    next clash hclash => simp [hclash]
    next hopen =>
      rw [exists_bind_eq_ok]
      simp [hopen]

theorem sides_extend (h : extend construct field known bound = .ok b) :
    sides (some b) = sides known ++ [bound.1.isLower] := by
  cases known with
  | none =>
    rw [extend, bind_eq_ok] at h
    obtain ⟨value, -, hb⟩ := h
    obtain rfl := Except.ok.inj hb
    rfl
  | some known =>
    rw [extend] at h
    split at h
    next => exact absurd h (by simp)
    next hopen =>
      obtain ⟨value, -, hb⟩ := bind_eq_ok.1 h
      obtain rfl := Except.ok.inj hb
      have hsecond : known.second = none := by
        rw [clash?] at hopen
        split at hopen
        · exact absurd hopen (by simp)
        · simpa using hopen
      simp [sides, add, toList, hsecond]

/-- Bounds are taken one after the other if they are on different sides. -/
theorem exists_foldlM_extend_iff (construct : String) (field : Name) (known : Option Bounds)
    (bounds : List (BoundOperator × Json)) :
    (∃ last, bounds.foldlM (fun known bound => some <$> extend construct field known bound) known =
        .ok last) ↔
      (sides known ++ bounds.map fun bound => bound.1.isLower).Nodup ∧
        ∀ bound ∈ bounds, bound.2.IsScalar := by
  induction bounds generalizing known with
  | nil => simpa [Pure.pure, Except.pure] using nodup_sides
  | cons bound bounds ih =>
    have hstep : ∀ b, extend construct field known bound = .ok b →
        ((∃ last, bounds.foldlM (fun known bound => some <$> extend construct field known bound)
            (some b) = .ok last) ↔
          (sides known ++ bound.1.isLower :: bounds.map fun bound => bound.1.isLower).Nodup ∧
            ∀ bound ∈ bounds, bound.2.IsScalar) := by
      intro b hb
      rw [ih, sides_extend hb]
      simp
    have hopen : (sides known ++ bound.1.isLower :: bounds.map fun bound => bound.1.isLower).Nodup →
        bound.1.isLower ∉ sides known := by
      intro hnodup hmem
      exact (List.nodup_append.1 hnodup).2.2 _ hmem _ List.mem_cons_self rfl
    rw [List.foldlM_cons, exists_bind_eq_ok, List.forall_mem_cons, List.map_cons]
    constructor
    · rintro ⟨known', hknown', hrest⟩
      obtain ⟨b, hb, rfl⟩ := map_eq_ok.1 hknown'
      obtain ⟨hnodup, hscalars⟩ := (hstep b hb).1 hrest
      exact ⟨hnodup, (exists_extend_iff.1 ⟨b, hb⟩).2, hscalars⟩
    · rintro ⟨hnodup, hscalar, hscalars⟩
      obtain ⟨b, hb⟩ := exists_extend_iff.2 ⟨hopen hnodup, hscalar⟩
      exact ⟨some b, map_eq_ok.2 ⟨b, hb, rfl⟩, (hstep b hb).2 ⟨hnodup, hscalars⟩⟩

theorem foldlM_extend_ne_none {bounds : List (BoundOperator × Json)} (h : bounds ≠ []) :
    bounds.foldlM (fun known bound => some <$> extend construct field known bound) known ≠
      .ok none := by
  induction bounds generalizing known with
  | nil => exact absurd rfl h
  | cons bound bounds ih =>
    rw [List.foldlM_cons, ne_eq, bind_eq_ok]
    rintro ⟨known', hknown', hrest⟩
    obtain ⟨b, -, rfl⟩ := map_eq_ok.1 hknown'
    cases bounds with
    | nil => exact absurd (Except.ok.inj hrest) (by simp)
    | cons => exact ih (by simp) hrest

/-- At least one bound, each on a side of its own and with a scalar. -/
def Fit (bounds : List (BoundOperator × Json)) : Prop :=
  bounds ≠ [] ∧ (bounds.map fun bound => bound.1.isLower).Nodup ∧
    ∀ bound ∈ bounds, bound.2.IsScalar

theorem exists_build_iff {bounds : List (BoundOperator × Json)} :
    (∃ b, build construct field bounds = .ok b) ↔ Fit bounds := by
  have hfold := exists_foldlM_extend_iff construct field none bounds
  rw [build, exists_bind_eq_ok]
  constructor
  · rintro ⟨last, hlast, b, hb⟩
    refine ⟨?_, by simpa [sides] using hfold.1 ⟨last, hlast⟩⟩
    rintro rfl
    obtain rfl := Except.ok.inj hlast
    exact absurd hb (by simp)
  · rintro ⟨hne, hbounds⟩
    obtain ⟨last, hlast⟩ := hfold.2 (by simpa [sides] using hbounds)
    cases last with
    | none => exact absurd hlast (foldlM_extend_ne_none hne)
    | some b => exact ⟨some b, hlast, b, rfl⟩

end Bounds

namespace Query

theorem readBound_eq_ok_iff {construct : String} {e : String × Json}
    {bound : BoundOperator × Json} :
    readBound construct e = .ok bound ↔ e = (bound.1.token, bound.2) := by
  constructor
  · intro h
    rw [readBound] at h
    split at h
    next operator hoperator =>
      obtain rfl := Except.ok.inj h
      exact Prod.ext (BoundOperator.eq_token_of_ofToken? hoperator) rfl
    next => exact absurd h (by simp)
  · rintro rfl
    rw [readBound, BoundOperator.ofToken?_token]

/-- A range is read if and only if its entries are bounds, as long as no key comes up twice. -/
theorem exists_fit_iff {construct : String} {entries : List (String × Json)}
    (hentries : (Entries.keys entries).Nodup) :
    (∃ bounds, entries.mapM (readBound construct) = .ok bounds ∧ Bounds.Fit bounds) ↔
      (Json.object entries).IsBounds := by
  have hread : ∀ bounds : List (BoundOperator × Json),
      entries.mapM (readBound construct) = .ok bounds ↔
        entries = bounds.map fun bound => (bound.1.token, bound.2) :=
    fun bounds => mapM_eq_ok_iff fun _ _ => readBound_eq_ok_iff
  have hsides : ∀ bounds : List (BoundOperator × Json),
      entries = bounds.map (fun bound => (bound.1.token, bound.2)) →
      ((bounds.map fun bound => bound.1.isLower).Nodup ↔
        BoundOperator.Compatible (Entries.keys entries)) := by
    rintro bounds rfl
    have hkeys : Entries.keys (bounds.map fun bound => (bound.1.token, bound.2)) =
        (bounds.map Prod.fst).map BoundOperator.token := by
      simp [Entries.keys]
    rw [hkeys] at hentries ⊢
    rw [← BoundOperator.nodup_map_isLower_iff (List.Nodup.of_map _ hentries), List.map_map]
    rfl
  simp only [hread]
  constructor
  · rintro ⟨bounds, hbounds, hne, hnodup, hscalars⟩
    refine ⟨entries, rfl, ?_, ?_, (hsides bounds hbounds).1 hnodup⟩
    · rintro rfl
      exact hne (List.map_eq_nil_iff.1 hbounds.symm)
    · intro e he
      rw [hbounds] at he
      obtain ⟨bound, hbound, rfl⟩ := List.mem_map.1 he
      exact ⟨⟨bound.1, rfl⟩, hscalars bound hbound⟩
  · rintro ⟨_, heq, hne, hforms, hcompatible⟩
    obtain rfl := Json.object.inj heq
    have hbound : ∀ e ∈ entries, ∃ bound, readBound construct e = .ok (id bound) := by
      intro e he
      obtain ⟨operator, hoperator⟩ := (hforms e he).1
      exact ⟨(operator, e.2), readBound_eq_ok_iff.2 (Prod.ext hoperator rfl)⟩
    obtain ⟨bounds, hbounds⟩ := (exists_mapM_eq_ok id).2 hbound
    rw [List.map_id, hread] at hbounds
    refine ⟨bounds, hbounds, ?_, (hsides bounds hbounds).2 hcompatible, ?_⟩
    · rintro rfl
      exact hne hbounds
    · intro bound hmem
      have he : (bound.1.token, bound.2) ∈ entries := by
        rw [hbounds]
        exact List.mem_map_of_mem hmem
      exact (hforms _ he).2

end Query

end Fonds
