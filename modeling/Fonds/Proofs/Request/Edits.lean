import Fonds.Proofs.Outcome
import Fonds.Request.Edit

/-!
Edits that are refused. Each leaves the request as it was, but for one: of roots that are added
together, those before the first blank one stay. So every request that edits lead to is one that
they lead to without a refusal. No edit, refused or not, changes the kind of the request.
-/
namespace Fonds

namespace OrderedSet

variable {α : Type} [DecidableEq α] {s : OrderedSet α} {a b : α} {l : List α}

theorem insert_of_mem (h : a ∈ s.elems) : s.insert a = s := by
  rw [insert, dif_pos h]

theorem mem_insert_iff : b ∈ (s.insert a).elems ↔ b ∈ s.elems ∨ b = a := by
  by_cases ha : a ∈ s.elems
  · rw [insert_of_mem ha]
    constructor
    · exact .inl
    · rintro (hb | rfl)
      · exact hb
      · exact ha
  · rw [insert, dif_neg ha, List.mem_append, List.mem_singleton]

theorem mem_foldl_insert_iff : b ∈ (l.foldl insert s).elems ↔ b ∈ s.elems ∨ b ∈ l := by
  induction l generalizing s with
  | nil => simp
  | cons a l ih => rw [List.foldl_cons, ih, mem_insert_iff, List.mem_cons, or_assoc]

/-- A set stays as it is only where nothing new comes to it. -/
theorem foldl_insert_eq_self_iff : l.foldl insert s = s ↔ ∀ a ∈ l, a ∈ s := by
  constructor
  · intro h a ha
    have hmem : a ∈ (l.foldl insert s).elems := mem_foldl_insert_iff.2 (.inr ha)
    rwa [h] at hmem
  · intro h
    induction l with
    | nil => rfl
    | cons a l ih =>
      rw [List.forall_mem_cons] at h
      rw [List.foldl_cons, insert_of_mem h.1, ih h.2]

end OrderedSet

namespace Core

variable {roots : OrderedSet NonBlank} {ids : List String}

/-- The roots of a list before the first that is blank. -/
def leadingRoots : List String → List NonBlank
  | [] => []
  | id :: rest =>
    match NonBlank.ofString? id with
    | some root => root :: leadingRoots rest
    | none => []

theorem addRoot_text (root : NonBlank) : addRoot roots root.text = .ok (roots.insert root) := by
  rw [addRoot, NonBlank.build_text, ok_bind]

/-- Roots are added one after the other, until one is blank. -/
theorem addRoots_snd (roots : OrderedSet NonBlank) (ids : List String) :
    (addRoots roots ids).2 = (leadingRoots ids).foldl OrderedSet.insert roots := by
  induction ids generalizing roots with
  | nil => rfl
  | cons id rest ih =>
    rw [addRoots, leadingRoots, addRoot, NonBlank.build]
    cases NonBlank.ofString? id with
    | none => rfl
    | some root => exact ih (roots.insert root)

theorem addRoots_fst_text (roots : OrderedSet NonBlank) (added : List NonBlank) :
    (addRoots roots (added.map NonBlank.text)).1 = .ok () := by
  induction added generalizing roots with
  | nil => rfl
  | cons root rest ih =>
    rw [List.map_cons, addRoots, addRoot_text]
    exact ih (roots.insert root)

theorem leadingRoots_text (added : List NonBlank) :
    leadingRoots (added.map NonBlank.text) = added := by
  induction added with
  | nil => rfl
  | cons root rest ih => rw [List.map_cons, leadingRoots, NonBlank.ofString?_text, ih]

end Core

namespace Request

variable {r : Request} {edit : Edit} {e : EditError}

theorem setRoots_eq_self_iff {roots : OrderedSet NonBlank} :
    r.setRoots roots = r ↔ roots = r.core.roots := by
  constructor
  · intro h
    have hroots : (r.setRoots roots).core.roots = r.core.roots := by rw [h]
    exact hroots
  · rintro rfl
    rfl

theorem apply_addRoots_snd (r : Request) (ids : List String) :
    (r.apply (.addRoots ids)).2 =
      r.setRoots ((Core.leadingRoots ids).foldl OrderedSet.insert r.core.roots) := by
  rw [← Core.addRoots_snd]
  rfl

theorem attempt_of_error {result : Except EditError Request}
    (h : (r.attempt result).1 = .error e) : (r.attempt result).2 = r := by
  cases result with
  | ok r' => cases h
  | error e => rfl

theorem apply_of_error (h : (r.apply edit).1 = .error e) (hroots : ∀ ids, edit ≠ .addRoots ids) :
    (r.apply edit).2 = r := by
  cases edit with
  | addRoots ids => exact absurd rfl (hroots ids)
  | resetRoots => cases h
  | _ => exact attempt_of_error h

/-- A refused edit changes nothing, unless it adds roots: then those before the first blank one
stay, and only where all of them were there before does nothing change. -/
theorem apply_of_refused (h : (r.apply edit).1 = .error e) :
    ((∀ ids, edit ≠ .addRoots ids) → (r.apply edit).2 = r) ∧
    ∀ ids, edit = .addRoots ids →
      (r.apply edit).2 =
        r.setRoots ((Core.leadingRoots ids).foldl OrderedSet.insert r.core.roots) ∧
      ((r.apply edit).2 = r ↔ ∀ root ∈ Core.leadingRoots ids, root ∈ r.core.roots) := by
  refine ⟨apply_of_error h, ?_⟩
  rintro ids rfl
  refine ⟨apply_addRoots_snd r ids, ?_⟩
  rw [apply_addRoots_snd, setRoots_eq_self_iff, OrderedSet.foldl_insert_eq_self_iff]

/-- A blank hint is refused, and so is a blank root after one that is there. -/
theorem apply_of_refused_blank :
    let r := (empty .select).applyAll [.addRoots ["fonds"]]
    (r.apply (.addHint " ")).1 = .error (.refused (.invalid FilterKeyword.hint.token .emptyHint)) ∧
    (r.apply (.addHint " ")).2 = r ∧
    (r.apply (.addRoots ["fonds", " ", "series"])).1 =
      .error (.refused (.invalid Section.roots.token .emptyRoot)) ∧
    (r.apply (.addRoots ["fonds", " ", "series"])).2 = r := by
  intro r
  have hhint : (r.apply (.addHint " ")).1 =
      .error (.refused (.invalid FilterKeyword.hint.token .emptyHint)) := rfl
  have hroots : (r.apply (.addRoots ["fonds", " ", "series"])).1 =
      .error (.refused (.invalid Section.roots.token .emptyRoot)) := rfl
  refine ⟨hhint, (apply_of_refused hhint).1 (by simp), hroots, ?_⟩
  exact ((apply_of_refused hroots).2 _ rfl).2.2 (by decide)

/-- The fonds becomes a root though the edit that adds it is refused. -/
theorem addRoots_refused_after_fonds :
    ((empty .select).apply (.addRoots ["fonds", " "])).1 =
      .error (.refused (.invalid Section.roots.token .emptyRoot)) ∧
    ((empty .select).apply (.addRoots ["fonds", " "])).2 ≠ empty .select := by
  refine ⟨rfl, fun h => ?_⟩
  have hroots : ((empty .select).apply (.addRoots ["fonds", " "])).2.core.roots.elems = [] := by
    rw [h]
    rfl
  exact absurd hroots (by decide)

section Kinds

variable {r r' : Request}

theorem kind_attempt {result : Except EditError Request}
    (h : ∀ r', result = .ok r' → r'.kind = r.kind) : (r.attempt result).2.kind = r.kind := by
  cases result with
  | error e => rfl
  | ok r' => exact h r' rfl

theorem kind_editSteps {steps : Built Steps} (h : r.editSteps steps = .ok r') :
    r'.kind = r.kind := by
  cases steps with
  | error e => cases h
  | ok steps => rw [← Except.ok.inj h, kind, kind]

theorem kind_editFilter {filter : Built Filter} (h : r.editFilter filter = .ok r') :
    r'.kind = r.kind := by
  cases filter with
  | error e => cases h
  | ok filter => rw [← Except.ok.inj h, kind, kind]

theorem kind_editProjection {edit : Projection → Built Projection}
    (h : r.editProjection edit = .ok r') : r'.kind = r.kind := by
  rw [editProjection] at h
  split at h
  · rename_i hpayload
    split at h
    · rw [← Except.ok.inj h, kind, kind, hpayload, Payload.kind, Payload.kind]
    · cases h
  · cases h

theorem kind_editFacets {edit : Facets → Built Facets} (h : r.editFacets edit = .ok r') :
    r'.kind = r.kind := by
  rw [editFacets] at h
  split at h
  · rename_i hpayload
    split at h
    · rw [← Except.ok.inj h, kind, kind, hpayload, Payload.kind, Payload.kind]
    · cases h
  · cases h

theorem kind_editData {data : Built (List (String × Json))} (h : r.editData data = .ok r') :
    r'.kind = r.kind := by
  unfold editData at h
  split at h
  · rename_i hpayload
    split at h
    · rw [← Except.ok.inj h, kind, kind, hpayload, Payload.kind, Payload.kind]
    · cases h
  · cases h

theorem kind_editActions {edit : List Action → List Action} (h : r.editActions edit = .ok r') :
    r'.kind = r.kind := by
  rw [editActions] at h
  split at h
  · rename_i hpayload
    rw [← Except.ok.inj h, kind, kind, hpayload, Payload.kind, Payload.kind]
  · cases h

/-- No edit makes a request one of another kind. -/
theorem kind_apply (r : Request) (edit : Edit) : (r.apply edit).2.kind = r.kind := by
  cases edit with
  | addRoots ids => rfl
  | resetRoots => rfl
  | addQuery q => exact kind_attempt fun _ h => kind_editSteps h
  | setQuery index q => exact kind_attempt fun _ h => kind_editSteps h
  | resetQueries => exact kind_attempt fun _ h => kind_editSteps h
  | setProjection p => exact kind_attempt fun _ h => kind_editProjection h
  | addProjection field p => exact kind_attempt fun _ h => kind_editProjection h
  | resetProjectionFields => exact kind_attempt fun _ h => kind_editProjection h
  | setUsage usage => exact kind_attempt fun _ h => kind_editProjection h
  | resetUsage => exact kind_attempt fun _ h => kind_editProjection h
  | addFacet facet => exact kind_attempt fun _ h => kind_editFacets h
  | resetFacets => exact kind_attempt fun _ h => kind_editFacets h
  | setData v => exact kind_attempt fun _ h => kind_editData h
  | addAction action => exact kind_attempt fun _ h => kind_editActions h
  | resetActions => exact kind_attempt fun _ h => kind_editActions h
  | _ => exact kind_attempt fun _ h => kind_editFilter h

theorem kind_applyAll (r : Request) (edits : List Edit) : (r.applyAll edits).kind = r.kind := by
  induction edits generalizing r with
  | nil => rfl
  | cons edit edits ih => exact (ih _).trans (kind_apply r edit)

theorem kind_empty (kind : Kind) : (empty kind).kind = kind := by
  cases kind <;> rfl

end Kinds

/-- None of the edits is refused, one after the other. -/
def CarriesOut : Request → List Edit → Prop
  | _, [] => True
  | r, edit :: edits => (r.apply edit).1 = .ok () ∧ (r.apply edit).2.CarriesOut edits

theorem applyAll_append (r : Request) (xs ys : List Edit) :
    r.applyAll (xs ++ ys) = (r.applyAll xs).applyAll ys := List.foldl_append

theorem CarriesOut.append {xs ys : List Edit} (hxs : r.CarriesOut xs)
    (hys : (r.applyAll xs).CarriesOut ys) : r.CarriesOut (xs ++ ys) := by
  induction xs generalizing r with
  | nil => exact hys
  | cons x xs ih => exact ⟨hxs.1, ih hxs.2 hys⟩

/-- What an edit comes to, edits that are carried out come to as well. -/
theorem exists_carriesOut_apply (r : Request) (edit : Edit) :
    ∃ edits, r.CarriesOut edits ∧ r.applyAll edits = (r.apply edit).2 := by
  cases hresult : (r.apply edit).1 with
  | ok u => exact ⟨[edit], ⟨hresult, trivial⟩, rfl⟩
  | error e =>
    by_cases hroots : ∃ ids, edit = .addRoots ids
    · -- The roots that stay are added by themselves.
      obtain ⟨ids, rfl⟩ := hroots
      refine ⟨[.addRoots ((Core.leadingRoots ids).map NonBlank.text)], ⟨?_, trivial⟩, ?_⟩
      · exact congrArg (Except.mapError EditError.refused) (Core.addRoots_fst_text _ _)
      · have hsnd := apply_addRoots_snd r ((Core.leadingRoots ids).map NonBlank.text)
        rw [Core.leadingRoots_text, ← apply_addRoots_snd] at hsnd
        exact hsnd
    · refine ⟨[], trivial, ?_⟩
      exact (apply_of_error hresult fun ids hids => hroots ⟨ids, hids⟩).symm

/-- Whatever edits are tried, the request is one that edits lead to of which none is refused. -/
theorem exists_carriesOut_applyAll (r : Request) (edits : List Edit) :
    ∃ edits', r.CarriesOut edits' ∧ r.applyAll edits' = r.applyAll edits := by
  induction edits generalizing r with
  | nil => exact ⟨[], trivial, rfl⟩
  | cons edit edits ih =>
    obtain ⟨xs, hxs, hfirst⟩ := exists_carriesOut_apply r edit
    obtain ⟨ys, hys, hrest⟩ := ih (r.apply edit).2
    refine ⟨xs ++ ys, hxs.append (hfirst ▸ hys), ?_⟩
    rw [applyAll_append, hfirst, hrest]
    rfl

end Request

end Fonds
