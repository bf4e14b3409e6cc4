import Fonds.Proofs.Plan.Fields
import Fonds.Proofs.Plan.Steps
import Mathlib.Data.Finset.Preimage

/-!
Facets over sub-documents. Their field is tested to be under their path as the request names both,
and each is then mapped on its own. Whether the aggregation has its field inside its path is left
to the settings.
-/
namespace Fonds

open Store

/-- What a facet counts the values or dates of. -/
def FacetBody.source? : FacetBody → Option FacetField
  | .terms source _ _ _ | .dateRange source _ _ => some source
  | .filters _ _ => none

namespace Store.Aggregation

/-- The field whose values or dates are counted. -/
def field? : Aggregation → Option String
  | .terms field _ _ | .dateRange field _ _ => some field
  | .filters _ | .nested _ _ _ => none

/-- Whether this runs over sub-documents and counts by one of their fields. -/
def CountsWithin (a : Aggregation) : Prop :=
  ∃ path name inner field, a = .nested path name inner ∧ inner.field? = some field ∧
    Within field path

end Store.Aggregation

/-- Settings under which what is under a path in requests is so in documents. A reserved name must
stand for itself or for a field that holds it, and what it stands for must be inside what any path
stands for that the name is under. -/
structure Configuration.KeepsNesting (c : Configuration) : Prop where
  paths : ∀ (path : Name) field, c.reserved.get? path.text = some field →
    field = path.text ∨ Within path.text field
  fields : ∀ (name path : Name) field, c.reserved.get? name.text = some field →
    Within name.text path.text → Within field (c.mapped path)

section

variable {c : Configuration}

/-- A field is a path or holds it if the path, closed by a dot, begins with the field and one. -/
theorem within_or_eq_iff {field path : String} :
    field = path ∨ Within path field ↔ field.toList ++ ['.'] <+: path.toList ++ ['.'] := by
  rw [List.prefix_concat_iff, List.append_left_inj, String.toList_inj]
  rfl

namespace Name

/-- Some name of a field under a path, a different one for every number. -/
def below (path : Name) (n : Nat) : Name where
  text := String.ofList (path.text.toList ++ ['.'] ++ List.replicate (n + 1) 'x')
  trimmed := by
    have hpath : Text.trimChars path.text.toList = path.text.toList := by
      simpa [Text.trim] using congrArg String.toList path.trimmed
    have hne : path.text.toList ≠ [] := by simpa using path.nonempty
    rw [Text.trim, String.toList_ofList, Text.trimChars_eq_self]
    · intro a ha
      rw [List.append_assoc, List.head?_append_of_ne_nil _ hne] at ha
      exact Text.isBlankChar_of_head?_trimChars a (hpath.symm ▸ ha)
    · intro a ha
      rw [List.replicate_succ', ← List.append_assoc, List.getLast?_concat] at ha
      obtain rfl : 'x' = a := Option.some.inj ha
      decide
  nonempty := by simp

theorem toList_below (path : Name) (n : Nat) :
    (path.below n).text.toList = path.text.toList ++ ['.'] ++ List.replicate (n + 1) 'x' :=
  String.toList_ofList

theorem within_below (path : Name) (n : Nat) : Within (path.below n).text path.text := by
  rw [Within, toList_below]
  exact List.prefix_append _ _

theorem below_injective (path : Name) : Function.Injective fun n => (path.below n).text := by
  intro m n h
  have hlength := congrArg (fun s => s.toList.length) h
  simpa [toList_below] using hlength

/-- Only a field that holds the path, or the path itself, has all of these names inside. -/
theorem within_below_iff {path : Name} {field : String} {n : Nat} :
    Within (path.below n).text field ↔ field = path.text ∨ Within path.text field := by
  rw [within_or_eq_iff, Within, toList_below]
  constructor
  · intro h
    rcases List.prefix_or_prefix_of_prefix h (List.prefix_append _ _) with hshort | ⟨more, hmore⟩
    · exact hshort
    · -- What the field has beyond the path is of the letters there, so it ends in no dot.
      rw [← hmore, List.prefix_append_right_inj] at h
      have hnil : more = [] := by
        by_contra hne
        have hdot : more.getLast hne = '.' := by
          have hlast := congrArg List.getLast? hmore
          rw [List.getLast?_append_of_ne_nil _ hne, List.getLast?_concat,
            List.getLast?_eq_getLast_of_ne_nil hne] at hlast
          exact Option.some.inj hlast
        have hletter := List.eq_of_mem_replicate (h.subset (List.getLast_mem hne))
        exact absurd (hdot.symm.trans hletter) (by decide)
      rw [← hmore, hnil, List.append_nil]
  · exact fun h => h.trans (List.prefix_append _ _)

end Name

namespace Configuration

/-- A path has names under it that are not reserved. -/
theorem exists_below_free (c : Configuration) (path : Name) :
    ∃ n, c.reserved.get? (path.below n).text = none := by
  let reserved := (c.reserved.entries.map Prod.fst).toFinset
  obtain ⟨n, hn⟩ := Infinite.exists_notMem_finset
    (reserved.preimage _ path.below_injective.injOn)
  refine ⟨n, ?_⟩
  rw [SortedMap.get?, Option.map_eq_none_iff, List.find?_eq_none]
  intro e he hkey
  rw [Finset.mem_preimage, List.mem_toFinset] at hn
  exact hn (List.mem_map.2 ⟨e, he, of_decide_eq_true hkey⟩)

/-- Settings keep nesting if and only if they do so for all fields and paths. -/
theorem keepsNesting_iff : c.KeepsNesting ↔
    ∀ field path : Name, Within field.text path.text →
      Within (c.mapped field) (c.mapped path) := by
  constructor
  · intro h field path hunder
    cases hfield : c.reserved.get? field.text with
    | some mapped =>
      rw [mapped_of_reserved hfield]
      exact h.fields field path mapped hfield hunder
    | none =>
      rw [mapped_of_free hfield]
      cases hpath : c.reserved.get? path.text with
      | none =>
        rw [mapped_of_free hpath]
        exact hunder
      | some mapped =>
        rw [mapped_of_reserved hpath]
        exact (within_or_eq_iff.1 (h.paths path mapped hpath)).trans hunder
  · intro h
    constructor
    case paths =>
      intro path mapped hpath
      obtain ⟨n, hn⟩ := c.exists_below_free path
      have hwithin := h (path.below n) path (path.within_below n)
      rw [mapped_of_free hn, mapped_of_reserved hpath] at hwithin
      exact Name.within_below_iff.1 hwithin
    case fields =>
      intro name path mapped hname hunder
      exact mapped_of_reserved hname ▸ h name path hunder

end Configuration

namespace Facet

/-- A facet that counts by a field of the sub-documents at a path, with its aggregation. -/
structure Nests (c : Configuration) (facet : Facet) (field path : Name) (a : Aggregation) :
    Prop where
  source : facet.body.source? = some ⟨field, some path⟩
  compiled : (compileBody c facet.name facet.body).outcome = .ok a

variable {facet : Facet} {field path : Name} {a : Aggregation}

theorem Nests.aggregate (h : facet.Nests c field path a) :
    ∃ inner : Aggregation, inner.field? = some (c.mapped field) ∧
      FacetField.aggregate c facet.name ⟨field, some path⟩ inner = .ok a := by
  obtain ⟨name, body⟩ := facet
  obtain ⟨hsource, hcompiled⟩ := h
  rw [← Configuration.field_eq_mapped]
  cases body with
  | terms source size positive order =>
    obtain rfl := Option.some.inj hsource
    exact ⟨_, rfl, hcompiled⟩
  | dateRange source format ranges =>
    obtain rfl := Option.some.inj hsource
    exact ⟨_, rfl, hcompiled⟩
  | filters queries nonempty => cases hsource

/-- The path and the field are mapped one without the other. -/
theorem Nests.nested (h : facet.Nests c field path a) : Within field.text path.text ∧
    ∃ inner : Aggregation, a = .nested (c.mapped path) facet.name.text inner ∧
      inner.field? = some (c.mapped field) := by
  obtain ⟨inner, hfield, h⟩ := h.aggregate
  simp only [FacetField.aggregate, FacetField.isUnder_iff, Configuration.field_eq_mapped] at h
  split at h
  next hunder =>
    obtain rfl := Except.ok.inj h
    exact ⟨hunder, inner, rfl, hfield⟩
  next => cases h

theorem Nests.countsWithin_iff (h : facet.Nests c field path a) :
    a.CountsWithin ↔ Within (c.mapped field) (c.mapped path) := by
  obtain ⟨-, inner, rfl, hfield⟩ := h.nested
  constructor
  · rintro ⟨_, _, _, _, heq, hinner, hwithin⟩
    cases heq
    rw [hfield] at hinner
    obtain rfl := Option.some.inj hinner
    exact hwithin
  · exact fun hwithin => ⟨_, _, inner, _, rfl, hfield, hwithin⟩

/-- Whatever the field and the path it is under, some facet counts by them. -/
theorem exists_nests (hunder : Within field.text path.text) :
    ∃ facet a, Nests c facet field path a := by
  refine ⟨⟨⟨"counts", by decide⟩, .terms ⟨field, some path⟩ 1 (by decide) .ascending⟩,
    .nested (c.field path) "counts" (.terms (c.field field) 1 .ascending), rfl, ?_⟩
  simp only [compileBody, FacetField.aggregate, if_pos (FacetField.isUnder_iff.2 hunder)]
  rfl

/-- The aggregation of a facet over sub-documents runs at what its path stands for, under the name
of the facet, and counts by what its field stands for. That field is inside the path if neither is
reserved, and in every case if and only if the settings keep nesting. -/
theorem nests_countsWithin_iff (c : Configuration) :
    (∀ facet field path a, Nests c facet field path a →
      Within field.text path.text ∧
      (∃ inner : Aggregation, a = .nested (c.mapped path) facet.name.text inner ∧
        inner.field? = some (c.mapped field)) ∧
      (c.reserved.get? field.text = none → c.reserved.get? path.text = none → a.CountsWithin)) ∧
    ((∀ facet field path a, Nests c facet field path a → a.CountsWithin) ↔ c.KeepsNesting) := by
  constructor
  · intro facet field path a h
    refine ⟨h.nested.1, h.nested.2, fun hfield hpath => h.countsWithin_iff.2 ?_⟩
    rw [Configuration.mapped_of_free hfield, Configuration.mapped_of_free hpath]
    exact h.nested.1
  · rw [Configuration.keepsNesting_iff]
    constructor
    · intro h field path hunder
      obtain ⟨facet, a, hnests⟩ := exists_nests (c := c) hunder
      exact hnests.countsWithin_iff.1 (h facet field path a hnests)
    · intro h facet field path a hnests
      exact hnests.countsWithin_iff.2 (h field path hnests.nested.1)

/-- The settings to begin with do not: a field under the identifier is sought under its own name,
though the path is the one that the identifier stands for. -/
theorem underId_not_countsWithin : ∃ facet a,
    terms "by_type" "#id.Type" (some "#id") 5 (some .descending) = .ok facet ∧
    (compileBody .initial facet.name facet.body).outcome = .ok a ∧
    a = .nested "_id" "by_type" (.terms "#id.Type" 5 .descending) ∧ ¬ a.CountsWithin := by
  refine ⟨_, _, rfl, rfl, rfl, ?_⟩
  rintro ⟨_, _, _, _, heq, hfield, hwithin⟩
  cases heq
  obtain rfl := Option.some.inj hfield
  exact absurd hwithin (by decide)

end Facet

end

end Fonds
