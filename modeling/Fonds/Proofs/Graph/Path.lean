import Fonds.Proofs.Graph.Line
import Fonds.Proofs.Query.Meaning

/-!
Which units a path of identifiers selects. Each identifier is looked up by its distance from the
last, and on its own: it has to name an ancestor at that distance. A chain of parents does so, and
where the lines of descent split, so does a path that is no chain.
-/
namespace Fonds

open Store

variable {U : Type} {g : Archive U} {docs : Documents U} {c : Configuration}
  {results : Nat → Set String} {ids : List String} {u : U}

namespace Archive

/-- Every identifier names an ancestor of the unit, as many links above it as it stands before the
last. -/
def HasLineage (g : Archive U) (ids : List String) (u : U) : Prop :=
  ∀ i id, ids[i]? = some id → ∃ a, g.id a = id ∧ g.Above (ids.length - 1 - i) a u

/-- The last identifier is that of the unit, and every other names a parent of the unit that the
next one names. -/
def EndsChain (g : Archive U) (ids : List String) (u : U) : Prop :=
  ids.getLast? = some (g.id u) ∧ ∀ i above below, ids[i]? = some above →
    ids[i + 1]? = some below → ∃ p v, g.id p = above ∧ g.id v = below ∧ g.IsParent p v

/-- By induction on the distance from the last identifier: each unit of a chain is a parent of the
one found before. -/
theorem EndsChain.above (h : g.EndsChain ids u) {k : Nat} (hk : k < ids.length) :
    ∃ a, ids[ids.length - 1 - k]? = some (g.id a) ∧ g.Above k a u := by
  induction k with
  | zero =>
    have hlast := h.1
    rw [List.getLast?_eq_getElem?] at hlast
    exact ⟨u, hlast, rfl⟩
  | succ k ih =>
    obtain ⟨b, hb, hbu⟩ := ih (by omega)
    have hnext : ids.length - 1 - (k + 1) + 1 = ids.length - 1 - k := by omega
    have hget := List.getElem?_eq_getElem (l := ids) (i := ids.length - 1 - (k + 1)) (by omega)
    obtain ⟨p, v, hp, hv, hpv⟩ := h.2 _ _ _ hget (hnext ▸ hb)
    obtain rfl := g.id_injective hv
    rw [hget, ← hp]
    exact ⟨p, rfl, above_succ_iff.2 ⟨v, hpv, hbu⟩⟩

theorem EndsChain.hasLineage (h : g.EndsChain ids u) : g.HasLineage ids u := by
  intro i id hid
  have hi : i < ids.length := (List.getElem?_eq_some_iff.1 hid).1
  obtain ⟨a, ha, hau⟩ := h.above (k := ids.length - 1 - i) (by omega)
  rw [show ids.length - 1 - (ids.length - 1 - i) = i by omega, hid, Option.some.injEq] at ha
  exact ⟨a, ha.symm, hau⟩

/-- The unit above one identifier is a parent of some unit at the distance of the next, and only one
unit lies there. -/
theorem HasLineage.endsChain (h : g.HasLineage ids u) (hne : ids ≠ [])
    (hline : g.SingleLine (ids.length - 1) u) : g.EndsChain ids u := by
  have hpos := List.length_pos_of_ne_nil hne
  constructor
  · obtain ⟨a, ha, hau⟩ := h (ids.length - 1) ids[ids.length - 1]
      (List.getElem?_eq_getElem (by omega))
    rw [Nat.sub_self] at hau
    obtain rfl : a = u := hau
    rw [List.getLast?_eq_getElem?, List.getElem?_eq_getElem (by omega), ha]
  · intro i above below habove hbelow
    have hi : i + 1 < ids.length := (List.getElem?_eq_some_iff.1 hbelow).1
    obtain ⟨p, hp, hpu⟩ := h i above habove
    obtain ⟨v, hv, hvu⟩ := h (i + 1) below hbelow
    rw [show ids.length - 1 - i = ids.length - 1 - (i + 1) + 1 by omega] at hpu
    obtain ⟨b, hpb, hbu⟩ := above_succ_iff.1 hpu
    obtain rfl := hline _ (by omega) b v hbu hvu
    exact ⟨p, b, hp, hv, hpb⟩

end Archive

theorem Documents.ListLineage.mem_lineageField (hd : docs.ListLineage c g) (n : Nat) (x : String) :
    x ∈ docs.listed u (c.lineageField n) ↔ ∃ a, g.id a = x ∧ g.Above n a u := by
  cases n with
  | zero => simp [Configuration.lineageField, hd.id, Archive.Above]
  | succ n =>
    rw [Configuration.lineageField, hd.ancestorsAt u (n + 1) x (by omega)]
    simp only [and_comm]

theorem Documents.ListLineage.holds_path (hd : docs.ListLineage c g) :
    (c.pathPredicate ids).Holds (g.reading docs results) u ↔ g.HasLineage ids u := by
  rw [holds_pathPredicate]
  refine forall₃_congr fun i id _ => ?_
  simp [Archive.reading, Archive.members, hd.mem_lineageField]

/-- In a forest a path selects the end of a chain of parents and nothing else. -/
theorem Documents.ListLineage.holds_path_iff_endsChain (hd : docs.ListLineage c g)
    (hne : ids ≠ []) (hforest : g.IsForest) :
    (c.pathPredicate ids).Holds (g.reading docs results) u ↔ g.EndsChain ids u := by
  rw [hd.holds_path]
  exact ⟨fun h => h.endsChain hne (hforest.singleLine _ u), Archive.EndsChain.hasLineage⟩

/-- A path selects a unit exactly if its identifiers name ancestors of the unit at their distances.
The end of a chain of parents is always selected. Nothing else is where at each distance short of
the first identifier's only one unit lies above the unit: for at most two identifiers, and where no
unit has two parents. -/
theorem Documents.ListLineage.holds_pathPredicate_iff (hd : docs.ListLineage c g) (hne : ids ≠ [])
    (results : Nat → Set String) (u : U) :
    ((c.pathPredicate ids).Holds (g.reading docs results) u ↔ g.HasLineage ids u) ∧
      (g.EndsChain ids u → (c.pathPredicate ids).Holds (g.reading docs results) u) ∧
      (g.SingleLine (ids.length - 1) u →
        ((c.pathPredicate ids).Holds (g.reading docs results) u ↔ g.EndsChain ids u)) := by
  rw [hd.holds_path]
  refine ⟨Iff.rfl, Archive.EndsChain.hasLineage, fun hline => ⟨fun h => ?_, fun h => h.hasLineage⟩⟩
  exact h.endsChain hne hline

/-- Of the units in the fonds, a path of two identifiers selects the item and not the file. -/
theorem holds_pathPredicate_iff_shortcut :
    Archive.shortcutDocuments.ListLineage .initial .shortcut ∧ ["fonds", "item"] ≠ [] ∧
      (Configuration.initial.pathPredicate ["fonds", "item"]).Holds
        (Archive.shortcut.reading Archive.shortcutDocuments fun _ => ∅) 3 ∧
      ¬ (Configuration.initial.pathPredicate ["fonds", "item"]).Holds
        (Archive.shortcut.reading Archive.shortcutDocuments fun _ => ∅) 2 := by
  have hd := Archive.describe_shortcutDocuments.listLineage
  have hne : ["fonds", "item"] ≠ [] := List.cons_ne_nil _ _
  have hselects (u : Fin 4) := (hd.holds_pathPredicate_iff hne (fun _ => ∅) u).2.2
    (Archive.singleLine_of_le_one le_rfl)
  refine ⟨hd, hne, (hselects 3).2 ⟨by decide, ?_⟩, fun h => ?_⟩
  · intro i above below habove hbelow
    match i with
    | 0 => exact ⟨0, 3, Option.some.inj habove, Option.some.inj hbelow, by decide⟩
    | i + 1 => simp at hbelow
  · have hlast := ((hselects 2).1 h).1
    exact absurd hlast (by decide)

/-- The fonds lies one and three links above the item, and the series two. So the path from the
fonds to the series, back to the fonds and on to the item selects the item, though no series is a
parent of its fonds. -/
theorem Archive.shortcut_selected_off_chain :
    shortcutDocuments.ListLineage .initial shortcut ∧
      (Configuration.initial.pathPredicate ["fonds", "series", "fonds", "item"]).Holds
        (shortcut.reading shortcutDocuments fun _ => ∅) 3 ∧
      ¬ shortcut.EndsChain ["fonds", "series", "fonds", "item"] 3 := by
  have hd := describe_shortcutDocuments.listLineage
  refine ⟨hd, hd.holds_path.2 fun i id hid => ?_, fun h => ?_⟩
  · match i with
    | 0 => exact ⟨0, Option.some.inj hid, by decide⟩
    | 1 => exact ⟨1, Option.some.inj hid, by decide⟩
    | 2 => exact ⟨0, Option.some.inj hid, by decide⟩
    | 3 => exact ⟨3, Option.some.inj hid, by decide⟩
    | i + 4 => simp at hid
  · obtain ⟨p, v, hp, hv, hpv⟩ := h.2 1 "series" "fonds" rfl rfl
    obtain rfl : p = 1 := shortcut.id_injective hp
    obtain rfl : v = 0 := shortcut.id_injective hv
    exact absurd hpv (by decide)

end Fonds
