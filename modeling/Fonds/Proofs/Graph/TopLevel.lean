import Fonds.Proofs.Graph.Line
import Fonds.Proofs.Graph.Scopes

/-!
A first step without roots is one seen from all units at the top. Without roots a distance counts
from above the top, so it is one less where it counts from the units there.
-/
namespace Fonds

open Store

variable {U : Type} {g : Archive U} {docs : Documents U} {c : Configuration} {tops : List String}
  {levels : Int} {u : U}

theorem Depth.natAbs_pred_le {levels : Int} {n : Nat} (bounded : levels.natAbs ≤ n)
    (h : 1 ≤ levels) : (levels - 1).natAbs ≤ n := by
  omega

/-- The qualifier that places units from the top as the given one does without roots. -/
def Depth.fromTop : Depth → Depth
  | .relative levels bounded =>
    if h : 1 ≤ levels then .relative (levels - 1) (natAbs_pred_le bounded h)
    else .relative levels bounded
  | .exact level bounded => .exact level bounded

/-- The query that finds from the units at the top what the given one finds without roots. -/
def Query.fromTop : Query → Query
  | .path ids => .path ids
  | .condition q =>
    .condition (q.qualifier.elim q fun depth => q.withQualifier depth.fromTop)

theorem Condition.qualifier_withQualifier (q : Condition) (depth : Depth) :
    (q.withQualifier depth).qualifier = some depth := by
  cases q <;> rfl

theorem Query.depth_fromTop (q : Query) : q.fromTop.depth = q.depth.map Depth.fromTop := by
  cases q with
  | path ids => rfl
  | condition q =>
    simp only [fromTop, depth]
    cases hq : q.qualifier with
    | none => simpa using hq
    | some depth => simp [Condition.qualifier_withQualifier]

namespace Archive

theorem zero_mem_depths_iff : 0 ∈ g.depths u ↔ g.IsTop u := by
  constructor
  · rintro ⟨top, htop, rfl⟩
    exact htop
  · intro htop
    exact ⟨u, htop, rfl⟩

theorem exists_top_eq_or_below (u : U) : ∃ top, g.IsTop top ∧ (u = top ∨ g.Below u top) := by
  obtain ⟨n, top, htop, habove⟩ := depths_nonempty (g := g) u
  cases n with
  | zero => exact ⟨top, htop, .inl habove.symm⟩
  | succ n => exact ⟨top, htop, .inr ⟨n + 1, by omega, habove⟩⟩

/-- The shortest path to the top is what bounds the distance from a unit there. -/
theorem exists_mem_depths_le_iff (h : 0 ≤ levels) :
    (∃ m ∈ g.depths u, (m : Int) ≤ levels) ↔ ∃ top, g.IsTop top ∧
      (u = top ∨ ∃ n : Nat, 1 ≤ n ∧ n ≤ levels ∧ g.Above n top u) := by
  constructor
  · rintro ⟨m, ⟨top, htop, habove⟩, hle⟩
    cases m with
    | zero => exact ⟨top, htop, .inl habove.symm⟩
    | succ m => exact ⟨top, htop, .inr ⟨m + 1, by omega, hle, habove⟩⟩
  · rintro ⟨top, htop, rfl | ⟨n, -, hle, habove⟩⟩
    · exact ⟨0, zero_mem_depths_iff.2 htop, h⟩
    · exact ⟨n, ⟨top, htop, habove⟩, hle⟩

theorem eq_or_places_iff {a : U} (h : 0 ≤ levels) (bounded : levels.natAbs ≤ maxDepth) :
    (u = a ∨ g.Places (some (.relative levels bounded)) a u) ↔
      (u = a ∨ ∃ n : Nat, 1 ≤ n ∧ n ≤ levels ∧ g.Above n a u) := by
  refine or_congr_right' fun hne => ?_
  simp only [Places]
  rcases Int.lt_or_eq_of_le h with hpos | rfl
  · rw [if_neg (ne_of_gt hpos), if_pos hpos]
  · rw [if_pos rfl]
    refine iff_of_false hne ?_
    rintro ⟨n, hone, hle, -⟩
    omega

theorem starts_nil_iff_isTop {bounded : levels.natAbs ≤ maxDepth} (h : levels ≤ 0) :
    g.Starts [] (some (.relative levels bounded)) u ↔ g.IsTop u := by
  simp only [Starts, if_true]
  rw [max_eq_right (by omega), ← zero_mem_depths_iff]
  constructor
  · rintro ⟨m, hm, hle⟩
    obtain rfl : m = 0 := by omega
    exact hm
  · intro hzero
    exact ⟨0, hzero, le_rfl⟩

section Tops

variable (htops : ∀ x, x ∈ tops ↔ ∃ t, g.IsTop t ∧ g.id t = x)
include htops

theorem id_mem_tops (a : U) : g.id a ∈ tops ↔ g.IsTop a := by
  rw [htops]
  constructor
  · rintro ⟨t, ht, hid⟩
    exact g.id_injective hid ▸ ht
  · intro ha
    exact ⟨a, ha, rfl⟩

theorem tops_ne_nil (u : U) : tops ≠ [] := by
  obtain ⟨top, htop, -⟩ := exists_top_eq_or_below (g := g) u
  exact List.ne_nil_of_mem ((id_mem_tops htops top).2 htop)

/-- Nothing lies above the top, so a distance upwards leads nowhere from there. -/
theorem starts_tops_iff_isTop {bounded : levels.natAbs ≤ maxDepth} (h : levels ≤ 0) :
    g.Starts tops (some (.relative levels bounded)) u ↔ g.IsTop u := by
  simp only [Starts, if_neg (tops_ne_nil htops u), id_mem_tops htops, Places, if_neg (not_lt.2 h)]
  constructor
  · rintro ⟨top, htop, rfl | hplace⟩
    · exact htop
    · split at hplace
      · exact hplace ▸ htop
      · rcases hplace with rfl | ⟨n, hone, -, habove⟩
        · exact htop
        · obtain ⟨k, rfl⟩ := Nat.exists_eq_add_of_le' hone
          exact absurd habove htop.not_above_succ
  · intro htop
    exact ⟨u, htop, .inl rfl⟩

/-- Case by case on the qualifier. -/
theorem starts_nil_iff (qualifier : Option Depth) (u : U) :
    g.Starts [] qualifier u ↔ g.Starts tops (qualifier.map Depth.fromTop) u := by
  have hne := tops_ne_nil htops u
  match qualifier with
  | none =>
    simp only [Starts, Option.map_none, if_true, if_neg hne, id_mem_tops htops, true_iff]
    exact exists_top_eq_or_below u
  | some (.exact level bounded) =>
    simp only [Starts, Option.map_some, Depth.fromTop, if_true, if_neg hne, id_mem_tops htops]
    constructor
    · intro hspans
      obtain ⟨top, htop, hbelow⟩ := exists_top_eq_or_below (g := g) u
      exact ⟨top, htop, hbelow, hspans⟩
    · rintro ⟨-, -, -, hspans⟩
      exact hspans
  | some (.relative levels bounded) =>
    rw [Option.map_some, Depth.fromTop]
    by_cases hpos : 1 ≤ levels
    · have hnonneg : 0 ≤ levels - 1 := by omega
      rw [dif_pos hpos]
      simp only [Starts, if_true, if_neg hne, id_mem_tops htops]
      rw [max_eq_left hnonneg, exists_mem_depths_le_iff hnonneg]
      exact exists_congr fun top => and_congr_right fun _ => (eq_or_places_iff hnonneg _).symm
    · rw [dif_neg hpos, starts_nil_iff_isTop (by omega), starts_tops_iff_isTop htops (by omega)]

end Tops

end Archive

/-- A first step finds the same units without roots and from all units at the top, with one level
less if it goes down by levels. Going up or staying, it finds the units at the top both ways. -/
theorem Documents.Describe.holds_rootScope_nil_iff (hd : docs.Describe c g)
    (htops : ∀ x, x ∈ tops ↔ ∃ t, g.IsTop t ∧ g.id t = x) (q : Query)
    (results : Nat → Set String) (u : U) :
    ((c.rootScope [] (some q)).Holds (g.reading docs results) u ↔
        (c.rootScope tops (some q.fromTop)).Holds (g.reading docs results) u) ∧
      ∀ levels bounded, q.depth = some (.relative levels bounded) → levels ≤ 0 →
        ((c.rootScope [] (some q)).Holds (g.reading docs results) u ↔ g.IsTop u) ∧
          ((c.rootScope tops (some q)).Holds (g.reading docs results) u ↔ g.IsTop u) := by
  simp only [hd.holds_rootScope, Query.depth_fromTop]
  refine ⟨Archive.starts_nil_iff htops q.depth u, fun levels bounded hq h => ?_⟩
  rw [hq]
  exact ⟨Archive.starts_nil_iff_isTop h, Archive.starts_tops_iff_isTop htops h⟩

/-- Two levels down from above the top, and so one level down from the fonds, the item is found by
its shorter path; the file is not. -/
theorem holds_rootScope_nil_iff_shortcut :
    Archive.shortcutDocuments.Describe .initial .shortcut ∧
      (∀ x, x ∈ ["fonds"] ↔ ∃ t, Archive.shortcut.IsTop t ∧ Archive.shortcut.id t = x) ∧
      (Configuration.initial.rootScope ["fonds"]
        (some (Query.titled (some (.relative 2 (by decide)))).fromTop)).Holds
          (Archive.shortcut.reading Archive.shortcutDocuments fun _ => ∅) 3 ∧
      ¬ (Configuration.initial.rootScope ["fonds"]
        (some (Query.titled (some (.relative 2 (by decide)))).fromTop)).Holds
          (Archive.shortcut.reading Archive.shortcutDocuments fun _ => ∅) 2 := by
  have hd := Archive.describe_shortcutDocuments
  have htops : ∀ x, x ∈ ["fonds"] ↔ ∃ t, Archive.shortcut.IsTop t ∧ Archive.shortcut.id t = x := by
    intro x
    rw [List.mem_singleton]
    constructor
    · rintro rfl
      exact ⟨0, by decide, rfl⟩
    · rintro ⟨t, ht, rfl⟩
      have honly : ∀ t, Archive.shortcut.IsTop t → t = 0 := by decide
      rw [honly t ht]
      rfl
  have hfound (u : Fin 4) := (hd.holds_rootScope_nil_iff htops
    (Query.titled (some (.relative 2 (by decide)))) (fun _ => ∅) u).1
  refine ⟨hd, htops, (hfound 3).1 (hd.holds_rootScope.2 ⟨1, by decide, by decide⟩), fun h => ?_⟩
  obtain ⟨m, hm, hle⟩ := hd.holds_rootScope.1 ((hfound 2).2 h)
  have hdeeper : ∀ m ≤ 1, m ∉ Archive.shortcut.depths 2 := by decide
  have hle : (m : Int) ≤ 1 := hle
  exact hdeeper m (by omega) hm

end Fonds
