import Fonds.Proofs.Graph.Line
import Fonds.Proofs.Graph.Scopes

/-!
Which units an exact depth selects. A depth is compared with the least and the greatest depth of a
unit, so a unit is found at each of its depths, and also at any number between them.
-/
namespace Fonds

open Store

variable {U : Type} {g : Archive U} {docs : Documents U} {c : Configuration}
  {results : Nat → Set String} {level : Nat} {u : U}

namespace Archive

theorem spans_of_mem_depths (h : level ∈ g.depths u) : g.Spans u level :=
  ⟨⟨level, h, le_rfl⟩, level, h, le_rfl⟩

/-- A shorter path than the level would end at the top where a longer one goes on. -/
theorem SingleLine.mem_depths (hline : g.SingleLine level u) (h : g.Spans u level) :
    level ∈ g.depths u := by
  obtain ⟨⟨m, ⟨top, htop, hm⟩, hmle⟩, n, ⟨a, ha, hn⟩, hle⟩ := h
  rcases Nat.eq_or_lt_of_le hmle with rfl | hlt
  · exact ⟨top, htop, hm⟩
  · rw [show n = (n - m - 1 + 1) + m by omega, above_add] at hn
    obtain ⟨b, hab, hbu⟩ := hn
    obtain rfl := hline m hlt b top hbu hm
    exact absurd hab htop.not_above_succ

end Archive

namespace Documents.CarryDepths

section Scopes

variable {q : Query} {bounded : level ≤ maxDepth} (hd : docs.CarryDepths c g)
  (hq : q.depth = some (.exact level bounded))
include hd hq

theorem holds_rootScope_exact :
    (c.rootScope [] (some q)).Holds (g.reading docs results) u ↔ g.Spans u level := by
  cases q with
  | path ids => simp [Query.depth] at hq
  | condition q =>
    have hqualifier : q.qualifier = some (.exact level bounded) := hq
    rw [Configuration.rootScope, hqualifier, Configuration.topScope]
    exact hd.holds_depthRange

theorem holds_stepScope_exact (hancestors : docs.ListAncestors c g) {k : Nat} :
    (c.stepScope (.step k) q.depth).Holds (g.reading docs results) u ↔
      g.Spans u level ∧ ∃ a, g.id a ∈ results k ∧ g.Below u a := by
  rw [hq, Configuration.stepScope, Predicate.holds_conj, List.forall_mem_cons,
    List.forall_mem_singleton, hd.holds_depthRange, hancestors.holds_descendants, Archive.members]

end Scopes

/-- In a forest an exact depth selects the units at that depth and no others. -/
theorem holds_exactDepth_iff_mem_depths (hd : docs.CarryDepths c g) (hforest : g.IsForest)
    {q : Query} {bounded : level ≤ maxDepth} (hq : q.depth = some (.exact level bounded)) :
    ((c.rootScope [] (some q)).Holds (g.reading docs results) u ↔ level ∈ g.depths u) ∧
      (docs.ListAncestors c g → ∀ k,
        (c.stepScope (.step k) q.depth).Holds (g.reading docs results) u ↔
          level ∈ g.depths u ∧ ∃ a, g.id a ∈ results k ∧ g.Below u a) := by
  have hspans : g.Spans u level ↔ level ∈ g.depths u :=
    ⟨(hforest.singleLine level u).mem_depths, Archive.spans_of_mem_depths⟩
  rw [← hspans]
  exact ⟨hd.holds_rootScope_exact hq, fun hancestors _ => hd.holds_stepScope_exact hq hancestors⟩

/-- An exact depth without roots selects the units whose depths span it, and after a step those of
them that lie below a unit of that step. Every unit that can sit at the depth is among them. No
other is where at each distance short of that depth only one unit lies above the unit: for the
depths zero and one, and where no unit has two parents. -/
theorem holds_exactDepth_iff (hd : docs.CarryDepths c g) {q : Query} {bounded : level ≤ maxDepth}
    (hq : q.depth = some (.exact level bounded)) (results : Nat → Set String) (u : U) :
    ((c.rootScope [] (some q)).Holds (g.reading docs results) u ↔ g.Spans u level) ∧
      (docs.ListAncestors c g → ∀ k,
        (c.stepScope (.step k) q.depth).Holds (g.reading docs results) u ↔
          g.Spans u level ∧ ∃ a, g.id a ∈ results k ∧ g.Below u a) ∧
      (level ∈ g.depths u → g.Spans u level) ∧
      (g.SingleLine level u → (g.Spans u level ↔ level ∈ g.depths u)) := by
  refine ⟨hd.holds_rootScope_exact hq, fun hancestors k => ?_, Archive.spans_of_mem_depths,
    fun hline => ⟨hline.mem_depths, Archive.spans_of_mem_depths⟩⟩
  exact hd.holds_stepScope_exact hq hancestors

end Documents.CarryDepths

/-- One link below the fonds lie the series and the item; the file does not. -/
theorem holds_exactDepth_iff_shortcut :
    Archive.shortcutDocuments.CarryDepths .initial .shortcut ∧
      (Query.titled (some (.exact 1 (by decide)))).depth = some (.exact 1 (by decide)) ∧
      (Configuration.initial.rootScope [] (some (Query.titled (some (.exact 1 (by decide)))))).Holds
        (Archive.shortcut.reading Archive.shortcutDocuments fun _ => ∅) 3 ∧
      ¬ (Configuration.initial.rootScope []
        (some (Query.titled (some (.exact 1 (by decide)))))).Holds
          (Archive.shortcut.reading Archive.shortcutDocuments fun _ => ∅) 2 := by
  have hd := Archive.describe_shortcutDocuments.carryDepths
  have hq : (Query.titled (some (.exact 1 (by decide)))).depth = some (.exact 1 (by decide)) := rfl
  have hselects (u : Fin 4) := hd.holds_exactDepth_iff hq (fun _ => ∅) u
  have hline (u : Fin 4) := (hselects u).2.2.2 (Archive.singleLine_of_le_one le_rfl)
  refine ⟨hd, hq, (hselects 3).1.2 ((hline 3).2 (by decide)), fun h => ?_⟩
  exact absurd ((hline 2).1 ((hselects 2).1.1 h)) (by decide)

/-- The item has the depths one and three. So it is found at the depth two as well, and so it is
after a step that matched the fonds, though no path from the item to the top has two links. -/
theorem Archive.shortcut_spans_two :
    shortcutDocuments.CarryDepths .initial shortcut ∧
      shortcutDocuments.ListAncestors .initial shortcut ∧
      (Configuration.initial.rootScope [] (some (Query.titled (some (.exact 2 (by decide)))))).Holds
        (shortcut.reading shortcutDocuments fun _ => ∅) 3 ∧
      (Configuration.initial.stepScope (.step 0)
        (Query.titled (some (.exact 2 (by decide)))).depth).Holds
          (shortcut.reading shortcutDocuments fun _ => {"fonds"}) 3 ∧
      ¬ 2 ∈ shortcut.depths 3 := by
  have hd := describe_shortcutDocuments.carryDepths
  have hancestors := describe_shortcutDocuments.ancestors
  have hspans : shortcut.Spans 3 2 := ⟨⟨1, by decide, by decide⟩, 3, by decide, by decide⟩
  have hbelow : shortcut.Below 3 0 := ⟨1, le_rfl, by decide⟩
  refine ⟨hd, hancestors, (hd.holds_rootScope_exact rfl).2 hspans, ?_, by decide⟩
  exact (hd.holds_stepScope_exact rfl hancestors).2 ⟨hspans, 0, rfl, hbelow⟩

end Fonds
