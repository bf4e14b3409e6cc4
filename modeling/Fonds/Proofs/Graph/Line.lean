import Fonds.Proofs.Graph.Documents

/-!
Lines of descent. Where units have several parents, the units at one distance above a unit need not
be those above the units one link nearer, and the depths of a unit need not follow on one another.
Along a single line they do.
-/
namespace Fonds.Archive

variable {U : Type} {g : Archive U} {a u : U} {m n : Nat}

/-- A path of one more link starts at a child of the unit it leads up to. -/
theorem above_succ_iff : g.Above (n + 1) a u ↔ ∃ b, g.IsParent a b ∧ g.Above n b u := by
  induction n generalizing u with
  | zero => simp [Above]
  | succ n ih =>
    constructor
    · rintro ⟨p, hp, hap⟩
      obtain ⟨b, hab, hbp⟩ := ih.1 hap
      exact ⟨b, hab, p, hp, hbp⟩
    · rintro ⟨b, hab, p, hp, hbp⟩
      exact ⟨p, hp, ih.2 ⟨b, hab, hbp⟩⟩

theorem above_add : g.Above (m + n) a u ↔ ∃ b, g.Above m a b ∧ g.Above n b u := by
  induction n generalizing u with
  | zero => simp [Above]
  | succ n ih =>
    constructor
    · rintro ⟨p, hp, hap⟩
      obtain ⟨b, hab, hbp⟩ := ih.1 hap
      exact ⟨b, hab, p, hp, hbp⟩
    · rintro ⟨b, hab, p, hp, hbp⟩
      exact ⟨p, hp, ih.2 ⟨b, hab, hbp⟩⟩

/-- Nothing lies above the top. -/
theorem IsTop.not_above_succ (hu : g.IsTop u) : ¬ g.Above (n + 1) a u := by
  rintro ⟨p, hp, -⟩
  exact hu p hp

/-- Whether at each distance short of some distance no more than one unit lies above a unit. -/
def SingleLine (g : Archive U) (n : Nat) (u : U) : Prop :=
  ∀ k < n, ∀ a b, g.Above k a u → g.Above k b u → a = b

theorem singleLine_of_le_one (hn : n ≤ 1) : g.SingleLine n u := by
  rintro k hk a b ha hb
  obtain rfl : k = 0 := by omega
  exact ha.trans hb.symm

/-- Whether no unit has two parents. -/
def IsForest (g : Archive U) : Prop := ∀ p q u, g.IsParent p u → g.IsParent q u → p = q

/-- All lines of a forest are single. -/
theorem IsForest.singleLine (h : g.IsForest) (n : Nat) (u : U) : g.SingleLine n u := by
  intro k _
  induction k generalizing u with
  | zero => exact fun a b ha hb => ha.trans hb.symm
  | succ k ih =>
    rintro a b ⟨p, hp, hap⟩ ⟨q, hq, hbq⟩
    obtain rfl := h p q u hp hq
    exact ih p (by omega) a b hap hbq

/-- The links from parents to children among a fonds, a series in it, a file in the series, and an
item that is filed in the file and in the fonds itself. -/
def shortcutLinks : List (Fin 4 × Fin 4) := [(0, 1), (1, 2), (2, 3), (0, 3)]

theorem lt_of_mem_shortcutLinks : ∀ p u, (p, u) ∈ shortcutLinks → p < u := by decide

/-- An archive in which an item has two parents, one of them an ancestor of the other. -/
def shortcut : Archive (Fin 4) where
  id u := ["fonds", "series", "file", "item"][u]
  IsParent p u := (p, u) ∈ shortcutLinks
  id_injective := by decide
  acyclic u h := by
    have hlt : ∀ {a b}, Relation.TransGen (fun p u => (p, u) ∈ shortcutLinks) a b → a < b := by
      intro a b hab
      induction hab with
      | single hp => exact lt_of_mem_shortcutLinks _ _ hp
      | tail _ hp ih => exact ih.trans (lt_of_mem_shortcutLinks _ _ hp)
    exact lt_irrefl u (hlt h)
  finite := inferInstance

instance : DecidableRel shortcut.IsParent :=
  fun p u => inferInstanceAs (Decidable ((p, u) ∈ shortcutLinks))

/-- Documents of these units that hold nothing but the graph. -/
def shortcutDocuments : Documents (Fin 4) :=
  shortcut.documents .initial {
    present := fun _ _ => False
    compare := fun _ _ _ _ => False
    oneOf := fun _ _ _ => False
    noneOf := fun _ _ _ => True
    size := fun _ _ _ => False
    regex := fun _ _ _ => False
    term := fun _ _ _ => False
    ids := fun _ _ _ => False }

theorem describe_shortcutDocuments : shortcutDocuments.Describe .initial shortcut :=
  describe_documents Configuration.fieldsApart_initial shortcut _

end Fonds.Archive

namespace Fonds

/-- Units that have a title, where a qualifier places them. -/
def Query.titled (qualifier : Option Depth) : Query :=
  .condition (.test ⟨"Title", by decide, by decide⟩ .present qualifier)

end Fonds
