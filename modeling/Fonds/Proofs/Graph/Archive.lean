import Fonds.Query.Basic
import Mathlib.Data.Fintype.Card
import Mathlib.Data.Fintype.Order
import Mathlib.Logic.Relation
import Mathlib.Order.Lattice.Nat

/-! The graph of an archive, in which a unit may have several parents, and how queries see it. -/
namespace Fonds

/-- Units with identifiers of their own and the parents they are filed under. -/
structure Archive (U : Type) where
  id : U → String
  /-- Whether the first unit is a parent of the second. -/
  IsParent : U → U → Prop
  id_injective : Function.Injective id
  acyclic : ∀ u, ¬ Relation.TransGen IsParent u u
  finite : Finite U

namespace Archive

variable {U : Type} {g : Archive U} {a u : U} {n : Nat}

/-- A path of exactly so many links leads from the second unit up to the first. -/
def Above (g : Archive U) : Nat → U → U → Prop
  | 0, a, u => a = u
  | n + 1, a, u => ∃ p, g.IsParent p u ∧ g.Above n a p

/-- Whether the first unit is a strict descendant of the second. -/
def Below (g : Archive U) (u a : U) : Prop := ∃ n, 1 ≤ n ∧ g.Above n a u

/-- Whether a unit has no parents. -/
def IsTop (g : Archive U) (u : U) : Prop := ∀ p, ¬ g.IsParent p u

/-- The lengths of the paths from a unit up to a unit at the top. -/
def depths (g : Archive U) (u : U) : Set Nat := {n | ∃ top, g.IsTop top ∧ g.Above n top u}

/-- A depth is neither less than the least nor more than the greatest depth of a unit. -/
def Spans (g : Archive U) (u : U) (level : Nat) : Prop :=
  (∃ m ∈ g.depths u, m ≤ level) ∧ ∃ m ∈ g.depths u, level ≤ m

/-- Where a qualifier places a unit, seen from another. -/
def Places (g : Archive U) : Option Depth → U → U → Prop
  | none, a, u => g.Below u a
  | some (.relative levels _), a, u =>
    if levels = 0 then u = a
    else if 0 < levels then ∃ n : Nat, 1 ≤ n ∧ n ≤ levels ∧ g.Above n a u
    else u = a ∨ ∃ n : Nat, 1 ≤ n ∧ n ≤ -levels ∧ g.Above n u a
  | some (.exact level _), a, u => g.Below u a ∧ g.Spans u level

/-- Where the qualifier of a first step places a unit. Seen from roots, the roots themselves come in
addition; without roots it counts from above the top, so that the top is one level down. -/
def Starts (g : Archive U) (roots : List String) (qualifier : Option Depth) (u : U) : Prop :=
  if roots = [] then
    match qualifier with
    | none => True
    | some (.relative levels _) => ∃ m ∈ g.depths u, (m : Int) ≤ max (levels - 1) 0
    | some (.exact level _) => g.Spans u level
  else
    ∃ a, g.id a ∈ roots ∧
      match qualifier with
      | some (.exact level _) => (u = a ∨ g.Below u a) ∧ g.Spans u level
      | qualifier => u = a ∨ g.Places qualifier a u

theorem above_one : g.Above 1 a u ↔ g.IsParent a u := by
  simp [Above]

/-- Climbing from parent to parent comes to an end. -/
theorem wellFounded_isParent (g : Archive U) : WellFounded g.IsParent := by
  have := g.finite
  have : Std.Irrefl (Relation.TransGen g.IsParent) := ⟨g.acyclic⟩
  exact (Finite.wellFounded_of_trans_of_irrefl (Relation.TransGen g.IsParent)).mono
    fun _ _ => Relation.TransGen.single

theorem depths_nonempty (u : U) : (g.depths u).Nonempty := by
  induction u using g.wellFounded_isParent.induction with
  | _ u ih =>
    by_cases htop : g.IsTop u
    · exact ⟨0, u, htop, rfl⟩
    · obtain ⟨p, hp⟩ : ∃ p, g.IsParent p u := by simpa [IsTop] using htop
      obtain ⟨n, top, htop, habove⟩ := ih p hp
      exact ⟨n + 1, top, htop, p, hp, habove⟩

theorem bddAbove_depths (u : U) : BddAbove (g.depths u) := by
  have := g.finite
  induction u using g.wellFounded_isParent.induction with
  | _ u ih =>
    choose! bound hbound using ih
    obtain ⟨b, hb⟩ := Finite.exists_le bound
    refine ⟨b + 1, ?_⟩
    rintro (_ | n) ⟨top, htop, habove⟩
    · exact Nat.zero_le _
    · obtain ⟨p, hp, hptop⟩ := habove
      have := hbound p hp ⟨top, htop, hptop⟩
      have := hb p
      omega

theorem exists_isLeast_depths (u : U) : ∃ m, IsLeast (g.depths u) m :=
  ⟨_, Nat.sInf_mem (depths_nonempty u), fun _ h => Nat.sInf_le h⟩

theorem exists_isGreatest_depths (u : U) : ∃ m, IsGreatest (g.depths u) m :=
  ⟨_, Nat.sSup_mem (depths_nonempty u) (bddAbove_depths u),
    fun _ h => le_csSup (bddAbove_depths u) h⟩

section Decidable

variable [Fintype U] [DecidableEq U] [DecidableRel g.IsParent]

instance decidableAbove : ∀ n a u, Decidable (g.Above n a u)
  | 0, a, u => inferInstanceAs (Decidable (a = u))
  | n + 1, a, u =>
    have (p : U) : Decidable (g.Above n a p) := decidableAbove n a p
    inferInstanceAs (Decidable (∃ p, g.IsParent p u ∧ g.Above n a p))

instance (u : U) : Decidable (g.IsTop u) := inferInstanceAs (Decidable (∀ p, ¬ g.IsParent p u))

instance (n : Nat) (u : U) : Decidable (n ∈ g.depths u) :=
  inferInstanceAs (Decidable (∃ top, g.IsTop top ∧ g.Above n top u))

end Decidable

end Archive

end Fonds
