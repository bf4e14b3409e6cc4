import Fonds.Proofs.Graph.Archive
import Fonds.Proofs.Store.Meaning
import Fonds.Settings.Basic

/-!
Documents of the units of an archive. What their graph fields hold is fixed by the archive; what
the store makes of any other test is left open.
-/
namespace Fonds

open Store

/-- What a comparison says of two numbers. -/
def Comparison.Relates : Comparison → Int → Int → Prop
  | .eq, m, n => m = n
  | .ne, m, n => m ≠ n
  | .gt, m, n => n < m
  | .gte, m, n => n ≤ m
  | .lt, m, n => m < n
  | .lte, m, n => m ≤ n

/-- A field holds a number, as far as comparing it with whole numbers can tell. -/
def Store.Reading.HoldsNumber {Doc : Type} (r : Reading Doc) (d : Doc) (field : String) (m : Nat) :
    Prop :=
  ∀ comparison n, r.compare d field comparison (.ofInt n) ↔ comparison.Relates m n

/-- The documents of units. -/
structure Documents (U : Type) where
  /-- How the store tests fields, other than for identifiers. -/
  tests : Reading U
  /-- The identifiers that a field lists. -/
  listed : U → String → Set String

namespace Documents

variable {U : Type}

/-- The documents carry the true graph data of an archive in the configured fields. -/
structure Describe (docs : Documents U) (c : Configuration) (g : Archive U) : Prop where
  id : ∀ u x, x ∈ docs.listed u c.graph.id ↔ g.id u = x
  parents : ∀ u x, x ∈ docs.listed u c.graph.parents ↔ ∃ p, g.IsParent p u ∧ g.id p = x
  ancestors : ∀ u x, x ∈ docs.listed u c.graph.ancestors ↔ ∃ a, g.Below u a ∧ g.id a = x
  ancestorsAt : ∀ u n x, 1 ≤ n →
    (x ∈ docs.listed u (c.graph.ancestorsByDistance ++ "." ++ toString n) ↔
      ∃ a, g.Above n a u ∧ g.id a = x)
  leastDepth : ∀ u, ∃ m, IsLeast (g.depths u) m ∧ docs.tests.HoldsNumber u c.graph.minDepth m
  greatestDepth : ∀ u, ∃ m, IsGreatest (g.depths u) m ∧ docs.tests.HoldsNumber u c.graph.maxDepth m

/-- The documents list the ancestors of their units by distance, in a field for each below the one
that is set for all. -/
structure ListLineage (docs : Documents U) (c : Configuration) (g : Archive U) : Prop where
  id : ∀ u x, x ∈ docs.listed u c.graph.id ↔ g.id u = x
  ancestorsAt : ∀ u n x, 1 ≤ n →
    (x ∈ docs.listed u (c.graph.ancestorsByDistance ++ "." ++ toString n) ↔
      ∃ a, g.Above n a u ∧ g.id a = x)

/-- The documents list all ancestors of their units. -/
def ListAncestors (docs : Documents U) (c : Configuration) (g : Archive U) : Prop :=
  ∀ u x, x ∈ docs.listed u c.graph.ancestors ↔ ∃ a, g.Below u a ∧ g.id a = x

/-- The documents carry the least and the greatest depth of their units. -/
structure CarryDepths (docs : Documents U) (c : Configuration) (g : Archive U) : Prop where
  least : ∀ u, ∃ m, IsLeast (g.depths u) m ∧ docs.tests.HoldsNumber u c.graph.minDepth m
  greatest : ∀ u, ∃ m, IsGreatest (g.depths u) m ∧ docs.tests.HoldsNumber u c.graph.maxDepth m

namespace Describe

variable {docs : Documents U} {c : Configuration} {g : Archive U}

theorem listLineage (hd : docs.Describe c g) : docs.ListLineage c g where
  id := hd.id
  ancestorsAt := hd.ancestorsAt

theorem carryDepths (hd : docs.Describe c g) : docs.CarryDepths c g where
  least := hd.leastDepth
  greatest := hd.greatestDepth

end Describe

end Documents

namespace Configuration

/-- The fields that hold the graph are told apart. -/
structure FieldsApart (c : Configuration) : Prop where
  parents : c.graph.parents ≠ c.graph.id
  ancestors : c.graph.ancestors ≠ c.graph.id ∧ c.graph.ancestors ≠ c.graph.parents
  ancestorsAt : ∀ n : Nat, c.graph.ancestorsByDistance ++ "." ++ toString n ∉
    [c.graph.id, c.graph.parents, c.graph.ancestors]
  depths : c.graph.maxDepth ≠ c.graph.minDepth

/-- Each distance has a field of its own, as a number can be read off its digits. -/
theorem append_toString_inj {field : String} {m n : Nat} :
    field ++ "." ++ toString m = field ++ "." ++ toString n ↔ m = n := by
  rw [String.append_right_inj]
  refine ⟨fun h => ?_, fun h => h ▸ rfl⟩
  have hdigits : Nat.toDigits 10 m = Nat.toDigits 10 n := by
    rw [← Nat.toList_repr, ← Nat.toList_repr]
    exact congrArg String.toList h
  rw [← Nat.ofDigitChars_ten_toDigits (n := m), hdigits, Nat.ofDigitChars_ten_toDigits]

theorem fieldsApart_initial : initial.FieldsApart where
  parents := by decide
  ancestors := by decide
  ancestorsAt n := by
    -- None of the other fields is as long as what these begin with.
    intro hmem
    have hshort : ∀ s ∈ [initial.graph.id, initial.graph.parents, initial.graph.ancestors],
        s.length < 5 := by decide
    have hlength := hshort _ hmem
    rw [String.length_append, String.length_append] at hlength
    have hparent : initial.graph.ancestorsByDistance.length = 4 := rfl
    have hdot : ".".length = 1 := rfl
    omega
  depths := by decide

end Configuration

namespace Archive

variable {U : Type}

/-- Documents that carry the graph data of an archive, otherwise tested as the store likes. -/
def documents (g : Archive U) (c : Configuration) (r : Reading U) : Documents U where
  tests := { r with
    compare := fun u field comparison v =>
      if field = c.graph.minDepth then
        ∃ m n, IsLeast (g.depths u) m ∧ v = .ofInt n ∧ comparison.Relates m n
      else if field = c.graph.maxDepth then
        ∃ m n, IsGreatest (g.depths u) m ∧ v = .ofInt n ∧ comparison.Relates m n
      else r.compare u field comparison v }
  listed u field :=
    {x | if field = c.graph.id then g.id u = x
      else if field = c.graph.parents then ∃ p, g.IsParent p u ∧ g.id p = x
      else if field = c.graph.ancestors then ∃ a, g.Below u a ∧ g.id a = x
      else ∃ n : Nat, field = c.graph.ancestorsByDistance ++ "." ++ toString n ∧
        ∃ a, g.Above n a u ∧ g.id a = x}

/-- Every archive has documents that carry its graph data. -/
theorem describe_documents {c : Configuration} (hc : c.FieldsApart) (g : Archive U)
    (r : Reading U) : (g.documents c r).Describe c g where
  id u x := by simp [documents, eq_comm]
  parents u x := by simp [documents, hc.parents]
  ancestors u x := by simp [documents, hc.ancestors]
  ancestorsAt u n x _ := by
    have hother := hc.ancestorsAt n
    simp only [List.mem_cons, List.not_mem_nil, or_false, not_or] at hother
    obtain ⟨hid, hparents, hancestors⟩ := hother
    simp only [documents, Set.mem_ofPred_eq, hid, hparents, hancestors, if_false,
      Configuration.append_toString_inj, exists_eq_left']
  leastDepth u := by
    obtain ⟨m, hm⟩ := exists_isLeast_depths (g := g) u
    refine ⟨m, hm, fun comparison n => ?_⟩
    simp only [documents, if_true]
    constructor
    · rintro ⟨m', n', hm', hn, hrel⟩
      obtain rfl := hm'.unique hm
      obtain rfl : n = n' := by simpa [Json.ofInt] using hn
      exact hrel
    · intro hrel
      exact ⟨m, n, hm, rfl, hrel⟩
  greatestDepth u := by
    obtain ⟨m, hm⟩ := exists_isGreatest_depths (g := g) u
    refine ⟨m, hm, fun comparison n => ?_⟩
    simp only [documents, if_neg hc.depths, if_true]
    constructor
    · rintro ⟨m', n', hm', hn, hrel⟩
      obtain rfl := hm'.unique hm
      obtain rfl : n = n' := by simpa [Json.ofInt] using hn
      exact hrel
    · intro hrel
      exact ⟨m, n, hm, rfl, hrel⟩

/-- The identifiers in a set, given those that earlier steps matched. -/
def members (g : Archive U) (results : Nat → Set String) : IdSet → Set String
  | .literal ids => {x | x ∈ ids}
  | .step index => results index
  | .ancestors below levels => {x | ∃ u, g.id u ∈ g.members results below ∧
      ∃ a n, 1 ≤ n ∧ n ≤ levels ∧ g.Above n a u ∧ g.id a = x}

/-- How the store tests the documents of units, given what earlier steps matched. -/
def reading (g : Archive U) (docs : Documents U) (results : Nat → Set String) : Reading U :=
  { docs.tests with
    ids := fun u field set => ∃ x, x ∈ docs.listed u field ∧ x ∈ g.members results set }

end Archive

end Fonds
