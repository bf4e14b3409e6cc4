import Fonds.Ordered.Entries

/-!
Maps and sets that remember the order in which their members came. The proof field is what lets a
reader of the members trust that none is listed twice.
-/
namespace Fonds

variable {κ α : Type} [DecidableEq κ]

/-- A map that lists its keys in the order of their first insertion. -/
structure OrderedMap (κ α : Type) where
  entries : List (κ × α)
  nodup : (Entries.keys entries).Nodup

namespace OrderedMap

omit [DecidableEq κ] in
@[ext] theorem ext {m n : OrderedMap κ α} (h : m.entries = n.entries) : m = n := by
  cases m
  cases n
  simp_all

instance [DecidableEq α] : DecidableEq (OrderedMap κ α) := fun m n =>
  if h : m.entries = n.entries then isTrue (ext h) else isFalse fun he => h (he ▸ rfl)

def empty : OrderedMap κ α := ⟨[], by simp⟩

instance : Inhabited (OrderedMap κ α) := ⟨empty⟩

def isEmpty (m : OrderedMap κ α) : Bool := m.entries.isEmpty

def size (m : OrderedMap κ α) : Nat := m.entries.length

def keys (m : OrderedMap κ α) : List κ := Entries.keys m.entries

def values (m : OrderedMap κ α) : List α := m.entries.map Prod.snd

def get? (m : OrderedMap κ α) (k : κ) : Option α := Entries.get? k m.entries

/-- A known key keeps its place and takes the new value. -/
def insert (m : OrderedMap κ α) (k : κ) (v : α) : OrderedMap κ α :=
  ⟨Entries.insert k v m.entries, Entries.nodup_keys_insert m.nodup⟩

end OrderedMap

/-- A set that lists its elements in the order of their first insertion. -/
structure OrderedSet (α : Type) where
  elems : List α
  nodup : elems.Nodup

namespace OrderedSet

omit [DecidableEq κ] in
@[ext] theorem ext {s t : OrderedSet κ} (h : s.elems = t.elems) : s = t := by
  cases s
  cases t
  simp_all

instance : DecidableEq (OrderedSet κ) := fun s t =>
  if h : s.elems = t.elems then isTrue (ext h) else isFalse fun he => h (he ▸ rfl)

def empty : OrderedSet κ := ⟨[], by simp⟩

instance : Inhabited (OrderedSet κ) := ⟨empty⟩

def isEmpty (s : OrderedSet κ) : Bool := s.elems.isEmpty

def size (s : OrderedSet κ) : Nat := s.elems.length

instance : Membership κ (OrderedSet κ) := ⟨fun s a => a ∈ s.elems⟩

instance (a : κ) (s : OrderedSet κ) : Decidable (a ∈ s) := inferInstanceAs (Decidable (a ∈ s.elems))

/-- An element already there keeps its place. -/
def insert (s : OrderedSet κ) (a : κ) : OrderedSet κ :=
  if h : a ∈ s.elems then s
  else ⟨s.elems ++ [a], by
    rw [List.nodup_append]
    refine ⟨s.nodup, by simp, ?_⟩
    intro x hx y hy
    simp only [List.mem_singleton] at hy
    subst hy
    exact fun he => h (he ▸ hx)⟩

end OrderedSet

end Fonds
