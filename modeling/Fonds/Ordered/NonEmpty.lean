/-!
Lists with at least one element.
-/
namespace Fonds

/-- A list by its first element and the others. -/
structure NonEmpty (α : Type) where
  head : α
  tail : List α
  deriving DecidableEq

namespace NonEmpty

variable {α : Type}

def toList (xs : NonEmpty α) : List α := xs.head :: xs.tail

def ofList? : List α → Option (NonEmpty α)
  | [] => none
  | x :: xs => some ⟨x, xs⟩

@[simp] theorem ofList?_toList (xs : NonEmpty α) : ofList? xs.toList = some xs := rfl

theorem toList_ne_nil (xs : NonEmpty α) : xs.toList ≠ [] := by
  simp [toList]

end NonEmpty

end Fonds
