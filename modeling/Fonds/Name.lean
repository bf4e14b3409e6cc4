import Fonds.Text.Blank

/-!
The texts that requests use as names. Names of fields and hints lose the blanks at their ends;
identifiers and labels are kept as written but may not be blank.
-/
namespace Fonds

/-- The name of a field or hint: trimmed and not empty. -/
structure Name where
  text : String
  trimmed : Text.trim text = text
  nonempty : text ≠ ""
  deriving DecidableEq

/-- A text that is not blank, kept as written: an identifier, or the label of a facet. -/
structure NonBlank where
  text : String
  not_blank : ¬ Text.Blank text
  deriving DecidableEq

namespace Name

/-- The name that a text is once trimmed. -/
def ofString? (s : String) : Option Name :=
  if h : Text.Blank s then none else some ⟨Text.trim s, Text.trim_trim s, h⟩

/-- A name read again is the same name. -/
@[simp] theorem ofString?_text (n : Name) : ofString? n.text = some n := by
  cases n with
  | mk text trimmed nonempty => simp [ofString?, Text.Blank, trimmed, nonempty]

theorem ofString?_eq_none_iff {s : String} : ofString? s = none ↔ Text.Blank s := by
  simp [ofString?]

end Name

namespace NonBlank

def ofString? (s : String) : Option NonBlank :=
  if h : Text.Blank s then none else some ⟨s, h⟩

@[simp] theorem ofString?_text (n : NonBlank) : ofString? n.text = some n := by
  simp [ofString?, n.not_blank]

theorem ofString?_eq_none_iff {s : String} : ofString? s = none ↔ Text.Blank s := by
  simp [ofString?]

end NonBlank

end Fonds
