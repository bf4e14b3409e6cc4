/-!
Blank characters and trimming. Trimming removes the blanks at both ends of a text and leaves
nothing further to trim, so a trimmed text is its own name.
-/
namespace Fonds.Text

/-- The code points with the Unicode property White_Space, as inclusive ranges. -/
def blankRanges : List (Nat × Nat) :=
  [(0x9, 0xD), (0x20, 0x20), (0x85, 0x85), (0xA0, 0xA0), (0x1680, 0x1680), (0x2000, 0x200A),
    (0x2028, 0x2029), (0x202F, 0x202F), (0x205F, 0x205F), (0x3000, 0x3000)]

/-- Whether a character has the property White_Space. -/
def isBlankChar (c : Char) : Bool :=
  blankRanges.any fun range => range.1 ≤ c.toNat && c.toNat ≤ range.2

/-- The characters between the first and the last that are not blank. -/
def trimChars (cs : List Char) : List Char :=
  ((cs.dropWhile isBlankChar).reverse.dropWhile isBlankChar).reverse

/-- The text without the blanks at its ends. -/
def trim (s : String) : String := String.ofList (trimChars s.toList)

/-- Text of which trimming leaves nothing. -/
def Blank (s : String) : Prop := trim s = ""

instance : DecidablePred Blank := fun s => inferInstanceAs (Decidable (trim s = ""))

theorem dropWhile_dropWhile {α : Type} (p : α → Bool) (l : List α) :
    (l.dropWhile p).dropWhile p = l.dropWhile p := by
  induction l with
  | nil => rfl
  | cons x xs ih => by_cases h : p x <;> simp [h, ih]

/-- What is left after trimming does not begin with a blank. -/
theorem isBlankChar_of_head?_trimChars {cs : List Char} :
    ∀ a ∈ (trimChars cs).head?, isBlankChar a = false := by
  intro a ha
  have hsuffix := List.dropWhile_suffix (l := (cs.dropWhile isBlankChar).reverse) isBlankChar
  have hprefix : trimChars cs <+: cs.dropWhile isBlankChar := by
    simpa [trimChars] using List.reverse_prefix.2 hsuffix
  obtain ⟨rest, hrest⟩ := List.head?_eq_some_iff.1 ha
  rw [hrest] at hprefix
  obtain ⟨tail, htail⟩ := hprefix
  have hne : cs.dropWhile isBlankChar ≠ [] := by simp [← htail]
  simpa [← htail] using List.head_dropWhile_not isBlankChar hne

/-- Nothing is taken from a text that has no blank at either end. -/
theorem trimChars_eq_self {cs : List Char} (hhead : ∀ a ∈ cs.head?, isBlankChar a = false)
    (hlast : ∀ a ∈ cs.getLast?, isBlankChar a = false) : trimChars cs = cs := by
  have hfront : cs.dropWhile isBlankChar = cs := by
    cases cs with
    | nil => rfl
    | cons a cs => rw [List.dropWhile_cons_of_neg (by simp [hhead a rfl])]
  have hback : cs.reverse.dropWhile isBlankChar = cs.reverse := by
    cases hcs : cs.reverse with
    | nil => rfl
    | cons a rest =>
      have ha : a ∈ cs.getLast? := by
        rw [← List.head?_reverse, hcs]
        rfl
      rw [List.dropWhile_cons_of_neg (by simp [hlast a ha])]
  rw [trimChars, hfront, hback, List.reverse_reverse]

theorem trimChars_trimChars (cs : List Char) : trimChars (trimChars cs) = trimChars cs := by
  have hfront : (trimChars cs).dropWhile isBlankChar = trimChars cs := by
    cases hr : trimChars cs with
    | nil => rfl
    | cons a rest =>
      have ha : isBlankChar a = false := isBlankChar_of_head?_trimChars a (by rw [hr]; rfl)
      simp [ha]
  rw [trimChars, hfront]
  simp [trimChars, dropWhile_dropWhile]

@[simp] theorem trim_trim (s : String) : trim (trim s) = trim s := by
  simp [trim, trimChars_trimChars]

end Fonds.Text
