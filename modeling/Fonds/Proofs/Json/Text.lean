import Fonds.Json.Printer
import Fonds.Json.Reader
import Mathlib.Data.List.Basic

/-!
The text of a value, read again. In either style the reader comes upon the spelling that the printer
gave the value. Numbers with a point are left out: nothing is said of their digits here.
-/
namespace Fonds

namespace StringUnit

/-- The characters that are escaped by a letter, or by themselves. -/
def lettered : List Char := ['"', '\\', '\x08', '\t', '\n', '\x0c', '\r']

/-- What a character is read as once it is written. A control character without a letter of its own
is written as a code. -/
def ofChar (c : Char) : StringUnit :=
  if c.toNat < 0x20 ∧ c ∉ lettered then .code c.toNat else .char c

def ofText (s : String) : List StringUnit := s.toList.map ofChar

theorem decode?_code_cons {n : Nat} (h : n < 0xD800) (units : List StringUnit) :
    decode? (.code n :: units) = (decode? units).map (Char.ofNat n :: ·) := by
  have hleading : isLeading n = false := by
    simp only [isLeading, Bool.and_eq_false_iff, decide_eq_false_iff_not]
    omega
  have htrailing : isTrailing n = false := by
    simp only [isTrailing, Bool.and_eq_false_iff, decide_eq_false_iff_not]
    omega
  match units with
  | [] => simp [decode?, hleading, htrailing]
  | .char c :: units => simp [decode?, hleading, htrailing]
  | .code m :: units => simp [decode?, hleading, htrailing]

theorem decode?_ofChar_cons (c : Char) (units : List StringUnit) :
    decode? (ofChar c :: units) = (decode? units).map (c :: ·) := by
  rw [ofChar]
  split
  next hcontrol =>
    have hlt : c.toNat < 0xD800 := by omega
    rw [decode?_code_cons hlt, Char.ofNat_toNat]
  next => rw [decode?]

end StringUnit

/-- No text is lost in its escapes. -/
theorem Spelling.textOf?_ofText (s : String) : textOf? (StringUnit.ofText s) = some s := by
  have hdecode : ∀ cs : List Char, StringUnit.decode? (cs.map StringUnit.ofChar) = some cs := by
    intro cs
    induction cs with
    | nil => rfl
    | cons c cs ih => rw [List.map_cons, StringUnit.decode?_ofChar_cons, ih, Option.map_some]
  rw [textOf?, StringUnit.ofText, hdecode, Option.map_some, String.ofList_toList]

namespace Numeral

/-- A whole number in decimal. -/
def ofInt (n : Int) : Numeral := ⟨n < 0, Nat.toDigits 10 n.natAbs, none, none⟩

theorem toNumber?_ofInt_natCast {n : Nat} (h : n < UInt64.size) :
    (ofInt n).toNumber? = some (.integer n) := by
  have hnonneg : ¬ (n : Int) < 0 := by omega
  have hvalue : Nat.ofDigitChars 10 (Nat.toDigits 10 n) 0 = n :=
    Nat.ofDigitChars_toDigits (by decide) (by decide)
  simp [toNumber?, ofInt, hnonneg, hvalue, h]

end Numeral

namespace Json

mutual

/-- How a value is spelled once it is written. Nothing is given for numbers with a point. -/
def spelling? : Json → Option Spelling
  | .null => some .null
  | .bool b => some (.bool b)
  | .number (.integer n) => some (.number (.ofInt n))
  | .number (.real _) => none
  | .string s => some (.string (StringUnit.ofText s))
  | .array elems => (allSpellings? elems).map .array
  | .object entries => (entrySpellings? entries).map .object

def allSpellings? : List Json → Option (List Spelling)
  | [] => some []
  | v :: vs => do
    let first ← v.spelling?
    let others ← allSpellings? vs
    some (first :: others)

def entrySpellings? : List (String × Json) → Option (List (List StringUnit × Spelling))
  | [] => some []
  | (key, v) :: rest => do
    let value ← v.spelling?
    let others ← entrySpellings? rest
    some ((StringUnit.ofText key, value) :: others)

end

theorem allSpellings?_cons_eq_some {v : Json} {vs : List Json} {ss : List Spelling} :
    allSpellings? (v :: vs) = some ss ↔ ∃ first others,
      v.spelling? = some first ∧ allSpellings? vs = some others ∧ first :: others = ss := by
  simp [allSpellings?, Option.bind_eq_some_iff]

theorem entrySpellings?_cons_eq_some {key : String} {v : Json} {rest : List (String × Json)}
    {ss : List (List StringUnit × Spelling)} :
    entrySpellings? ((key, v) :: rest) = some ss ↔ ∃ value others,
      v.spelling? = some value ∧ entrySpellings? rest = some others ∧
        (StringUnit.ofText key, value) :: others = ss := by
  simp [entrySpellings?, Option.bind_eq_some_iff]

end Json

namespace Spelling

section Tokens

theorem hexValue?_hexDigit : ∀ n < 16, hexValue? (Json.hexDigit n) = some n := by decide

theorem exists_letter {c : Char} (h : c ∈ StringUnit.lettered) :
    ∃ letter, Json.escapeChar c = ['\\', letter] ∧ letter ≠ 'u' ∧ unescape? letter = some c := by
  simp only [StringUnit.lettered, List.mem_cons, List.not_mem_nil, or_false] at h
  rcases h with rfl | rfl | rfl | rfl | rfl | rfl | rfl
  · exact ⟨'"', rfl, by decide, rfl⟩
  · exact ⟨'\\', rfl, by decide, rfl⟩
  · exact ⟨'b', rfl, by decide, rfl⟩
  · exact ⟨'t', rfl, by decide, rfl⟩
  · exact ⟨'n', rfl, by decide, rfl⟩
  · exact ⟨'f', rfl, by decide, rfl⟩
  · exact ⟨'r', rfl, by decide, rfl⟩

theorem escapeChar_of_le {c : Char} (h : c ∉ StringUnit.lettered) (hplain : 0x20 ≤ c.toNat) :
    Json.escapeChar c = [c] := by
  simp only [StringUnit.lettered, List.mem_cons, not_or] at h
  rw [Json.escapeChar, if_neg h.1, if_neg h.2.1, if_pos hplain]

theorem escapeChar_of_lt {c : Char} (h : c ∉ StringUnit.lettered) (hcontrol : c.toNat < 0x20) :
    Json.escapeChar c =
      ['\\', 'u', '0', '0', Json.hexDigit (c.toNat / 16), Json.hexDigit (c.toNat % 16)] := by
  simp only [StringUnit.lettered, List.mem_cons, List.not_mem_nil, or_false, not_or] at h
  obtain ⟨hquote, hslash, hb, ht, hn, hf, hr⟩ := h
  have hlow : ¬ 0x20 ≤ c.toNat := by omega
  rw [Json.escapeChar, if_neg hquote, if_neg hslash, if_neg hlow, if_neg hb, if_neg ht, if_neg hn,
    if_neg hf, if_neg hr]

/-- A character is read from what it is written as, before the rest of its string. -/
theorem readString?_escapeChar (c : Char) (cs : List Char) :
    readString? (Json.escapeChar c ++ cs) =
      (readString? cs).map fun read => (.ofChar c :: read.1, read.2) := by
  by_cases hletter : c ∈ StringUnit.lettered
  · obtain ⟨letter, hescape, hu, hc⟩ := exists_letter hletter
    rw [hescape, StringUnit.ofChar, if_neg fun h => h.2 hletter]
    cases hread : readString? cs <;> simp [readString?, hu, hc, hread]
  by_cases hplain : 0x20 ≤ c.toNat
  · have hlow : ¬ c.toNat < 0x20 := by omega
    have hslash : c ≠ '\\' := fun h => hletter (h ▸ by decide)
    have hquote : c ≠ '"' := fun h => hletter (h ▸ by decide)
    rw [escapeChar_of_le hletter hplain, StringUnit.ofChar, if_neg fun h => hlow h.1]
    cases hread : readString? cs <;> simp [readString?, hslash, hlow, hread]
  · have hcontrol : c.toNat < 0x20 := by omega
    have hzero : hexValue? '0' = some 0 := rfl
    have hhigh := hexValue?_hexDigit (c.toNat / 16) (by omega)
    have hlow := hexValue?_hexDigit (c.toNat % 16) (by omega)
    have hcode : c.toNat / 16 * 16 + c.toNat % 16 = c.toNat := by omega
    rw [escapeChar_of_lt hletter hcontrol, StringUnit.ofChar, if_pos ⟨hcontrol, hletter⟩]
    cases hread : readString? cs <;> simp [readString?, hzero, hhigh, hlow, hcode, hread]

theorem readString?_text (s : String) (cs : List Char) :
    readString? (s.toList.flatMap Json.escapeChar ++ '"' :: cs) =
      some (StringUnit.ofText s, cs) := by
  rw [StringUnit.ofText]
  induction s.toList with
  | nil => rw [List.flatMap_nil, List.nil_append, readString?, List.map_nil]
  | cons c rest ih =>
    rw [List.flatMap_cons, List.append_assoc, readString?_escapeChar, ih, Option.map_some,
      List.map_cons]

/-- Text that does not go on with a number. -/
def EndsNumber (cs : List Char) : Prop :=
  ∀ c ∈ cs.head?, c.isDigit = false ∧ c ≠ '.' ∧ c ≠ 'e' ∧ c ≠ 'E'

theorem spanDigits_append {digits cs : List Char} (hdigits : ∀ c ∈ digits, c.isDigit = true)
    (hcs : EndsNumber cs) : spanDigits (digits ++ cs) = (digits, cs) := by
  rw [spanDigits, List.takeWhile_append_of_pos hdigits, List.dropWhile_append_of_pos hdigits]
  cases cs with
  | nil => rw [List.takeWhile_nil, List.dropWhile_nil, List.append_nil]
  | cons c cs =>
    have hc := (hcs c rfl).1
    simp [hc]

theorem eq_zero_of_head?_toDigits (n : Nat) (h : (Nat.toDigits 10 n).head? = some '0') : n = 0 := by
  induction n using Nat.strongRecOn with
  | ind n ih =>
    rw [Nat.toDigits_eq_if (by decide)] at h
    split at h
    next hlt =>
      have hdigit : ∀ n < 10, Nat.digitChar n = '0' → n = 0 := by decide
      exact hdigit n hlt (by simpa using h)
    next hge =>
      have hne : Nat.toDigits 10 (n / 10) ≠ [] := Nat.toDigits_ne_nil
      rw [List.head?_append_of_ne_nil _ hne] at h
      have hzero := ih (n / 10) (by omega) h
      omega

theorem readFraction?_of_endsNumber {cs : List Char} (h : EndsNumber cs) :
    readFraction? cs = some (none, cs) := by
  cases cs with
  | nil => rfl
  | cons c cs =>
    have hpoint := (h c rfl).2.1
    simp [readFraction?, hpoint]

theorem readExponent?_of_endsNumber {cs : List Char} (h : EndsNumber cs) :
    readExponent? cs = some (none, cs) := by
  cases cs with
  | nil => rfl
  | cons c cs =>
    obtain ⟨-, -, hlower, hupper⟩ := h c rfl
    simp [readExponent?, hlower, hupper]

theorem readNumeral?_toDigits (negative : Bool) (n : Nat) {cs : List Char} (h : EndsNumber cs) :
    readNumeral? negative (Nat.toDigits 10 n ++ cs) =
      some (⟨negative, Nat.toDigits 10 n, none, none⟩, cs) := by
  have hdigits : ∀ c ∈ Nat.toDigits 10 n, c.isDigit = true :=
    fun c hc => Nat.isDigit_of_mem_toDigits (by decide) (by decide) hc
  have hne : Nat.toDigits 10 n ≠ [] := Nat.toDigits_ne_nil
  have hzero : ¬ ((Nat.toDigits 10 n).head? = some '0' ∧ (Nat.toDigits 10 n).length ≠ 1) := by
    rintro ⟨hhead, hlength⟩
    rw [eq_zero_of_head?_toDigits n hhead] at hlength
    exact hlength rfl
  simp [readNumeral?, readDigits?, spanDigits_append hdigits h, hne, hzero,
    readFraction?_of_endsNumber h, readExponent?_of_endsNumber h]

theorem skipSpaces_cons {c : Char} (h : isSpace c = false) (cs : List Char) :
    skipSpaces (c :: cs) = c :: cs := by
  rw [skipSpaces, List.dropWhile_cons, h]
  rfl

theorem skipSpaces_lineBreak (style : Json.Style) (depth : Nat) (cs : List Char) :
    skipSpaces (style.lineBreak depth ++ cs) = skipSpaces cs := by
  cases style with
  | compact => rfl
  | indented =>
    refine List.dropWhile_append_of_pos fun c hc => ?_
    rcases List.mem_cons.1 hc with rfl | hc
    · rfl
    · rw [List.eq_of_mem_replicate hc]
      rfl

theorem isSpace_of_isDigit {c : Char} (h : c.isDigit = true) : isSpace c = false := by
  by_contra hspace
  simp only [isSpace, Bool.not_eq_false, Bool.or_eq_true, decide_eq_true_eq] at hspace
  rcases hspace with ((rfl | rfl) | rfl) | rfl <;> exact absurd h (by decide)

theorem ne_of_isDigit {c d : Char} (h : c.isDigit = true) (hd : d.isDigit = false) : c ≠ d := by
  rintro rfl
  rw [h] at hd
  exact Bool.noConfusion hd

end Tokens

section Values

variable {style : Json.Style}

theorem readValue?_digit {c : Char} (h : c.isDigit = true) (fuel : Nat) (cs : List Char) :
    readValue? (fuel + 1) (c :: cs) =
      (readNumeral? false (c :: cs)).map fun read => (.number read.1, read.2) := by
  have hn : c ≠ 'n' := ne_of_isDigit h rfl
  have ht : c ≠ 't' := ne_of_isDigit h rfl
  have hf : c ≠ 'f' := ne_of_isDigit h rfl
  have hquote : c ≠ '"' := ne_of_isDigit h rfl
  have hminus : c ≠ '-' := ne_of_isDigit h rfl
  have harray : c ≠ '[' := ne_of_isDigit h rfl
  have hobject : c ≠ '\x7b' := ne_of_isDigit h rfl
  rw [readValue?, skipSpaces_cons (isSpace_of_isDigit h)]
  split <;> simp_all

theorem readValue?_lineBreak (fuel depth : Nat) (cs : List Char) :
    readValue? fuel (style.lineBreak depth ++ cs) = readValue? fuel cs := by
  cases fuel with
  | zero => rw [readValue?, readValue?]
  | succ fuel => rw [readValue?, readValue?, skipSpaces_lineBreak]

theorem readElements?_lineBreak (fuel depth : Nat) (cs : List Char) :
    readElements? fuel (style.lineBreak depth ++ cs) = readElements? fuel cs := by
  cases fuel with
  | zero => rw [readElements?, readElements?]
  | succ fuel => rw [readElements?, readElements?, readValue?_lineBreak]

theorem readEntries?_lineBreak (fuel depth : Nat) (cs : List Char) :
    readEntries? fuel (style.lineBreak depth ++ cs) = readEntries? fuel cs := by
  cases fuel with
  | zero => rw [readEntries?, readEntries?]
  | succ fuel => rw [readEntries?, readEntries?, skipSpaces_lineBreak]

theorem exists_head_toDigits (n : Nat) :
    ∃ c cs, Nat.toDigits 10 n = c :: cs ∧ c.isDigit = true := by
  obtain ⟨c, cs, hdigits⟩ := List.exists_cons_of_ne_nil (Nat.toDigits_ne_nil (n := n) (b := 10))
  refine ⟨c, cs, hdigits, Nat.isDigit_of_mem_toDigits (n := n) (b := 10) (by decide) (by decide) ?_⟩
  rw [hdigits]
  exact List.mem_cons_self

theorem exists_head_write (style : Json.Style) {v : Json} {s : Spelling}
    (h : v.spelling? = some s) (depth : Nat) :
    ∃ c cs, Json.write style depth v = c :: cs ∧ isSpace c = false ∧ c ≠ ']' := by
  match v, h with
  | .null, _ => exact ⟨'n', _, rfl, rfl, by decide⟩
  | .bool true, _ => exact ⟨'t', _, rfl, rfl, by decide⟩
  | .bool false, _ => exact ⟨'f', _, rfl, rfl, by decide⟩
  | .string s, _ => exact ⟨'"', _, rfl, rfl, by decide⟩
  | .array [], _ => exact ⟨'[', _, rfl, rfl, by decide⟩
  | .array (_ :: _), _ => exact ⟨'[', _, rfl, rfl, by decide⟩
  | .object [], _ => exact ⟨'\x7b', _, rfl, rfl, by decide⟩
  | .object (_ :: _), _ => exact ⟨'\x7b', _, rfl, rfl, by decide⟩
  | .number (.integer n), _ =>
    rw [Json.write, Number.text, Number.intText]
    split
    next => exact ⟨'-', _, rfl, rfl, by decide⟩
    next =>
      obtain ⟨c, cs, hdigits, hdigit⟩ := exists_head_toDigits n.natAbs
      exact ⟨c, cs, hdigits, isSpace_of_isDigit hdigit, ne_of_isDigit hdigit rfl⟩

theorem exists_head_quote (key : String) (cs : List Char) :
    ∃ rest, Json.quote key ++ cs = '"' :: rest := ⟨_, rfl⟩

theorem length_write_pos (style : Json.Style) {v : Json} {s : Spelling}
    (h : v.spelling? = some s) (depth : Nat) :
    0 < (Json.write style depth v).length := by
  obtain ⟨c, cs, hwrite, -⟩ := exists_head_write style h depth
  simp [hwrite]

theorem endsNumber_lineBreak {c : Char} (h : c.isDigit = false ∧ c ≠ '.' ∧ c ≠ 'e' ∧ c ≠ 'E')
    (depth : Nat) (cs : List Char) : EndsNumber (style.lineBreak depth ++ c :: cs) := by
  cases style with
  | compact => simpa [EndsNumber, Json.Style.lineBreak] using h
  | indented => simp [EndsNumber, Json.Style.lineBreak]

theorem endsNumber_writeRest (depth : Nat) (vs : List Json) (cs : List Char) :
    EndsNumber (Json.writeRest style depth vs ++ cs) := by
  cases vs with
  | nil =>
    rw [Json.writeRest, List.append_assoc]
    exact endsNumber_lineBreak (by decide) depth cs
  | cons v vs => simp [EndsNumber, Json.writeRest]

theorem endsNumber_writeRestEntries (depth : Nat) (entries : List (String × Json))
    (cs : List Char) : EndsNumber (Json.writeRestEntries style depth entries ++ cs) := by
  cases entries with
  | nil =>
    rw [Json.writeRestEntries, List.append_assoc]
    exact endsNumber_lineBreak (by decide) depth cs
  | cons e entries => simp [EndsNumber, Json.writeRestEntries]

theorem readValue?_intText (n : Int) {fuel : Nat} {cs : List Char} (hcs : EndsNumber cs) :
    readValue? (fuel + 1) (Number.intText n ++ cs) = some (.number (.ofInt n), cs) := by
  rw [Number.intText, Numeral.ofInt]
  split
  next hneg =>
    rw [List.cons_append, readValue?, skipSpaces_cons rfl]
    simp [readNumeral?_toDigits true n.natAbs hcs, hneg]
  next hneg =>
    obtain ⟨c, digits, hdigits, hdigit⟩ := exists_head_toDigits n.natAbs
    have hread := readNumeral?_toDigits false n.natAbs hcs
    rw [hdigits, List.cons_append] at hread ⊢
    rw [readValue?_digit hdigit, hread]
    simp [hneg]

theorem readValue?_array {c : Char} {cs rest : List Char} (h : skipSpaces rest = c :: cs)
    (hc : c ≠ ']') (fuel : Nat) : readValue? (fuel + 1) ('[' :: rest) =
      (readElements? fuel (c :: cs)).map fun read => (.array read.1, read.2) := by
  rw [readValue?, skipSpaces_cons rfl]
  simp [h, hc]

theorem readValue?_object {c : Char} {cs rest : List Char} (h : skipSpaces rest = c :: cs)
    (hc : c ≠ '\x7d') (fuel : Nat) : readValue? (fuel + 1) ('\x7b' :: rest) =
      (readEntries? fuel (c :: cs)).map fun read => (.object read.1, read.2) := by
  rw [readValue?, skipSpaces_cons rfl]
  simp [h, hc]

theorem readElements?_last {fuel : Nat} {first rest cs : List Char} {s : Spelling}
    (hfirst : readValue? fuel first = some (s, rest)) (hrest : skipSpaces rest = ']' :: cs) :
    readElements? (fuel + 1) first = some ([s], cs) := by
  rw [readElements?, hfirst, Option.bind_eq_bind, Option.bind_some]
  simp only [hrest]

theorem readElements?_more {fuel : Nat} {first rest cs : List Char} {s : Spelling}
    (hfirst : readValue? fuel first = some (s, rest)) (hrest : skipSpaces rest = ',' :: cs) :
    readElements? (fuel + 1) first =
      (readElements? fuel cs).map fun read => (s :: read.1, read.2) := by
  rw [readElements?, hfirst, Option.bind_eq_bind, Option.bind_some]
  simp only [hrest]
  cases readElements? fuel cs <;> rfl

/-- What follows a key, a colon and the blanks after it. -/
theorem exists_skipSpaces_colon (style : Json.Style) (fuel : Nat) (cs : List Char) : ∃ rest,
    skipSpaces (style.colon ++ cs) = ':' :: rest ∧ readValue? fuel rest = readValue? fuel cs := by
  cases style with
  | compact => exact ⟨cs, rfl, rfl⟩
  | indented =>
    refine ⟨' ' :: cs, rfl, ?_⟩
    cases fuel with
    | zero => rw [readValue?, readValue?]
    | succ fuel => rw [readValue?, readValue?]; rfl

theorem readEntries?_last (key : String) {fuel : Nat} {first rest cs : List Char} {s : Spelling}
    (hfirst : readValue? fuel first = some (s, rest)) (hrest : skipSpaces rest = '\x7d' :: cs) :
    readEntries? (fuel + 1) (Json.quote key ++ (style.colon ++ first)) =
      some ([(StringUnit.ofText key, s)], cs) := by
  obtain ⟨value, hcolon, hvalue⟩ := exists_skipSpaces_colon style fuel first
  rw [Json.quote, List.cons_append, readEntries?, skipSpaces_cons rfl]
  simp [readString?_text, hcolon, hvalue, hfirst, hrest]

theorem readEntries?_more (key : String) {fuel : Nat} {first rest cs : List Char} {s : Spelling}
    (hfirst : readValue? fuel first = some (s, rest)) (hrest : skipSpaces rest = ',' :: cs) :
    readEntries? (fuel + 1) (Json.quote key ++ (style.colon ++ first)) =
      (readEntries? fuel cs).map fun read => ((StringUnit.ofText key, s) :: read.1, read.2) := by
  obtain ⟨value, hcolon, hvalue⟩ := exists_skipSpaces_colon style fuel first
  rw [Json.quote, List.cons_append, readEntries?, skipSpaces_cons rfl]
  cases hread : readEntries? fuel cs <;>
    simp [readString?_text, hcolon, hvalue, hfirst, hrest, hread]

mutual

theorem readValue?_write : ∀ (v : Json) {s : Spelling} {depth fuel : Nat} {cs : List Char},
    v.spelling? = some s → 2 * (Json.write style depth v).length ≤ fuel → EndsNumber cs →
      readValue? fuel (Json.write style depth v ++ cs) = some (s, cs)
  | v, s, depth, 0, cs, hs, hfuel, hcs => by
    have hpos := length_write_pos style hs depth
    omega
  | .null, s, depth, fuel + 1, cs, hs, hfuel, hcs => by
    obtain rfl := Option.some.inj hs
    rfl
  | .bool true, s, depth, fuel + 1, cs, hs, hfuel, hcs => by
    obtain rfl := Option.some.inj hs
    rfl
  | .bool false, s, depth, fuel + 1, cs, hs, hfuel, hcs => by
    obtain rfl := Option.some.inj hs
    rfl
  | .number (.integer n), s, depth, fuel + 1, cs, hs, hfuel, hcs => by
    obtain rfl := Option.some.inj hs
    exact readValue?_intText n hcs
  | .string text, s, depth, fuel + 1, cs, hs, hfuel, hcs => by
    obtain rfl := Option.some.inj hs
    rw [Json.write, Json.quote, List.cons_append, List.append_assoc, List.singleton_append,
      readValue?, skipSpaces_cons rfl]
    simp [readString?_text]
  | .array [], s, depth, fuel + 1, cs, hs, hfuel, hcs => by
    obtain rfl := Option.some.inj hs
    rfl
  | .array (v :: vs), s, depth, fuel + 1, cs, hs, hfuel, hcs => by
    rw [Json.spelling?, Option.map_eq_some_iff] at hs
    obtain ⟨_, hall, rfl⟩ := hs
    obtain ⟨first, others, hfirst, hothers, rfl⟩ := Json.allSpellings?_cons_eq_some.1 hall
    rw [Json.write] at hfuel ⊢
    simp only [List.length_cons, List.length_append] at hfuel
    obtain ⟨fuel, rfl⟩ : ∃ n, fuel = n + 1 := ⟨fuel - 1, by omega⟩
    have hvalue : readValue? fuel (Json.write style (depth + 1) v ++
        (Json.writeRest style depth vs ++ cs)) =
          some (first, Json.writeRest style depth vs ++ cs) :=
      readValue?_write v hfirst (by omega) (endsNumber_writeRest depth vs cs)
    have hread := readElements?_writeRest vs hothers (by omega) hvalue
    obtain ⟨c, text, htext, hspace, hc⟩ := exists_head_write style hfirst (depth + 1)
    have hstart : skipSpaces (style.lineBreak (depth + 1) ++ (Json.write style (depth + 1) v ++
        (Json.writeRest style depth vs ++ cs))) =
          c :: (text ++ (Json.writeRest style depth vs ++ cs)) := by
      rw [skipSpaces_lineBreak, htext, List.cons_append, skipSpaces_cons hspace]
    rw [List.cons_append, List.append_assoc, List.append_assoc, readValue?_array hstart hc,
      ← List.cons_append, ← htext, hread, Option.map_some]
  | .object [], s, depth, fuel + 1, cs, hs, hfuel, hcs => by
    obtain rfl := Option.some.inj hs
    rfl
  | .object ((key, v) :: rest), s, depth, fuel + 1, cs, hs, hfuel, hcs => by
    rw [Json.spelling?, Option.map_eq_some_iff] at hs
    obtain ⟨_, hentries, rfl⟩ := hs
    obtain ⟨first, others, hfirst, hothers, rfl⟩ := Json.entrySpellings?_cons_eq_some.1 hentries
    rw [Json.write] at hfuel ⊢
    simp only [List.length_cons, List.length_append] at hfuel
    obtain ⟨fuel, rfl⟩ : ∃ n, fuel = n + 1 := ⟨fuel - 1, by omega⟩
    have hvalue : readValue? fuel (Json.write style (depth + 1) v ++
        (Json.writeRestEntries style depth rest ++ cs)) =
          some (first, Json.writeRestEntries style depth rest ++ cs) :=
      readValue?_write v hfirst (by omega) (endsNumber_writeRestEntries depth rest cs)
    have hread := readEntries?_writeRestEntries rest key hothers (by omega) hvalue
    obtain ⟨text, htext⟩ := exists_head_quote key (style.colon ++
      (Json.write style (depth + 1) v ++ (Json.writeRestEntries style depth rest ++ cs)))
    have hstart : skipSpaces (style.lineBreak (depth + 1) ++ (Json.quote key ++ (style.colon ++
        (Json.write style (depth + 1) v ++ (Json.writeRestEntries style depth rest ++ cs))))) =
          '"' :: text := by
      rw [skipSpaces_lineBreak, htext, skipSpaces_cons rfl]
    simp only [List.cons_append, List.append_assoc]
    rw [readValue?_object hstart (by decide), ← htext, hread, Option.map_some]

theorem readElements?_writeRest : ∀ (vs : List Json) {ss : List Spelling} {s : Spelling}
    {depth fuel : Nat} {first cs : List Char}, Json.allSpellings? vs = some ss →
      2 * (Json.writeRest style depth vs).length ≤ fuel + 1 →
        readValue? fuel first = some (s, Json.writeRest style depth vs ++ cs) →
          readElements? (fuel + 1) first = some (s :: ss, cs)
  | [], ss, s, depth, fuel, first, cs, hss, hfuel, hfirst => by
    obtain rfl := Option.some.inj hss
    refine readElements?_last hfirst ?_
    rw [Json.writeRest, List.append_assoc, skipSpaces_lineBreak]
    rfl
  | v :: vs, ss, s, depth, fuel, first, cs, hss, hfuel, hfirst => by
    obtain ⟨second, others, hsecond, hothers, rfl⟩ := Json.allSpellings?_cons_eq_some.1 hss
    rw [Json.writeRest] at hfuel
    rw [Json.writeRest, List.cons_append] at hfirst
    simp only [List.length_cons, List.length_append] at hfuel
    obtain ⟨fuel, rfl⟩ : ∃ n, fuel = n + 1 := ⟨fuel - 1, by omega⟩
    have hvalue : readValue? fuel (Json.write style (depth + 1) v ++
        (Json.writeRest style depth vs ++ cs)) =
          some (second, Json.writeRest style depth vs ++ cs) :=
      readValue?_write v hsecond (by omega) (endsNumber_writeRest depth vs cs)
    have hrest := readElements?_writeRest vs hothers (by omega) hvalue
    rw [readElements?_more hfirst (skipSpaces_cons rfl _), List.append_assoc, List.append_assoc,
      readElements?_lineBreak, hrest, Option.map_some]

theorem readEntries?_writeRestEntries : ∀ (entries : List (String × Json)) (key : String)
    {ss : List (List StringUnit × Spelling)} {s : Spelling} {depth fuel : Nat}
    {first cs : List Char}, Json.entrySpellings? entries = some ss →
      2 * (Json.writeRestEntries style depth entries).length ≤ fuel + 1 →
        readValue? fuel first = some (s, Json.writeRestEntries style depth entries ++ cs) →
          readEntries? (fuel + 1) (Json.quote key ++ (style.colon ++ first)) =
            some ((StringUnit.ofText key, s) :: ss, cs)
  | [], key, ss, s, depth, fuel, first, cs, hss, hfuel, hfirst => by
    obtain rfl := Option.some.inj hss
    refine readEntries?_last key hfirst ?_
    rw [Json.writeRestEntries, List.append_assoc, skipSpaces_lineBreak]
    rfl
  | (next, v) :: entries, key, ss, s, depth, fuel, first, cs, hss, hfuel, hfirst => by
    obtain ⟨second, others, hsecond, hothers, rfl⟩ := Json.entrySpellings?_cons_eq_some.1 hss
    rw [Json.writeRestEntries] at hfuel
    rw [Json.writeRestEntries, List.cons_append] at hfirst
    simp only [List.length_cons, List.length_append] at hfuel
    obtain ⟨fuel, rfl⟩ : ∃ n, fuel = n + 1 := ⟨fuel - 1, by omega⟩
    have hvalue : readValue? fuel (Json.write style (depth + 1) v ++
        (Json.writeRestEntries style depth entries ++ cs)) =
          some (second, Json.writeRestEntries style depth entries ++ cs) :=
      readValue?_write v hsecond (by omega) (endsNumber_writeRestEntries depth entries cs)
    have hrest := readEntries?_writeRestEntries entries next hothers (by omega) hvalue
    rw [readEntries?_more key hfirst (skipSpaces_cons rfl _)]
    simp only [List.append_assoc]
    rw [readEntries?_lineBreak, hrest, Option.map_some]

end

end Values

/-- A line of text is read as the spelling of the value that was written on it. -/
theorem read?_write {style : Json.Style} {v : Json} {s : Spelling} (h : v.spelling? = some s) :
    read? (String.ofList (Json.write style 0 v ++ ['\n'])) = some s := by
  have hend : EndsNumber ['\n'] := by simp [EndsNumber]
  have hread : readValue? (2 * (Json.write style 0 v ++ ['\n']).length + 2)
      (Json.write style 0 v ++ ['\n']) = some (s, ['\n']) :=
    readValue?_write v h (by rw [List.length_append]; omega) hend
  have hblank : skipSpaces ['\n'] = [] := by decide
  rw [read?, String.toList_ofList, Option.bind_eq_bind, hread, Option.bind_some]
  exact if_pos hblank

end Spelling

end Fonds
