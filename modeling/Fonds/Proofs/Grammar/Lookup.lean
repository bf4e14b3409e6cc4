import Fonds.Proofs.Grammar.Document
import Fonds.Proofs.RoundTrip.Shape
import Mathlib.Data.List.Perm.Subperm

/-!
What the readers find under the keys of an object. No key repeats in a value that was read from a
text, so looking a key up comes to the same as having its entry.
-/
namespace Fonds

namespace Entries

variable {entries : List (String × Json)} {key : String} {form : Json → Prop}

theorem get?_eq_some_iff {κ α : Type} [DecidableEq κ] {entries : List (κ × α)} {k : κ} {v : α}
    (h : (keys entries).Nodup) : get? k entries = some v ↔ (k, v) ∈ entries := by
  induction entries with
  | nil => simp [get?]
  | cons e rest ih =>
    obtain ⟨k', v'⟩ := e
    obtain ⟨hfirst, hrest⟩ := List.nodup_cons.1 h
    rw [get?, List.mem_cons, Prod.mk.injEq]
    split
    next heq =>
      subst heq
      have hlater : (k', v) ∉ rest := fun hmem => hfirst (List.mem_map_of_mem (a := (k', v)) hmem)
      simp [hlater, eq_comm]
    next hne =>
      rw [ih hrest]
      simp [Ne.symm hne]

theorem isSome_get?_iff {κ α : Type} [DecidableEq κ] {entries : List (κ × α)} {k : κ} :
    (get? k entries).isSome ↔ k ∈ keys entries := by
  induction entries with
  | nil => simp [get?]
  | cons e rest ih =>
    rw [get?, keys_cons, List.mem_cons]
    split
    next heq => simp [heq]
    next hne => simp [ih, Ne.symm hne]

/-- Entries that are all there, and whose keys are all the keys there are, are all there is. -/
theorem perm_of_forall_mem {κ α : Type} {entries entries' : List (κ × α)}
    (hkeys : (keys entries).Perm (keys entries')) (hentries' : (keys entries').Nodup)
    (hmem : ∀ e ∈ entries, e ∈ entries') : entries.Perm entries' := by
  have hnodup : entries.Nodup := List.Nodup.of_map Prod.fst (hkeys.nodup_iff.2 hentries')
  have hlength : entries'.length ≤ entries.length := by
    rw [← List.length_map Prod.fst, ← List.length_map Prod.fst]
    exact Nat.le_of_eq hkeys.length_eq.symm
  exact (List.subperm_of_subset hnodup hmem).perm_of_length_le hlength

theorem allows_iff (h : (keys entries).Nodup) :
    Allows entries key form ↔ ∀ v ∈ get? key entries, form v := by
  simp only [Allows, Option.mem_def, get?_eq_some_iff h]

theorem requires_iff (h : (keys entries).Nodup) :
    Requires entries key form ↔ ∃ v, get? key entries = some v ∧ form v := by
  simp only [Requires, get?_eq_some_iff h]

theorem requires_iff_allows (h : (keys entries).Nodup) :
    Requires entries key form ↔ Allows entries key form ∧ key ∈ keys entries := by
  rw [requires_iff h, allows_iff h, ← isSome_get?_iff]
  cases get? key entries <;> simp

/-- A text that may be missing. -/
theorem allows_isText_iff (h : (keys entries).Nodup) {form : String → Prop} :
    Allows entries key (Json.IsText form) ↔
      ∃ o : Option String, get? key entries = o.map .string ∧ ∀ s ∈ o, form s := by
  rw [allows_iff h]
  cases get? key entries with
  | none => exact ⟨fun _ => ⟨none, rfl, by simp⟩, by simp⟩
  | some v =>
    constructor
    · intro hv
      obtain ⟨s, rfl, hs⟩ := hv v rfl
      exact ⟨some s, rfl, by simpa using hs⟩
    · rintro ⟨o, ho, hform⟩
      obtain ⟨s, hs, rfl⟩ := Option.map_eq_some_iff.1 ho.symm
      rintro w ⟨⟩
      exact ⟨s, rfl, hform s hs⟩

/-- A text that may not be missing, as a missing one would be blank. -/
theorem requires_isNonBlank_iff (h : (keys entries).Nodup) :
    Requires entries key Json.IsNonBlank ↔
      ∃ o : Option String, get? key entries = o.map .string ∧ ¬ Text.Blank (o.getD "") := by
  rw [requires_iff h]
  constructor
  · rintro ⟨v, hv, s, rfl, hs⟩
    exact ⟨some s, hv, hs⟩
  · rintro ⟨o, ho, hs⟩
    cases o with
    | none => exact absurd (by decide) hs
    | some s => exact ⟨.string s, ho, s, rfl, hs⟩

end Entries

namespace OrderedMap

variable {ε κ α β γ : Type} [DecidableEq κ] {l : List β} {read : β → Except ε (κ × α)}
  {step : OrderedMap κ α → β → Except ε (OrderedMap κ α)}

/-- A map that takes in one entry after the other, and no key twice, ends up with what was read. -/
theorem foldlM_eq_ok_iff (hstep : ∀ known b m, step known b = .ok m ↔
      ∃ e, read b = .ok e ∧ e.1 ∉ known.keys ∧ m = known.insert e.1 e.2) {m : OrderedMap κ α} :
    l.foldlM step .empty = .ok m ↔ l.mapM read = .ok m.entries := by
  have happend : ∀ (known m : OrderedMap κ α) (e : κ × α),
      (e.1 ∉ known.keys ∧ m = known.insert e.1 e.2) ↔ m.entries = known.entries ++ [e] := by
    intro known m e
    constructor
    · rintro ⟨hnew, rfl⟩
      exact Entries.insert_of_not_mem hnew
    · intro hm
      have hnodup := m.nodup
      rw [hm, Entries.keys_append, List.nodup_append] at hnodup
      have hnew : e.1 ∉ known.keys := fun hmem => hnodup.2.2 e.1 hmem e.1 (by simp) rfl
      exact ⟨hnew, ext (hm.trans (Entries.insert_of_not_mem hnew).symm)⟩
  have hcut : ∀ (m : OrderedMap κ α) before after, m.entries = before ++ after →
      ∃ known : OrderedMap κ α, known.entries = before := by
    intro m before after hm
    have hnodup := m.nodup
    rw [hm, Entries.keys_append, List.nodup_append] at hnodup
    exact ⟨⟨before, hnodup.1⟩, rfl⟩
  have hsteps : ∀ known b m, step known b = .ok m ↔
      ∃ e, read b = .ok e ∧ m.entries = known.entries ++ [e] := by
    simp only [hstep, happend, implies_true]
  rw [foldlM_eq_ok_iff_mapM entries (fun _ _ => ext) hcut hsteps]
  simp [empty]

omit [DecidableEq κ] in
/-- The entries make a map if their keys differ, which may show in the names of what is read. -/
theorem exists_mapM_entries_iff {write : κ → γ} {name : β → γ} (hwrite : Function.Injective write)
    (hname : ∀ b e, read b = .ok e → name b = write e.1) :
    (∃ m : OrderedMap κ α, l.mapM read = .ok m.entries ∧ m.entries ≠ []) ↔
      l ≠ [] ∧ (∀ b ∈ l, ∃ e, read b = .ok e) ∧ (l.map name).Nodup := by
  rw [← exists_mapM_nodup_iff hwrite hname]
  constructor
  · rintro ⟨m, hm, hne⟩
    exact ⟨mt (eq_nil_iff_of_mapM hm).2 hne, m.entries, hm, m.nodup⟩
  · rintro ⟨hne, es, hes, hnodup⟩
    exact ⟨⟨es, hnodup⟩, hes, mt (eq_nil_iff_of_mapM hes).1 hne⟩

end OrderedMap

namespace Json

variable {entries : List (String × Json)} {key construct : String} {v : Json}

theorem exists_expectInt64_iff_isInt64 (construct : String) :
    (∃ n, v.expectInt64 construct = .ok n) ↔ v.IsInt64 := by
  have hmin : ∀ n : Int64, -2 ^ 63 ≤ n.toInt := fun n => by
    have hle := n.minValue_le_toInt
    rw [Int64.toInt_minValue] at hle
    omega
  rw [IsInt64, ← exists_expectInt64_from_iff construct (by decide)]
  simp only [hmin, and_true]

theorem exists_texts_iff {form : String → Prop} {vs : List Json} :
    (∃ texts : List String, vs = texts.map .string ∧ ∀ s ∈ texts, form s) ↔
      ∀ w ∈ vs, w.IsText form := by
  induction vs with
  | nil => simp
  | cons w rest ih =>
    rw [List.forall_mem_cons, ← ih]
    constructor
    · rintro ⟨texts, htexts, hall⟩
      cases texts with
      | nil => exact absurd htexts (by simp)
      | cons s texts =>
        obtain ⟨rfl, rfl⟩ := List.cons.inj htexts
        rw [List.forall_mem_cons] at hall
        exact ⟨⟨s, rfl, hall.1⟩, texts, rfl, hall.2⟩
    · rintro ⟨⟨s, rfl, hs⟩, texts, rfl, hall⟩
      exact ⟨s :: texts, rfl, List.forall_mem_cons.2 ⟨hs, hall⟩⟩

theorem exists_expectInt64_iff_isSign (construct : String) :
    (∃ n, v.expectInt64 construct = .ok n ∧ (n.toInt = 1 ∨ n.toInt = -1)) ↔ v.IsSign := by
  simp only [expectInt64_eq_ok_iff]
  constructor
  · rintro ⟨n, hn, hone | hminus⟩
    · exact .inl (hone ▸ hn)
    · exact .inr (hminus ▸ hn)
  · rintro (hone | hminus)
    · exact ⟨1, hone, .inl rfl⟩
    · exact ⟨-1, hminus, .inr rfl⟩

theorem expectStringAt?_eq_ok_iff {o : Option String} :
    expectStringAt? construct entries key = .ok o ↔ Entries.get? key entries = o.map .string := by
  rw [expectStringAt?]
  cases Entries.get? key entries with
  | none => cases o <;> simp
  | some v => cases o <;> simp [map_eq_ok, expectString_eq_ok_iff]

end Json

end Fonds
