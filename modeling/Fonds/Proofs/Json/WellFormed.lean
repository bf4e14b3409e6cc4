import Fonds.Json.Reader

/-!
Well-formed JSON values, from the whole to its parts and from the text to the whole: no object that
was read from a text has a key twice.
-/
namespace Fonds

namespace Entries

variable {κ α : Type} [DecidableEq κ] {e : κ × α}

theorem mem_of_mem_insert {k : κ} {v : α} {entries : List (κ × α)} (h : e ∈ insert k v entries) :
    e = (k, v) ∨ e ∈ entries := by
  induction entries with
  | nil => exact .inl (List.mem_singleton.1 h)
  | cons first entries ih =>
    rw [insert] at h
    split at h
    · rcases List.mem_cons.1 h with h | h
      · exact .inl h
      · exact .inr (List.mem_cons_of_mem _ h)
    · rcases List.mem_cons.1 h with h | h
      · exact .inr (h ▸ List.mem_cons_self)
      · exact (ih h).imp_right (List.mem_cons_of_mem _)

theorem mem_of_mem_insertAll {entries pairs : List (κ × α)} (h : e ∈ insertAll entries pairs) :
    e ∈ entries ∨ e ∈ pairs := by
  induction pairs generalizing entries with
  | nil => exact .inl h
  | cons p pairs ih =>
    rcases ih h with h | h
    · rcases mem_of_mem_insert h with rfl | h
      · exact .inr List.mem_cons_self
      · exact .inl h
    · exact .inr (List.mem_cons_of_mem _ h)

/-- What pairs amount to as a map was written in one of them. -/
theorem mem_of_mem_collect {pairs : List (κ × α)} (h : e ∈ collect pairs) : e ∈ pairs :=
  (mem_of_mem_insertAll h).resolve_left List.not_mem_nil

end Entries

namespace Json

/-- The value under a key of an object. -/
def get? (key : String) (v : Json) : Option Json := v.asObject?.bind (Entries.get? key)

theorem allWellFormed_iff {elems : List Json} :
    AllWellFormed elems ↔ ∀ v ∈ elems, v.WellFormed := by
  induction elems with
  | nil => simp [AllWellFormed]
  | cons v elems ih => rw [AllWellFormed, ih, List.forall_mem_cons]

theorem entriesWellFormed_iff {entries : List (String × Json)} :
    EntriesWellFormed entries ↔ ∀ e ∈ entries, e.2.WellFormed := by
  induction entries with
  | nil => simp [EntriesWellFormed]
  | cons e entries ih => rw [EntriesWellFormed, ih, List.forall_mem_cons]

theorem WellFormed.of_mem_oneOrMany {v w : Json} (hv : v.WellFormed) (hw : w ∈ v.oneOrMany) :
    w.WellFormed := by
  cases v with
  | array elems => exact allWellFormed_iff.1 hv w hw
  | _ =>
    obtain rfl := List.mem_singleton.1 hw
    exact hv

theorem WellFormed.of_mem_entries {entries : List (String × Json)} {e : String × Json}
    (h : (Json.object entries).WellFormed) (he : e ∈ entries) : e.2.WellFormed :=
  entriesWellFormed_iff.1 h.2 e he

theorem sizeOf_le_of_mem_oneOrMany {v w : Json} (hw : w ∈ v.oneOrMany) : sizeOf w ≤ sizeOf v := by
  cases v with
  | array elems =>
    have hmem : w ∈ elems := hw
    have hlt := List.sizeOf_lt_of_mem hmem
    simp only [array.sizeOf_spec]
    omega
  | _ =>
    obtain rfl := List.mem_singleton.1 hw
    exact Nat.le_refl _

theorem sizeOf_lt_of_mem_entries {entries : List (String × Json)} {e : String × Json}
    (he : e ∈ entries) : sizeOf e.2 < sizeOf (Json.object entries) := by
  obtain ⟨key, v⟩ := e
  have hlt := List.sizeOf_lt_of_mem he
  simp only [Prod.mk.sizeOf_spec] at hlt
  simp only [object.sizeOf_spec]
  omega

theorem wellFormed_ofEntries {entries : List (String × Json)}
    (h : ∀ e ∈ entries, e.2.WellFormed) : (ofEntries entries).WellFormed := by
  refine ⟨Entries.nodup_keys_collect entries, entriesWellFormed_iff.2 ?_⟩
  exact fun e he => h e (Entries.mem_of_mem_collect he)

end Json

namespace Spelling

mutual

theorem wellFormed_of_toJson? : ∀ {depth : Nat} (s : Spelling) {v : Json},
    toJson? depth s = some v → v.WellFormed
  | _, .null, _, h => by
    rw [toJson?] at h
    obtain rfl := Option.some.inj h
    trivial
  | _, .bool b, _, h => by
    rw [toJson?] at h
    obtain rfl := Option.some.inj h
    trivial
  | _, .number n, _, h => by
    rw [toJson?, Option.map_eq_some_iff] at h
    obtain ⟨_, -, rfl⟩ := h
    trivial
  | _, .string units, _, h => by
    rw [toJson?, Option.map_eq_some_iff] at h
    obtain ⟨_, -, rfl⟩ := h
    trivial
  | depth + 1, .array elems, _, h => by
    rw [toJson?, Option.map_eq_some_iff] at h
    obtain ⟨vs, hvs, rfl⟩ := h
    exact Json.allWellFormed_iff.2 (wellFormed_of_allToJson? elems hvs)
  | depth + 1, .object entries, _, h => by
    rw [toJson?, Option.map_eq_some_iff] at h
    obtain ⟨pairs, hpairs, rfl⟩ := h
    exact Json.wellFormed_ofEntries (wellFormed_of_entriesToJson? entries hpairs)

theorem wellFormed_of_allToJson? : ∀ {depth : Nat} (elems : List Spelling) {vs : List Json},
    allToJson? depth elems = some vs → ∀ v ∈ vs, v.WellFormed
  | _, [], _, h => by
    rw [allToJson?] at h
    obtain rfl := Option.some.inj h
    simp
  | depth, s :: elems, _, h => by
    rw [allToJson?, Option.bind_eq_bind, Option.bind_eq_some_iff] at h
    obtain ⟨v, hv, h⟩ := h
    obtain ⟨vs, hvs, h⟩ := Option.bind_eq_some_iff.1 h
    obtain rfl := Option.some.inj h
    exact List.forall_mem_cons.2 ⟨wellFormed_of_toJson? s hv, wellFormed_of_allToJson? elems hvs⟩

theorem wellFormed_of_entriesToJson? : ∀ {depth : Nat}
    (entries : List (List StringUnit × Spelling)) {pairs : List (String × Json)},
    entriesToJson? depth entries = some pairs → ∀ e ∈ pairs, e.2.WellFormed
  | _, [], _, h => by
    rw [entriesToJson?] at h
    obtain rfl := Option.some.inj h
    simp
  | depth, (key, s) :: entries, _, h => by
    rw [entriesToJson?, Option.bind_eq_bind, Option.bind_eq_some_iff] at h
    obtain ⟨name, -, h⟩ := h
    obtain ⟨v, hv, h⟩ := Option.bind_eq_some_iff.1 h
    obtain ⟨pairs, hpairs, h⟩ := Option.bind_eq_some_iff.1 h
    obtain rfl := Option.some.inj h
    exact List.forall_mem_cons.2
      ⟨wellFormed_of_toJson? s hv, wellFormed_of_entriesToJson? entries hpairs⟩

end

end Spelling

/-- A value read from a text is well formed. -/
theorem Json.wellFormed_of_parse? {text : String} {v : Json} (h : parse? text = some v) :
    v.WellFormed := by
  obtain ⟨s, -, hs⟩ := Option.bind_eq_some_iff.1 h
  exact Spelling.wellFormed_of_toJson? s hs

end Fonds
