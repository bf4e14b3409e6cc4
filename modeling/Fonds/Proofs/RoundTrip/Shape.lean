import Fonds.Ordered.Map
import Fonds.Ordered.NonEmpty
import Fonds.Proofs.Outcome
import Fonds.Shape
import Mathlib.Data.List.Nodup

/-!
Reading back what was written, part by part: numbers, texts and lists. A list that is read into a
container comes out as it went in if every element finds the ones before it there.
-/
namespace Fonds

section Lists

variable {ε α β γ σ : Type}

/-- Elements that are read one by one are read together. -/
theorem mapM_map_eq_ok {write : α → β} {read : β → Except ε γ} {view : α → γ} {l : List α}
    (h : ∀ a ∈ l, read (write a) = .ok (view a)) : (l.map write).mapM read = .ok (l.map view) := by
  induction l with
  | nil => rfl
  | cons a l ih =>
    rw [List.forall_mem_cons] at h
    simp only [List.map_cons, List.mapM_cons, h.1, ih h.2, ok_bind]
    rfl

/-- A fold comes to hold a list if every step takes it one element further. -/
theorem foldlM_of_steps {write : α → β} {step : σ → β → Except ε σ} {l : List α} {s t : σ}
    (Has : List α → σ → Prop) (hs : Has [] s) (ht : ∀ s, Has l s → s = t)
    (hstep : ∀ before a s, before ++ [a] <+: l → Has before s →
      ∃ s', step s (write a) = .ok s' ∧ Has (before ++ [a]) s') :
    (l.map write).foldlM step s = .ok t := by
  have hrest : ∀ after before s, l = before ++ after → Has before s →
      (after.map write).foldlM step s = .ok t := by
    intro after
    induction after with
    | nil =>
      intro before s hl hb
      rw [List.append_nil] at hl
      rw [List.map_nil, List.foldlM_nil, ht s (hl ▸ hb)]
      rfl
    | cons a after ih =>
      intro before s hl hb
      have hsplit : l = (before ++ [a]) ++ after := by simp [hl]
      obtain ⟨s', hs', hb'⟩ := hstep before a s (hsplit ▸ List.prefix_append _ _) hb
      rw [List.map_cons, List.foldlM_cons, hs', ok_bind]
      exact ih (before ++ [a]) s' hsplit hb'
  exact hrest l [] s rfl hs

/-- A key has not come up yet where no key comes up twice. -/
theorem not_mem_keys_of_prefix {κ : Type} {before l : List (κ × α)} {e : κ × α}
    (hl : (Entries.keys l).Nodup) (h : before ++ [e] <+: l) : e.1 ∉ Entries.keys before := by
  have hkeys := hl.sublist (h.sublist.map Prod.fst)
  rw [List.map_append, List.nodup_append] at hkeys
  intro hmem
  exact hkeys.2.2 e.1 hmem e.1 (by simp) rfl

end Lists

section Containers

variable {κ α β σ ε : Type} [DecidableEq κ]

theorem Entries.get?_eq_none {k : κ} {entries : List (κ × α)} (h : k ∉ keys entries) :
    get? k entries = none := by
  induction entries with
  | nil => rfl
  | cons e entries ih =>
    rw [keys_cons, List.mem_cons, not_or] at h
    have hne : e.1 ≠ k := fun heq => h.1 heq.symm
    rw [get?, if_neg hne, ih h.2]

omit [DecidableEq κ] in
/-- Entries of different keys are taken in in any order, if so are two of them. -/
theorem Entries.foldlM_eq_ok_of_perm {entries entries' : List (κ × α)}
    {step : σ → κ × α → Except ε σ}
    (hswap : ∀ e e' s s' t, e.1 ≠ e'.1 → step s e = .ok s' → step s' e' = .ok t →
      ∃ s'', step s e' = .ok s'' ∧ step s'' e = .ok t)
    (hperm : entries.Perm entries') (hentries : (keys entries).Nodup) {s t : σ}
    (h : entries.foldlM step s = .ok t) : entries'.foldlM step s = .ok t :=
  Fonds.foldlM_eq_ok_of_perm (fun e e' => e.1 ≠ e'.1) (fun _ _ => Ne.symm) hswap hperm
    (List.pairwise_map.1 hentries) h

/-- A map is read back from its entries. What is built may be more than the map. -/
theorem OrderedMap.foldlM_entries (m : OrderedMap κ α) {write : κ × α → β}
    {step : σ → β → Except ε σ} (put : OrderedMap κ α → σ)
    (hstep : ∀ known e, e.1 ∉ known.keys →
      step (put known) (write e) = .ok (put (known.insert e.1 e.2))) :
    (m.entries.map write).foldlM step (put .empty) = .ok (put m) := by
  refine foldlM_of_steps (fun before s => ∃ known : OrderedMap κ α,
    known.entries = before ∧ s = put known) ⟨.empty, rfl, rfl⟩ ?_ ?_
  · rintro _ ⟨known, hknown, rfl⟩
    rw [ext hknown]
  · rintro before e _ hpre ⟨known, rfl, rfl⟩
    have hnew := not_mem_keys_of_prefix m.nodup hpre
    exact ⟨_, hstep known e hnew, _, Entries.insert_of_not_mem hnew, rfl⟩

/-- A set is read back from its elements. -/
theorem OrderedSet.foldlM_elems (m : OrderedSet κ) {write : κ → β} {step : σ → β → Except ε σ}
    (put : OrderedSet κ → σ)
    (hstep : ∀ known a, step (put known) (write a) = .ok (put (known.insert a))) :
    (m.elems.map write).foldlM step (put .empty) = .ok (put m) := by
  refine foldlM_of_steps (fun before s => ∃ known : OrderedSet κ,
    known.elems = before ∧ s = put known) ⟨.empty, rfl, rfl⟩ ?_ ?_
  · rintro _ ⟨known, hknown, rfl⟩
    rw [ext hknown]
  · rintro before a _ hpre ⟨known, rfl, rfl⟩
    have hnodup := m.nodup.sublist hpre.sublist
    rw [List.nodup_append] at hnodup
    have hnew : a ∉ known.elems := fun hmem => hnodup.2.2 a hmem a (by simp) rfl
    refine ⟨_, hstep known a, _, ?_, rfl⟩
    rw [insert, dif_neg hnew]

omit [DecidableEq κ] in
theorem OrderedMap.eq_empty_of_isEmpty {m : OrderedMap κ α} (h : m.isEmpty = true) : m = .empty :=
  ext (List.isEmpty_iff.1 h)

omit [DecidableEq κ] in
theorem OrderedSet.eq_empty_of_isEmpty {s : OrderedSet κ} (h : s.isEmpty = true) : s = .empty := by
  obtain ⟨elems, nodup⟩ := s
  obtain rfl : elems = [] := List.isEmpty_iff.1 h
  rfl

end Containers

section Tokens

variable {κ : Type} {all : List κ} {token : κ → String} {s : String} {k : κ}
  (hall : ∀ k, all.find? (token · = token k) = some k)
include hall

/-- What is looked up by a token has that token. -/
theorem find?_token_eq_some_iff : all.find? (token · = s) = some k ↔ s = token k := by
  constructor
  · intro h
    have hfound := List.find?_some h
    exact (of_decide_eq_true hfound).symm
  · rintro rfl
    exact hall k

/-- Where everything can be looked up, no two share a token. -/
theorem token_injective_of_find? : Function.Injective token := by
  intro a b h
  have hfound := hall a
  rw [h, hall b] at hfound
  exact (Option.some.inj hfound).symm

end Tokens

theorem Name.text_injective : Function.Injective text := by
  rintro ⟨s, _, _⟩ ⟨t, _, _⟩ rfl
  rfl

theorem NonBlank.text_injective : Function.Injective text := by
  rintro ⟨s, _⟩ ⟨t, _⟩ rfl
  rfl

namespace Json

variable {construct : String}

@[simp] theorem expectObject_object (entries : List (String × Json)) :
    expectObject construct (.object entries) = .ok entries := rfl

@[simp] theorem expectArray_array (elems : List Json) :
    expectArray construct (.array elems) = .ok elems := rfl

@[simp] theorem expectString_string (s : String) :
    expectString construct (.string s) = .ok s := rfl

@[simp] theorem expectSingle_single (key : String) (v : Json) :
    expectSingle construct (.single key v) = .ok (key, v) := rfl

@[simp] theorem oneOrMany_array (elems : List Json) : oneOrMany (.array elems) = elems := rfl

/-- A number that fits 64 bits with a sign is read as it is. -/
theorem expectInt64_ofInt {n : Int} (hmin : Int64.minValue.toInt ≤ n)
    (hmax : n ≤ Int64.maxValue.toInt) :
    ∃ m : Int64, expectInt64 construct (.ofInt n) = .ok m ∧ m.toInt = n := by
  have htoInt : (Int64.ofInt n).toInt = n := by
    rw [Int64.toInt_minValue] at hmin
    rw [Int64.toInt_maxValue] at hmax
    exact Int64.toInt_ofInt_of_le hmin (by omega)
  have hnumber : (Number.integer n).toInt64? = some (Int64.ofInt n) := by
    rw [Number.toInt64?, if_pos ⟨hmin, hmax⟩]
  refine ⟨.ofInt n, ?_, htoInt⟩
  rw [expectInt64, expect, ofInt, asInt64?, hnumber]

/-- In particular one that is no larger than 32 bits allow without a sign. -/
theorem expectInt64_of_natAbs_lt {n : Int} (h : n.natAbs < UInt32.size) :
    ∃ m : Int64, expectInt64 construct (.ofInt n) = .ok m ∧ m.toInt = n := by
  have hmin := Int64.toInt_minValue
  have hmax := Int64.toInt_maxValue
  simp only [UInt32.size] at h
  exact expectInt64_ofInt (by omega) (by omega)

@[simp] theorem expectInt64_toInt (n : Int64) :
    expectInt64 construct (.ofInt n.toInt) = .ok n := by
  obtain ⟨m, hm, htoInt⟩ : ∃ m : Int64, expectInt64 construct (.ofInt n.toInt) = .ok m ∧
      m.toInt = n.toInt := expectInt64_ofInt n.minValue_le_toInt n.toInt_le
  rw [hm, Int64.toInt_inj.1 htoInt]

@[simp] theorem expectUInt64_toNat (n : UInt64) :
    expectUInt64 construct (.ofNat n.toNat) = .ok n := by
  have hfits : 0 ≤ (n.toNat : Int) ∧ (n.toNat : Int) < UInt64.size :=
    ⟨Int.natCast_nonneg _, Int.ofNat_lt.2 n.toNat_lt_size⟩
  have hnumber : (Number.integer n.toNat).toUInt64? = some n := by
    rw [Number.toUInt64?, if_pos hfits, Int.toNat_natCast, UInt64.ofNat_toNat]
  rw [expectUInt64, expect, ofNat, ofInt, asUInt64?, hnumber]

/-- Entries whose keys all differ are written as they are. -/
theorem ofEntries_map {κ α : Type} {text : κ → String} (htext : Function.Injective text)
    {l : List (κ × α)} (hl : (Entries.keys l).Nodup) (render : α → Json) :
    ofEntries (l.map fun e => (text e.1, render e.2)) =
      .object (l.map fun e => (text e.1, render e.2)) := by
  have hkeys : Entries.keys (l.map fun e => (text e.1, render e.2)) = (Entries.keys l).map text := by
    simp [Entries.keys]
  rw [ofEntries, Entries.collect_of_nodup]
  rw [hkeys]
  exact hl.map htext

/-- The texts of names are read as they are. -/
theorem expectStrings_map {α : Type} (text : α → String) (l : List α) :
    expectStrings construct (l.map fun a => .string (text a)) = .ok (l.map text) :=
  mapM_map_eq_ok fun _ _ => rfl

end Json

end Fonds
