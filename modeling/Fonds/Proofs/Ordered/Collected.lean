import Fonds.Proofs.Grammar.Lookup
import Mathlib.Data.List.Induction

/-!
What pairs amount to when they are put into a map one after the other: every key stands where it
came up first, with the value it came up with last.
-/
namespace Fonds

namespace Entries

variable {κ α : Type} [DecidableEq κ] {k k' : κ} {v : α} {entries : List (κ × α)}

theorem eraseDups_concat (l : List κ) (a : κ) :
    (l ++ [a]).eraseDups = if a ∈ l then l.eraseDups else l.eraseDups ++ [a] := by
  rw [List.eraseDups_append]
  split
  next h => simp [List.removeAll, h]
  next h => simp [List.removeAll, h, List.eraseDups_cons]

theorem find?_eraseDups (p : κ → Bool) (l : List κ) : l.eraseDups.find? p = l.find? p := by
  induction l using List.reverseRecOn with
  | nil => rfl
  | append_singleton l a ih =>
    rw [eraseDups_concat]
    split
    next ha =>
      rw [ih, List.find?_append]
      cases hfound : l.find? p with
      | some b => rfl
      | none =>
        have hpa : p a = false := by simpa using List.find?_eq_none.1 hfound a ha
        simp [hpa]
    next => rw [List.find?_append, List.find?_append, ih]

/-- What comes up first among the first comes up first among all. -/
theorem eraseDups_map_eraseDups {κ' : Type} [DecidableEq κ'] (f : κ → κ') (l : List κ) :
    (l.eraseDups.map f).eraseDups = (l.map f).eraseDups := by
  induction l using List.reverseRecOn with
  | nil => rfl
  | append_singleton l a ih =>
    rw [eraseDups_concat, List.map_append, List.map_singleton, eraseDups_concat]
    by_cases ha : a ∈ l
    · have hfa : f a ∈ l.map f := List.mem_map_of_mem ha
      rw [if_pos ha, if_pos hfa, ih]
    · have hmem : f a ∈ l.eraseDups.map f ↔ f a ∈ l.map f := by
        simp only [List.mem_map, List.mem_eraseDups]
      rw [if_neg ha, List.map_append, List.map_singleton, eraseDups_concat, ih]
      simp only [hmem]

theorem eraseDups_eraseDups (l : List κ) : l.eraseDups.eraseDups = l.eraseDups := by
  simpa using eraseDups_map_eraseDups id l

theorem keys_insert : keys (insert k v entries) =
    if k ∈ keys entries then keys entries else keys entries ++ [k] := by
  split
  next h => exact keys_insert_of_mem h
  next h => rw [insert_of_not_mem h, keys_append, keys_cons, keys_nil]

theorem get?_insert :
    get? k' (insert k v entries) = if k = k' then some v else get? k' entries := by
  induction entries with
  | nil => rfl
  | cons e rest ih =>
    obtain ⟨l, w⟩ := e
    rw [insert]
    by_cases hl : l = k
    · subst hl
      simp only [if_true, get?]
      split <;> rfl
    · rw [if_neg hl, get?, get?, ih]
      by_cases hk : k = k'
      · subst hk
        simp [hl]
      · simp [hk]

theorem collect_concat (pairs : List (κ × α)) (e : κ × α) :
    collect (pairs ++ [e]) = insert e.1 e.2 (collect pairs) := by
  rw [collect, insertAll, List.foldl_append]
  rfl

theorem keys_collect (pairs : List (κ × α)) : keys (collect pairs) = (keys pairs).eraseDups := by
  induction pairs using List.reverseRecOn with
  | nil => rfl
  | append_singleton pairs e ih =>
    rw [collect_concat, keys_insert, ih, keys_append, keys_cons, keys_nil, eraseDups_concat]
    simp only [List.mem_eraseDups]

/-- The value of a key is the last it came up with. -/
theorem get?_collect (k : κ) (pairs : List (κ × α)) :
    get? k (collect pairs) = ((pairs.filter (·.1 = k)).getLast?).map Prod.snd := by
  induction pairs using List.reverseRecOn with
  | nil => rfl
  | append_singleton pairs e ih =>
    rw [collect_concat, get?_insert, ih, List.filter_append]
    by_cases he : e.1 = k
    · rw [if_pos he, List.filter_singleton, decide_eq_true he]
      simp
    · simp [he]

theorem insert_map {β : Type} (f : α → β) (k : κ) (v : α) (entries : List (κ × α)) :
    insert k (f v) (entries.map fun e => (e.1, f e.2)) =
      (insert k v entries).map fun e => (e.1, f e.2) := by
  induction entries with
  | nil => rfl
  | cons e rest ih =>
    rw [List.map_cons, insert, insert, ih]
    split <;> rfl

/-- Values may be turned into others before they are put into a map or after. -/
theorem collect_map {β : Type} (f : α → β) (pairs : List (κ × α)) :
    collect (pairs.map fun e => (e.1, f e.2)) = (collect pairs).map fun e => (e.1, f e.2) := by
  induction pairs using List.reverseRecOn with
  | nil => rfl
  | append_singleton pairs e ih =>
    rw [List.map_append, List.map_singleton, collect_concat, collect_concat, ih]
    exact insert_map f e.1 e.2 (collect pairs)

theorem mem_of_get? (h : get? k entries = some v) : (k, v) ∈ entries := by
  induction entries with
  | nil => exact absurd h (by simp [get?])
  | cons e rest ih =>
    rw [get?] at h
    split at h
    next he =>
      obtain rfl := Option.some.inj h
      exact he ▸ List.mem_cons_self
    next => exact List.mem_cons_of_mem _ (ih h)

end Entries

end Fonds
