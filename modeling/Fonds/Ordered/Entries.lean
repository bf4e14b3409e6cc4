/-!
Lists of key and value pairs read as maps that remember the order of their keys. Inserting under a
known key keeps its place and replaces its value; a new key goes to the end.
-/
namespace Fonds.Entries

variable {κ α β : Type} [DecidableEq κ]

/-- Puts a value under a key, where the key already stands or else at the end. -/
def insert (k : κ) (v : α) : List (κ × α) → List (κ × α)
  | [] => [(k, v)]
  | (k', v') :: rest => if k' = k then (k, v) :: rest else (k', v') :: insert k v rest

/-- The value under a key, that of its first entry if there are several. -/
def get? (k : κ) : List (κ × α) → Option α
  | [] => none
  | (k', v) :: rest => if k' = k then some v else get? k rest

/-- Inserts pairs one after the other: each key keeps its first place and gets its last value. -/
def insertAll (entries pairs : List (κ × α)) : List (κ × α) :=
  pairs.foldl (fun acc pair => insert pair.1 pair.2 acc) entries

/-- The map that pairs, written one after the other, amount to. -/
def collect (pairs : List (κ × α)) : List (κ × α) := insertAll [] pairs

/-- The keys, in order. -/
def keys (entries : List (κ × α)) : List κ := entries.map Prod.fst

omit [DecidableEq κ] in
@[simp] theorem keys_nil : keys ([] : List (κ × α)) = [] := rfl

omit [DecidableEq κ] in
@[simp] theorem keys_cons (e : κ × α) (entries : List (κ × α)) :
    keys (e :: entries) = e.1 :: keys entries := rfl

omit [DecidableEq κ] in
@[simp] theorem keys_append (xs ys : List (κ × α)) : keys (xs ++ ys) = keys xs ++ keys ys := by
  simp [keys]

/-- A known key is inserted in place, so the keys stay as they are. -/
theorem keys_insert_of_mem {k : κ} {v : α} {entries : List (κ × α)} (h : k ∈ keys entries) :
    keys (insert k v entries) = keys entries := by
  induction entries with
  | nil => simp at h
  | cons e rest ih =>
    obtain ⟨k', v'⟩ := e
    by_cases hk : k' = k
    · simp [insert, hk]
    · have hrest : k ∈ keys rest := by
        simp only [keys_cons, List.mem_cons] at h
        exact h.resolve_left fun he => hk he.symm
      simp [insert, hk, ih hrest]

/-- A new key is inserted at the end. -/
theorem insert_of_not_mem {k : κ} {v : α} {entries : List (κ × α)} (h : k ∉ keys entries) :
    insert k v entries = entries ++ [(k, v)] := by
  induction entries with
  | nil => rfl
  | cons e rest ih =>
    obtain ⟨k', v'⟩ := e
    simp only [keys_cons, List.mem_cons, not_or] at h
    have hk : k' ≠ k := fun he => h.1 he.symm
    simp [insert, hk, ih h.2]

theorem nodup_keys_insert {k : κ} {v : α} {entries : List (κ × α)} (h : (keys entries).Nodup) :
    (keys (insert k v entries)).Nodup := by
  by_cases hk : k ∈ keys entries
  · rwa [keys_insert_of_mem hk]
  · rw [insert_of_not_mem hk]
    simp only [keys_append, keys_cons, keys_nil]
    rw [List.nodup_append]
    refine ⟨h, by simp, ?_⟩
    intro a ha b hb
    simp only [List.mem_singleton] at hb
    subst hb
    exact fun he => hk (he ▸ ha)

theorem nodup_keys_insertAll {entries : List (κ × α)} (h : (keys entries).Nodup)
    (pairs : List (κ × α)) : (keys (insertAll entries pairs)).Nodup := by
  induction pairs generalizing entries with
  | nil => exact h
  | cons p rest ih => exact ih (nodup_keys_insert h)

theorem nodup_keys_collect (pairs : List (κ × α)) : (keys (collect pairs)).Nodup :=
  nodup_keys_insertAll (by simp) pairs

theorem insertAll_of_nodup {entries pairs : List (κ × α)}
    (h : (keys (entries ++ pairs)).Nodup) : insertAll entries pairs = entries ++ pairs := by
  induction pairs generalizing entries with
  | nil => simp [insertAll]
  | cons p rest ih =>
    have hsplit : entries ++ p :: rest = (entries ++ [p]) ++ rest := by simp
    have hp : p.1 ∉ keys entries := by
      rw [keys_append, keys_cons, List.nodup_append] at h
      exact fun hm => h.2.2 p.1 hm p.1 (by simp) rfl
    rw [hsplit] at h ⊢
    rw [← ih h]
    simp [insertAll, insert_of_not_mem hp]

/-- Pairs whose keys are all different already are a map. -/
theorem collect_of_nodup {pairs : List (κ × α)} (h : (keys pairs).Nodup) :
    collect pairs = pairs := by
  have hall : (keys ([] ++ pairs)).Nodup := h
  exact insertAll_of_nodup hall

end Fonds.Entries
