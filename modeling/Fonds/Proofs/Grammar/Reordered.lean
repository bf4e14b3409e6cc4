import Fonds.Facet.Basic
import Fonds.Proofs.Grammar.Lookup
import Fonds.Proofs.Json.WellFormed

/-!
Documents that differ in the order of their keywords. Order is free in the objects that the query
language gives keywords to; the objects that are keyed by the names of fields, by bounds or by the
operators of actions, and the document to insert, stay as they are.
-/
namespace Fonds

variable {entries entries' : List (String × Json)} {key : String} {v w : Json}

/-- What an object stands for, as far as its keys are keywords that may come in any order. -/
inductive Construct where
  | request
  | query
  | filter
  | projection
  | facet
  | facetBody
  | dateRange
  | namedQuery
  /-- Anything else, where nothing may change places. -/
  | plain
  deriving DecidableEq

namespace Construct

/-- What the value under a section stands for. -/
def ofSection : Section → Construct
  | .query => query
  | .filter => filter
  | .projection => projection
  | .facets => facet
  | .roots | .data | .action => plain

/-- What the operand of an operator stands for. -/
def ofOperator : Operator → Construct
  | .junction _ => query
  | .test _ | .path => plain

/-- What the value under a key stands for. Where an array is expected, this is what its elements
stand for. -/
def member : Construct → String → Construct
  | request, key => ((Section.all.find? (·.token = key)).map ofSection).getD plain
  | query, key => ((Operator.ofToken? key).map ofOperator).getD plain
  | facet, key => if (FacetKind.ofToken? key).isSome then facetBody else plain
  | facetBody, key =>
    if key = Keyword.ranges then dateRange
    else if key = Keyword.queryFilters then namedQuery
    else plain
  | namedQuery, key => if key = Section.query.token then query else plain
  | filter, _ | projection, _ | dateRange, _ | plain, _ => plain

@[simp] theorem member_section (s : Section) : request.member s.token = ofSection s := by
  cases s <;> rfl

@[simp] theorem member_operator (operator : Operator) :
    query.member operator.token = ofOperator operator := by
  simp [member]

@[simp] theorem member_kind (kind : FacetKind) : facet.member kind.token = facetBody := by
  simp [member]

end Construct

/-- A value that differs from another in the order of keywords at most, at any depth. -/
inductive Reordered : Construct → Json → Json → Prop
  | same (c : Construct) (v : Json) : Reordered c v v
  | elements {c : Construct} {vs ws : List Json} (length : vs.length = ws.length)
      (each : ∀ p ∈ vs.zip ws, Reordered c p.1 p.2) : Reordered c (.array vs) (.array ws)
  | keywords {c : Construct} {entries entries' : List (String × Json)} (free : c ≠ .plain)
      (keys : (Entries.keys entries).Perm (Entries.keys entries'))
      (each : ∀ key v w, (key, v) ∈ entries → (key, w) ∈ entries' →
        Reordered (c.member key) v w) : Reordered c (.object entries) (.object entries')

/-- Entries in any order, where the values under each key differ in the order of keywords at
most. -/
structure ReorderedEntries (c : Construct) (entries entries' : List (String × Json)) : Prop where
  keys : (Entries.keys entries).Perm (Entries.keys entries')
  each : ∀ key v w, (key, v) ∈ entries → (key, w) ∈ entries' → Reordered (c.member key) v w

namespace Reordered

variable {c : Construct} {vs ws : List Json}

theorem forall₂ (length : vs.length = ws.length) (each : ∀ p ∈ vs.zip ws, Reordered c p.1 p.2) :
    List.Forall₂ (Reordered c) vs ws :=
  List.forall₂_iff_zip.2 ⟨length, fun {_ _} hp => each _ hp⟩

theorem eq_of_plain (h : Reordered .plain v w) : v = w := by
  generalize hc : Construct.plain = c at h
  induction h with
  | same => rfl
  | elements length each ih =>
    have hall := List.forall₂_iff_zip.2 ⟨length, fun {_ _} hp => ih _ hp hc⟩
    rw [List.forall₂_eq_eq_eq] at hall
    rw [hall]
  | keywords free => exact absurd hc.symm free

theorem symm (h : Reordered c v w) : Reordered c w v := by
  induction h with
  | same c v => exact .same c v
  | elements length each ih =>
    have hall := (List.forall₂_iff_zip.2 ⟨length, fun {_ _} hp => ih _ hp⟩).flip
    exact .elements length.symm fun p hp => (List.forall₂_iff_zip.1 hall).2 hp
  | keywords free keys each ih =>
    exact .keywords free keys.symm fun key v w hv hw => ih key w v hw hv

theorem wellFormed (h : Reordered c v w) (hv : v.WellFormed) : w.WellFormed := by
  induction h with
  | same => exact hv
  | @elements c vs ws length each ih =>
    have hvs := Json.allWellFormed_iff.1 hv
    refine Json.allWellFormed_iff.2 fun w hw => ?_
    rw [← List.map_snd_zip (Nat.le_of_eq length.symm)] at hw
    obtain ⟨p, hp, rfl⟩ := List.mem_map.1 hw
    exact ih p hp (hvs p.1 (List.of_mem_zip hp).1)
  | @keywords c entries entries' free keys each ih =>
    refine ⟨keys.nodup_iff.1 hv.1, Json.entriesWellFormed_iff.2 fun e he => ?_⟩
    have hkey : e.1 ∈ Entries.keys entries := keys.mem_iff.2 (List.mem_map_of_mem he)
    obtain ⟨first, hfirst, heq⟩ := List.mem_map.1 hkey
    exact ih e.1 first.2 e.2 (heq ▸ hfirst) he (hv.of_mem_entries hfirst)

theorem oneOrMany (h : Reordered c v w) :
    List.Forall₂ (Reordered c) v.oneOrMany w.oneOrMany := by
  cases h with
  | same => exact List.forall₂_same.2 fun v _ => .same c v
  | elements length each => exact forall₂ length each
  | keywords free keys each => exact .cons (.keywords free keys each) .nil

theorem exists_elements (h : Reordered c (.array vs) w) :
    ∃ ws, w = .array ws ∧ List.Forall₂ (Reordered c) vs ws := by
  cases h with
  | same => exact ⟨vs, rfl, List.forall₂_same.2 fun v _ => .same c v⟩
  | @elements _ _ ws length each => exact ⟨ws, rfl, forall₂ length each⟩

theorem exists_entries (h : Reordered c (.object entries) w)
    (hentries : (Entries.keys entries).Nodup) :
    ∃ entries', w = .object entries' ∧ ReorderedEntries c entries entries' := by
  cases h with
  | same =>
    refine ⟨entries, rfl, .refl _, fun key v w hv hw => ?_⟩
    rw [← Entries.get?_eq_some_iff hentries] at hv hw
    obtain rfl := Option.some.inj (hv.symm.trans hw)
    exact .same _ v
  | @keywords _ _ entries' free keys each => exact ⟨entries', rfl, keys, each⟩

theorem singleton (h : Reordered c v w) : Reordered c (.array [v]) (.array [w]) :=
  .elements rfl fun p hp => by
    obtain rfl : p = (v, w) := by simpa using hp
    exact h

theorem single (free : c ≠ .plain) (h : Reordered (c.member key) v w) :
    Reordered c (.single key v) (.single key w) :=
  .keywords free (.refl _) fun k u u' hu hu' => by
    obtain ⟨rfl, rfl⟩ := Prod.mk.inj (List.mem_singleton.1 hu)
    obtain rfl : u' = w := by simpa using hu'
    exact h

/-- Two entries that change places. -/
theorem swap {key key' : String} {v v' w w' : Json} (free : c ≠ .plain) (hne : key ≠ key')
    (hv : Reordered (c.member key) v v') (hw : Reordered (c.member key') w w') :
    Reordered c (.object [(key, v), (key', w)]) (.object [(key', w'), (key, v')]) := by
  refine .keywords free (.swap _ _ []) fun k u u' hu hu' => ?_
  rcases List.mem_pair.1 hu with heq | heq
  · obtain ⟨rfl, rfl⟩ := Prod.mk.inj heq
    obtain rfl : u' = v' := by simpa [hne] using hu'
    exact hv
  · obtain ⟨rfl, rfl⟩ := Prod.mk.inj heq
    obtain rfl : u' = w' := by simpa [hne.symm] using hu'
    exact hw

end Reordered

namespace ReorderedEntries

variable {c : Construct}

theorem mem_keys_iff (h : ReorderedEntries c entries entries') :
    key ∈ Entries.keys entries' ↔ key ∈ Entries.keys entries := h.keys.mem_iff.symm

theorem exists_mem (h : ReorderedEntries c entries entries') (hv : (key, v) ∈ entries) :
    ∃ w, (key, w) ∈ entries' ∧ Reordered (c.member key) v w := by
  have hkey : key ∈ Entries.keys entries' := h.mem_keys_iff.2 (List.mem_map_of_mem hv)
  obtain ⟨⟨_, w⟩, hw, rfl⟩ := List.mem_map.1 hkey
  exact ⟨w, hw, h.each _ v w hv hw⟩

theorem mem_of_plain (h : ReorderedEntries c entries entries') (hkey : c.member key = .plain)
    (hv : (key, v) ∈ entries) : (key, v) ∈ entries' := by
  obtain ⟨w, hw, hvw⟩ := h.exists_mem hv
  rw [hkey] at hvw
  exact hvw.eq_of_plain ▸ hw

theorem nodup (h : ReorderedEntries c entries entries') (hentries : (Entries.keys entries).Nodup) :
    (Entries.keys entries').Nodup := h.keys.nodup_iff.1 hentries

theorem get?_eq_some (h : ReorderedEntries c entries entries')
    (hentries : (Entries.keys entries).Nodup) (hv : Entries.get? key entries = some v) :
    ∃ w, Entries.get? key entries' = some w ∧ Reordered (c.member key) v w := by
  simp only [Entries.get?_eq_some_iff hentries, Entries.get?_eq_some_iff (h.nodup hentries)] at hv ⊢
  exact h.exists_mem hv

theorem get?_eq_none (h : ReorderedEntries c entries entries')
    (hnone : Entries.get? key entries = none) : Entries.get? key entries' = none := by
  rw [← Option.not_isSome_iff_eq_none, Entries.isSome_get?_iff] at hnone ⊢
  rwa [h.mem_keys_iff]

/-- Where nothing may change places within a value, looking it up comes to the same. -/
theorem get?_of_plain (h : ReorderedEntries c entries entries')
    (hentries : (Entries.keys entries).Nodup) (hkey : c.member key = .plain) :
    Entries.get? key entries' = Entries.get? key entries := by
  cases hget : Entries.get? key entries with
  | none => exact h.get?_eq_none hget
  | some v =>
    obtain ⟨w, hw, hvw⟩ := h.get?_eq_some hentries hget
    rw [hkey] at hvw
    rw [hw, hvw.eq_of_plain]

theorem expectStringAt?_of_plain (h : ReorderedEntries c entries entries')
    (hentries : (Entries.keys entries).Nodup) (construct : String) (hkey : c.member key = .plain) :
    Json.expectStringAt? construct entries' key = Json.expectStringAt? construct entries key := by
  rw [Json.expectStringAt?, Json.expectStringAt?, h.get?_of_plain hentries hkey]

/-- Where nothing may change places within the values, the entries themselves may. -/
theorem perm (h : ReorderedEntries c entries entries') (hentries : (Entries.keys entries).Nodup)
    (hplain : ∀ key, c.member key = .plain) : entries.Perm entries' :=
  Entries.perm_of_forall_mem h.keys (h.nodup hentries) fun e => h.mem_of_plain (hplain e.1)

/-- If that holds of all values but one, the other entries may change places with its entry. -/
theorem perm_cons {rest : List (String × Json)} (h : ReorderedEntries c entries entries')
    (hentries : (Entries.keys entries).Nodup) (hperm : entries.Perm ((key, v) :: rest))
    (hplain : ∀ e ∈ rest, c.member e.1 = .plain) (hw : (key, w) ∈ entries') :
    entries'.Perm ((key, w) :: rest) := by
  have hkeys : (Entries.keys ((key, w) :: rest)).Perm (Entries.keys entries') :=
    (hperm.symm.map Prod.fst).trans h.keys
  refine (Entries.perm_of_forall_mem hkeys (h.nodup hentries) ?_).symm
  refine List.forall_mem_cons.2 ⟨hw, fun e he => ?_⟩
  exact h.mem_of_plain (hplain e he) (hperm.mem_iff.2 (List.mem_cons_of_mem _ he))

end ReorderedEntries

/-- The order of keywords has no say in what is read of a construct. -/
def Construct.AnyOrder {ε α : Type} (c : Construct) (read : Json → Except ε α) : Prop :=
  ∀ ⦃v w : Json⦄, v.WellFormed → Reordered c v w → ∀ a, read v = .ok a → read w = .ok a

namespace Construct

variable {ε α : Type} {c : Construct} {read : Json → Except ε α} {vs ws : List Json} {l : List α}

theorem anyOrder_plain (read : Json → Except ε α) : plain.AnyOrder read :=
  fun _ _ _ h _ hread => h.eq_of_plain ▸ hread

/-- A reader of objects is given the same if its entries come in another order. -/
theorem anyOrder_object {construct : String} {readEntries : List (String × Json) → Built α}
    (hread : ∀ entries entries', (Json.object entries).WellFormed →
      ReorderedEntries c entries entries' →
        ∀ a, readEntries entries = .ok a → readEntries entries' = .ok a) :
    c.AnyOrder fun v => v.expectObject construct >>= readEntries := by
  intro v w hv h a ha
  obtain ⟨entries, hobject, ha⟩ := bind_eq_ok.1 ha
  obtain rfl := Json.expectObject_eq_ok_iff.1 hobject
  obtain ⟨entries', rfl, hentries⟩ := h.exists_entries hv.1
  exact bind_eq_ok.2 ⟨entries', rfl, hread entries entries' hv hentries a ha⟩

theorem AnyOrder.mapM (hread : c.AnyOrder read) (hvs : ∀ v ∈ vs, v.WellFormed)
    (hall : List.Forall₂ (Reordered c) vs ws) (h : vs.mapM read = .ok l) : ws.mapM read = .ok l :=
  mapM_eq_ok_of_forall₂ hall (fun v hv _ hvw => hread (hvs v hv) hvw) h

end Construct

end Fonds
