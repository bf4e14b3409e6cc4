import Fonds.Proofs.Json.Text
import Fonds.Proofs.RoundTrip.Shape
import Fonds.Settings.Load

/-!
Settings survive their text. What is left out of the text is exactly what the reader fills in: a
group with nothing new in it, but never the reserved names, whose list may be empty on purpose.
-/
namespace Fonds

namespace SortedMap

variable {α : Type}

theorem insertEntry_of_forall_lt {k : String} {v : α} {entries : List (String × α)}
    (h : ∀ e ∈ entries, e.1 < k) : insertEntry k v entries = entries ++ [(k, v)] := by
  induction entries with
  | nil => rfl
  | cons e rest ih =>
    have he : e.1 < k := h e List.mem_cons_self
    have hlt : ¬ k < e.1 := String.lt_asymm he
    have hne : k ≠ e.1 := fun heq => String.lt_irrefl k (heq ▸ he)
    rw [insertEntry, if_neg hlt, if_neg hne, ih fun e he => h e (List.mem_cons_of_mem _ he),
      List.cons_append]

theorem entries_foldl_insert {pairs : List (String × α)} {m : SortedMap α}
    (h : (m.entries ++ pairs).Pairwise fun a b => a.1 < b.1) :
    (pairs.foldl (fun m pair => m.insert pair.1 pair.2) m).entries = m.entries ++ pairs := by
  induction pairs generalizing m with
  | nil => rw [List.foldl_nil, List.append_nil]
  | cons pair rest ih =>
    have hpair : (m.insert pair.1 pair.2).entries = m.entries ++ [pair] :=
      insertEntry_of_forall_lt fun e he =>
        (List.pairwise_append.1 h).2.2 e he pair List.mem_cons_self
    rw [List.append_cons, ← hpair] at h
    rw [List.foldl_cons, ih h, hpair, ← List.append_cons]

/-- The entries of a map, inserted in their order, give the map again. -/
theorem ofList_entries (m : SortedMap α) : ofList m.entries = m :=
  ext (entries_foldl_insert m.sorted)

end SortedMap

/-- The values under the keys of a map, in their order, are all its values. -/
theorem Entries.map_get?_keys {κ α : Type} [DecidableEq κ] {entries : List (κ × α)}
    (h : (keys entries).Nodup) :
    (keys entries).map (get? · entries) = entries.map fun e => some e.2 := by
  induction entries with
  | nil => rfl
  | cons e rest ih =>
    obtain ⟨hkey, hrest⟩ := List.nodup_cons.1 h
    have hlater : (keys rest).map (get? · (e :: rest)) = (keys rest).map (get? · rest) :=
      List.map_congr_left fun key hmem => by
        have hne : e.1 ≠ key := fun heq => hkey (heq ▸ hmem)
        rw [get?, if_neg hne]
    rw [keys_cons, List.map_cons, hlater, ih hrest, get?, if_pos rfl, List.map_cons]

namespace Json

/-- The entries are spelled under the units of their keys. -/
theorem exists_named_of_entrySpellings? {entries : List (String × Json)}
    {spelled : List (List StringUnit × Spelling)} (h : entrySpellings? entries = some spelled) :
    ∃ named : List (String × Spelling),
      spelled = named.map (fun e => (StringUnit.ofText e.1, e.2)) ∧
        Entries.keys named = Entries.keys entries ∧
          ∀ key, Entries.get? key named = (Entries.get? key entries).bind spelling? := by
  induction entries generalizing spelled with
  | nil => exact ⟨[], (Option.some.inj h).symm, rfl, fun _ => rfl⟩
  | cons e rest ih =>
    obtain ⟨name, v⟩ := e
    obtain ⟨value, others, hvalue, hothers, rfl⟩ := entrySpellings?_cons_eq_some.1 h
    obtain ⟨named, rfl, hkeys, hget⟩ := ih hothers
    refine ⟨(name, value) :: named, rfl, by rw [Entries.keys_cons, Entries.keys_cons, hkeys], ?_⟩
    intro key
    rw [Entries.get?, Entries.get?, hget]
    split
    next => rw [Option.bind_some, hvalue]
    next => rfl

theorem exists_entrySpellings? {entries : List (String × Json)}
    (h : ∀ e ∈ entries, ∃ s, e.2.spelling? = some s) : ∃ ss, entrySpellings? entries = some ss := by
  induction entries with
  | nil => exact ⟨[], rfl⟩
  | cons e rest ih =>
    obtain ⟨s, hs⟩ := h e List.mem_cons_self
    obtain ⟨ss, hss⟩ := ih fun e he => h e (List.mem_cons_of_mem _ he)
    exact ⟨(StringUnit.ofText e.1, s) :: ss, by simp [entrySpellings?, hs, hss]⟩

end Json

namespace Settings

theorem namedEntries?_ofText (named : List (String × Spelling)) :
    namedEntries? (named.map fun e => (StringUnit.ofText e.1, e.2)) = some named := by
  induction named with
  | nil => rfl
  | cons e rest ih =>
    rw [namedEntries?] at ih ⊢
    rw [List.map_cons, List.mapM_cons, ih, Spelling.textOf?_ofText]
    rfl

theorem member?_eq_get? {named : List (String × Spelling)} (h : (Entries.keys named).Nodup)
    (key : String) : member? named key = some (Entries.get? key named) := by
  induction named with
  | nil => rfl
  | cons e rest ih =>
    obtain ⟨name, v⟩ := e
    obtain ⟨hfirst, hrest⟩ := List.nodup_cons.1 h
    have hname : name ∉ rest.map Prod.fst := hfirst
    by_cases hkey : name = key
    · have hnone : rest.filter (·.1 = key) = [] := by
        refine List.filter_eq_nil_iff.2 fun e he hfound => hname ?_
        have hsame : e.1 = key := of_decide_eq_true hfound
        rw [hkey, ← hsame]
        exact List.mem_map_of_mem he
      simp [member?, Entries.get?, hkey, hnone]
    · have hmember : member? ((name, v) :: rest) key = member? rest key := by
        simp [member?, hkey]
      rw [hmember, ih hrest, Entries.get?, if_neg hkey]

/-- What the reader finds under each key of a group is the spelling of what was written there. -/
theorem members?_object {entries : List (String × Json)} {v : Spelling}
    (hentries : (Entries.keys entries).Nodup) (hv : (Json.object entries).spelling? = some v)
    (keys : List String) :
    members? keys v =
      some (keys.map fun key => (Entries.get? key entries).bind Json.spelling?) := by
  rw [Json.spelling?, Option.map_eq_some_iff] at hv
  obtain ⟨spelled, hspelled, rfl⟩ := hv
  obtain ⟨named, rfl, hkeys, hget⟩ := Json.exists_named_of_entrySpellings? hspelled
  have hmember (key : String) :
      member? named key = some ((Entries.get? key entries).bind Json.spelling?) := by
    rw [member?_eq_get? (hkeys ▸ hentries), hget]
  rw [members?, namedEntries?_ofText, Option.bind_eq_bind, Option.bind_some, funext hmember]
  exact List.mapM_pure

/-- The members of a group that has no other keys. -/
theorem members?_keys {entries : List (String × Json)} {v : Spelling}
    (hentries : (Entries.keys entries).Nodup) (hv : (Json.object entries).spelling? = some v) :
    members? (Entries.keys entries) v = some (entries.map fun e => e.2.spelling?) := by
  have hvalues : (Entries.keys entries).map (fun key =>
      (Entries.get? key entries).bind Json.spelling?) =
        ((Entries.keys entries).map (Entries.get? · entries)).map (·.bind Json.spelling?) := by
    rw [List.map_map]
    rfl
  rw [members?_object hentries hv, hvalues, Entries.map_get?_keys hentries, List.map_map]
  rfl

section Groups

variable {v : Spelling}

theorem readVersion?_ofNat (version : UInt32)
    (hv : (Json.ofNat version.toNat).spelling? = some v) : readVersion? v = some version := by
  obtain rfl := Option.some.inj hv
  have hsize : version.toNat < UInt64.size := Nat.lt_trans version.toNat_lt (by decide)
  have hlt : version.toNat < UInt32.size := version.toNat_lt
  simp [readVersion?, readNat?, Numeral.toNumber?_ofInt_natCast hsize, hlt]

theorem readLimit?_ofNat (limit : UInt64) (hv : (Json.ofNat limit.toNat).spelling? = some v) :
    readLimit? v = some limit := by
  obtain rfl := Option.some.inj hv
  have hlt : limit.toNat < UInt64.size := limit.toNat_lt
  simp [readLimit?, readNat?, Numeral.toNumber?_ofInt_natCast hlt, hlt]

theorem readPaging?_limit (limit : UInt64)
    (hv : (Json.single "defaultLimit" (.ofNat limit.toNat)).spelling? = some v) :
    readPaging? v = some limit := by
  have hkeys : (Entries.keys [("defaultLimit", Json.ofNat limit.toNat)]).Nodup :=
    List.nodup_singleton _
  have hmembers : members? ["defaultLimit"] v = _ := members?_keys hkeys hv
  rw [readPaging?, hmembers]
  exact readLimit?_ofNat limit rfl

theorem readGraph?_entries (g : GraphFields)
    (hv : (Json.object (g.entries.map fun e => (e.1, .string e.2))).spelling? = some v) :
    readGraph? v = some g := by
  have hkeys : (Entries.keys (g.entries.map fun e => (e.1, Json.string e.2))).Nodup := by
    simp [Entries.keys, GraphFields.entries]
  have hmembers : members? (({} : GraphFields).entries.map Prod.fst) v = _ :=
    members?_keys hkeys hv
  rw [readGraph?, hmembers]
  simp only [GraphFields.entries, List.map_cons, List.map_nil, Json.spelling?, Option.bind_eq_bind,
    Option.bind_some, readMember?, readText?, Spelling.textOf?_ofText]

theorem entrySpellings?_texts (fields : List (String × String)) :
    Json.entrySpellings? (fields.map fun e => (e.1, .string e.2)) =
      some ((fields.map fun e => (e.1, Spelling.string (StringUnit.ofText e.2))).map
        fun e => (StringUnit.ofText e.1, e.2)) := by
  induction fields with
  | nil => rfl
  | cons e rest ih =>
    rw [List.map_cons, Json.entrySpellings?, ih]
    rfl

theorem readReserved?_entries (m : SortedMap String)
    (hv : (Json.object (m.entries.map fun e => (e.1, .string e.2))).spelling? = some v) :
    readReserved? v = some m := by
  rw [Json.spelling?, entrySpellings?_texts, Option.map_some] at hv
  obtain rfl := Option.some.inj hv
  have hpairs : (m.entries.map fun e => (e.1, Spelling.string (StringUnit.ofText e.2))).mapM
      (fun e => do
        let field ← readText? e.2
        some (e.1, field)) = some m.entries := by
    rw [List.mapM_map]
    simp only [Function.comp_def, readText?, Spelling.textOf?_ofText]
    exact List.mapM_pure.trans (congrArg some (List.map_id _))
  rw [readReserved?, namedEntries?_ofText, Option.bind_eq_bind, Option.bind_some, hpairs]
  exact congrArg some m.ofList_entries

end Groups

theorem exists_spelling?_texts (fields : List (String × String)) :
    ∃ v, (Json.object (fields.map fun e => (e.1, .string e.2))).spelling? = some v :=
  ⟨_, by rw [Json.spelling?, entrySpellings?_texts, Option.map_some]⟩

theorem exists_spelling? (s : Settings) : ∃ v, s.toJson.spelling? = some v := by
  have hentries : ∀ e ∈ s.entries, ∃ v, e.2.spelling? = some v := by
    intro e he
    simp only [entries, List.mem_append, List.mem_singleton] at he
    rcases he with ((rfl | he) | he) | rfl
    · exact ⟨_, rfl⟩
    · split at he
      next => exact absurd he List.not_mem_nil
      next =>
        rw [List.eq_of_mem_singleton he]
        exact exists_spelling?_texts s.graph.entries
    · split at he
      next => exact absurd he List.not_mem_nil
      next =>
        rw [List.eq_of_mem_singleton he]
        exact ⟨_, rfl⟩
    · exact exists_spelling?_texts s.reserved.entries
  obtain ⟨spelled, hspelled⟩ := Json.exists_entrySpellings? hentries
  exact ⟨.object spelled, by rw [toJson, Json.spelling?, hspelled, Option.map_some]⟩

theorem nodup_keys_entries (s : Settings) : (Entries.keys s.entries).Nodup := by
  rw [entries]
  split <;> split <;> simp [Entries.keys]

theorem get?_graphFields (s : Settings) : Entries.get? "graphFields" s.entries =
    if s.graph = {} then none
    else some (.object (s.graph.entries.map fun e => (e.1, .string e.2))) := by
  rw [entries]
  split <;> split <;> rfl

theorem get?_paging (s : Settings) : Entries.get? "paging" s.entries =
    if s.defaultLimit = defaultLimitValue then none
    else some (.single "defaultLimit" (.ofNat s.defaultLimit.toNat)) := by
  rw [entries]
  split <;> split <;> rfl

theorem get?_reservedFields (s : Settings) : Entries.get? "reservedFields" s.entries =
    some (.object (s.reserved.entries.map fun e => (e.1, .string e.2))) := by
  rw [entries]
  split <;> split <;> rfl

theorem ofSpelling?_toJson {s : Settings} {v : Spelling} (hv : s.toJson.spelling? = some v) :
    ofSpelling? v = some s := by
  have hmembers := members?_object (nodup_keys_entries s) hv
    ["version", "graphFields", "paging", "reservedFields"]
  have hversion : readMember? readVersion? none
      ((Entries.get? "version" s.entries).bind Json.spelling?) = some s.version :=
    readVersion?_ofNat s.version rfl
  -- A group that is left out was equal to what the reader takes in its place.
  have hgraph : readMember? readGraph? (some {})
      ((Entries.get? "graphFields" s.entries).bind Json.spelling?) = some s.graph := by
    rw [get?_graphFields]
    split
    next hdefault => exact congrArg some hdefault.symm
    next =>
      obtain ⟨w, hw⟩ := exists_spelling?_texts s.graph.entries
      rw [Option.bind_some, hw]
      exact readGraph?_entries s.graph hw
  have hlimit : readMember? readPaging? (some defaultLimitValue)
      ((Entries.get? "paging" s.entries).bind Json.spelling?) = some s.defaultLimit := by
    rw [get?_paging]
    split
    next hdefault => exact congrArg some hdefault.symm
    next => exact readPaging?_limit s.defaultLimit rfl
  have hreserved : readMember? readReserved? (some defaultReserved)
      ((Entries.get? "reservedFields" s.entries).bind Json.spelling?) = some s.reserved := by
    obtain ⟨w, hw⟩ := exists_spelling?_texts s.reserved.entries
    rw [get?_reservedFields, Option.bind_some, hw]
    exact readReserved?_entries s.reserved hw
  rw [ofSpelling?, hmembers]
  simp only [List.map_cons, List.map_nil, Option.bind_eq_bind, Option.bind_some, hversion, hgraph,
    hlimit, hreserved]

theorem read?_text (s : Settings) : read? s.text = some s := by
  obtain ⟨v, hv⟩ := s.exists_spelling?
  have htext : s.text = String.ofList (Json.write .indented 0 s.toJson ++ ['\n']) := by
    rw [text, Json.indented, String.ofList_append]
  rw [read?, htext, Spelling.read?_write hv, Option.bind_eq_bind, Option.bind_some,
    ofSpelling?_toJson hv]

/-- The text that the settings in a text are written back as. -/
def rewrite? (text : String) : Option String := (read? text).map Settings.text

/-- Settings come out of their text as they went in, so a configuration is given, or refused, as
before. A text that can be read is changed by the first time it is written back at most. -/
theorem survives_text :
    (∀ s : Settings, read? s.text = some s ∧
      Configuration.load (some s.text) = s.check.mapError .refused) ∧
      ∀ t : String, (rewrite? t).bind rewrite? = rewrite? t := by
  refine ⟨fun s => ⟨s.read?_text, ?_⟩, fun t => ?_⟩
  · rw [Configuration.load, read?_text]
  · rw [rewrite?]
    cases read? t with
    | none => rfl
    | some s => rw [Option.map_some, Option.bind_some, rewrite?, read?_text, Option.map_some]

end Settings

end Fonds
