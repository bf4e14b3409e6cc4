import Fonds.Proofs.Grammar.Filter
import Fonds.Proofs.Json.WellFormed
import Fonds.Proofs.Ordered.Collected
import Fonds.Proofs.Plan.Printed

/-!
The order that a select asks for and the order that its plan asks the store for. The fields come in
the order in which the request names them; but where several names stand for one field, the last of
them gives the direction, though the first gives the place.
-/
namespace Fonds

open Store

/-- How an ordering turns out in a direction. -/
def Direction.orient : Direction → Ordering → Ordering
  | .ascending, o => o
  | .descending, o => o.swap

namespace Store

/-- How two documents compare by fields with directions, if they compare like this in each field:
the first field in which they differ decides. -/
def compareBy (inField : String → Ordering) (keys : List (String × Direction)) : Ordering :=
  match keys.find? fun k => inField k.1 ≠ .eq with
  | some k => k.2.orient (inField k.1)
  | none => .eq

/-- The object of fields with directions, one for ascending and minus one for descending. -/
def sortObject (keys : List (String × Direction)) : Json :=
  .object (keys.map fun k => (k.1, match k.2 with
    | .ascending => .ofInt 1
    | .descending => .ofInt (-1)))

theorem sortObject_eq (keys : List (String × Direction)) :
    sortObject keys = .object (keys.map fun k => (k.1, .ofInt k.2.number)) := by
  refine congrArg Json.object (List.map_congr_left ?_)
  rintro ⟨field, direction⟩ -
  cases direction <;> rfl

end Store

section Comparing

variable {a b : List (String × Direction)}

/-- The first entry whose key has a property is the first of its key. -/
theorem Entries.get?_of_find? {κ α : Type} [DecidableEq κ] {p : κ → Bool} {entries : List (κ × α)}
    {e : κ × α} (h : entries.find? (p ·.1) = some e) : get? e.1 entries = some e.2 := by
  have hp : p e.1 = true := List.find?_some (p := fun x : κ × α => p x.1) h
  induction entries with
  | nil => exact absurd h (by simp)
  | cons first rest ih =>
    rw [List.find?_cons] at h
    split at h
    next =>
      obtain rfl := Option.some.inj h
      rw [get?, if_pos rfl]
    next hfirst =>
      have hne : first.1 ≠ e.1 := by
        intro heq
        rw [heq, hp] at hfirst
        exact absurd hfirst (by decide)
      rw [get?, if_neg hne, ih h]

/-- What decides is the first field in which the documents differ, in its first direction. -/
theorem compareBy_eq (inField : String → Ordering) (keys : List (String × Direction)) :
    compareBy inField keys =
      (((Entries.keys keys).find? fun f => inField f ≠ .eq).bind fun f =>
        (Entries.get? f keys).map fun d => d.orient (inField f)).getD .eq := by
  rw [compareBy, Entries.keys, List.find?_map]
  change _ = (((keys.find? fun k => inField k.1 ≠ .eq).map Prod.fst).bind _).getD Ordering.eq
  cases hfound : keys.find? fun k => inField k.1 ≠ .eq with
  | none => rfl
  | some k =>
    have hget := Entries.get?_of_find? (p := fun f => inField f ≠ .eq) hfound
    simp [hget]

/-- How two documents compare that differ in one field only. -/
def differIn (field : String) : String → Ordering := fun f => if f = field then .lt else .eq

/-- Such documents show the direction of the field. -/
theorem compareBy_differIn (field : String) (keys : List (String × Direction)) :
    compareBy (differIn field) keys =
      ((Entries.get? field keys).map fun d => d.orient .lt).getD .eq := by
  rw [compareBy_eq]
  cases hfound : (Entries.keys keys).find? fun f => differIn field f ≠ .eq with
  | none =>
    have hnot : field ∉ Entries.keys keys := fun hmem =>
      absurd (List.find?_eq_none.1 hfound field hmem) (by simp [differIn])
    rw [Entries.get?_eq_none hnot]
    rfl
  | some f =>
    have hf : f = field := by simpa [differIn] using List.find?_some hfound
    simp [hf, differIn]

theorem orient_lt_injective :
    Function.Injective fun o : Option Direction => (o.map fun d => d.orient .lt).getD .eq := by
  rintro (_ | _ | _) (_ | _ | _) h <;> first | rfl | cases h

/-- Keys with the same fields in the same order compare all documents alike if and only if each
field has the same direction where it comes first. -/
theorem compareBy_eq_iff
    (hfields : (Entries.keys a).eraseDups = (Entries.keys b).eraseDups) :
    (∀ inField, compareBy inField a = compareBy inField b) ↔
      ∀ field, Entries.get? field a = Entries.get? field b := by
  constructor
  · intro h field
    apply orient_lt_injective
    have hfield := h (differIn field)
    rwa [compareBy_differIn, compareBy_differIn] at hfield
  · intro h inField
    rw [compareBy_eq, compareBy_eq, ← Entries.find?_eraseDups, hfields, Entries.find?_eraseDups]
    simp only [h]

end Comparing

theorem Direction.eq_number_of_ofNumber {field : String} {n : Int} {d : Direction}
    (h : ofNumber field n = .ok d) : n = d.number := by
  rw [ofNumber] at h
  split at h
  next hn =>
    obtain rfl := Except.ok.inj h
    exact hn
  next =>
    split at h
    next hn =>
      obtain rfl := Except.ok.inj h
      exact hn
    next => exact absurd h (by simp)

namespace Filter

variable {allowed : List FilterKeyword} {entries : List (String × Json)} {v : Json} {f f' : Filter}
  {keys keys' : Keys}

/-- The names by which a filter document asks for results to be sorted, in the order written. Names
lose the blanks at their ends. A document that does not say asks for none. -/
def AsksOrder (v : Json) (named : List (Name × Direction)) : Prop :=
  ∃ written : List (String × Direction),
    (v.get? "$orderby").getD (sortObject []) = sortObject written ∧
    named.map (fun e => (e.1.text, e.2)) = written.map fun e => (Text.trim e.1, e.2)

/-- Each entry of an order is inserted in turn. -/
theorem insertAll_of_readOrderBy (h : entries.foldlM readOrderBy f = .ok f') :
    ∃ (written : List (String × Direction)) (named : List (Name × Direction)),
      Json.object entries = sortObject written ∧
      named.map (fun e => (e.1.text, e.2)) = written.map (fun e => (Text.trim e.1, e.2)) ∧
      f'.orderBy.entries = Entries.insertAll f.orderBy.entries named := by
  induction entries generalizing f with
  | nil =>
    obtain rfl := Except.ok.inj h
    exact ⟨[], [], rfl, rfl, rfl⟩
  | cons e rest ih =>
    obtain ⟨next, hnext, hrest⟩ := foldlM_cons_eq_ok.1 h
    simp only [readOrderBy, addOrderBy, bind_eq_ok, Json.expectInt64_eq_ok_iff] at hnext
    obtain ⟨n, hn, d, hd, name, hname, hnext⟩ := hnext
    obtain rfl := Except.ok.inj hnext
    obtain ⟨written, named, hwritten, hnamed, horder⟩ := ih hrest
    refine ⟨(e.1, d) :: written, (name, d) :: named, ?_, ?_, horder⟩
    · rw [sortObject_eq] at hwritten ⊢
      rw [List.map_cons, ← Json.object.inj hwritten, ← Direction.eq_number_of_ofNumber hd, ← hn]
    · rw [List.map_cons, List.map_cons, hnamed, Name.text_of_build hname]

/-- Reading a filter takes in the order that its document asks for. -/
theorem orderBy_of_readEntries (hentries : (Entries.keys entries).Nodup)
    (h : entries.foldlM (readEntry allowed) keys = .ok keys') :
    ∃ named, AsksOrder (.object entries) named ∧
      keys'.filter.orderBy.entries = Entries.insertAll keys.filter.orderBy.entries named := by
  have htoken : FilterKeyword.orderBy.token = "$orderby" := rfl
  induction entries generalizing keys with
  | nil =>
    obtain rfl : keys = keys' := Except.ok.inj h
    exact ⟨[], ⟨[], rfl, rfl⟩, rfl⟩
  | cons e rest ih =>
    obtain ⟨key, w⟩ := e
    obtain ⟨hfirst, hrest⟩ := List.nodup_cons.1 hentries
    obtain ⟨keys₁, hstep, hafter⟩ := foldlM_cons_eq_ok.1 h
    obtain ⟨k, -, rfl, hshows⟩ := readEntry_eq_ok_iff.1 hstep
    obtain ⟨named, ⟨written, hwritten, hnamed⟩, horder⟩ := ih hrest hafter
    rw [Json.get?, Json.asObject?, Option.bind_some] at hwritten
    by_cases hk : k = .orderBy
    · -- No other keyword has a say, so nothing is left to be asked for.
      subst hk
      rw [← htoken, Entries.get?_eq_none hfirst, Option.getD_none] at hwritten
      obtain rfl := List.map_eq_nil_iff.1 (Json.object.inj hwritten).symm
      obtain rfl := List.map_eq_nil_iff.1 hnamed
      cases hshows with
      | orderBy es orderBy read =>
        have hread := read keys.filter rfl
        obtain ⟨written, named, hes, hnamed, hall⟩ := insertAll_of_readOrderBy hread
        refine ⟨named, ⟨written, ?_, hnamed⟩, horder.trans hall⟩
        rw [Json.get?, Json.asObject?, Option.bind_some, Entries.get?, if_pos htoken,
          Option.getD_some, hes]
    · have horder₁ : keys₁.filter.orderBy = keys.filter.orderBy := by
        cases hshows with
        | orderBy => exact absurd rfl hk
        | _ => rfl
      have hkey : k.token ≠ "$orderby" := fun heq =>
        hk (FilterKeyword.token_injective (heq.trans htoken.symm))
      refine ⟨named, ⟨written, ?_, hnamed⟩, horder₁ ▸ horder⟩
      rw [Json.get?, Json.asObject?, Option.bind_some, Entries.get?, if_neg hkey, hwritten]

theorem orderBy_of_ofKeys (h : ofKeys keys = .ok f) : f.orderBy = keys.filter.orderBy := by
  rw [ofKeys] at h
  split at h
  · obtain ⟨id, -, h⟩ := bind_eq_ok.1 h
    obtain rfl := Except.ok.inj h
    rfl
  · exact absurd h (by simp)
  · obtain rfl := Except.ok.inj h
    rfl

theorem orderBy_of_read (hv : v.WellFormed) (h : read allowed v = .ok f) :
    ∃ named, AsksOrder v named ∧ f.orderBy.entries = Entries.collect named := by
  simp only [read, bind_eq_ok, Json.expectObject_eq_ok_iff] at h
  obtain ⟨entries, rfl, keys, hkeys, hf⟩ := h
  rw [orderBy_of_ofKeys hf]
  exact orderBy_of_readEntries hv.1 hkeys

end Filter

section Fields

variable {c : Configuration} {named : List (Name × Direction)} {field : String}

namespace Configuration

/-- The fields that names stand for, with the directions that are asked for. -/
def asked (c : Configuration) (named : List (Name × Direction)) : List (String × Direction) :=
  named.map fun e => (c.mapped e.1, e.2)

/-- The direction of a field in a plan: of the names that stand for it the last to come up has its
way, and of the directions of that name the last. -/
def settled (c : Configuration) (named : List (Name × Direction)) (field : String) :
    Option Direction :=
  (((Entries.keys named).eraseDups.filter (c.mapped · = field)).getLast?).bind fun name =>
    ((named.filter (·.1 = name)).getLast?).map Prod.snd

/-- The fields and directions that a plan sorts by, for names that were taken in one by one. -/
def sorted (c : Configuration) (named : List (Name × Direction)) : List (String × Direction) :=
  Entries.collect (c.asked (Entries.collect named))

/-- The sort of a plan is written as it stands. -/
theorem toJson_sortKeys {f : Filter} (h : f.orderBy.entries = Entries.collect named) :
    SortKey.allToJson (f.sortKeys c) = sortObject (c.sorted named) := by
  have hkeys : (f.sortKeys c).map (fun k => (k.field, Json.ofInt k.direction.number)) =
      (c.asked (Entries.collect named)).map fun e => (e.1, Json.ofInt e.2.number) := by
    simp [Filter.sortKeys, asked, h, field_eq_mapped]
  rw [SortKey.allToJson, hkeys, Json.ofEntries,
    Entries.collect_map fun d : Direction => Json.ofInt d.number, sortObject_eq]
  rfl

theorem keys_asked : Entries.keys (c.asked named) = (Entries.keys named).map c.mapped := by
  simp [asked, Entries.keys]

/-- Every field stands where it is asked for first. -/
theorem keys_sorted : Entries.keys (c.sorted named) = (Entries.keys (c.asked named)).eraseDups := by
  rw [sorted, Entries.keys_collect, keys_asked, Entries.keys_collect,
    Entries.eraseDups_map_eraseDups, keys_asked]

theorem get?_sorted : Entries.get? field (c.sorted named) = c.settled named field := by
  have hnames : (Entries.keys named).eraseDups.filter (c.mapped · = field) =
      ((Entries.collect named).filter (c.mapped ·.1 = field)).map Prod.fst := by
    rw [← Entries.keys_collect, Entries.keys, List.filter_map]
    rfl
  rw [sorted, Entries.get?_collect, asked, List.filter_map, List.getLast?_map, settled, hnames,
    List.getLast?_map]
  change Option.map Prod.snd (Option.map _
    ((Entries.collect named).filter (c.mapped ·.1 = field)).getLast?) = _
  cases hlast : ((Entries.collect named).filter (c.mapped ·.1 = field)).getLast? with
  | none => rfl
  | some e =>
    have he : e ∈ Entries.collect named := (List.mem_filter.1 (List.mem_of_getLast? hlast)).1
    have hget := (Entries.get?_eq_some_iff (Entries.nodup_keys_collect named)).2 he
    rw [Entries.get?_collect] at hget
    exact hget.symm

theorem mem_asked_of_mem_sorted {e : String × Direction} (he : e ∈ c.sorted named) :
    e ∈ c.asked named := by
  obtain ⟨x, hx, rfl⟩ := List.mem_map.1 (Entries.mem_of_mem_collect he)
  exact List.mem_map_of_mem (Entries.mem_of_mem_collect hx)

/-- Where all names of a field ask for one direction, this is the one that is settled. -/
theorem settled_eq_of_agree
    (h : ∀ e ∈ c.asked named, ∀ e' ∈ c.asked named, e.1 = e'.1 → e.2 = e'.2) (field : String) :
    c.settled named field = Entries.get? field (c.asked named) := by
  have hnodup : (Entries.keys (c.sorted named)).Nodup := Entries.nodup_keys_collect _
  rw [← get?_sorted]
  cases hsorted : Entries.get? field (c.sorted named) with
  | none =>
    have hnot : field ∉ Entries.keys (c.asked named) := by
      rw [← List.mem_eraseDups, ← keys_sorted, ← Entries.isSome_get?_iff, hsorted]
      simp
    rw [Entries.get?_eq_none hnot]
  | some d =>
    have hd := mem_asked_of_mem_sorted ((Entries.get?_eq_some_iff hnodup).1 hsorted)
    have hmem : field ∈ Entries.keys (c.asked named) := List.mem_map_of_mem (f := Prod.fst) hd
    obtain ⟨d', hd'⟩ := Option.isSome_iff_exists.1 (Entries.isSome_get?_iff.2 hmem)
    rw [hd']
    exact congrArg some (h _ hd _ (Entries.mem_of_get? hd') rfl)

end Configuration

/-- The sort of a select's plan, against the order that its filter document asks for. The plan has
the fields in the order in which the document comes to them, each with the direction that is settled
for it. It compares all documents as asked if and only if that is, for every field, the direction of
the name that stands for the field first; and so it does if no two names of a field disagree. -/
theorem Request.sorts_as_asked_iff {r : Request} {plan : Plan} {v : Json} (hv : v.WellFormed)
    (hread : Filter.read Kind.select.filterKeywords v = .ok r.core.filter)
    (hkind : r.kind = .select) (h : r.plan c = .ok plan) :
    ∃ named sorted, Filter.AsksOrder v named ∧
      plan.toJson.get? "$orderby" = some (sortObject sorted) ∧
      Entries.keys sorted = (Entries.keys (c.asked named)).eraseDups ∧
      (∀ field, Entries.get? field sorted = c.settled named field) ∧
      ((∀ inField, compareBy inField sorted = compareBy inField (c.asked named)) ↔
        ∀ field, c.settled named field = Entries.get? field (c.asked named)) ∧
      ((∀ e ∈ c.asked named, ∀ e' ∈ c.asked named, e.1 = e'.1 → e.2 = e'.2) →
        ∀ inField, compareBy inField sorted = compareBy inField (c.asked named)) := by
  obtain ⟨named, hasks, hnamed⟩ := Filter.orderBy_of_read hv hread
  obtain ⟨s, hs, horder, -⟩ := select_of_plan hkind h
  have hrendered : plan.toJson.get? "$orderby" = some (sortObject (c.sorted named)) := by
    rw [Plan.get?_toJson (by decide), hs, PlanPayload.get?_orderBy, horder]
    exact congrArg some (Configuration.toJson_sortKeys hnamed)
  have hmeans : (∀ inField, compareBy inField (c.sorted named) =
      compareBy inField (c.asked named)) ↔
      ∀ field, c.settled named field = Entries.get? field (c.asked named) := by
    simp only [← Configuration.get?_sorted]
    apply compareBy_eq_iff
    rw [Configuration.keys_sorted, Entries.eraseDups_eraseDups]
  exact ⟨named, c.sorted named, hasks, hrendered, Configuration.keys_sorted,
    fun _ => Configuration.get?_sorted, hmeans,
    fun hagree => hmeans.2 (Configuration.settled_eq_of_agree hagree)⟩

/-- Asks for all units, with a filter. -/
def Request.filtered (f : Filter) : Request where
  core := { roots := .empty, steps := .empty, filter := f }
  payload := .select {} .empty

/-- Sorts by title and, from the last to the first, by identifier. -/
def Filter.titleThenId : Json :=
  .single "$orderby" (.object [("Title", .ofInt 1), ("#id", .ofInt (-1))])

theorem Filter.wellFormed_titleThenId : titleThenId.WellFormed := by
  have hfields : "Title" ≠ "#id" := by decide
  simp [titleThenId, Json.single, Json.ofInt, Json.WellFormed, Json.EntriesWellFormed, hfields]

/-- The document is read and its request has a plan, which sorts as it is asked to. -/
theorem Request.sorts_as_asked_titleThenId : Filter.titleThenId.WellFormed ∧ ∃ f plan,
    Filter.read Kind.select.filterKeywords Filter.titleThenId = .ok f ∧
    (Request.filtered f).kind = .select ∧ (Request.filtered f).plan .initial = .ok plan ∧
    ∃ named sorted, Filter.AsksOrder Filter.titleThenId named ∧
      plan.toJson.get? "$orderby" = some (sortObject sorted) ∧
      ((∀ inField, compareBy inField sorted =
          compareBy inField (Configuration.initial.asked named)) ↔
        ∀ field, Configuration.initial.settled named field =
          Entries.get? field (Configuration.initial.asked named)) := by
  have hv := Filter.wellFormed_titleThenId
  obtain ⟨f, hf⟩ : ∃ f, Filter.read Kind.select.filterKeywords Filter.titleThenId = .ok f :=
    ⟨_, rfl⟩
  obtain ⟨plan, hplan⟩ : ∃ plan, (Request.filtered f).plan .initial = .ok plan := ⟨_, rfl⟩
  obtain ⟨named, sorted, hasks, hsorted, -, -, hiff, -⟩ :=
    sorts_as_asked_iff (r := Request.filtered f) hv hf rfl hplan
  exact ⟨hv, f, plan, hf, rfl, hplan, named, sorted, hasks, hsorted, hiff⟩

/-- Sorts by two names of the identifier, first to last and last to first. -/
def Filter.idBothWays : Json :=
  .single "$orderby" (.object [("#id", .ofInt 1), ("_id", .ofInt (-1))])

/-- What is to come first by the name given first comes last. -/
theorem Request.idBothWays_reversed : ∃ f plan,
    Filter.read Kind.select.filterKeywords Filter.idBothWays = .ok f ∧
    (Request.filtered f).plan .initial = .ok plan ∧
    plan.toJson.get? "$orderby" = some (sortObject [("_id", .descending)]) ∧
    ∃ named, Filter.AsksOrder Filter.idBothWays named ∧
      compareBy (differIn "_id") (Configuration.initial.asked named) = .lt ∧
      compareBy (differIn "_id") [("_id", .descending)] = .gt := by
  refine ⟨_, _, rfl, rfl, rfl, [(⟨"#id", by decide, by decide⟩, .ascending),
    (⟨"_id", by decide, by decide⟩, .descending)],
    ⟨[("#id", .ascending), ("_id", .descending)], rfl, ?_⟩, ?_, ?_⟩ <;> decide

end Fields

end Fonds
