import Fonds.Proofs.Grammar.Request

/-!
The keywords of a document, object by object. An object whose keys are keywords has a vocabulary;
which objects stand in it, and what their vocabularies are, follows from the keys. Most objects of
an accepted document have no other keys.
-/
namespace Fonds

namespace Json

/-- The elements of an array. -/
def elems (v : Json) : List Json := v.asArray?.getD []

/-- The values under the keys of an object. -/
def values (v : Json) : List Json := (v.asObject?.getD []).map Prod.snd

variable {v w : Json}

theorem WellFormed.of_mem_elems (hv : v.WellFormed) (hw : w ∈ v.elems) : w.WellFormed := by
  cases v with
  | array elems => exact allWellFormed_iff.1 hv w hw
  | _ => exact absurd hw List.not_mem_nil

theorem WellFormed.of_mem_values (hv : v.WellFormed) (hw : w ∈ v.values) : w.WellFormed := by
  cases v with
  | object entries =>
    obtain ⟨e, he, rfl⟩ := List.mem_map.1 hw
    exact hv.of_mem_entries he
  | _ => exact absurd hw List.not_mem_nil

end Json

/-- What the keys of an object are keywords of. -/
inductive Vocabulary where
  | request (kind : Kind)
  | query
  /-- The bounds of a range. -/
  | bounds
  | filter (kind : Kind)
  | projection
  /-- How much of an array a projection returns. -/
  | slice
  | facet
  | facetBody (kind : FacetKind)
  | dateRange
  | namedQuery
  | action
  /-- The values that an action has for an array. -/
  | each
  deriving DecidableEq

namespace FacetKind

/-- The keys that the reader of a body looks up. Facets of named queries have no use for a field,
yet one that is given is looked at. -/
def keywords (kind : FacetKind) : List String :=
  [Keyword.field, Keyword.subobject] ++
    match kind with
    | .terms => [Keyword.size, Keyword.order]
    | .dateRange => [Keyword.format, Keyword.ranges]
    | .filters => [Keyword.queryFilters]

end FacetKind

namespace Vocabulary

variable {c d : Vocabulary} {entries found : List (String × Json)} {key : String} {v w : Json}

/-- The objects of a section, each with its vocabulary. -/
def ofSection (kind : Kind) (v : Json) : Section → List (Vocabulary × Json)
  | .query => v.oneOrMany.map (query, ·)
  | .filter => [(filter kind, v)]
  | .projection => [(projection, v)]
  | .facets => v.elems.map (facet, ·)
  | .action => v.oneOrMany.map (action, ·)
  | .roots | .data => []

/-- The objects in the operand of a query. -/
def ofOperator (v : Json) : Operator → List (Vocabulary × Json)
  | .junction _ => v.oneOrMany.map (query, ·)
  | .test .range => v.values.map (bounds, ·)
  | .test _ | .path => []

/-- The objects in the operand of an action. -/
def ofAction (v : Json) : ActionOperator → List (Vocabulary × Json)
  | .push | .add | .pull => v.values.map (each, ·)
  | _ => []

/-- The objects that an entry brings with it. -/
def members : Vocabulary → String → Json → List (Vocabulary × Json)
  | request kind, key, v => (Section.all.find? (·.token = key)).elim [] (ofSection kind v)
  | query, key, v => (Operator.ofToken? key).elim [] (ofOperator v)
  | projection, key, v => if key = Keyword.fields then v.values.map (slice, ·) else []
  | facet, key, v => (FacetKind.ofToken? key).elim [] fun kind => [(facetBody kind, v)]
  | facetBody .dateRange, key, v =>
    if key = Keyword.ranges then v.elems.map (dateRange, ·) else []
  | facetBody .filters, key, v =>
    if key = Keyword.queryFilters then v.elems.map (namedQuery, ·) else []
  | namedQuery, key, v => if key = Section.query.token then [(query, v)] else []
  | action, key, v => (ActionOperator.ofToken? key).elim [] (ofAction v)
  | facetBody .terms, _, _ | bounds, _, _ | filter _, _, _ | slice, _, _ | dateRange, _, _
  | each, _, _ => []

/-- An object with some vocabulary stands in a value, at whatever depth, or is that value. -/
inductive Occurs : Vocabulary → Json → Vocabulary → List (String × Json) → Prop
  | here {c : Vocabulary} {entries : List (String × Json)} : Occurs c (.object entries) c entries
  | member {c d e : Vocabulary} {entries found : List (String × Json)} {key : String} {v w : Json}
      (entry : (key, v) ∈ entries) (member : (d, w) ∈ c.members key v)
      (inside : Occurs d w e found) : Occurs c (.object entries) e found

/-- The keys are keywords of the vocabulary. Some objects are made of one keyword, some of one out
of several with others beside it. -/
def Admits : Vocabulary → List String → Prop
  | request kind, keys => ∀ key ∈ keys, ∃ s ∈ kind.sections, key = s.token
  | query, keys => ∃ operator : Operator, operator.token ∈ keys ∧
      ∀ key ∈ keys, key = operator.token ∨ key = Keyword.depth ∨ key = Keyword.exactDepth
  | bounds, keys => ∀ key ∈ keys, ∃ bound : BoundOperator, key = bound.token
  | filter kind, keys => ∀ key ∈ keys, ∃ k ∈ kind.filterKeywords, key = k.token
  | projection, keys => ∀ key ∈ keys, key = Keyword.fields ∨ key = Keyword.usage
  | slice, keys => keys = [Keyword.slice]
  | facet, keys => ∃ kind : FacetKind, kind.token ∈ keys ∧
      ∀ key ∈ keys, key = Keyword.name ∨ key = kind.token
  | facetBody kind, keys => ∀ key ∈ keys, key ∈ kind.keywords
  | dateRange, keys => ∀ key ∈ keys, key = Keyword.rangeFrom ∨ key = Keyword.rangeTo
  | namedQuery, keys => ∀ key ∈ keys, key = Keyword.name ∨ key = Section.query.token
  | action, keys => ∀ key ∈ keys, ∃ operator : ActionOperator, key = operator.token
  | each, keys => keys = [Keyword.each]

/-- The keys are gone through one by one, and not only looked up. -/
def IsChecked : Vocabulary → Prop
  | facetBody _ | dateRange | namedQuery => False
  | _ => True

/-- The documents whose keys are from a vocabulary. -/
def Fits : Vocabulary → Json → Prop
  | request kind => IsRequest kind
  | query => Query.IsQuery
  | bounds => Json.IsBounds
  | filter kind => IsFilter kind.filterKeywords
  | projection => IsProjection
  | slice => IsFieldProjection
  | facet => IsFacet
  | facetBody kind => fun v => ∃ entries, v = .object entries ∧ kind.Describes entries
  | dateRange => IsDateRange
  | namedQuery => IsNamedQuery
  | action => IsActionObject
  | each => IsEach

@[simp] theorem members_section (kind : Kind) (s : Section) (v : Json) :
    (request kind).members s.token v = ofSection kind v s := by
  cases s <;> rfl

@[simp] theorem members_operator (operator : Operator) (v : Json) :
    query.members operator.token v = ofOperator v operator := by
  simp [members]

@[simp] theorem members_kind (kind : FacetKind) (v : Json) :
    facet.members kind.token v = [(facetBody kind, v)] := by
  simp [members]

@[simp] theorem members_action (operator : ActionOperator) (v : Json) :
    action.members operator.token v = ofAction v operator := by
  simp [members]

theorem mem_map_pair {vs : List Json} : (d, w) ∈ vs.map (c, ·) ↔ d = c ∧ w ∈ vs := by
  simp [and_comm, eq_comm]

theorem fits_of_ofSection {kind : Kind} {s : Section} (h : s.Accepts kind v)
    (member : (d, w) ∈ ofSection kind v s) : d.Fits w := by
  cases s with
  | query =>
    obtain ⟨rfl, hw⟩ := mem_map_pair.1 member
    exact h.1 w hw
  | filter =>
    obtain ⟨rfl, rfl⟩ := Prod.mk.inj (List.mem_singleton.1 member)
    exact h
  | projection =>
    obtain ⟨rfl, rfl⟩ := Prod.mk.inj (List.mem_singleton.1 member)
    exact h
  | facets =>
    obtain ⟨elems, rfl, hforms, -⟩ := h
    obtain ⟨rfl, hw⟩ := mem_map_pair.1 member
    exact hforms w hw
  | action =>
    obtain ⟨rfl, hw⟩ := mem_map_pair.1 member
    exact h.1 w hw
  | roots => exact absurd member List.not_mem_nil
  | data => exact absurd member List.not_mem_nil

theorem fits_of_ofAction {operator : ActionOperator} (h : operator.Accepts v)
    (member : (d, w) ∈ ofAction v operator) : d.Fits w := by
  cases operator with
  | push | add | pull =>
    obtain ⟨operands, rfl, -, hforms, -⟩ := h
    obtain ⟨rfl, hw⟩ := mem_map_pair.1 member
    obtain ⟨e, he, rfl⟩ := List.mem_map.1 hw
    exact (hforms e he).2
  | _ => exact absurd member List.not_mem_nil

/-- A qualifier is a number, so there is no object in it. -/
theorem members_qualifier (h : key = Keyword.depth ∨ key = Keyword.exactDepth) :
    query.members key v = [] := by
  rcases h with rfl | rfl <;> rfl

theorem fits_of_isCondition (h : Query.IsCondition (.object entries))
    (hentries : (Entries.keys entries).Nodup) (entry : (key, v) ∈ entries)
    (member : (d, w) ∈ query.members key v) :
    (d = query ∧ Query.IsCondition w) ∨ d = bounds ∧ w.IsBounds := by
  have hkey : key ∈ Entries.keys entries := List.mem_map_of_mem entry
  cases h with
  | @test _ operator operand head accepts =>
    rcases head.known key hkey with rfl | hqualifier
    · obtain ⟨-, rfl⟩ := Prod.mk.inj (List.inj_on_of_nodup_map hentries entry head.written rfl)
      rw [members_operator] at member
      cases operator with
      | range =>
        obtain ⟨field, range, rfl, -, hrange⟩ := accepts
        obtain ⟨rfl, hw⟩ := mem_map_pair.1 member
        obtain rfl : w = range := List.mem_singleton.1 hw
        exact .inr ⟨rfl, hrange⟩
      | _ => exact absurd member List.not_mem_nil
    · exact absurd (members_qualifier hqualifier ▸ member) List.not_mem_nil
  | @group _ junction operand head nonempty conditions =>
    rcases head.known key hkey with rfl | hqualifier
    · obtain ⟨-, rfl⟩ := Prod.mk.inj (List.inj_on_of_nodup_map hentries entry head.written rfl)
      rw [members_operator] at member
      obtain ⟨rfl, hw⟩ := mem_map_pair.1 member
      exact .inl ⟨rfl, conditions w hw⟩
    · exact absurd (members_qualifier hqualifier ▸ member) List.not_mem_nil

theorem fits_of_describes {kind : FacetKind} (h : kind.Describes entries)
    (hentries : (Entries.keys entries).Nodup) (entry : (key, v) ∈ entries)
    (member : (d, w) ∈ (facetBody kind).members key v) : d.Fits w := by
  cases kind with
  | terms => exact absurd member List.not_mem_nil
  | dateRange =>
    obtain ⟨rfl, hmem⟩ := List.mem_ite_nil_right.1 member
    obtain ⟨rfl, hw⟩ := mem_map_pair.1 hmem
    obtain ⟨elems, rfl, -, hforms⟩ := ((Entries.requires_iff_allows hentries).1 h.2.2).1 v entry
    exact hforms w hw
  | filters =>
    obtain ⟨rfl, hmem⟩ := List.mem_ite_nil_right.1 member
    obtain ⟨rfl, hw⟩ := mem_map_pair.1 hmem
    obtain ⟨elems, rfl, -, hforms, -⟩ := ((Entries.requires_iff_allows hentries).1 h.2.2).1 v entry
    exact hforms w hw

/-- What stands in a document of some vocabulary is one of its own. -/
theorem fits_of_members (h : c.Fits (.object entries)) (hentries : (Entries.keys entries).Nodup)
    (entry : (key, v) ∈ entries) (member : (d, w) ∈ c.members key v) : d.Fits w := by
  cases c with
  | request kind =>
    obtain ⟨_, ⟨⟩, hall, -⟩ := h
    obtain ⟨s, -, rfl, haccepts⟩ := hall _ entry
    exact fits_of_ofSection haccepts (members_section kind s v ▸ member)
  | query =>
    rcases h with h | ⟨ids, hobject, -⟩
    · rcases fits_of_isCondition h hentries entry member with ⟨rfl, hw⟩ | ⟨rfl, hw⟩
      · exact .inl hw
      · exact hw
    · obtain rfl := Json.object.inj hobject
      obtain ⟨rfl, rfl⟩ := Prod.mk.inj (List.mem_singleton.1 entry)
      exact absurd (members_operator .path v ▸ member) List.not_mem_nil
  | projection =>
    obtain ⟨_, ⟨⟩, hall⟩ := h
    rcases hall _ entry with ⟨rfl, fields, rfl, hforms⟩ | ⟨rfl, -⟩
    · obtain ⟨rfl, hw⟩ := mem_map_pair.1 member
      obtain ⟨e, he, rfl⟩ := List.mem_map.1 hw
      exact (hforms e he).2
    · exact absurd member List.not_mem_nil
  | facet =>
    obtain ⟨_, body, kind, ⟨⟩, -, head, hdescribes⟩ := h
    rcases head.known key (List.mem_map_of_mem entry) with rfl | rfl
    · exact absurd member List.not_mem_nil
    · obtain ⟨-, rfl⟩ := Prod.mk.inj (List.inj_on_of_nodup_map hentries entry head.written rfl)
      obtain ⟨rfl, rfl⟩ := Prod.mk.inj (List.mem_singleton.1 (members_kind kind _ ▸ member))
      exact ⟨body, rfl, hdescribes⟩
  | facetBody kind =>
    obtain ⟨_, ⟨⟩, hdescribes⟩ := h
    exact fits_of_describes hdescribes hentries entry member
  | namedQuery =>
    obtain ⟨_, ⟨⟩, -, hquery⟩ := h
    obtain ⟨rfl, hmem⟩ := List.mem_ite_nil_right.1 member
    obtain ⟨rfl, rfl⟩ := Prod.mk.inj (List.mem_singleton.1 hmem)
    exact ((Entries.requires_iff_allows hentries).1 hquery).1 _ entry
  | action =>
    obtain ⟨_, ⟨⟩, hall⟩ := h
    obtain ⟨operator, rfl, haccepts⟩ := hall _ entry
    exact fits_of_ofAction haccepts (members_action operator v ▸ member)
  | bounds | filter | slice | dateRange | each => exact absurd member List.not_mem_nil

/-- Where keys are gone through one by one, they are keywords of the vocabulary. -/
theorem admits_of_fits (hc : c.IsChecked) (h : c.Fits (.object entries)) :
    c.Admits (Entries.keys entries) := by
  cases c with
  | request kind =>
    obtain ⟨_, ⟨⟩, hall, -⟩ := h
    refine List.forall_mem_map.2 fun e he => ?_
    obtain ⟨s, hs, htoken, -⟩ := hall e he
    exact ⟨s, hs, htoken⟩
  | query =>
    rcases h with (⟨head, -⟩ | ⟨head, -, -⟩) | ⟨ids, hobject, -⟩
    · exact ⟨_, List.mem_map_of_mem head.written, head.known⟩
    · exact ⟨_, List.mem_map_of_mem head.written, head.known⟩
    · obtain rfl := Json.object.inj hobject
      exact ⟨.path, List.mem_singleton_self _, fun _ hkey => .inl (List.mem_singleton.1 hkey)⟩
  | bounds =>
    obtain ⟨_, ⟨⟩, -, hall, -⟩ := h
    exact List.forall_mem_map.2 fun e he => (hall e he).1
  | filter kind =>
    obtain ⟨_, ⟨⟩, hall, -⟩ := h
    refine List.forall_mem_map.2 fun e he => ?_
    obtain ⟨k, hk, htoken, -⟩ := hall e he
    exact ⟨k, hk, htoken⟩
  | projection =>
    obtain ⟨_, ⟨⟩, hall⟩ := h
    exact List.forall_mem_map.2 fun e he => (hall e he).imp And.left And.left
  | slice =>
    rcases h with ⟨n, hobject⟩ | ⟨b, hobject⟩ | ⟨slice, hobject, -⟩
    · exact absurd hobject (by simp)
    · exact absurd hobject (by simp)
    · obtain rfl := Json.object.inj hobject
      rfl
  | facet =>
    obtain ⟨_, body, kind, ⟨⟩, -, head, -⟩ := h
    exact ⟨kind, List.mem_map_of_mem head.written, head.known⟩
  | action =>
    obtain ⟨_, ⟨⟩, hall⟩ := h
    refine List.forall_mem_map.2 fun e he => ?_
    obtain ⟨operator, htoken, -⟩ := hall e he
    exact ⟨operator, htoken⟩
  | each =>
    obtain ⟨values, hobject, -⟩ := h
    obtain rfl := Json.object.inj hobject
    rfl
  | facetBody | dateRange | namedQuery => exact hc.elim

theorem mem_elim {α β : Type} {o : Option α} {f : α → List β} {b : β} :
    b ∈ o.elim [] f ↔ ∃ a, o = some a ∧ b ∈ f a := by
  cases o <;> simp

/-- A member is the value itself, or one of its elements or values. -/
theorem mem_of_members (member : (d, w) ∈ c.members key v) :
    w = v ∨ w ∈ v.oneOrMany ∨ w ∈ v.elems ∨ w ∈ v.values := by
  cases c with
  | request kind =>
    obtain ⟨s, -, hmem⟩ := mem_elim.1 member
    cases s <;> grind [ofSection]
  | query =>
    obtain ⟨operator, -, hmem⟩ := mem_elim.1 member
    cases operator with
    | test operator => cases operator <;> grind [ofOperator]
    | _ => grind [ofOperator]
  | facet =>
    obtain ⟨kind, -, hmem⟩ := mem_elim.1 member
    grind
  | facetBody kind => cases kind <;> grind [members]
  | action =>
    obtain ⟨operator, -, hmem⟩ := mem_elim.1 member
    cases operator <;> grind [ofAction]
  | _ => grind [members]

theorem wellFormed_of_members (hv : v.WellFormed) (member : (d, w) ∈ c.members key v) :
    w.WellFormed := by
  rcases mem_of_members member with rfl | hw | hw | hw
  · exact hv
  · exact hv.of_mem_oneOrMany hw
  · exact hv.of_mem_elems hw
  · exact hv.of_mem_values hw

theorem Occurs.wellFormed (h : Occurs c v d found) (hv : v.WellFormed) :
    (Json.object found).WellFormed := by
  induction h with
  | here => exact hv
  | member entry member inside ih =>
    exact ih (wellFormed_of_members (hv.of_mem_entries entry) member)

/-- What stands in a document of some vocabulary at whatever depth is one of its own. -/
theorem Occurs.fits (h : Occurs c v d found) (hv : v.WellFormed)
    (hfits : c.Fits v) : d.Fits (.object found) := by
  induction h with
  | here => exact hfits
  | member entry member inside ih =>
    have hmember := wellFormed_of_members (hv.of_mem_entries entry) member
    exact ih hmember (fits_of_members hfits hv.1 entry member)

end Vocabulary

end Fonds
