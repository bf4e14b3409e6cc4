import Fonds.Proofs.Plan.Fields
import Fonds.Proofs.Plan.Printed

/-!
What the plan of a select shows of its facets: each of them, under its own name, in order and by
nothing but itself.
-/
namespace Fonds

open Store

variable {c : Configuration}

/-- The order of counts, as the store spells it. -/
def BucketOrder.rendered : BucketOrder → String
  | .ascending => "asc"
  | .descending => "desc"

/-- The ends of a range that are named. -/
def DateRange.rendered : DateRange → Json
  | .from start => .object [("from", .string start)]
  | .to stop => .object [("to", .string stop)]
  | .between start stop => .object [("from", .string start), ("to", .string stop)]

/-- What is counted over sub-documents stands at their path, under the name of the facet. -/
def FacetField.rendered (c : Configuration) (name : NonBlank) (source : FacetField)
    (counted : Json) : Json :=
  match source.nested with
  | none => counted
  | some path => .object
      [("nested", .single "path" (.string (c.mapped path))), ("aggs", .single name.text counted)]

/-- What a plan shows of a facet. -/
def Facet.rendered (c : Configuration) (facet : Facet) : Json :=
  match facet.body with
  | .terms source size _ order =>
    source.rendered c facet.name <| .single "terms" <| .object
      [("field", .string (c.mapped source.field)), ("size", .ofNat size.toNat),
        ("order", .single "_count" (.string order.rendered))]
  | .dateRange source format ranges =>
    source.rendered c facet.name <| .single "date_range" <| .object
      [("field", .string (c.mapped source.field)), ("format", .string format.text),
        ("ranges", .array (ranges.toList.map DateRange.rendered))]
  | .filters queries _ =>
    .single "filters" <| .single "filters" <| .object <|
      queries.entries.map fun e => (e.1.text, (e.2.predicate c).toJson)

theorem BucketOrder.countOrder_direction (o : BucketOrder) :
    Aggregation.countOrder o.direction = o.rendered := by
  cases o <;> rfl

theorem DateRange.toJson_toBucket (r : DateRange) : r.toBucket.toJson = r.rendered := by
  cases r <;> rfl

namespace Facet

/-- An aggregation is wrapped as its facet says. -/
theorem toJson_of_aggregate {name : NonBlank} {source : FacetField} {a b : Aggregation}
    (h : source.aggregate c name a = .ok b) : b.toJson = source.rendered c name a.toJson := by
  cases hnested : source.nested with
  | none =>
    simp only [FacetField.aggregate, hnested, Except.ok.injEq] at h
    simp only [FacetField.rendered, hnested, h]
  | some path =>
    simp only [FacetField.aggregate, hnested] at h
    simp only [FacetField.rendered, hnested]
    split at h
    next =>
      obtain rfl := Except.ok.inj h
      rw [Aggregation.toJson, Configuration.field_eq_mapped]
    next => cases h

theorem toJson_of_compileBody {facet : Facet} {a : Aggregation}
    (h : (compileBody c facet.name facet.body).outcome = .ok a) :
    a.toJson = facet.rendered c := by
  obtain ⟨name, body⟩ := facet
  cases body with
  | terms source size positive order =>
    rw [toJson_of_aggregate h, Aggregation.toJson, Configuration.field_eq_mapped,
      order.countOrder_direction, rendered]
  | dateRange source format ranges =>
    have hbuckets : ranges.toList.map (DateBucket.toJson ∘ DateRange.toBucket) =
        ranges.toList.map DateRange.rendered :=
      List.map_congr_left fun r _ => r.toJson_toBucket
    rw [toJson_of_aggregate h, Aggregation.toJson, Configuration.field_eq_mapped, List.map_map,
      hbuckets, rendered]
  | filters queries nonempty =>
    simp only [compileBody, Reported.outcome_bind, bind_eq_ok] at h
    obtain ⟨named, hnamed, hpure⟩ := h
    obtain rfl := Except.ok.inj hpure
    rw [Aggregation.toJson, compileFilters_eq hnamed, List.map_map, rendered]
    exact congrArg (fun v => Json.single "filters" (.single "filters" v))
      (Json.ofEntries_map NonBlank.text_injective queries.nodup fun q => (q.predicate c).toJson)

/-- No facet is left out, and none takes the place of another. -/
theorem toJson_of_compileAll {facets : List Facet} {named : List (String × Aggregation)}
    (h : (compileAll c facets).outcome = .ok named) :
    (named.map fun a => (a.1, a.2.toJson)) = facets.map fun f => (f.name.text, f.rendered c) := by
  induction facets generalizing named with
  | nil =>
    obtain rfl : named = [] := by simpa [compileAll, eq_comm] using h
    rfl
  | cons facet rest ih =>
    obtain ⟨first, others, hfirst, hrest, rfl⟩ := compileAll_cons_eq_ok.1 h
    rw [List.map_cons, List.map_cons, ih hrest, toJson_of_compileBody hfirst]

theorem compile_of_compileFilters {queries : List (NonBlank × Query)}
    {named : List (String × Predicate)} (h : (compileFilters c queries).outcome = .ok named) :
    ∀ e ∈ queries, (e.2.compile c).outcome = .ok (e.2.predicate c) := by
  induction queries generalizing named with
  | nil => exact fun _ he => absurd he List.not_mem_nil
  | cons first rest ih =>
    obtain ⟨p, others, hp, hrest, -⟩ := compileFilters_cons_eq_ok.1 h
    exact List.forall_mem_cons.2 ⟨Query.eq_predicate_of_compile hp ▸ hp, ih hrest⟩

theorem compile_of_compileBody {facet : Facet} {a : Aggregation}
    (h : (compileBody c facet.name facet.body).outcome = .ok a) :
    ∀ q ∈ facet.queries, (q.compile c).outcome = .ok (q.predicate c) := by
  obtain ⟨name, body⟩ := facet
  cases body with
  | filters queries nonempty =>
    simp only [compileBody, Reported.outcome_bind, bind_eq_ok] at h
    obtain ⟨named, hnamed, -⟩ := h
    exact List.forall_mem_map.2 (compile_of_compileFilters hnamed)
  | _ => exact fun _ hq => absurd hq List.not_mem_nil

theorem exists_compiled_of_mem {facets : List Facet} {named : List (String × Aggregation)}
    (h : (compileAll c facets).outcome = .ok named) :
    ∀ f ∈ facets, ∃ a, (compileBody c f.name f.body).outcome = .ok a := by
  induction facets generalizing named with
  | nil => exact fun _ hf => absurd hf List.not_mem_nil
  | cons facet rest ih =>
    obtain ⟨first, others, hfirst, hrest, -⟩ := compileAll_cons_eq_ok.1 h
    exact List.forall_mem_cons.2 ⟨⟨first, hfirst⟩, ih hrest⟩

end Facet

theorem Request.nodup_facet_names (r : Request) : (r.facets.map fun f => f.name.text).Nodup := by
  rw [facets]
  cases r.payload with
  | select projection facets =>
    change (facets.list.map (NonBlank.text ∘ Facet.name)).Nodup
    rw [← List.map_map]
    exact facets.names_nodup.map NonBlank.text_injective
  | _ => exact List.nodup_nil

/-- The plan of a select has aggregations if and only if there are facets. They are those of the
facets, by the facets' names and in their order, and each is made of its facet alone. -/
theorem Request.aggregations_of_plan {r : Request} {plan : Plan} (hkind : r.kind = .select)
    (h : r.plan c = .ok plan) :
    (plan.toJson.get? "$aggregations" =
      if r.facets = [] then none
      else some (.object (r.facets.map fun f => (f.name.text, f.rendered c)))) ∧
    (r.facets.map fun f => f.name.text).Nodup ∧
    ∀ f ∈ r.facets, (∀ q ∈ f.queries, (q.compile c).outcome = .ok (q.predicate c)) ∧
      ∀ queries nonempty, f.body = .filters queries nonempty →
        (queries.keys.map NonBlank.text).Nodup := by
  obtain ⟨s, hs, -, haggregations⟩ := select_of_plan hkind h
  have hrendered := Facet.toJson_of_compileAll haggregations
  refine ⟨?_, r.nodup_facet_names, ?_⟩
  · have hnames : (Entries.keys (r.facets.map fun f => (f.name.text, f.rendered c))).Nodup := by
      simpa [Entries.keys, Function.comp_def] using r.nodup_facet_names
    have hempty : s.aggregations.isEmpty ↔ r.facets = [] := by
      rw [List.isEmpty_iff, ← List.map_eq_nil_iff, hrendered, List.map_eq_nil_iff]
    rw [Plan.get?_toJson (by decide), hs, PlanPayload.get?_aggregations, Aggregation.allToJson,
      hrendered, Json.ofEntries, Entries.collect_of_nodup hnames]
    simp only [hempty]
  · intro f hf
    obtain ⟨a, ha⟩ := Facet.exists_compiled_of_mem haggregations f hf
    exact ⟨Facet.compile_of_compileBody ha, fun queries nonempty _ =>
      queries.nodup.map NonBlank.text_injective⟩

/-- Counts the most frequent types of addressee. -/
def Facet.addresseeTypes : Facet where
  name := ⟨"types", by decide⟩
  body := .terms
    ⟨⟨"Addressee.Type", by decide, by decide⟩, some ⟨"Addressee", by decide, by decide⟩⟩
    5 (by decide) .descending

/-- Counts the units that are maps. -/
def Facet.maps : Facet where
  name := ⟨"maps", by decide⟩
  body := .filters ⟨[(⟨"maps", by decide⟩,
    .condition (.test ⟨"Genre", by decide, by decide⟩ (.term "map") none))], by decide⟩ (by simp)

/-- Asks for all units and both counts. -/
def Request.counted : Request where
  core := { roots := .empty, steps := .empty, filter := {} }
  payload := .select {} ⟨[.addresseeTypes, .maps], by decide⟩

/-- Both counts are in the plan, with what they count over sub-documents under its own name. -/
theorem Request.aggregations_of_plan_counted :
    Request.counted.kind = .select ∧ ∃ plan, Request.counted.plan .initial = .ok plan ∧
      plan.toJson.get? "$aggregations" = some (.object
        [("types", .object
          [("nested", .single "path" (.string "Addressee")),
            ("aggs", .single "types" (.single "terms" (.object
              [("field", .string "Addressee.Type"), ("size", .ofNat 5),
                ("order", .single "_count" (.string "desc"))])))]),
          ("maps", .single "filters" (.single "filters"
            (.single "maps" (.single "Genre" (.string "map")))))]) := by
  obtain ⟨plan, hplan⟩ : ∃ plan, Request.counted.plan .initial = .ok plan := ⟨_, rfl⟩
  exact ⟨rfl, plan, hplan, (aggregations_of_plan rfl hplan).1⟩

end Fonds
