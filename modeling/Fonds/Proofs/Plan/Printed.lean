import Fonds.Proofs.Json.WellFormed
import Fonds.Proofs.Plan.Steps
import Fonds.Proofs.RoundTrip.Shape

/-! What the plan of a select shows under the keys of its own kind. -/
namespace Fonds

open Store

variable {c : Configuration} {r : Request} {plan : Plan} {key : String}

theorem Entries.get?_append_of_not_mem {κ α : Type} [DecidableEq κ] {k : κ} {xs ys : List (κ × α)}
    (h : k ∉ keys xs) : get? k (xs ++ ys) = get? k ys := by
  induction xs with
  | nil => rfl
  | cons e xs ih =>
    rw [keys_cons, List.mem_cons, not_or] at h
    rw [List.cons_append, get?, if_neg (Ne.symm h.1), ih h.2]

/-- The keys that plans of every kind have. -/
def Plan.commonKeys : List String :=
  ["$kind", "$roots", "$steps", "$lastDepth", "$multiple", "$fullText", "$hints"]

theorem Plan.get?_toJson (hkey : key ∉ commonKeys) :
    plan.toJson.get? key = Entries.get? key plan.payload.entries := by
  have hcommon : key ∉ Entries.keys (("$kind", Json.string plan.kind.name) :: plan.core.entries) :=
    hkey
  rw [Json.get?, toJson, ← List.cons_append]
  exact Entries.get?_append_of_not_mem hcommon

/-- The plan of a select sorts as its filter asks and has the aggregations of its facets. -/
theorem Request.select_of_plan (hkind : r.kind = .select) (h : r.plan c = .ok plan) :
    ∃ s : SelectPlan, plan.payload = .select s ∧ s.order = r.core.filter.sortKeys c ∧
      (Facet.compileAll c r.facets).outcome = .ok s.aggregations := by
  have hpayload := (compileCore_of_plan h).2
  rw [kind] at hkind
  rw [facets]
  cases hr : r.payload with
  | select projection facets =>
    simp only [hr, compilePayload, Reported.outcome_bind, bind_eq_ok] at hpayload
    obtain ⟨named, hnamed, hpure⟩ := hpayload
    simp only [Reported.outcome_pure, Except.ok.injEq] at hpure
    exact ⟨_, hpure.symm, rfl, hnamed⟩
  | _ => simp [hr, Payload.kind] at hkind

theorem PlanPayload.get?_orderBy (s : SelectPlan) :
    Entries.get? "$orderby" (PlanPayload.select s).entries = some (SortKey.allToJson s.order) :=
  rfl

theorem PlanPayload.get?_aggregations (s : SelectPlan) :
    Entries.get? "$aggregations" (PlanPayload.select s).entries =
      if s.aggregations.isEmpty then none else some (Aggregation.allToJson s.aggregations) := by
  rw [entries]
  cases s.usage <;> cases s.aggregations <;> rfl

end Fonds
