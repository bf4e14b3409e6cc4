import Fonds.Proofs.Graph.Scopes
import Fonds.Proofs.Plan.Steps
import Fonds.Proofs.Query.Meaning
import Fonds.Proofs.Query.WellFormed
import Mathlib.Data.List.Induction
import Mathlib.Data.Set.Image

/-!
Running a plan against an archive, step after step. A unit that a step matches ends a chain of
units, one for each step so far, in which every unit lies where its step's qualifier places it.
-/
namespace Fonds

open Store

variable {U : Type} {g : Archive U} {docs : Documents U} {c : Configuration}
  {ps qs : List Predicate} {p : Predicate} {u : U}

namespace Archive

/-- The units that a request matches, given those that each earlier step matched. -/
def matching (g : Archive U) (docs : Documents U) (earlier : List (Set U)) (p : Predicate) :
    Set U :=
  {u | p.Holds (g.reading docs fun i => g.id '' earlier.getD i ∅) u}

/-- The units that each of several requests matches, run in order. -/
def run (g : Archive U) (docs : Documents U) (requests : List Predicate) : List (Set U) :=
  requests.foldl (fun earlier p => earlier ++ [g.matching docs earlier p]) []

/-- The units that a step of a plan matches. -/
def matched (g : Archive U) (docs : Documents U) (core : PlanCore) (i : Nat) : Set U :=
  (g.run docs (core.steps.map PlanStep.request)).getD i ∅

theorem run_concat :
    g.run docs (ps ++ [p]) = g.run docs ps ++ [g.matching docs (g.run docs ps) p] := by
  simp [run]

theorem length_run (ps : List Predicate) : (g.run docs ps).length = ps.length := by
  induction ps using List.reverseRecOn with
  | nil => rfl
  | append_singleton ps p ih => simp [run_concat, ih]

/-- Later requests do not change what earlier ones matched. -/
theorem run_append_getElem? {i : Nat} (hi : i < ps.length) :
    (g.run docs (ps ++ qs))[i]? = (g.run docs ps)[i]? := by
  induction qs using List.reverseRecOn with
  | nil => rw [List.append_nil]
  | append_singleton qs q ih =>
    rw [← List.append_assoc, run_concat, List.getElem?_append_left, ih]
    rw [length_run, List.length_append]
    omega

theorem run_getElem? {i : Nat} (hi : ps[i]? = some p) :
    (g.run docs ps)[i]? = some (g.matching docs (g.run docs (ps.take i)) p) := by
  obtain ⟨hlt, hp⟩ := List.getElem?_eq_some_iff.1 hi
  have hlen : (ps.take i).length = i := List.length_take_of_le hlt.le
  have hsplit : ps = (ps.take i ++ [p]) ++ ps.drop (i + 1) := by
    rw [← hp, List.append_assoc, List.singleton_append, List.getElem_cons_drop,
      List.take_append_drop]
  have hstep : (g.run docs (ps.take i ++ [p]))[i]? =
      some (g.matching docs (g.run docs (ps.take i)) p) := by
    rw [run_concat, List.getElem?_append_right (by rw [length_run, hlen]), length_run, hlen]
    simp
  rw [← hstep]
  conv => lhs; rw [hsplit]
  exact run_append_getElem? (by simp [hlen])

theorem run_take_getElem? {i j : Nat} (hj : j < i) (hi : i ≤ ps.length) :
    (g.run docs (ps.take i))[j]? = (g.run docs ps)[j]? := by
  have hlt : j < (ps.take i).length := by
    rw [List.length_take_of_le hi]
    exact hj
  have h : (g.run docs (ps.take i ++ ps.drop i))[j]? = (g.run docs (ps.take i))[j]? :=
    run_append_getElem? hlt
  rw [← h, List.take_append_drop]

theorem mem_matched {core : PlanCore} {i : Nat} :
    u ∈ g.matched docs core i ↔ ∃ s, core.step i = .ok s ∧
      u ∈ g.matching docs (g.run docs ((core.steps.map PlanStep.request).take i)) s.request := by
  rw [matched, List.getD_eq_getElem?_getD]
  cases hs : core.steps[i]? with
  | none =>
    have hnone : (g.run docs (core.steps.map PlanStep.request))[i]? = none := by
      rw [List.getElem?_eq_none_iff, length_run, List.length_map]
      exact List.getElem?_eq_none_iff.1 hs
    simp [hnone, PlanCore.step_eq_ok, hs]
  | some s =>
    have hrequest : (core.steps.map PlanStep.request)[i]? = some s.request := by simp [hs]
    simp [run_getElem? hrequest, PlanCore.step_eq_ok, hs]

/-- What a step finds in place of the step before it is what that step matched. -/
theorem getD_run_take {core : PlanCore} {i : Nat} (hi : i + 1 ≤ core.steps.length) :
    (g.run docs ((core.steps.map PlanStep.request).take (i + 1))).getD i ∅ =
      g.matched docs core i := by
  rw [matched, List.getD_eq_getElem?_getD, List.getD_eq_getElem?_getD,
    run_take_getElem? (Nat.lt_succ_self i) (by simpa using hi)]

theorem members_congr {results results' : Nat → Set String} {set : IdSet}
    (h : ∀ k ∈ set.refs, results k = results' k) :
    g.members results set = g.members results' set := by
  induction set with
  | literal ids => rfl
  | step index => exact h index (by simp [IdSet.refs])
  | ancestors below levels ih => simp only [members, ih h]

/-- A predicate depends on the steps it refers to and on no others. -/
theorem holds_reading_congr {results results' : Nat → Set String}
    (h : ∀ k ∈ p.refs, results k = results' k) :
    p.Holds (g.reading docs results) u ↔ p.Holds (g.reading docs results') u := by
  refine Predicate.holds_congr p fun e he => ?_
  rw [members_congr fun k hk => h k (List.mem_flatMap.2 ⟨e, he, hk⟩)]

theorem holds_query_reading (q : Query) (results : Nat → Set String) :
    (q.predicate c).Holds (g.reading docs results) u ↔
      (q.predicate c).Holds (g.reading docs fun _ => ∅) u :=
  holds_reading_congr (by simp [q.refs_predicate])

/-- What the unit of a step owes to the unit of the step before it, or to the roots. -/
def Linked (g : Archive U) (roots : List String) (qualifier : Option Depth) (chain : Nat → U) :
    Nat → Prop
  | 0 => g.Starts roots qualifier (chain 0)
  | j + 1 => g.Places qualifier (chain j) (chain (j + 1))

/-- Units for the steps of a request up to one of them, each of which satisfies the predicate of its
step and lies where the qualifier of its step places it. -/
def IsChain (g : Archive U) (docs : Documents U) (r : Request) (core : PlanCore) (i : Nat)
    (chain : Nat → U) : Prop :=
  ∀ j ≤ i, ∃ q s, r.core.steps.queries[j]? = some q ∧ core.step j = .ok s ∧
    s.query.Holds (g.reading docs fun _ => ∅) (chain j) ∧
    g.Linked (r.core.roots.elems.map NonBlank.text) q.depth chain j

theorem linked_congr {roots : List String} {qualifier : Option Depth} {chain chain' : Nat → U}
    {j : Nat} (h : ∀ k ≤ j, chain k = chain' k) (hl : g.Linked roots qualifier chain j) :
    g.Linked roots qualifier chain' j := by
  cases j with
  | zero => simpa [Linked, h] using hl
  | succ j => simpa [Linked, h] using hl

theorem isChain_congr {r : Request} {core : PlanCore} {i : Nat} {chain chain' : Nat → U}
    (h : ∀ k ≤ i, chain k = chain' k) (hc : g.IsChain docs r core i chain) :
    g.IsChain docs r core i chain' := by
  intro j hj
  obtain ⟨q, s, hq, hs, hquery, hlink⟩ := hc j hj
  rw [h j hj] at hquery
  exact ⟨q, s, hq, hs, hquery, linked_congr (fun k hk => h k (by omega)) hlink⟩

end Archive

section Plan

variable {r : Request} {plan : Plan}

/-- A step matches the units in its scope that satisfy its predicate. -/
theorem Request.mem_matched_of_plan (h : r.plan c = .ok plan) {i : Nat} :
    u ∈ g.matched docs plan.core i ↔ ∃ q s, r.core.steps.queries[i]? = some q ∧
      plan.core.step i = .ok s ∧ s.query.Holds (g.reading docs fun _ => ∅) u ∧
      (scopeOf c plan.core.roots q i).Holds (g.reading docs fun k => g.id ''
        (g.run docs ((plan.core.steps.map PlanStep.request).take i)).getD k ∅) u := by
  have hrequest (s : PlanStep) (results : Nat → Set String) :
      s.request.Holds (g.reading docs results) u ↔
        s.scope.Holds (g.reading docs results) u ∧ s.query.Holds (g.reading docs results) u := by
    simp [PlanStep.request, Predicate.within]
  rw [Archive.mem_matched]
  constructor
  · rintro ⟨s, hs, hu⟩
    obtain ⟨q, hq, rfl⟩ := (step_of_plan h).1 hs
    obtain ⟨hscope, hquery⟩ := (hrequest _ _).1 hu
    exact ⟨q, _, hq, hs, (Archive.holds_query_reading q _).1 hquery, hscope⟩
  · rintro ⟨q, s, hq, hs, hquery, hscope⟩
    obtain ⟨q', hq', rfl⟩ := (step_of_plan h).1 hs
    obtain rfl : q = q' := Option.some.inj (hq.symm.trans hq')
    exact ⟨_, hs, (hrequest _ _).2 ⟨hscope, (Archive.holds_query_reading q _).2 hquery⟩⟩

namespace Documents.Describe

theorem holds_roots_of_plan (hd : docs.Describe c g) (h : r.plan c = .ok plan) {q : Query}
    (hq : r.core.steps.queries[0]? = some q) {results : Nat → Set String} :
    plan.core.roots.Holds (g.reading docs results) u ↔
      g.Starts (r.core.roots.elems.map NonBlank.text) q.depth u := by
  rw [(Request.plan_core h).1, List.head?_eq_getElem?, hq, hd.holds_rootScope]

/-- A later step matches around what the step before it matched. -/
theorem holds_scope_of_plan (hd : docs.Describe c g) {i : Nat} {core : PlanCore}
    (hi : i + 1 ≤ core.steps.length) {q : Query} :
    (Request.scopeOf c core.roots q (i + 1)).Holds (g.reading docs fun k => g.id ''
        (g.run docs ((core.steps.map PlanStep.request).take (i + 1))).getD k ∅) u ↔
      ∃ a ∈ g.matched docs core i, g.Places q.depth a u := by
  rw [Request.scopeOf, hd.holds_stepScope]
  simp only [Archive.members, Archive.getD_run_take hi, g.id_injective.mem_set_image]

/-- By induction on the steps: what a step matches lies around what the step before it matched, and
a chain to there is one unit longer. -/
theorem mem_matched_iff_exists_chain (hd : docs.Describe c g) (h : r.plan c = .ok plan) (i : Nat)
    (u : U) : u ∈ g.matched docs plan.core i ↔
      ∃ chain, g.IsChain docs r plan.core i chain ∧ chain i = u := by
  induction i generalizing u with
  | zero =>
    rw [Request.mem_matched_of_plan h]
    constructor
    · rintro ⟨q, s, hq, hs, hquery, hscope⟩
      refine ⟨fun _ => u, fun j hj => ?_, rfl⟩
      obtain rfl : j = 0 := by omega
      exact ⟨q, s, hq, hs, hquery, (hd.holds_roots_of_plan h hq).1 hscope⟩
    · rintro ⟨chain, hchain, rfl⟩
      obtain ⟨q, s, hq, hs, hquery, hlink⟩ := hchain 0 le_rfl
      exact ⟨q, s, hq, hs, hquery, (hd.holds_roots_of_plan h hq).2 hlink⟩
  | succ i ih =>
    rw [Request.mem_matched_of_plan h]
    constructor
    · rintro ⟨q, s, hq, hs, hquery, hscope⟩
      have hlen : i + 1 ≤ plan.core.steps.length := by
        have := (List.getElem?_eq_some_iff.1 (PlanCore.step_eq_ok.1 hs)).1
        omega
      obtain ⟨a, ha, hplace⟩ := (hd.holds_scope_of_plan hlen).1 hscope
      obtain ⟨chain, hchain, rfl⟩ := (ih a).1 ha
      have hbefore : ∀ j ≤ i, chain j = Function.update chain (i + 1) u j := by
        intro j hj
        rw [Function.update_of_ne (by omega)]
      refine ⟨Function.update chain (i + 1) u, fun j hj => ?_, Function.update_self ..⟩
      rcases Nat.le_or_eq_of_le_succ hj with hle | rfl
      · exact Archive.isChain_congr hbefore hchain j hle
      · refine ⟨q, s, hq, hs, by simpa using hquery, ?_⟩
        simpa [Archive.Linked] using hplace
    · rintro ⟨chain, hchain, rfl⟩
      obtain ⟨q, s, hq, hs, hquery, hlink⟩ := hchain (i + 1) le_rfl
      have hlen : i + 1 ≤ plan.core.steps.length := by
        have := (List.getElem?_eq_some_iff.1 (PlanCore.step_eq_ok.1 hs)).1
        omega
      have hprev : chain i ∈ g.matched docs plan.core i :=
        (ih _).2 ⟨chain, fun j hj => hchain j (by omega), rfl⟩
      exact ⟨q, s, hq, hs, hquery, (hd.holds_scope_of_plan hlen).2 ⟨_, hprev, hlink⟩⟩

/-- A plan run against documents that carry the graph data of an archive: the scope of its first
step holds the units that the first qualifier places from the roots, and a step matches a unit
exactly if a chain of units leads there, one for each step so far. Every unit of the chain satisfies
the predicate of its step, the first lies where the first qualifier places it from the roots, and
every other where its qualifier places it from the one before. -/
theorem run_of_plan (hd : docs.Describe c g) (h : r.plan c = .ok plan) :
    (∀ q, r.core.steps.queries[0]? = some q → ∀ results u,
      plan.core.roots.Holds (g.reading docs results) u ↔
        g.Starts (r.core.roots.elems.map NonBlank.text) q.depth u) ∧
    ∀ i u, u ∈ g.matched docs plan.core i ↔
      ∃ chain, g.IsChain docs r plan.core i chain ∧ chain i = u :=
  ⟨fun _ hq _ _ => hd.holds_roots_of_plan h hq, hd.mem_matched_iff_exists_chain h⟩

end Documents.Describe

/-- A file in a fonds. -/
def Archive.fileInFonds : Archive Bool where
  id isFile := if isFile then "file" else "fonds"
  IsParent p u := p = false ∧ u = true
  id_injective := by decide
  acyclic u h := by
    have hends : ∀ {a b}, Relation.TransGen (fun p u => p = false ∧ u = true) a b →
        a = false ∧ b = true := by
      intro a b hab
      induction hab with
      | single hp => exact hp
      | tail _ hp ih => exact ⟨ih.1, hp.2⟩
    obtain ⟨rfl, hfile⟩ := hends h
    exact Bool.false_ne_true hfile
  finite := inferInstance

/-- The second step finds the file, as a chain leads there from the fonds. -/
theorem run_of_plan_titledChildren :
    (Archive.fileInFonds.documents .initial Query.dated).Describe .initial .fileInFonds ∧
      ∃ plan, Request.titledChildren.plan .initial = .ok plan ∧
        true ∈ Archive.fileInFonds.matched
          (Archive.fileInFonds.documents .initial Query.dated) plan.core 1 := by
  have hd := Archive.describe_documents Configuration.fieldsApart_initial .fileInFonds Query.dated
  obtain ⟨plan, h⟩ : ∃ plan, Request.titledChildren.plan .initial = .ok plan := ⟨_, rfl⟩
  refine ⟨hd, plan, h, ((hd.run_of_plan h).2 1 true).2 ⟨fun j => j = 1, fun j hj => ?_, rfl⟩⟩
  have htitled (levels bounded) (u : Bool) :
      (Query.condition (Request.titledChildren.titled levels bounded)).Holds .initial
        (Archive.fileInFonds.reading
          (Archive.fileInFonds.documents .initial Query.dated) fun _ => ∅) u := by
    rw [Query.Holds, Request.titledChildren.titled, Condition.Holds]
    exact .inl (by decide)
  obtain rfl | rfl : j = 0 ∨ j = 1 := by omega
  · refine ⟨_, _, rfl, (Request.step_of_plan h).2 ⟨_, rfl, rfl⟩, ?_, ?_⟩
    · exact (Query.holds_predicate _).2 (htitled 0 (by decide) _)
    · exact ⟨false, by decide, .inl rfl⟩
  · refine ⟨_, _, rfl, (Request.step_of_plan h).2 ⟨_, rfl, rfl⟩, ?_, ?_⟩
    · exact (Query.holds_predicate _).2 (htitled 1 (by decide) _)
    · exact ⟨1, le_rfl, le_rfl, Archive.above_one.2 ⟨rfl, rfl⟩⟩

end Plan

end Fonds
