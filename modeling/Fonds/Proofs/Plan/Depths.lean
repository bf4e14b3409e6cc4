import Fonds.Proofs.Plan.Warnings

/-!
How deep the steps of a request lead. The depth is counted from the last step that names one, and
every step after it adds its levels. Since no step adds more than a hundred, words of 64 bits are
wide enough to count in.
-/
namespace Fonds

variable {c : Configuration} {r : Request}

namespace Query

variable {q : Query} {qs : List Query} {last d : Int}

/-- A path apart, no step leads further than a hundred levels from where the step before it ends. -/
theorem natAbs_nextDepth_le (h : q.isPath = false) :
    (q.nextDepth last).natAbs ≤ last.natAbs + maxDepth := by
  cases q with
  | path ids => simp [isPath] at h
  | condition q =>
    rw [nextDepth]
    have hone : 1 ≤ maxDepth := by decide
    split
    next level bounded _ => omega
    next levels bounded _ => omega
    next => omega

/-- What steps add up to: the levels of all of them, or of those after the last that names a depth
on top of that depth. -/
inductive AddsUpTo : List Query → Int → Prop
  | fromTop {qs : List Query} (unnamed : ∀ q ∈ qs, q.namedDepth? = none) :
    AddsUpTo qs (qs.map levels).sum
  | fromNamed (before : List Query) {q : Query} {level : Nat} (after : List Query)
      (named : q.namedDepth? = some level) (unnamed : ∀ p ∈ after, p.namedDepth? = none) :
    AddsUpTo (before ++ q :: after) (level + (after.map levels).sum)

theorem depthAfter_append_of_unnamed (before : List Query)
    (h : ∀ q ∈ qs, q.namedDepth? = none) :
    depthAfter (before ++ qs) = depthAfter before + (qs.map levels).sum := by
  induction qs using List.reverseRecOn with
  | nil => simp
  | append_singleton qs q ih =>
    obtain ⟨hqs, hq⟩ := List.forall_mem_append.1 h
    rw [← List.append_assoc, depthAfter_concat, ih hqs,
      nextDepth_of_unnamed (hq q (List.mem_singleton_self q))]
    simp
    omega

theorem AddsUpTo.concat (h : AddsUpTo qs d) (hq : q.namedDepth? = none) :
    AddsUpTo (qs ++ [q]) (d + q.levels) := by
  have hsum : ∀ l : List Query, ((l ++ [q]).map levels).sum = (l.map levels).sum + q.levels :=
    fun l => by simp
  have hlast : ∀ p ∈ [q], p.namedDepth? = none := by simpa using hq
  cases h with
  | fromTop unnamed =>
    rw [← hsum]
    exact .fromTop (List.forall_mem_append.2 ⟨unnamed, hlast⟩)
  | fromNamed before after named unnamed =>
    rw [List.append_assoc, List.cons_append, Int.add_assoc, ← hsum]
    exact .fromNamed before _ named (List.forall_mem_append.2 ⟨unnamed, hlast⟩)

theorem addsUpTo_depthAfter (qs : List Query) : AddsUpTo qs (depthAfter qs) := by
  induction qs using List.reverseRecOn with
  | nil => exact .fromTop (by simp)
  | append_singleton qs q ih =>
    rw [depthAfter_concat]
    cases hq : q.namedDepth? with
    | none =>
      rw [nextDepth_of_unnamed hq]
      exact ih.concat hq
    | some level =>
      rw [nextDepth_of_named hq, ← Int.add_zero (level : Int)]
      exact .fromNamed qs [] hq (by simp)

theorem addsUpTo_iff : AddsUpTo qs d ↔ depthAfter qs = d := by
  constructor
  · intro h
    cases h with
    | fromTop unnamed => exact (depthAfter_append_of_unnamed [] unnamed).trans (Int.zero_add _)
    | fromNamed before after named unnamed =>
      rw [List.append_cons, depthAfter_append_of_unnamed _ unnamed, depthAfter_concat,
        nextDepth_of_named named]
  · rintro rfl
    exact addsUpTo_depthAfter qs

/-- The length of the path that steps start with, if they start with one. -/
def pathLength : List Query → Nat
  | .path ids :: _ => ids.toList.length
  | _ => 0

theorem pathLength_concat (h : qs ≠ []) : pathLength (qs ++ [q]) = pathLength qs := by
  cases qs with
  | nil => exact absurd rfl h
  | cons p qs => cases p <;> rfl

theorem natAbs_depthAfter_le (hfirst : ∀ q ∈ qs.tail, q.isPath = false) :
    (depthAfter qs).natAbs ≤ pathLength qs + maxDepth * qs.length := by
  induction qs using List.reverseRecOn with
  | nil => exact Nat.zero_le _
  | append_singleton qs q ih =>
    rw [depthAfter_concat, List.length_append, List.length_singleton, Nat.mul_add, Nat.mul_one]
    by_cases hqs : qs = []
    · subst hqs
      cases q with
      | path ids => exact Nat.le_add_right _ _
      | condition q =>
        have hstep : ((condition q).nextDepth 0).natAbs ≤ 0 + maxDepth := natAbs_nextDepth_le rfl
        exact Nat.le_trans hstep (Nat.add_le_add (Nat.zero_le _) (Nat.le_add_left _ _))
    · rw [List.tail_append_of_ne_nil hqs, List.forall_mem_append] at hfirst
      have hq : q.isPath = false := hfirst.2 q (List.mem_singleton_self q)
      have hstep : (q.nextDepth (depthAfter qs)).natAbs ≤ (depthAfter qs).natAbs + maxDepth :=
        natAbs_nextDepth_le hq
      have hrest := ih hfirst.1
      rw [pathLength_concat hqs]
      omega

/-- The depth that a step reaches, in words of 64 bits: the length of a path that is too long for
such a word counts as the greatest, and sums wrap around. -/
def nextWord (last : Int64) (q : Query) : Int64 :=
  match q with
  | .path ids =>
    if ids.toList.length ≤ Int64.maxValue.toInt then .ofNat ids.toList.length else .maxValue
  | .condition q =>
    match q.qualifier with
    | some (.exact level _) => .ofNat level
    | some (.relative levels _) => last + .ofInt levels
    | none => last + 1

/-- The depth that steps reach one after the other, in words of 64 bits. -/
def wordAfter (qs : List Query) : Int64 := qs.foldl nextWord 0

theorem wordAfter_concat : wordAfter (qs ++ [q]) = q.nextWord (wordAfter qs) := by
  rw [wordAfter, List.foldl_append]
  rfl

theorem toInt_add_of_fits {a b : Int64} (hlow : -2 ^ 63 ≤ a.toInt + b.toInt)
    (hhigh : a.toInt + b.toInt < 2 ^ 63) : (a + b).toInt = a.toInt + b.toInt := by
  rw [Int64.toInt_add, Int.bmod_eq_of_le]
  · omega
  · omega

/-- A depth that fits into a word is what a step reaches in words. -/
theorem toInt_nextWord {word : Int64} (hlow : -2 ^ 63 ≤ q.nextDepth word.toInt)
    (hhigh : q.nextDepth word.toInt < 2 ^ 63) :
    (q.nextWord word).toInt = q.nextDepth word.toInt := by
  cases q with
  | path ids =>
    have hlength : (ids.toList.length : Int) < 2 ^ 63 := hhigh
    have hfits : (ids.toList.length : Int) ≤ Int64.maxValue.toInt := by
      rw [Int64.toInt_maxValue]
      omega
    rw [nextWord, if_pos hfits, Int64.toInt_ofNat_of_lt (by omega)]
    rfl
  | condition q =>
    cases hq : q.qualifier with
    | none =>
      simp only [nextDepth, nextWord, hq] at hlow hhigh ⊢
      exact toInt_add_of_fits hlow hhigh
    | some depth =>
      cases depth with
      | exact level bounded =>
        have hlevel : level < 2 ^ 63 := Nat.lt_of_le_of_lt bounded (by decide)
        simp only [nextDepth, nextWord, hq]
        exact Int64.toInt_ofNat_of_lt hlevel
      | relative levels bounded =>
        have hmax : maxDepth < 2 ^ 63 := by decide
        have hlevels : (Int64.ofInt levels).toInt = levels :=
          Int64.toInt_ofInt_of_le (by omega) (by omega)
        simp only [nextDepth, nextWord, hq] at hlow hhigh ⊢
        rw [toInt_add_of_fits (by rwa [hlevels]) (by rwa [hlevels]), hlevels]

/-- No sum wraps around while the path and a hundred levels for each step fit into a word. -/
theorem toInt_wordAfter (hfirst : ∀ q ∈ qs.tail, q.isPath = false)
    (hfits : pathLength qs + maxDepth * qs.length < 2 ^ 63) :
    (wordAfter qs).toInt = depthAfter qs := by
  induction qs using List.reverseRecOn with
  | nil => rfl
  | append_singleton qs q ih =>
    have hbound := natAbs_depthAfter_le hfirst
    rw [depthAfter_concat] at hbound ⊢
    have hword : (wordAfter qs).toInt = depthAfter qs := by
      by_cases hqs : qs = []
      · subst hqs
        rfl
      · rw [List.tail_append_of_ne_nil hqs, List.forall_mem_append] at hfirst
        rw [pathLength_concat hqs, List.length_append, Nat.mul_add] at hfits
        exact ih hfirst.1 (by omega)
    rw [wordAfter_concat, toInt_nextWord, hword]
    · rw [hword]
      omega
    · rw [hword]
      omega

theorem pathLength_take_le (qs : List Query) (i : Nat) :
    pathLength (qs.take i) ≤ pathLength qs := by
  cases i with
  | zero => exact Nat.zero_le _
  | succ i =>
    cases qs with
    | nil => exact Nat.le_refl _
    | cons q qs => cases q <;> exact Nat.le_refl _

/-- A warning is not the end of a step. -/
theorem not_stepCompiled_mem_warnings {rank : Nat} {operator : Operator} {depth : Option Depth} :
    .stepCompiled rank operator depth d ∉ q.warnings c := by
  intro h
  obtain ⟨⟨field, check⟩, _, hevent⟩ := List.mem_flatMap.1 h
  cases check <;> simp [Check.indexWarnings, Check.scanWarnings] at hevent

end Query

namespace Request

/-- The depth that is reported at the end of a step. -/
theorem stepCompiled_mem_events {rank : Nat} {operator : Operator} {depth : Option Depth}
    {d : Int} :
    .stepCompiled rank operator depth d ∈ r.events c ↔ ∃ q, r.core.steps.queries[rank]? = some q ∧
      q.heading = (operator, depth) ∧
      d = Query.depthAfter (r.core.steps.queries.take (rank + 1)) := by
  constructor
  · intro hmem
    rw [events, List.mem_cons, List.mem_append] at hmem
    rcases hmem with hstart | hstep | hfacet
    · rw [opening] at hstart
      exact absurd hstart (by simp)
    · obtain ⟨⟨q, rank'⟩, hq, hmem⟩ := List.mem_flatMap.1 hstep
      rcases List.mem_append.1 hmem with hwarning | hend
      · exact absurd hwarning Query.not_stepCompiled_mem_warnings
      · obtain ⟨rfl, rfl, rfl, rfl⟩ := Event.stepCompiled.inj (List.mem_singleton.1 hend)
        exact ⟨q, List.mem_zipIdx_iff_getElem?.1 hq, rfl, rfl⟩
    · obtain ⟨q, _, hwarning⟩ := List.mem_flatMap.1 hfacet
      exact absurd hwarning Query.not_stepCompiled_mem_warnings
  · rintro ⟨q, hq, hheading, rfl⟩
    have hmem : (q, rank) ∈ r.core.steps.queries.zipIdx := List.mem_zipIdx_iff_getElem?.2 hq
    have hevent : stepEvent r.core.steps.queries rank q = .stepCompiled rank operator depth
        (Query.depthAfter (r.core.steps.queries.take (rank + 1))) := by
      rw [stepEvent, hheading]
    exact List.mem_cons_of_mem _ (List.mem_append_left _ (List.mem_flatMap.2
      ⟨_, hmem, List.mem_append_right _ (List.mem_singleton.2 hevent.symm)⟩))

theorem compileSteps_lastDepth {roots : Store.Predicate} {rank : Nat} {last final : Int}
    {qs : List Query} {steps : List PlanStep}
    (h : (compileSteps c roots rank last qs).outcome = .ok (steps, final)) :
    final = qs.foldl (fun last q => q.nextDepth last) last := by
  induction qs generalizing rank last steps final with
  | nil =>
    simp only [compileSteps, Reported.outcome_pure, Except.ok.injEq, Prod.mk.injEq] at h
    exact h.2.symm
  | cons q rest ih =>
    simp only [compileSteps, Reported.outcome_bind, Reported.outcome_report, ok_bind, bind_eq_ok]
      at h
    obtain ⟨p, hp, ⟨others, last'⟩, hrest, hpure⟩ := h
    simp only [Reported.outcome_pure, Except.ok.injEq, Prod.mk.injEq] at hpure
    rw [← hpure.2, ih hrest, List.foldl_cons]

theorem lastDepth_of_plan {plan : Plan} (h : r.plan c = .ok plan) :
    plan.core.lastDepth = Query.depthAfter r.core.steps.queries := by
  have hcore := (compileCore_of_plan h).1
  simp only [compileCore, Reported.outcome_bind, bind_eq_ok] at hcore
  obtain ⟨⟨steps, last⟩, hsteps, hpure⟩ := hcore
  simp only [Reported.outcome_pure, Except.ok.injEq] at hpure
  rw [← hpure]
  exact (compileSteps_lastDepth hsteps).trans (Query.foldl_nextDepth [] _)

/-- The depth of a plan is what the steps of the request add up to, and the depth reported for a
step what the steps up to it do. If the path and a hundred levels for each step fit into a word, no
sum on the way wraps around. -/
theorem depths_of_compile (c : Configuration) (r : Request)
    (hfits : Query.pathLength r.core.steps.queries + 100 * r.core.steps.size < 2 ^ 63) :
    (∀ plan, r.plan c = .ok plan →
      (∀ d, plan.core.lastDepth = d ↔ Query.AddsUpTo r.core.steps.queries d) ∧
      ∀ rank < r.core.steps.size, ∃ operator depth d,
        .stepCompiled rank operator depth d ∈ (r.compile c).events) ∧
    (∀ rank operator depth d, .stepCompiled rank operator depth d ∈ (r.compile c).events →
      ∃ q, r.core.steps.queries[rank]? = some q ∧ q.heading = (operator, depth) ∧
        Query.AddsUpTo (r.core.steps.queries.take (rank + 1)) d) ∧
    ∀ i ≤ r.core.steps.size, ∃ d, Query.AddsUpTo (r.core.steps.queries.take i) d ∧
      -2 ^ 63 < d ∧ d < 2 ^ 63 ∧ (Query.wordAfter (r.core.steps.queries.take i)).toInt = d := by
  refine ⟨fun plan hplan => ⟨fun d => ?_, fun rank hrank => ?_⟩, ?_, fun i hi => ?_⟩
  · rw [lastDepth_of_plan hplan, Query.addsUpTo_iff]
  · have hq : r.core.steps.queries[rank]? = some r.core.steps.queries[rank] :=
      List.getElem?_eq_getElem hrank
    rw [events_compile_of_plan hplan]
    exact ⟨_, _, _, stepCompiled_mem_events.2 ⟨_, hq, rfl, rfl⟩⟩
  · intro rank operator depth d hmem
    obtain ⟨q, hq, hheading, hd⟩ :=
      stepCompiled_mem_events.1 ((events_compile_prefix_events c r).subset hmem)
    exact ⟨q, hq, hheading, Query.addsUpTo_iff.2 hd.symm⟩
  · have hlength : (r.core.steps.queries.take i).length = i := List.length_take_of_le hi
    have hpath := Query.pathLength_take_le r.core.steps.queries i
    have hfirst : ∀ q ∈ (r.core.steps.queries.take i).tail, q.isPath = false := fun q hq =>
      r.core.steps.path_first q ((List.take_sublist i _).tail.subset hq)
    have hword : Query.pathLength (r.core.steps.queries.take i) +
        maxDepth * (r.core.steps.queries.take i).length < 2 ^ 63 := by
      rw [hlength, maxDepth]
      omega
    have hbound := Query.natAbs_depthAfter_le hfirst
    refine ⟨_, Query.addsUpTo_depthAfter _, ?_, ?_, Query.toInt_wordAfter hfirst hword⟩
    · omega
    · omega

/-- Starts from a path, goes on at a depth that is named, a level down, and two levels up. -/
def downAndUp : Request where
  core := {
    roots := .empty
    steps := {
      queries := [
        .path ⟨⟨"letters", by decide⟩, [⟨"received", by decide⟩]⟩,
        .condition (sent (some (.exact 4 (by decide)))),
        .condition (sent none),
        .condition (sent (some (.relative (-2) (by decide))))]
      path_first := by simp [Query.isPath] }
    filter := {} }
  payload := .select {} .empty
where
  sent (qualifier : Option Depth) : Condition :=
    .test ⟨"Sender", rfl, by decide⟩ .present qualifier

/-- The path has no say in where the steps after the named depth end. -/
theorem depths_of_compile_downAndUp : ∃ plan, downAndUp.plan .initial = .ok plan ∧
    Query.pathLength downAndUp.core.steps.queries + 100 * downAndUp.core.steps.size < 2 ^ 63 ∧
    plan.core.lastDepth = 3 := by
  obtain ⟨plan, h⟩ : ∃ plan, downAndUp.plan .initial = .ok plan := ⟨_, rfl⟩
  have hfits : Query.pathLength downAndUp.core.steps.queries +
      100 * downAndUp.core.steps.size < 2 ^ 63 := by decide
  have hunnamed : ∀ q ∈ downAndUp.core.steps.queries.drop 2, q.namedDepth? = none := by
    simp [downAndUp, downAndUp.sent, Query.namedDepth?, Query.heading]
  have hnamed : (Query.condition (downAndUp.sent (some (.exact 4 (by decide))))).namedDepth? =
      some 4 := rfl
  have hsum : Query.AddsUpTo downAndUp.core.steps.queries 3 :=
    .fromNamed [_] _ hnamed hunnamed
  exact ⟨plan, h, hfits, (((depths_of_compile .initial downAndUp hfits).1 plan h).1 3).2 hsum⟩

end Request

end Fonds
