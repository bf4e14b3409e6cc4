import Fonds.Plan.Scope
import Mathlib.Algebra.Group.Nat.Defs
import Mathlib.Algebra.Ring.Int.Defs
import Mathlib.Data.List.Induction

/-!
How deep steps lead. Looking back from the end, the levels of the steps count up to the last step
that names a depth, and that depth counts in addition.
-/
namespace Fonds

/-- The operator that a test is written with. -/
def Check.heading : Check → TestOperator
  | .size _ _ => .size
  | .compare comparison _ => .compare comparison
  | .range _ => .range
  | .term _ => .term
  | .regex _ _ => .regex
  | .oneOf _ => .oneOf
  | .noneOf _ => .noneOf
  | .present => .present
  | .absent => .absent
  | .isNull => .isNull

theorem Check.heading_eq (check : Check) : check.heading = check.operator := by
  cases check <;> rfl

namespace Query

variable {q : Query} {qs : List Query} {last : Int}

/-- The operator that a step is written with, and its qualifier. -/
def heading : Query → Operator × Option Depth
  | .path _ => (.path, none)
  | .condition (.test _ check qualifier) => (.test check.heading, qualifier)
  | .condition (.group junction _ _ qualifier) => (.junction junction, qualifier)

theorem heading_eq (q : Query) : q.heading = (q.operator, q.depth) := by
  cases q with
  | path ids => rfl
  | condition q =>
    cases q with
    | test field check qualifier => rw [heading, check.heading_eq]; rfl
    | group junction first rest qualifier => rfl

/-- The depth that a step names, whatever was reached before it: a path is as deep as it is long. -/
def namedDepth? : Query → Option Nat
  | .path ids => some ids.toList.length
  | .condition q =>
    match (condition q).heading.2 with
    | some (.exact level _) => some level
    | _ => none

/-- The levels that any other step adds, one if it does not say how many. -/
def levels (q : Query) : Int :=
  match q.heading.2 with
  | some (.relative levels _) => levels
  | _ => 1

/-- The depth that steps lead to, one after the other. -/
def depthAfter (qs : List Query) : Int :=
  ((qs.reverse.findSome? namedDepth?).getD 0 : Nat) +
    ((qs.reverse.takeWhile fun q => q.namedDepth? = none).map levels).sum

theorem nextDepth_of_named {level : Nat} (h : q.namedDepth? = some level) :
    q.nextDepth last = level := by
  cases q with
  | path ids =>
    obtain rfl : ids.toList.length = level := Option.some.inj h
    rfl
  | condition q =>
    rw [namedDepth?, heading_eq, depth] at h
    rw [nextDepth]
    cases hq : q.qualifier with
    | none => simp [hq] at h
    | some depth =>
      cases depth with
      | relative levels bounded => simp [hq] at h
      | exact level' bounded =>
        obtain rfl : level' = level := by simpa [hq] using h
        rfl

theorem nextDepth_of_unnamed (h : q.namedDepth? = none) : q.nextDepth last = last + q.levels := by
  cases q with
  | path ids => simp [namedDepth?] at h
  | condition q =>
    rw [namedDepth?, heading_eq, depth] at h
    rw [nextDepth, levels, heading_eq, depth]
    cases hq : q.qualifier with
    | none => rfl
    | some depth =>
      cases depth with
      | relative levels bounded => rfl
      | exact level bounded => simp [hq] at h

/-- Each step takes up where the steps before it have led. -/
theorem depthAfter_concat : depthAfter (qs ++ [q]) = q.nextDepth (depthAfter qs) := by
  rw [depthAfter, List.reverse_concat, List.findSome?_cons, List.takeWhile_cons]
  cases hq : q.namedDepth? with
  | none =>
    rw [nextDepth_of_unnamed hq, depthAfter]
    simp
    omega
  | some level =>
    rw [nextDepth_of_named hq]
    simp

theorem foldl_nextDepth (before qs : List Query) :
    qs.foldl (fun last q => q.nextDepth last) (depthAfter before) = depthAfter (before ++ qs) := by
  induction qs generalizing before with
  | nil => rw [List.append_nil, List.foldl_nil]
  | cons q qs ih =>
    rw [List.foldl_cons, ← depthAfter_concat, ih, List.append_assoc, List.singleton_append]

end Query

end Fonds
