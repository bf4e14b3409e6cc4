import Fonds.Ordered.NonEmpty
import Fonds.Shape

/-!
Queries: conditions on the documents of units, each perhaps qualified by a distance in the graph, or
the path that leads to a unit. The types leave no room for what the language forbids: a group is
never empty, a range has at most one bound on each side, and a path is neither nested nor qualified.
-/
namespace Fonds

/-- The greatest depth a qualifier can name, in either direction. -/
def maxDepth : Nat := 100

/-- Where the units of a step lie, seen from those of the step before. -/
inductive Depth where
  /-- So many levels below, or above where negative. Zero is the unit itself. -/
  | relative (levels : Int) (bounded : levels.natAbs ≤ maxDepth)
  /-- So many levels below the top of the graph. -/
  | exact (level : Nat) (bounded : level ≤ maxDepth)
  deriving DecidableEq

/-- One end of a range. -/
structure Bound where
  operator : BoundOperator
  value : Literal
  deriving DecidableEq

/-- The ends of a range: one, or one on each side, in the order written. -/
structure Bounds where
  first : Bound
  second : Option Bound
  opposite : ∀ b, second = some b → b.operator.isLower ≠ first.operator.isLower
  deriving DecidableEq

/-- What a field is tested for. -/
inductive Check where
  | present
  | absent
  | isNull
  | oneOf (values : NonEmpty Literal)
  | noneOf (values : NonEmpty Literal)
  | size (n : Nat) (bounded : (n : Int) ≤ Int64.maxValue.toInt)
  | compare (comparison : Comparison) (value : Literal)
  | range (bounds : Bounds)
  /-- A match against the analyzed form of a text. -/
  | term (text : String)
  | regex (pattern : String) (nonempty : ¬ pattern = "")
  deriving DecidableEq

/-- A test of one field or a group of conditions. The qualifier of a nested condition is kept and
has no effect. -/
inductive Condition where
  | test (field : Name) (check : Check) (qualifier : Option Depth)
  | group (junction : Junction) (first : Condition) (rest : List Condition)
      (qualifier : Option Depth)

/-- One step of a request. -/
inductive Query where
  /-- Identifiers of units, each a parent of the next. -/
  | path (ids : NonEmpty NonBlank)
  | condition (condition : Condition)

namespace Bounds

def toList (b : Bounds) : List Bound := b.first :: b.second.toList

/-- The bound that another one on the same side would repeat. -/
def clash? (b : Bounds) (operator : BoundOperator) : Option BoundOperator :=
  if operator.isLower = b.first.operator.isLower then some b.first.operator
  else b.second.map Bound.operator

/-- Adds a bound on the side that is still open. -/
def add (b : Bounds) (bound : Bound) (h : b.clash? bound.operator = none) : Bounds :=
  ⟨b.first, some bound, by
    intro c hc
    cases hc
    intro hsame
    simp [clash?, hsame] at h⟩

end Bounds

namespace Check

def operator : Check → TestOperator
  | .present => .present
  | .absent => .absent
  | .isNull => .isNull
  | .oneOf _ => .oneOf
  | .noneOf _ => .noneOf
  | .size _ _ => .size
  | .compare comparison _ => .compare comparison
  | .range _ => .range
  | .term _ => .term
  | .regex _ _ => .regex

/-- Whether the test needs the full-text index. -/
def isFullText : Check → Bool
  | .term _ | .regex _ _ => true
  | _ => false

end Check

namespace Condition

def operator : Condition → Operator
  | .test _ check _ => .test check.operator
  | .group junction _ _ _ => .junction junction

def qualifier : Condition → Option Depth
  | .test _ _ qualifier => qualifier
  | .group _ _ _ qualifier => qualifier

def withQualifier (c : Condition) (depth : Depth) : Condition :=
  match c with
  | .test field check _ => .test field check (some depth)
  | .group junction first rest _ => .group junction first rest (some depth)

mutual

/-- Whether a test in the condition needs the full-text index. -/
def isFullText : Condition → Bool
  | .test _ check _ => check.isFullText
  | .group _ first rest _ => first.isFullText || anyFullText rest

def anyFullText : List Condition → Bool
  | [] => false
  | c :: cs => c.isFullText || anyFullText cs

end

end Condition

namespace Query

def operator : Query → Operator
  | .path _ => .path
  | .condition c => c.operator

def depth : Query → Option Depth
  | .path _ => none
  | .condition c => c.qualifier

def isPath : Query → Bool
  | .path _ => true
  | .condition _ => false

def isFullText : Query → Bool
  | .path _ => false
  | .condition c => c.isFullText

def condition? : Query → Option Condition
  | .path _ => none
  | .condition c => some c

end Query

end Fonds
