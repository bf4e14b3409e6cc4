import Fonds.Query.Basic

/-!
Building queries from unchecked operands. Each builder checks the field first, then its operands in
the order given, and names the operator in its refusal.
-/
namespace Fonds

/-- At least one value to compare a field with. -/
def Literal.buildAll (construct : String) (vs : List Json) : Built (NonEmpty Literal) := do
  match NonEmpty.ofList? (← vs.mapM (Literal.build construct)) with
  | some values => .ok values
  | none => .error (.invalid construct .noValues)

namespace Bounds

/-- Adds a bound to those known so far. A second bound on one side is refused before its value is
looked at. -/
def extend (construct : String) (field : Name) (known : Option Bounds)
    (bound : BoundOperator × Json) : Built Bounds :=
  match known with
  | none => do
    let value ← Literal.build construct bound.2
    .ok ⟨⟨bound.1, value⟩, none, by simp⟩
  | some bounds =>
    match h : bounds.clash? bound.1 with
    | some clash => .error (.invalid construct (.boundConflict bound.1 clash field.text))
    | none => do
      let value ← Literal.build construct bound.2
      .ok (bounds.add ⟨bound.1, value⟩ h)

def build (construct : String) (field : Name) (bounds : List (BoundOperator × Json)) :
    Built Bounds := do
  match ← bounds.foldlM (fun known bound => some <$> extend construct field known bound) none with
  | some bounds => .ok bounds
  | none => .error (.invalid construct .noBounds)

end Bounds

namespace Query

/-- A query that tests a field. -/
def ofTest (operator : TestOperator) (field : String) (check : Name → Built Check) :
    Built Query := do
  let name ← Name.build operator.token field
  let check ← check name
  .ok (.condition (.test name check none))

def present (field : String) : Built Query := ofTest .present field fun _ => .ok .present

def absent (field : String) : Built Query := ofTest .absent field fun _ => .ok .absent

def isNull (field : String) : Built Query := ofTest .isNull field fun _ => .ok .isNull

def oneOf (field : String) (values : List Json) : Built Query :=
  ofTest .oneOf field fun _ => .oneOf <$> Literal.buildAll TestOperator.oneOf.token values

def noneOf (field : String) (values : List Json) : Built Query :=
  ofTest .noneOf field fun _ => .noneOf <$> Literal.buildAll TestOperator.noneOf.token values

def size (field : String) (n : Int64) : Built Query :=
  ofTest .size field fun _ =>
    if h : 0 ≤ n.toInt then
      .ok (.size n.toInt.toNat (by rw [Int.toNat_of_nonneg h]; exact n.toInt_le))
    else .error (.invalid TestOperator.size.token (.negativeSize n.toInt))

def compare (comparison : Comparison) (field : String) (value : Json) : Built Query :=
  ofTest (.compare comparison) field fun _ =>
    .compare comparison <$> Literal.build comparison.token value

def range (field : String) (bounds : List (BoundOperator × Json)) : Built Query :=
  ofTest .range field fun name => .range <$> Bounds.build TestOperator.range.token name bounds

def term (field text : String) : Built Query := ofTest .term field fun _ => .ok (.term text)

def regex (field pattern : String) : Built Query :=
  ofTest .regex field fun _ =>
    if h : pattern = "" then .error (.invalid TestOperator.regex.token .emptyPattern)
    else .ok (.regex pattern h)

/-- A group of at least one condition. Paths are refused before the count is looked at. -/
def group (junction : Junction) (members : List Query) : Built Query :=
  match members.mapM condition? with
  | none => .error (.invalid junction.token .nestedPath)
  | some [] => .error (.invalid junction.token .noConditions)
  | some (first :: rest) => .ok (.condition (.group junction first rest none))

def ofPath (ids : List String) : Built Query := do
  let ids ← ids.mapM (NonBlank.build Operator.path.token .emptyIdentifier)
  match NonEmpty.ofList? ids with
  | some ids => .ok (.path ids)
  | none => .error (.invalid Operator.path.token .noIdentifiers)

/-- Gives a query its only qualifier. -/
def qualify (q : Query) (keyword : String) (depth : Depth) : Built Query :=
  match q with
  | .path _ => .error (.invalid keyword .qualifiedPath)
  | .condition c =>
    match c.qualifier with
    | some (.relative _ _) => .error (.invalid keyword .alreadyRelative)
    | some (.exact _ _) => .error (.invalid keyword .alreadyExact)
    | none => .ok (.condition (c.withQualifier depth))

/-- Places the units so many levels below those of the step before. -/
def withDepth (q : Query) (levels : Int) : Built Query :=
  if h : levels.natAbs ≤ maxDepth then q.qualify Keyword.depth (.relative levels h)
  else .error (.invalid Keyword.depth (.depthOutOfRange levels))

/-- Places the units so many levels below the top. -/
def withExactDepth (q : Query) (level : Int) : Built Query :=
  if h : 0 ≤ level ∧ level.toNat ≤ maxDepth then
    q.qualify Keyword.exactDepth (.exact level.toNat h.2)
  else .error (.invalid Keyword.exactDepth (.depthOutOfRange level))

end Query

end Fonds
