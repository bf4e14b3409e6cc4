import Fonds.Query.Build

/-!
Reading queries. The keys of a query object are looked at in order; what its operand reads as is
kept aside, so that a fault in the operand is reported only when the keys are in order. The
qualifiers are applied last.
-/
namespace Fonds.Query

/-- What the keys of a query object have shown so far. -/
structure Keys where
  depth : Option Int := none
  exactDepth : Option Int := none
  /-- What the operand of the operator reads as. -/
  body : Option (Built Query) := none

/-- Reads a value that has to be a single entry for a field. -/
def readEntry {α : Type} (operator : TestOperator) (operand : Json)
    (read : String → Json → Built α) : Built (String × α) := do
  let (field, value) ← operand.expectSingle operator.token
  let value ← read operator.token value
  .ok (field, value)

/-- The bound that a key of a range names. -/
def readBound (construct : String) (entry : String × Json) : Built (BoundOperator × Json) :=
  match BoundOperator.ofToken? entry.1 with
  | some operator => .ok (operator, entry.2)
  | none => .error (.unreadable construct (.unknownBound entry.1))

/-- The query that an operator testing one field makes of its operand. -/
def readTest (operator : TestOperator) (operand : Json) : Built Query :=
  match operator with
  | .present => do present (← operand.expectString operator.token)
  | .absent => do absent (← operand.expectString operator.token)
  | .isNull => do isNull (← operand.expectString operator.token)
  | .oneOf => do
    let (field, values) ← readEntry operator operand Json.expectArray
    oneOf field values
  | .noneOf => do
    let (field, values) ← readEntry operator operand Json.expectArray
    noneOf field values
  | .size => do
    let (field, n) ← readEntry operator operand Json.expectInt64
    size field n
  | .compare comparison => do
    let (field, value) ← readEntry operator operand fun _ v => .ok v
    compare comparison field value
  | .range => do
    let (field, entries) ← readEntry operator operand Json.expectObject
    let bounds ← entries.mapM (readBound operator.token)
    range field bounds
  | .term => do
    let (field, text) ← readEntry operator operand Json.expectString
    term field text
  | .regex => do
    let (field, pattern) ← readEntry operator operand Json.expectString
    regex field pattern

/-- The path that an array of identifiers is. -/
def readPath (operand : Json) : Built Query := do
  let ids ← operand.expectArray Operator.path.token
  let ids ← Json.expectStrings Operator.path.token ids
  ofPath ids

/-- The query that the keys amount to. -/
def ofKeys (keys : Keys) : Built Query := do
  match keys.body with
  | none => .error (.unreadable Section.query.token .noOperator)
  | some body =>
    let q ← body
    let q ← keys.depth.elim (.ok q) q.withDepth
    keys.exactDepth.elim (.ok q) q.withExactDepth

mutual

/-- Reads one query: an object with one operator, and at most one qualifier. -/
def read : Json → Built Query
  | .object entries => do
    ofKeys (← readKeys {} entries)
  | v => .error (.unreadable Section.query.token (.expected .object v))

/-- Reads one query or an array of them. -/
def readMembers : Json → Built (List Query)
  | .array elems => readAll elems
  | .object entries => do
    let q ← ofKeys (← readKeys {} entries)
    .ok [q]
  | v => .error (.unreadable Section.query.token (.expected .object v))

def readAll : List Json → Built (List Query)
  | [] => .ok []
  | v :: vs => do
    let q ← read v
    let qs ← readAll vs
    .ok (q :: qs)

def readKeys (keys : Keys) : List (String × Json) → Built Keys
  | [] => .ok keys
  | (key, operand) :: rest =>
    if key = Keyword.depth then do
      let levels ← operand.expectInt64 key
      readKeys { keys with depth := some levels.toInt } rest
    else if key = Keyword.exactDepth then do
      let level ← operand.expectInt64 key
      readKeys { keys with exactDepth := some level.toInt } rest
    else
      match Operator.ofToken? key with
      | none => .error (.unreadable Section.query.token (.unknownOperator key))
      | some operator =>
        if keys.body.isSome then .error (.unreadable Section.query.token .severalOperators)
        else
          let body :=
            match operator with
            | .test operator => readTest operator operand
            | .path => readPath operand
            | .junction junction => do group junction (← readMembers operand)
          readKeys { keys with body := some body } rest

end

end Fonds.Query
