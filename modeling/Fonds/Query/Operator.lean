/-!
The operators that may head a query and the tokens they are written with.
-/
namespace Fonds

/-- How a field compares with one value. -/
inductive Comparison where
  | eq
  | ne
  | gt
  | gte
  | lt
  | lte
  deriving DecidableEq

/-- How one end of a range is given. -/
inductive BoundOperator where
  | gt
  | gte
  | lt
  | lte
  deriving DecidableEq

/-- What ties the conditions of a group together. -/
inductive Junction where
  /-- All of them hold. -/
  | all
  /-- At least one of them holds. -/
  | any
  /-- They do not hold all together. -/
  | notAll
  deriving DecidableEq

/-- The operators that test one field. -/
inductive TestOperator where
  | present
  | absent
  | isNull
  | oneOf
  | noneOf
  | size
  | compare (comparison : Comparison)
  | range
  | term
  | regex
  deriving DecidableEq

/-- The operators of the query language. -/
inductive Operator where
  | test (operator : TestOperator)
  | junction (junction : Junction)
  | path
  deriving DecidableEq

namespace Comparison

def all : List Comparison := [.eq, .ne, .gt, .gte, .lt, .lte]

def token : Comparison → String
  | .eq => "$eq"
  | .ne => "$ne"
  | .gt => "$gt"
  | .gte => "$gte"
  | .lt => "$lt"
  | .lte => "$lte"

def ofToken? (token : String) : Option Comparison := all.find? (·.token = token)

@[simp] theorem ofToken?_token (c : Comparison) : ofToken? c.token = some c := by
  cases c <;> rfl

end Comparison

namespace BoundOperator

def all : List BoundOperator := [.gt, .gte, .lt, .lte]

/-- The comparison that holds of the values on the inner side of the bound. -/
def comparison : BoundOperator → Comparison
  | .gt => .gt
  | .gte => .gte
  | .lt => .lt
  | .lte => .lte

def token (b : BoundOperator) : String := b.comparison.token

def ofToken? (token : String) : Option BoundOperator := all.find? (·.token = token)

@[simp] theorem ofToken?_token (b : BoundOperator) : ofToken? b.token = some b := by
  cases b <;> rfl

/-- Whether the bound limits the values from below. -/
def isLower : BoundOperator → Bool
  | .gt | .gte => true
  | .lt | .lte => false

end BoundOperator

namespace Junction

def values : List Junction := [.all, .any, .notAll]

def token : Junction → String
  | .all => "$and"
  | .any => "$or"
  | .notAll => "$not"

end Junction

namespace TestOperator

def values : List TestOperator :=
  [TestOperator.present, .absent, .isNull, .oneOf, .noneOf, .size, .range, .term, .regex] ++
    Comparison.all.map TestOperator.compare

def token : TestOperator → String
  | .present => "$exists"
  | .absent => "$missing"
  | .isNull => "$isNull"
  | .oneOf => "$in"
  | .noneOf => "$nin"
  | .size => "$size"
  | .compare comparison => comparison.token
  | .range => "$range"
  | .term => "$term"
  | .regex => "$regex"

end TestOperator

namespace Operator

def all : List Operator := .path :: (TestOperator.values.map .test ++ Junction.values.map .junction)

def token : Operator → String
  | .test t => t.token
  | .junction j => j.token
  | .path => "$path"

def ofToken? (token : String) : Option Operator := all.find? (·.token = token)

/-- No two operators share a token. -/
@[simp] theorem ofToken?_token (op : Operator) : ofToken? op.token = some op := by
  cases op with
  | test t =>
    cases t with
    | compare c => cases c <;> rfl
    | _ => rfl
  | junction j => cases j <;> rfl
  | path => rfl

theorem eq_token_of_ofToken? {token : String} {op : Operator} (h : ofToken? token = some op) :
    token = op.token := by
  have := List.find?_some h
  simpa using (of_decide_eq_true this).symm

end Operator

end Fonds
