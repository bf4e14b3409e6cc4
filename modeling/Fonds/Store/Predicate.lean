import Fonds.Json.Basic
import Fonds.Query.Operator

/-!
Predicates of the document store. A predicate is built from tests of single fields, so what it means
follows from what the tests mean. `conj` and `disj` are the combinators by which predicates are put
together; the store refuses an empty disjunction, so `never` stands in for it.
-/
namespace Fonds.Store

/-- A set of identifiers that a field is looked up in. -/
inductive IdSet where
  | literal (ids : List String)
  /-- The units that an earlier step matched. -/
  | step (index : Nat)
  /-- The units up to so many levels above those of a set. -/
  | ancestors (below : IdSet) (levels : Nat)
  deriving DecidableEq

/-- What a field of a document is tested for. -/
inductive FieldTest where
  | presence (present : Bool)
  | compare (comparison : Comparison) (value : Json)
  | oneOf (values : List Json)
  | noneOf (values : List Json)
  | size (n : Nat)
  | range (bounds : List (Comparison × Json))
  | regex (pattern : String)
  /-- A match of the indexed form of the field. -/
  | term (text : String)
  | ids (set : IdSet)

/-- A predicate over documents. -/
inductive Predicate where
  | all (members : List Predicate)
  | any (members : List Predicate)
  | none (members : List Predicate)
  | always
  | test (field : String) (test : FieldTest)

namespace IdSet

/-- Known identifiers are listed. Sets known only later are placeholders to be filled in. -/
def toJson : IdSet → Json
  | .literal ids => .array (ids.map .string)
  | .step index => .single "$step" (.ofNat index)
  | .ancestors below levels =>
    .single "$ancestors" (.object [("$of", below.toJson), ("$depth", .ofNat levels)])

end IdSet

namespace FieldTest

def toJson : FieldTest → Json
  | .presence present => .single "$exists" (.bool present)
  | .compare comparison value => .single comparison.token value
  | .oneOf values => .single "$in" (.array values)
  | .noneOf values => .single "$nin" (.array values)
  | .size n => .single "$size" (.ofNat n)
  | .range bounds => .ofEntries (bounds.map fun b => (b.1.token, b.2))
  | .regex pattern => .single "$regex" (.string pattern)
  | .term text => .string text
  | .ids set => .single "$in" set.toJson

end FieldTest

namespace Predicate

/-- The predicate that no document satisfies. -/
def never : Predicate := .none [.always]

/-- What a member of a conjunction contributes to it. -/
def conjuncts : Predicate → List Predicate
  | .always => []
  | .all members => members
  | p => [p]

/-- What a member of a disjunction contributes to it. -/
def disjuncts : Predicate → List Predicate
  | .any members => members
  | p => [p]

def isAlways : Predicate → Bool
  | .always => true
  | _ => false

/-- All of the predicates hold. Conjunctions among them are merged, and what always holds is left
out. -/
def conj (ps : List Predicate) : Predicate :=
  match ps.flatMap conjuncts with
  | [] => .always
  | [p] => p
  | ps => .all ps

/-- One of the predicates holds. Disjunctions among them are merged, and one that always holds
decides. -/
def disj (ps : List Predicate) : Predicate :=
  if ps.any isAlways then .always
  else
    match ps.flatMap disjuncts with
    | [] => never
    | [p] => p
    | ps => .any ps

/-- The field holds an identifier of the set. -/
def inIds (field : String) (set : IdSet) : Predicate := .test field (.ids set)

mutual

def toJson : Predicate → Json
  | .all members => .single "$and" (.array (allToJson members))
  | .any members => .single "$or" (.array (allToJson members))
  | .none members => .single "$nor" (.array (allToJson members))
  | .always => .object []
  | .test field t => .single field t.toJson

def allToJson : List Predicate → List Json
  | [] => []
  | p :: ps => p.toJson :: allToJson ps

end

end Predicate

end Fonds.Store
