import Fonds.Query.Basic

/-!
What reading and compiling a request report as they go.
-/
namespace Fonds

inductive Level where
  | debug
  | info
  | warn
  deriving DecidableEq

/-- Something worth reporting. -/
inductive Event where
  | requestRead (kind : Kind) (steps : Nat)
  | compiling (kind : Kind) (steps : Nat)
  /-- The test of the field cannot use an index. -/
  | unindexed (operator : TestOperator) (field : Name)
  /-- A pattern on identifiers has to look at every document. -/
  | identifierScan (field : String)
  | stepCompiled (rank : Nat) (operator : Operator) (depth : Option Depth) (lastDepth : Int)
  deriving DecidableEq

namespace Depth

def text : Option Depth → String
  | none => "None"
  | some (.relative levels _) => s!"Some(Relative({levels}))"
  | some (.exact level _) => s!"Some(Exact({level}))"

end Depth

namespace Level

def name : Level → String
  | .debug => "DEBUG"
  | .info => "INFO"
  | .warn => "WARN"

end Level

namespace Event

def level : Event → Level
  | .requestRead _ _ | .stepCompiled _ _ _ _ => .debug
  | .compiling _ _ => .info
  | .unindexed _ _ | .identifierScan _ => .warn

def message : Event → String
  | .requestRead _ _ => "request parsed"
  | .compiling _ _ => "translating request"
  | .unindexed _ _ => "command cannot use an index"
  | .identifierScan _ => "regular expression on the identifier scans the whole collection"
  | .stepCompiled _ _ _ _ => "compiled step"

/-- What the event is about, in a fixed order. -/
def fields : Event → List (String × String)
  | .requestRead kind steps | .compiling kind steps =>
    [("kind", kind.name), ("nb_queries", toString steps)]
  | .unindexed operator field => [("operator", operator.token), ("field", field.text)]
  | .identifierScan field => [("field", field)]
  | .stepCompiled rank operator depth lastDepth =>
    [("rank", toString rank), ("operator", operator.token), ("depth", Depth.text depth),
      ("last_depth", toString lastDepth)]

end Event

end Fonds
