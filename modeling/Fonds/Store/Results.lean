import Fonds.Filter.Basic

/-!
How the store is told which results to return: their order, how many of them, and which of their
fields.
-/
namespace Fonds.Store

/-- A field to sort by. The fields named first decide first. -/
structure SortKey where
  field : String
  direction : Direction
  deriving DecidableEq

/-- A cursor that continues an earlier select. -/
structure Cursor where
  id : String
  timeout : Option UInt64
  deriving DecidableEq

/-- How many results to return and where to start. -/
structure Paging where
  limit : Option UInt64
  offset : Option UInt64
  cursor : Option Cursor
  deriving DecidableEq

/-- How much of a field is returned. -/
inductive FieldReturn where
  | exclude
  | include
  | count (n : Int)
  | window (skip : Int) (limit : Nat)
  deriving DecidableEq

namespace SortKey

def allToJson (keys : List SortKey) : Json :=
  .ofEntries (keys.map fun k => (k.field, .ofInt k.direction.number))

end SortKey

namespace Paging

def toJson (p : Paging) : Json :=
  .object <|
    (p.limit.map fun n => ("$limit", Filter.ofUInt64 n)).toList ++
    (p.offset.map fun n => ("$skip", Filter.ofUInt64 n)).toList ++
    (match p.cursor with
      | none => []
      | some cursor =>
        ("$scrollId", .string cursor.id) ::
          (cursor.timeout.map fun n => ("$scrollTimeout", Filter.ofUInt64 n)).toList)

end Paging

namespace FieldReturn

def toJson : FieldReturn → Json
  | .exclude => .ofNat 0
  | .include => .ofNat 1
  | .count n => .single "$slice" (.ofInt n)
  | .window skip limit => .single "$slice" (.array [.ofInt skip, .ofNat limit])

def allToJson (fields : List (String × FieldReturn)) : Json :=
  .ofEntries (fields.map fun f => (f.1, f.2.toJson))

end FieldReturn

end Fonds.Store
