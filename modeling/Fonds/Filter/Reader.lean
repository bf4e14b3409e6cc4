import Fonds.Filter.Basic

/-!
Reading filters. The keywords take effect in the order written; the cursor is set at the end, when
both its identifier and its timeout are known.
-/
namespace Fonds.Filter

/-- What the keywords of a filter have shown so far. -/
structure Keys where
  filter : Filter := {}
  scrollId : Option String := none
  scrollTimeout : Option UInt64 := none

def readOrderBy (f : Filter) (entry : String × Json) : Built Filter := do
  let number ← entry.2.expectInt64 FilterKeyword.orderBy.token
  let direction ← Direction.ofNumber entry.1 number.toInt
  f.addOrderBy entry.1 direction

def readHint (f : Filter) (v : Json) : Built Filter := do
  f.addHint (← v.expectString FilterKeyword.hint.token)

/-- The effect of a keyword with its operand. -/
def readKeyword (keys : Keys) (keyword : FilterKeyword) (operand : Json) : Built Keys :=
  let token := keyword.token
  match keyword with
  | .offset => do
    let n ← operand.expectUInt64 token
    .ok { keys with filter := { keys.filter with offset := some n } }
  | .limit => do
    let n ← operand.expectUInt64 token
    .ok { keys with filter := { keys.filter with limit := some n } }
  | .orderBy => do
    let filter ← (← operand.expectObject token).foldlM readOrderBy keys.filter
    .ok { keys with filter }
  | .hint => do
    let filter ← operand.oneOrMany.foldlM readHint keys.filter
    .ok { keys with filter }
  | .scrollId => do
    let id ← operand.expectString token
    .ok { keys with scrollId := some id }
  | .scrollTimeout => do
    let n ← operand.expectUInt64 token
    .ok { keys with scrollTimeout := some n }
  | .multiple =>
    match operand with
    | .bool b => .ok { keys with filter := { keys.filter with multiple := some b } }
    | _ => .error (.unreadable token (.notABoolean operand))

def readEntry (allowed : List FilterKeyword) (keys : Keys) (entry : String × Json) : Built Keys :=
  match FilterKeyword.ofToken? entry.1 with
  | none => .error (.unreadable Section.filter.token (.unknownKeyword entry.1))
  | some keyword =>
    if keyword ∈ allowed then readKeyword keys keyword entry.2
    else .error (.invalid Section.filter.token (.keywordNotAllowed keyword))

/-- The filter with its cursor. A timeout without a cursor is refused. -/
def ofKeys (keys : Keys) : Built Filter :=
  match keys.scrollId, keys.scrollTimeout with
  | some id, timeout => keys.filter.setScroll id timeout
  | none, some _ => .error (.invalid FilterKeyword.scrollTimeout.token .timeoutWithoutScroll)
  | none, none => .ok keys.filter

/-- Reads a filter that may use only the allowed keywords. -/
def read (allowed : List FilterKeyword) (v : Json) : Built Filter := do
  let entries ← v.expectObject Section.filter.token
  ofKeys (← entries.foldlM (readEntry allowed) {})

end Fonds.Filter
