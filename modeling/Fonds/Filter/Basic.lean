import Fonds.Ordered.Map
import Fonds.Shape

/-!
Filters: how many results a request wants, in which order, and how it is to be run. The filter that
asks for nothing is the default one.
-/
namespace Fonds

/-- The direction in which a field sorts. -/
inductive Direction where
  | ascending
  | descending
  deriving DecidableEq

/-- A cursor that continues an earlier select. -/
structure Scroll where
  id : NonBlank
  /-- How long the cursor is kept, in milliseconds. -/
  timeout : Option UInt64
  deriving DecidableEq

/-- Paging, order and hints of a request. -/
structure Filter where
  offset : Option UInt64 := none
  limit : Option UInt64 := none
  orderBy : OrderedMap Name Direction := .empty
  hints : OrderedSet Name := .empty
  scroll : Option Scroll := none
  /-- Whether the request may touch more than one document. -/
  multiple : Option Bool := none
  deriving DecidableEq

namespace Direction

def number : Direction → Int
  | .ascending => 1
  | .descending => -1

/-- One is ascending, minus one descending. -/
def ofNumber (field : String) (n : Int) : Built Direction :=
  if n = 1 then .ok .ascending
  else if n = -1 then .ok .descending
  else .error (.invalid FilterKeyword.orderBy.token (.direction field n))

@[simp] theorem ofNumber_number (field : String) (d : Direction) :
    ofNumber field d.number = .ok d := by
  cases d <;> rfl

end Direction

namespace Filter

def isEmpty (f : Filter) : Bool := f = {}

/-- Without a word on it, a request touches a single document. -/
def isMultiple (f : Filter) : Bool := f.multiple.getD false

def hasHint (f : Filter) (hint : String) : Bool := f.hints.elems.any (·.text = hint)

def wantsCache (f : Filter) : Bool := f.hasHint Keyword.cache

def wantsNoTimeout (f : Filter) : Bool := f.hasHint Keyword.noTimeout

def addOrderBy (f : Filter) (field : String) (direction : Direction) : Built Filter := do
  let name ← Name.build FilterKeyword.orderBy.token field
  .ok { f with orderBy := f.orderBy.insert name direction }

def addHint (f : Filter) (hint : String) : Built Filter :=
  match Name.ofString? hint with
  | some name => .ok { f with hints := f.hints.insert name }
  | none => .error (.invalid FilterKeyword.hint.token .emptyHint)

def setScroll (f : Filter) (id : String) (timeout : Option UInt64) : Built Filter := do
  let id ← NonBlank.build FilterKeyword.scrollId.token .emptyScrollId id
  .ok { f with scroll := some ⟨id, timeout⟩ }

def ofUInt64 (n : UInt64) : Json := .ofNat n.toNat

/-- The entries of the filter's document. What is not asked for has none. -/
def entries (f : Filter) : List (FilterKeyword × Json) :=
  (f.offset.map fun n => (FilterKeyword.offset, ofUInt64 n)).toList ++
  (f.limit.map fun n => (FilterKeyword.limit, ofUInt64 n)).toList ++
  (if f.orderBy.isEmpty then []
    else [(FilterKeyword.orderBy,
      Json.ofEntries (f.orderBy.entries.map fun e => (e.1.text, .ofInt e.2.number)))]) ++
  (if f.hints.isEmpty then [] else [(FilterKeyword.hint, Json.array (f.hints.elems.map (.string ·.text)))]) ++
  (match f.scroll with
    | none => []
    | some scroll =>
      (.scrollId, .string scroll.id.text) ::
        (scroll.timeout.map fun n => (.scrollTimeout, ofUInt64 n)).toList) ++
  (f.multiple.map fun b => (FilterKeyword.multiple, Json.bool b)).toList

def toJson (f : Filter) : Json := .object (f.entries.map fun e => (e.1.token, e.2))

end Filter

end Fonds
