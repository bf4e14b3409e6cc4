import Fonds.Projection.Basic

/-!
Reading projections. Any number or truth value serves as a flag; an object has to be a slice.
-/
namespace Fonds

namespace FieldProjection

/-- The slice that is given by a count, or by how many to skip and how many to take. -/
def readSlice (document slice : Json) : Built FieldProjection :=
  match slice with
  | .number n =>
    match n.toInt64? with
    | some whole => .ok (.count whole)
    | none => .error (.unreadable Keyword.slice (.notAnInteger slice))
  | .array [skip, limit] => do
    let skip ← skip.expectInt64 Keyword.slice
    let limit ← limit.expectInt64 Keyword.slice
    match FieldProjection.slice skip limit with
    | .error (.invalid construct rule) => .error (.unreadable Keyword.slice (.slice construct rule))
    | result => result
  | .array _ => .error (.unreadable Keyword.slice .sliceParts)
  | _ => .error (.unreadable Keyword.fields (.projection document))

def read (v : Json) : Built FieldProjection :=
  match v with
  | .number n => .ok (ofFlag n.isPositive)
  | .bool b => .ok (ofFlag b)
  | .object [(key, slice)] =>
    if key = Keyword.slice then readSlice v slice
    else .error (.unreadable Keyword.fields (.projection v))
  | _ => .error (.unreadable Keyword.fields (.projection v))

end FieldProjection

namespace Projection

def readField (p : Projection) (entry : String × Json) : Built Projection := do
  let projection ← FieldProjection.read entry.2
  p.addField entry.1 projection

def readEntry (p : Projection) (entry : String × Json) : Built Projection :=
  if entry.1 = Keyword.fields then do
    (← entry.2.expectObject Keyword.fields).foldlM readField p
  else if entry.1 = Keyword.usage then do
    let usage ← entry.2.expectString Keyword.usage
    .ok { p with usage := some usage }
  else .error (.unreadable Section.projection.token (.unknownKeyword entry.1))

def read (v : Json) : Built Projection := do
  (← v.expectObject Section.projection.token).foldlM readEntry {}

end Projection

end Fonds
