import Fonds.Json.Reader
import Fonds.Settings.Basic

/-!
Reading settings. A group is an object, whose unknown keys are passed over and whose known keys may
not repeat, or an array of its members in order. What is missing takes its default; only the version
has none. Values under unknown keys need only be well spelled.
-/
namespace Fonds.Settings

/-- The value under a key, told from a missing one. Nothing is given where the key repeats. -/
def member? (entries : List (String × Spelling)) (key : String) : Option (Option Spelling) :=
  match entries.filter (·.1 = key) with
  | [] => some none
  | [e] => some (some e.2)
  | _ => none

/-- The keys of an object as texts. -/
def namedEntries? (entries : List (List StringUnit × Spelling)) :
    Option (List (String × Spelling)) :=
  entries.mapM fun e => do
    let name ← Spelling.textOf? e.1
    some (name, e.2)

/-- The members of a group in the order of their keys. -/
def members? (keys : List String) : Spelling → Option (List (Option Spelling))
  | .object entries => do
    let named ← namedEntries? entries
    keys.mapM (member? named)
  | .array elems =>
    if elems.length ≤ keys.length then
      some (elems.map some ++ List.replicate (keys.length - elems.length) none)
    else none
  | _ => none

/-- A member's value, or what stands in for it where it is missing. -/
def readMember? {α : Type} (read : Spelling → Option α) (missing : Option α) :
    Option Spelling → Option α
  | some v => read v
  | none => missing

def readText? : Spelling → Option String
  | .string units => Spelling.textOf? units
  | _ => none

/-- A whole number below a bound. -/
def readNat? (bound : Nat) : Spelling → Option Nat
  | .number numeral =>
    match numeral.toNumber? with
    | some (.integer n) => if 0 ≤ n ∧ n.toNat < bound then some n.toNat else none
    | _ => none
  | _ => none

def readVersion? (v : Spelling) : Option UInt32 := (readNat? UInt32.size v).map UInt32.ofNat

def readLimit? (v : Spelling) : Option UInt64 := (readNat? UInt64.size v).map UInt64.ofNat

def readGraph? (v : Spelling) : Option GraphFields := do
  let defaults : GraphFields := {}
  match ← members? (defaults.entries.map Prod.fst) v with
  | [id, parents, ancestors, ancestorsByDistance, minDepth, maxDepth] => do
    let id ← readMember? readText? (some defaults.id) id
    let parents ← readMember? readText? (some defaults.parents) parents
    let ancestors ← readMember? readText? (some defaults.ancestors) ancestors
    let ancestorsByDistance ←
      readMember? readText? (some defaults.ancestorsByDistance) ancestorsByDistance
    let minDepth ← readMember? readText? (some defaults.minDepth) minDepth
    let maxDepth ← readMember? readText? (some defaults.maxDepth) maxDepth
    some { id, parents, ancestors, ancestorsByDistance, minDepth, maxDepth }
  | _ => none

def readPaging? (v : Spelling) : Option UInt64 := do
  match ← members? ["defaultLimit"] v with
  | [limit] => readMember? readLimit? (some defaultLimitValue) limit
  | _ => none

/-- A map of texts to texts has no array form, and a key that repeats counts once. -/
def readReserved? : Spelling → Option (SortedMap String)
  | .object entries => do
    let named ← namedEntries? entries
    let pairs ← named.mapM fun e => do
      let field ← readText? e.2
      some (e.1, field)
    some (SortedMap.ofList pairs)
  | _ => none

def ofSpelling? (v : Spelling) : Option Settings := do
  match ← members? ["version", "graphFields", "paging", "reservedFields"] v with
  | [version, graph, paging, reserved] => do
    let version ← readMember? readVersion? none version
    let graph ← readMember? readGraph? (some {}) graph
    let defaultLimit ← readMember? readPaging? (some defaultLimitValue) paging
    let reserved ← readMember? readReserved? (some defaultReserved) reserved
    some { version, graph, defaultLimit, reserved }
  | _ => none

/-- The settings in a text. -/
def read? (text : String) : Option Settings := do
  ofSpelling? (← Spelling.read? text)

end Fonds.Settings
