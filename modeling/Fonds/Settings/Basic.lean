import Fonds.Json.Printer
import Fonds.Ordered.Sorted

/-!
Settings: how a store names the graph fields of its documents, how many results it returns unasked,
and which reserved names stand for which fields. They are written down with the version of their
format and checked before use.
-/
namespace Fonds

/-- The fields that hold the place of a unit in the graph. -/
structure GraphFields where
  id : String := "_id"
  /-- The direct parents. -/
  parents : String := "_up"
  /-- All ancestors. -/
  ancestors : String := "_us"
  /-- The ancestors so many levels above, one field below this for each number of levels. -/
  ancestorsByDistance : String := "_uds"
  /-- The length of the shortest path from the top. -/
  minDepth : String := "_min"
  /-- The length of the longest path from the top. -/
  maxDepth : String := "_max"
  deriving DecidableEq

/-- Settings as they are written down. -/
structure Settings where
  version : UInt32
  graph : GraphFields
  defaultLimit : UInt64
  reserved : SortedMap String
  deriving DecidableEq

/-- Settings that have been checked. -/
structure Configuration where
  graph : GraphFields
  /-- How many results a select returns that sets no limit. -/
  defaultLimit : UInt64
  /-- The fields that reserved names stand for. -/
  reserved : SortedMap String
  deriving DecidableEq

/-- Why settings are refused. -/
inductive SettingsError where
  | unsupportedVersion (version : UInt32)
  | emptyGraphField (key : String)
  | zeroLimit
  | reservedName (name : String)
  deriving DecidableEq

namespace GraphFields

/-- The fields with the keys they are set under. -/
def entries (g : GraphFields) : List (String × String) :=
  [("id", g.id), ("parents", g.parents), ("ancestors", g.ancestors),
    ("ancestorsByDistance", g.ancestorsByDistance), ("minDepth", g.minDepth),
    ("maxDepth", g.maxDepth)]

end GraphFields

namespace SettingsError

def message : SettingsError → String
  | .unsupportedVersion version => s!"unsupported configuration version {version}"
  | .emptyGraphField key =>
    s!"invalid configuration value graphFields.{key}: field name is empty"
  | .zeroLimit =>
    "invalid configuration value paging.defaultLimit: the default limit must be positive"
  | .reservedName name =>
    s!"invalid configuration value reservedFields.{name}: " ++
      "reserved fields map a '#' name to a document field"

end SettingsError

namespace Settings

def currentVersion : UInt32 := 1

def defaultLimitValue : UInt64 := 10000

/-- The reserved names where settings say nothing of them. -/
def defaultReserved : SortedMap String := SortedMap.ofList [("#id", "_id")]

/-- The settings to start from. -/
def initial : Settings := ⟨currentVersion, {}, defaultLimitValue, defaultReserved⟩

/-- The entries written down. Groups that say nothing new are left out; the reserved names are
always there, so that an empty list of them is told from a missing one. -/
def entries (s : Settings) : List (String × Json) :=
  [("version", Json.ofNat s.version.toNat)] ++
  (if s.graph = {} then []
    else [("graphFields", Json.object (s.graph.entries.map fun e => (e.1, .string e.2)))]) ++
  (if s.defaultLimit = defaultLimitValue then []
    else [("paging", Json.single "defaultLimit" (.ofNat s.defaultLimit.toNat))]) ++
  [("reservedFields", Json.object (s.reserved.entries.map fun e => (e.1, .string e.2)))]

def toJson (s : Settings) : Json := .object s.entries

/-- The text of a settings file. -/
def text (s : Settings) : String := s.toJson.indented ++ "\n"

end Settings

namespace Configuration

/-- The configuration where no settings are given. -/
def initial : Configuration :=
  ⟨Settings.initial.graph, Settings.initial.defaultLimit, Settings.initial.reserved⟩

end Configuration

end Fonds
