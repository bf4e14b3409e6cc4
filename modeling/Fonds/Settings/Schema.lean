import Fonds.Settings.Basic

/-!
A description of settings files for editors that can check them.
-/
namespace Fonds.Settings

def stringSchema : Json := .single "type" (.string "string")

def naturalSchema : Json := .object [("type", .string "integer"), ("minimum", .ofNat 0)]

def groupSchema (properties : List (String × Json)) : Json :=
  .object [("type", .string "object"), ("properties", .object properties)]

/-- The schema of a settings file. -/
def schema : Json :=
  .object
    [("title", .string "Settings"), ("type", .string "object"),
      ("required", .array [.string "version"]),
      ("properties", .object
        [("version", naturalSchema),
          ("graphFields", groupSchema
            (({} : GraphFields).entries.map fun e => (e.1, stringSchema))),
          ("paging", groupSchema [("defaultLimit", naturalSchema)]),
          ("reservedFields", .object
            [("type", .string "object"), ("additionalProperties", stringSchema)])])]

end Fonds.Settings
