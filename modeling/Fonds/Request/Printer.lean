import Fonds.Action.Printer
import Fonds.Facet.Printer
import Fonds.Request.Basic

/-!
Requests in the form of a document. The sections that all kinds share are always there, and so is
the payload, but for the facets where there are none.
-/
namespace Fonds

namespace Core

def sections (c : Core) : List (Section × Json) :=
  [(.roots, .array (c.roots.elems.map (.string ·.text))),
    (.query, .array (c.steps.queries.map Query.toJson)),
    (.filter, c.filter.toJson)]

end Core

namespace Payload

def sections : Payload → List (Section × Json)
  | .select projection facets =>
    (.projection, projection.toJson) ::
      (if facets.list = [] then [] else [(.facets, .array (facets.list.map Facet.toJson))])
  | .insert data => [(.data, .object data)]
  | .update actions => [(.action, .array (actions.map Action.toJson))]
  | .delete => []

end Payload

namespace Request

def toJson (r : Request) : Json :=
  .object ((r.core.sections ++ r.payload.sections).map fun s => (s.1.token, s.2))

end Request

end Fonds
