import Fonds.Action.Reader
import Fonds.Facet.Reader
import Fonds.Filter.Reader
import Fonds.Projection.Reader
import Fonds.Request.Basic

/-!
Reading requests. Sections that the kind does not have are refused before any section is read; then
the sections are read in a fixed order, whatever their order in the document.
-/
namespace Fonds.Request

/-- What messages call the document as a whole. -/
def construct : String := "request"

/-- What a section reads as, and what stands in for it where it is missing. -/
def readSection {α : Type} (entries : List (String × Json)) (s : Section) (missing : α)
    (read : Json → Built α) : Built α :=
  match Entries.get? s.token entries with
  | some v => read v
  | none => .ok missing

def readRoots (v : Json) : Built (OrderedSet NonBlank) := do
  let elems ← v.expectArray Section.roots.token
  let ids ← Json.expectStrings Section.roots.token elems
  ids.foldlM Core.addRoot .empty

def readStep (steps : Steps) (v : Json) : Built Steps := do
  steps.add (← Query.read v)

def readSteps (v : Json) : Built Steps := v.oneOrMany.foldlM readStep .empty

def readFacet (facets : Facets) (v : Json) : Built Facets := do
  facets.add (← Facet.read v)

def readFacets (v : Json) : Built Facets := do
  (← v.expectArray Section.facets.token).foldlM readFacet .empty

def readPayload (kind : Kind) (entries : List (String × Json)) : Built Payload :=
  match kind with
  | .select => do
    let projection ← readSection entries .projection {} Projection.read
    let facets ← readSection entries .facets .empty readFacets
    .ok (.select projection facets)
  | .insert => .insert <$> readSection entries .data [] Payload.buildData
  | .update => .update <$> readSection entries .action [] Action.readAll
  | .delete => .ok .delete

def readCore (kind : Kind) (entries : List (String × Json)) : Built Core := do
  let roots ← readSection entries .roots .empty readRoots
  let steps ← readSection entries .query .empty readSteps
  let filter ← readSection entries .filter {} (Filter.read kind.filterKeywords)
  .ok ⟨roots, steps, filter⟩

/-- Refuses the first section that requests of the kind do not have. -/
def checkSections (kind : Kind) (entries : List (String × Json)) : Built Unit :=
  match entries.find? fun entry => entry.1 ∉ kind.sections.map Section.token with
  | some entry => .error (.unreadable construct (.unexpectedSection entry.1 kind))
  | none => .ok ()

/-- Reads a request of a kind, which has to be complete. -/
def read (kind : Kind) (v : Json) : Built Request := do
  let entries ← v.expectObject construct
  checkSections kind entries
  let core ← readCore kind entries
  let payload ← readPayload kind entries
  let request := Request.mk core payload
  request.checkComplete
  .ok request

end Fonds.Request
