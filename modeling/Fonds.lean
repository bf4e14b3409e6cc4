import Fonds.Text.Blank
import Fonds.Ordered.Map
import Fonds.Decimal.Reading
import Fonds.Json.Printer
import Fonds.Json.Reader
import Fonds.Keyword
import Fonds.Literal
import Fonds.Name
import Fonds.Ordered.NonEmpty
import Fonds.Query.Operator
import Fonds.Request.Kind
import Fonds.Query.Printer
import Fonds.Query.Reader
import Fonds.Filter.Reader
import Fonds.Projection.Reader
import Fonds.Facet.Printer
import Fonds.Facet.Reader
import Fonds.Action.Printer
import Fonds.Action.Reader
import Fonds.Request.Printer
import Fonds.Request.Reader
import Fonds.Request.Edit
import Fonds.Settings.Check
import Fonds.Settings.Reader
import Fonds.Store.Predicate
import Fonds.Store.Results
import Fonds.Store.Update
import Fonds.Store.Aggregation
import Fonds.Plan.Compile
import Fonds.Plan.OfRequest
import Fonds.Main
import Fonds.Proofs.Outcome
import Fonds.Proofs.Query.Compiled
import Fonds.Proofs.Store.Connectives
import Fonds.Proofs.Store.Meaning
import Fonds.Proofs.Query.Meaning
import Fonds.Proofs.Graph.Archive
import Fonds.Proofs.Graph.Documents
import Fonds.Proofs.Graph.Scopes
import Fonds.Proofs.Store.WellFormed
import Fonds.Proofs.Plan.Steps
import Fonds.Proofs.Graph.Run
import Fonds.Proofs.Plan.Scopes
import Fonds.Proofs.Plan.WellFormed
import Fonds.Proofs.RoundTrip.Query
import Fonds.Proofs.RoundTrip.Filter
import Fonds.Proofs.RoundTrip.Action
import Fonds.Proofs.RoundTrip.Projection
import Fonds.Proofs.RoundTrip.Facet
import Fonds.Proofs.RoundTrip.Request
import Fonds.Proofs.Graph.Line
import Fonds.Proofs.Graph.Path
import Fonds.Proofs.Graph.ExactDepth
import Fonds.Proofs.Graph.TopLevel
import Fonds.Proofs.Grammar.Query
import Fonds.Proofs.Grammar.Operands
import Fonds.Proofs.Grammar.Keys
import Fonds.Proofs.Grammar.Accepted
import Fonds.Proofs.Store.Tests
import Fonds.Proofs.Query.Tests
import Fonds.Proofs.Store.Rendering
import Fonds.Proofs.Store.Keys
import Fonds.Proofs.Plan.Fields
import Fonds.Proofs.Query.Depth
import Fonds.Proofs.Plan.Tests
import Fonds.Proofs.Plan.FullText
import Fonds.Proofs.Plan.Rendering
import Fonds.Proofs.Plan.Course
import Fonds.Proofs.Plan.Refusals
import Fonds.Proofs.Plan.Warnings
import Fonds.Proofs.Plan.Depths
import Fonds.Proofs.Request.Edits
import Fonds.Proofs.Request.Parts
import Fonds.Proofs.Request.Independence
import Fonds.Proofs.Plan.Qualifiers
import Fonds.Proofs.Json.Text
import Fonds.Proofs.Settings.RoundTrip
import Fonds.Proofs.Grammar.Document
import Fonds.Proofs.Grammar.Lookup
import Fonds.Proofs.Grammar.Filter
import Fonds.Proofs.Grammar.Projection
import Fonds.Proofs.Grammar.Facet
import Fonds.Proofs.Grammar.Action
import Fonds.Proofs.Grammar.Request
import Fonds.Proofs.Grammar.Vocabulary
import Fonds.Proofs.Grammar.Keywords
import Fonds.Proofs.Grammar.Paths
import Fonds.Proofs.Grammar.Reordered
import Fonds.Proofs.Grammar.AnyOrder
import Fonds.Proofs.Ordered.Collected
import Fonds.Proofs.Plan.Updates
import Fonds.Proofs.Plan.Printed
import Fonds.Proofs.Plan.Order
import Fonds.Proofs.Plan.Nested
import Fonds.Proofs.Plan.Aggregations
