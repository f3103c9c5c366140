import Metrology.Action
import Metrology.Axis
import Metrology.Catalogue.Base
import Metrology.Catalogue.Derived
import Metrology.Catalogue.Loading
import Metrology.Catalogue.Prefixes
import Metrology.Catalogue.Row
import Metrology.Conversion
import Metrology.Conversion.Report
import Metrology.Decimal
import Metrology.Decimal.Binary
import Metrology.Decimal.Notation
import Metrology.Decimal.Rounded
import Metrology.Decimal.Shortest
import Metrology.Dimension
import Metrology.Dimension.Code
import Metrology.Error
import Metrology.Error.Message
import Metrology.Expression.Parser
import Metrology.Expression.Scanner
import Metrology.Expression.Token
import Metrology.Factor
import Metrology.Factor.Report
import Metrology.Graph.EdgeStore
import Metrology.Graph.Network
import Metrology.Graph.Routes
import Metrology.Prefix
import Metrology.Prefix.Magnitude
import Metrology.Register
import Metrology.Scalar
import Metrology.Service.Document
import Metrology.Service.Endpoint
import Metrology.Service.Request
import Metrology.Service.Target
import Metrology.Session
import Metrology.Session.Base
import Metrology.Session.Change
import Metrology.Session.Merge
import Metrology.Session.Query
import Metrology.Text.Blank
import Metrology.Text.Capital
import Metrology.Text.Digit
import Metrology.Text.Letter
import Metrology.Text.Quoted
import Metrology.Text.Range
import Metrology.Text.Superscript
import Metrology.Unit
import Metrology.Unit.Compound
import Metrology.Unit.ExponentInput
import Metrology.Unit.Lexicon
import Metrology.Unit.QuantityType
import Metrology.Unit.System
import Metrology.Unit.Term
import Metrology.Proofs.ExactNumber
import Metrology.Proofs.Graph.Walk
import Metrology.Proofs.Graph.Growth
import Metrology.Proofs.Graph.Search
import Metrology.Proofs.Graph.StoredPaths
import Metrology.Proofs.Graph.Completeness
import Metrology.Proofs.Expression.Reading
import Metrology.Proofs.Expression.Scanning
import Metrology.Proofs.Unit.Writing
import Metrology.Proofs.Action
import Metrology.Proofs.Outcome
import Metrology.Proofs.Unit.Product
import Metrology.Proofs.Catalogue.Symbols
import Metrology.Proofs.Catalogue.Registered
import Metrology.Proofs.Catalogue.Representation
import Metrology.Proofs.Catalogue.Precedence
import Metrology.Proofs.Unit.Resolving
import Metrology.Proofs.Unit.RoundTrip
import Metrology.Proofs.Unit.Size
import Metrology.Proofs.Catalogue.Dimensions
import Metrology.Proofs.Unit.Dimension
import Metrology.Proofs.Unit.Weighing
import Metrology.Proofs.Unit.Algebra
import Metrology.Proofs.Graph.Store
import Metrology.Proofs.Session.Fitting
import Metrology.Proofs.Session.Remembering
import Metrology.Proofs.Session.Reduction
import Metrology.Proofs.Session.Answering
import Metrology.Proofs.Session.Merging
import Metrology.Proofs.Session.Expansion
import Metrology.Proofs.Session.Soundness
import Metrology.Proofs.Session.Quantities
import Metrology.Proofs.Expression.Grammar
import Metrology.Proofs.Expression.Acceptance
import Metrology.Proofs.Graph.Learning
import Metrology.Proofs.Graph.Keys
import Metrology.Proofs.Session.History
import Metrology.Proofs.Session.Lookup
import Metrology.Proofs.Session.Asking
import Metrology.Proofs.Session.Runs
import Metrology.Proofs.Session.NormalForm
import Metrology.Proofs.Session.Provenance
import Metrology.Proofs.Register
import Metrology.Proofs.Catalogue.Consistency
import Metrology.Proofs.Graph.Rebuilding
import Metrology.Proofs.Graph.Editing
import Metrology.Proofs.Graph.Reordering
import Metrology.Proofs.Session.Journal
import Metrology.Proofs.Parallel
import Metrology.Proofs.Graph.Agreement
import Metrology.Proofs.Session.NonZero
import Metrology.Proofs.Session.Echo
import Metrology.Proofs.Session.Settling
import Metrology.Proofs.Session.Comparing
import Metrology.Proofs.Session.Replies
import Metrology.Proofs.Catalogue.Loading
import Metrology.Proofs.Session.Refusal
import Metrology.Proofs.Unit.Total
import Metrology.Proofs.Graph.Dimensioned
import Metrology.Proofs.Session.Tending
import Metrology.Proofs.Session.Reciprocity
import Metrology.Proofs.Unit.Small
import Metrology.Proofs.Graph.Buildable
import Metrology.Proofs.Session.Reducible
import Metrology.Proofs.Session.Gathering
import Metrology.Proofs.Session.Lifting
import Metrology.Proofs.Ending
import Metrology.Proofs.Arithmetic
import Metrology.Proofs.Graph.Finding
import Metrology.Proofs.Session.Relating
import Metrology.Proofs.Session.Knowing
import Metrology.Proofs.Session.Granting
import Metrology.Proofs.Session.Unchanged
import Metrology.Proofs.Session.Recent
import Metrology.Proofs.Session.Extending
import Metrology.Proofs.Session.Convertibility
import Metrology.Proofs.Session.Transitivity
import Metrology.Proofs.Session.Persistence
import Metrology.Proofs.Session.Honouring
import Metrology.Proofs.Session.Readability
import Metrology.Proofs.Session.Answerable
import Metrology.Proofs.Service.Statuses
import Metrology.Proofs.Expression.Characters
import Metrology.Proofs.Expression.Lexing
import Metrology.Proofs.Expression.Respelling
import Metrology.Proofs.Session.Calls
import Metrology.Proofs.Session.Termination
import Metrology.Proofs.Dimension.Algebra
import Metrology.Proofs.Expression.Covering
import Metrology.Proofs.Graph.Choosing
import Metrology.Proofs.Unit.Homomorphism
import Metrology.Proofs.Graph.Accounting
import Metrology.Proofs.Session.Atomicity
import Metrology.Proofs.Session.Identity
import Metrology.Proofs.Unit.BaseProduct
import Metrology.Proofs.Session.Anchoring
import Metrology.Proofs.Session.BaseUnits
import Metrology.Proofs.Double.Sign
import Metrology.Proofs.Double.Magnitude
import Metrology.Proofs.Double.Powers
import Metrology.Proofs.Session.Positivity
