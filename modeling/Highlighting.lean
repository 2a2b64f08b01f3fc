import Highlighting.Classification
import Highlighting.Config
import Highlighting.Delta
import Highlighting.Document
import Highlighting.Editor.Session
import Highlighting.Gate
import Highlighting.Metrics
import Highlighting.Proofs.Classification
import Highlighting.Proofs.Delta
import Highlighting.Proofs.Precedence
import Highlighting.Proofs.Reinstall
import Highlighting.Proofs.Teardown
import Highlighting.Style.Color
import Highlighting.Style.Table
import Highlighting.Task
import Highlighting.Token
import Highlighting.Tree.Builder
import Highlighting.Tree.Name
import Highlighting.Tree.Outline
import Highlighting.Proofs.Documents.Ownership
import Highlighting.Proofs.Documents.Foreign
import Highlighting.Proofs.Documents.Outsiders
import Highlighting.Proofs.Documents.Alike
import Highlighting.Proofs.Documents.Parallel
import Highlighting.Proofs.Documents.Companions
import Highlighting.Proofs.Documents.Noninterference
import Highlighting.Proofs.Editor.Compose
import Highlighting.Proofs.Flight
import Highlighting.Proofs.Metrics
import Highlighting.Proofs.Containment
import Highlighting.Proofs.Rendering.Core
import Highlighting.Proofs.Rendering.Unison
import Highlighting.Proofs.Rendering.Feedback
import Highlighting.Proofs.Pairing
import Highlighting.Proofs.Minimality
import Highlighting.Proofs.Tokens.Cancellation
import Highlighting.Proofs.Tokens.Contract
import Highlighting.Proofs.Painting
import Highlighting.Proofs.Provenance
import Highlighting.Proofs.Marks
import Highlighting.Proofs.Delivery
import Highlighting.Proofs.Building
import Highlighting.Proofs.RoundTrip
import Highlighting.Proofs.Names
import Highlighting.Proofs.Config.Order
import Highlighting.Proofs.Config.ByteOrder
import Highlighting.Proofs.Config.Styles
import Highlighting.Proofs.Toml.Keys
import Highlighting.Proofs.Config.Reading
import Highlighting.Proofs.Spelling
import Highlighting.Proofs.Hex
import Highlighting.Proofs.Records
import Highlighting.Proofs.Progress
import Highlighting.Proofs.Positions
