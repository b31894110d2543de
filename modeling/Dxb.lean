import Dxb.Endpoint.Holdings
import Dxb.Liveness.Simulation
import Dxb.Main
import Dxb.Proofs.Endpoint.Registry
import Dxb.Proofs.Endpoint.Ownership
import Dxb.Proofs.Endpoint.Histories
import Dxb.Proofs.Endpoint.Identity
import Dxb.Proofs.Bytes.HexText
import Dxb.Proofs.Endpoint.Designators
import Dxb.Proofs.Endpoint.NameSpelling
import Dxb.Proofs.Endpoint.Spelling
import Dxb.Proofs.Endpoint.Constructors
import Dxb.Proofs.Endpoint.RecordRoundTrip
import Dxb.Proofs.Endpoint.Matching
import Dxb.Proofs.Endpoint.HexNames
import Dxb.Proofs.Text.Indentation
import Dxb.Proofs.Text.Literals
import Dxb.Proofs.Text.PointerIds
import Dxb.Proofs.Bytes.Locality
import Dxb.Proofs.Bytes.SelfDelimiting
import Dxb.Proofs.Program.Run
import Dxb.Proofs.Program.Growth
import Dxb.Proofs.Program.Recovery
import Dxb.Proofs.Program.Nesting
import Dxb.Proofs.Program.Unguarded
import Dxb.Proofs.Bytes.Written
import Dxb.Proofs.Bytes.Buffers
import Dxb.Proofs.Bytes.Missing
import Dxb.Proofs.Bytes.Attempts
import Dxb.Proofs.Program.Trace
import Dxb.Proofs.Program.Layout
import Dxb.Proofs.Program.Sequence
import Dxb.Proofs.Program.Members
import Dxb.Proofs.Program.Connectives
import Dxb.Proofs.Program.Completion
import Dxb.Proofs.Quantity.Sums
import Dxb.Proofs.Quantity.Units
import Dxb.Proofs.Bytes.BigEndian
import Dxb.Proofs.Quantity.RoundTrip
import Dxb.Proofs.Quantity.Equality
import Dxb.Proofs.Quantity.Dimension
import Dxb.Proofs.Decimal.Places
import Dxb.Proofs.Decimal.Reading
import Dxb.Proofs.Decimal.Expansion
import Dxb.Proofs.Quantity.UnitText
import Dxb.Proofs.Quantity.Aliases
import Dxb.Proofs.Quantity.Amount
import Dxb.Proofs.Quantity.Display
import Dxb.Proofs.Quantity.Halved
import Dxb.Proofs.Quantity.BaseText
import Dxb.Proofs.Quantity.Shortened
import Dxb.Proofs.Endpoint.Wire
import Dxb.Proofs.Header.Layout
import Dxb.Proofs.Header.RoundTrip
import Dxb.Proofs.Liveness.Steps
import Dxb.Proofs.Liveness.History
import Dxb.Proofs.Liveness.Override
import Dxb.Proofs.Liveness.Sharing
import Dxb.Proofs.Liveness.Justification
import Dxb.Proofs.Liveness.Simulated
import Dxb.Proofs.Liveness.Routes
import Dxb.Proofs.Program.Writing
import Dxb.Proofs.Program.Graft
import Dxb.Proofs.Program.Append
import Dxb.Proofs.Program.Limit
import Dxb.Proofs.Program.Edits
import Dxb.Proofs.Program.OneInstruction
import Dxb.Proofs.Program.Options
import Dxb.Proofs.Program.Formatting
import Dxb.Proofs.Program.Elements
import Dxb.Proofs.Program.Provenance
import Dxb.Proofs.Text.Brackets
import Dxb.Proofs.Program.Brackets
import Dxb.Proofs.Program.Fragments
import Dxb.Proofs.Program.Keys
import Dxb.Proofs.Text.Hanging
import Dxb.Proofs.Program.Quotations
import Dxb.Proofs.CommandLine.MessageForms
