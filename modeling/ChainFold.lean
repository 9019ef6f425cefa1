import ChainFold.Archive
import ChainFold.Chain
import ChainFold.Digest.Sha256
import ChainFold.Double.Basic
import ChainFold.Double.Decimal
import ChainFold.Double.Significant
import ChainFold.Engine.Basic
import ChainFold.Engine.Lifecycle
import ChainFold.Engine.Reading
import ChainFold.Engine.Resolution
import ChainFold.Engine.Session
import ChainFold.Engine.Submission
import ChainFold.Engine.Together
import ChainFold.Event.Basic
import ChainFold.Event.Validation
import ChainFold.Failure
import ChainFold.Fold.Desk
import ChainFold.Fold.Recent
import ChainFold.Fold.State
import ChainFold.Json.Basic
import ChainFold.Json.Comparison
import ChainFold.Json.Key
import ChainFold.Json.Patch
import ChainFold.Json.Printer
import ChainFold.Json.Reader
import ChainFold.Log
import ChainFold.Payload
import ChainFold.Proofs.Archive
import ChainFold.Proofs.Archive.Parity
import ChainFold.Proofs.Archive.Places
import ChainFold.Proofs.Chain.Lineage
import ChainFold.Proofs.Chain.Ordering
import ChainFold.Proofs.Double.Parts
import ChainFold.Proofs.Double.Rounding
import ChainFold.Proofs.Double.Shortest
import ChainFold.Proofs.Engine.Admittance
import ChainFold.Proofs.Engine.Ancestry
import ChainFold.Proofs.Engine.Atomicity
import ChainFold.Proofs.Engine.Branches
import ChainFold.Proofs.Engine.Clients
import ChainFold.Proofs.Engine.Concord
import ChainFold.Proofs.Engine.Faithfulness
import ChainFold.Proofs.Engine.Filing
import ChainFold.Proofs.Engine.History
import ChainFold.Proofs.Engine.Indexing
import ChainFold.Proofs.Engine.Indifference
import ChainFold.Proofs.Engine.Isolation
import ChainFold.Proofs.Engine.Limits
import ChainFold.Proofs.Engine.Mirroring
import ChainFold.Proofs.Engine.Narrowing
import ChainFold.Proofs.Engine.Ownership
import ChainFold.Proofs.Engine.Permanence
import ChainFold.Proofs.Engine.Presence
import ChainFold.Proofs.Engine.Projection
import ChainFold.Proofs.Engine.Provenance
import ChainFold.Proofs.Engine.Refusals
import ChainFold.Proofs.Engine.Reliability
import ChainFold.Proofs.Engine.Repair
import ChainFold.Proofs.Engine.Replay
import ChainFold.Proofs.Engine.Ruling
import ChainFold.Proofs.Engine.Run
import ChainFold.Proofs.Engine.Scans
import ChainFold.Proofs.Engine.Search
import ChainFold.Proofs.Engine.Shapes
import ChainFold.Proofs.Engine.Soundness
import ChainFold.Proofs.Engine.Staleness
import ChainFold.Proofs.Engine.Steadiness
import ChainFold.Proofs.Engine.Tenancy
import ChainFold.Proofs.Engine.Traceless
import ChainFold.Proofs.Engine.Transparency
import ChainFold.Proofs.Engine.Verdict
import ChainFold.Proofs.Event.Encoding
import ChainFold.Proofs.Event.Envelope
import ChainFold.Proofs.Event.Payload
import ChainFold.Proofs.Event.WellFormed
import ChainFold.Proofs.Fold.Agreement
import ChainFold.Proofs.Fold.Desk
import ChainFold.Proofs.Fold.Recency
import ChainFold.Proofs.Fold.Restoring
import ChainFold.Proofs.Fold.Trust
import ChainFold.Proofs.Ident
import ChainFold.Proofs.Json.Equality
import ChainFold.Proofs.Json.Fidelity
import ChainFold.Proofs.Json.KeyOrder
import ChainFold.Proofs.Json.Members
import ChainFold.Proofs.Json.Numerals
import ChainFold.Proofs.Json.Parts
import ChainFold.Proofs.Json.Patching
import ChainFold.Proofs.Json.Reading
import ChainFold.Proofs.Json.Restoring
import ChainFold.Proofs.Json.Writing
import ChainFold.Proofs.Outcome
import ChainFold.Proofs.Registry
import ChainFold.Proofs.Registry.Entries
import ChainFold.Proofs.Signal
import ChainFold.Proofs.Signal.Containment
import ChainFold.Proofs.Signal.Options
import ChainFold.Proofs.Store.Agreement
import ChainFold.Proofs.Store.Image
import ChainFold.Proofs.Store.Listing
import ChainFold.Proofs.Store.Path
import ChainFold.Proofs.Store.Rows
import ChainFold.Proofs.Store.Staging
import ChainFold.Proofs.Store.Table
import ChainFold.Proofs.Text.Alphabets
import ChainFold.Proofs.Text.Codes
import ChainFold.Proofs.Uuid
import ChainFold.Proofs.Uuid.Spelling
import ChainFold.Registry
import ChainFold.Settings
import ChainFold.Signal
import ChainFold.Store.Backend
import ChainFold.Store.Call
import ChainFold.Store.Condition
import ChainFold.Store.Numeral
import ChainFold.Store.Path
import ChainFold.Store.Table
import ChainFold.Store.Tables
import ChainFold.Text.Characters
import ChainFold.Text.Codes
import ChainFold.Text.Integer
import ChainFold.Text.Quoted
import ChainFold.Uuid
import ChainFold.Yaml.Cursor
import ChainFold.Yaml.Layout
import ChainFold.Yaml.Moment
import ChainFold.Yaml.Node
import ChainFold.Yaml.Quoted
import ChainFold.Yaml.Reader
import ChainFold.Yaml.Scalar
import ChainFold.Yaml.Token
import ChainFold.Yaml.Unquoted
import ChainFold.Yaml.Value
