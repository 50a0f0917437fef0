import BodyCallout.Command.Options
import BodyCallout.Command.Replay
import BodyCallout.Command.Serve
import BodyCallout.Data.Described
import BodyCallout.Data.Fault
import BodyCallout.Data.Held
import BodyCallout.Data.Shape
import BodyCallout.Json.Direct
import BodyCallout.Json.Layout
import BodyCallout.Json.Numeral
import BodyCallout.Json.Outline
import BodyCallout.Json.Tree
import BodyCallout.Json.Writer
import BodyCallout.Main
import BodyCallout.Service.Broadcast
import BodyCallout.Service.Connection
import BodyCallout.Service.Gate
import BodyCallout.Service.Server
import BodyCallout.Service.StreamKey
import BodyCallout.Session.Basic
import BodyCallout.Session.Builder
import BodyCallout.Session.Engine
import BodyCallout.Session.Shared
import BodyCallout.Settings.Address
import BodyCallout.Settings.Basic
import BodyCallout.Settings.Load
import BodyCallout.Settings.Rules
import BodyCallout.Store.Basic
import BodyCallout.Store.Buffer
import BodyCallout.Store.Correlation
import BodyCallout.Store.Journal
import BodyCallout.Store.Sweeper
import BodyCallout.Store.Table
import BodyCallout.Store.Transaction
import BodyCallout.Text.Blank
import BodyCallout.Text.Decimal
import BodyCallout.Text.LetterCase
import BodyCallout.Text.Quoted
import BodyCallout.Text.Scan
import BodyCallout.Text.Sorted
import BodyCallout.Text.Utf8
import BodyCallout.Toml.Document
import BodyCallout.Toml.Node
import BodyCallout.Toml.Number
import BodyCallout.Toml.Quoted
import BodyCallout.Wire.Answer
import BodyCallout.Wire.Event
import BodyCallout.Wire.Frame
import BodyCallout.Wire.Framing
import BodyCallout.Wire.Http
import BodyCallout.Wire.Mutation
import BodyCallout.Wire.Reader
import BodyCallout.Proofs.Json.Placing
import BodyCallout.Proofs.Json.Agreeing
import BodyCallout.Proofs.Json.Gathering
import BodyCallout.Proofs.Json.Holding
import BodyCallout.Proofs.Json.OneLine
import BodyCallout.Proofs.Json.Outlining
import BodyCallout.Proofs.Json.Spelling
import BodyCallout.Proofs.Json.Unions
import BodyCallout.Proofs.Session.Answering
import BodyCallout.Proofs.Session.Calls
import BodyCallout.Proofs.Session.Classifying
import BodyCallout.Proofs.Session.Footprint
import BodyCallout.Proofs.Session.History
import BodyCallout.Proofs.Session.Isolation
import BodyCallout.Proofs.Session.Opening
import BodyCallout.Proofs.Session.Outcome
import BodyCallout.Proofs.Session.Ownership
import BodyCallout.Proofs.Session.Stopping
import BodyCallout.Proofs.Session.Turns
import BodyCallout.Proofs.Session.Veil
import BodyCallout.Proofs.Store.Assembly
import BodyCallout.Proofs.Store.Coherence
import BodyCallout.Proofs.Store.Conservation
import BodyCallout.Proofs.Store.Lookup
import BodyCallout.Proofs.Store.Samples
import BodyCallout.Proofs.Text.Casing
import BodyCallout.Proofs.Text.Decoding
import BodyCallout.Proofs.Text.Encoding
import BodyCallout.Proofs.Text.Mentioning
import BodyCallout.Proofs.Text.Trimming
import BodyCallout.Proofs.Wire.Reading
import BodyCallout.Proofs.Wire.RoundTrip
import BodyCallout.Proofs.Store.Idleness
import BodyCallout.Proofs.Session.Accounting
import BodyCallout.Proofs.Service.Naming
import BodyCallout.Proofs.Session.Keeping
import BodyCallout.Proofs.Service.Order
import BodyCallout.Proofs.Service.Flow
import BodyCallout.Proofs.Service.Demultiplexing
import BodyCallout.Proofs.Session.Telling
import BodyCallout.Proofs.Command.Exchange
import BodyCallout.Proofs.Service.Changes
import BodyCallout.Proofs.Service.Serving
import BodyCallout.Proofs.Service.Shutdown
import BodyCallout.Proofs.Service.Identities
import BodyCallout.Proofs.Service.Reuse
import BodyCallout.Proofs.Store.Filling
import BodyCallout.Proofs.Session.Reach
import BodyCallout.Proofs.Json.Unfinished
import BodyCallout.Proofs.Wire.Truncation
import BodyCallout.Proofs.Service.Lasting
import BodyCallout.Proofs.Service.Occupancy
import BodyCallout.Proofs.Session.Builders
import BodyCallout.Proofs.Service.Refusing
import BodyCallout.Proofs.Settings.Validity
import BodyCallout.Proofs.Json.Rearranging
import BodyCallout.Proofs.Wire.Buffering
import BodyCallout.Proofs.Wire.Defaulting
import BodyCallout.Proofs.Wire.Attaching
import BodyCallout.Proofs.Wire.Sizing
import BodyCallout.Proofs.Service.Starting
import BodyCallout.Proofs.Toml.Distinct
import BodyCallout.Proofs.Toml.Documents
import BodyCallout.Proofs.Toml.Records
import BodyCallout.Proofs.Settings.Overlay
