import GraphQuery.Backend
import GraphQuery.Backend.Script
import GraphQuery.Call
import GraphQuery.Cancellation
import GraphQuery.Client
import GraphQuery.CommandLine.Invocation
import GraphQuery.CommandLine.Options
import GraphQuery.CommandLine.Run
import GraphQuery.Decimal.Binary
import GraphQuery.Decimal.Fixed
import GraphQuery.Decimal.Shortest
import GraphQuery.Decimal.Signed
import GraphQuery.Directive
import GraphQuery.Error
import GraphQuery.Filter
import GraphQuery.Json.Basic
import GraphQuery.Json.Fault
import GraphQuery.Json.Number
import GraphQuery.Json.Quoted
import GraphQuery.Json.Reader
import GraphQuery.Json.Skim
import GraphQuery.Json.Token
import GraphQuery.Main
import GraphQuery.Modifier
import GraphQuery.Name
import GraphQuery.Outcome
import GraphQuery.Parameters
import GraphQuery.Pool.Basic
import GraphQuery.Pool.Campaign
import GraphQuery.Pool.History
import GraphQuery.Pool.Ledger
import GraphQuery.Pool.Service
import GraphQuery.Pool.Stats
import GraphQuery.Pool.Step
import GraphQuery.Proofs.Acceptance
import GraphQuery.Proofs.Accounting
import GraphQuery.Proofs.Addressing
import GraphQuery.Proofs.Advances
import GraphQuery.Proofs.Agreement
import GraphQuery.Proofs.Arities
import GraphQuery.Proofs.Arranging
import GraphQuery.Proofs.Attempts
import GraphQuery.Proofs.Batching
import GraphQuery.Proofs.Bindings
import GraphQuery.Proofs.Blocks
import GraphQuery.Proofs.Brackets
import GraphQuery.Proofs.Clauses
import GraphQuery.Proofs.Compiling
import GraphQuery.Proofs.Conditions
import GraphQuery.Proofs.Conservation
import GraphQuery.Proofs.Course
import GraphQuery.Proofs.Decoding
import GraphQuery.Proofs.Documents
import GraphQuery.Proofs.Draining
import GraphQuery.Proofs.Endings
import GraphQuery.Proofs.Exchanges
import GraphQuery.Proofs.Families
import GraphQuery.Proofs.Filling
import GraphQuery.Proofs.Flushing
import GraphQuery.Proofs.Forests
import GraphQuery.Proofs.Fragments
import GraphQuery.Proofs.Grammar
import GraphQuery.Proofs.Guards
import GraphQuery.Proofs.Interning
import GraphQuery.Proofs.Noninterference
import GraphQuery.Proofs.Outcomes
import GraphQuery.Proofs.Payloads
import GraphQuery.Proofs.Predictions
import GraphQuery.Proofs.Quotation
import GraphQuery.Proofs.Readings
import GraphQuery.Proofs.Recovering
import GraphQuery.Proofs.References
import GraphQuery.Proofs.Refilling
import GraphQuery.Proofs.Registrations
import GraphQuery.Proofs.Replaying
import GraphQuery.Proofs.ResponseKeys
import GraphQuery.Proofs.Retries
import GraphQuery.Proofs.RoundTrip
import GraphQuery.Proofs.Rounds
import GraphQuery.Proofs.Scanning
import GraphQuery.Proofs.Settling
import GraphQuery.Proofs.Sheets
import GraphQuery.Proofs.SingleCalls
import GraphQuery.Proofs.Slots
import GraphQuery.Proofs.Standstill
import GraphQuery.Proofs.Tallies
import GraphQuery.Proofs.Unambiguous
import GraphQuery.Proofs.Waking
import GraphQuery.Query
import GraphQuery.Selection
import GraphQuery.Session
import GraphQuery.Settings
import GraphQuery.Settings.Datum
import GraphQuery.Settings.Json
import GraphQuery.Settings.Toml
import GraphQuery.Statement
import GraphQuery.Template
import GraphQuery.Text.Blank
import GraphQuery.Text.Visible
import GraphQuery.Toml.Quoted
import GraphQuery.Toml.Reader
import GraphQuery.Toml.Scalar
import GraphQuery.Toml.Value
import GraphQuery.Transaction
import GraphQuery.Value
import GraphQuery.Value.Json
