import FederatedQuery.Attribute.Basic
import FederatedQuery.Attribute.Inference
import FederatedQuery.Attribute.Kind
import FederatedQuery.Attribute.Maker
import FederatedQuery.Compile.Aggregation
import FederatedQuery.Compile.Basic
import FederatedQuery.Compile.Error
import FederatedQuery.Compile.Grouping
import FederatedQuery.Decimal.Layout
import FederatedQuery.Decimal.Reader
import FederatedQuery.Decimal.Shortest
import FederatedQuery.Exchange
import FederatedQuery.Execution.Answer
import FederatedQuery.Execution.Computation
import FederatedQuery.Execution.Config
import FederatedQuery.Execution.Error
import FederatedQuery.Execution.Finish
import FederatedQuery.Execution.Pattern
import FederatedQuery.Execution.Plan
import FederatedQuery.Execution.Selection
import FederatedQuery.Expression.Basic
import FederatedQuery.Expression.Build
import FederatedQuery.Expression.Codec
import FederatedQuery.Expression.Error
import FederatedQuery.Expression.Evaluate
import FederatedQuery.Expression.Text
import FederatedQuery.Expression.Validate
import FederatedQuery.External.Basic
import FederatedQuery.External.Error
import FederatedQuery.External.Introspection
import FederatedQuery.External.Metadata
import FederatedQuery.External.Version
import FederatedQuery.Json.Basic
import FederatedQuery.Json.Parser
import FederatedQuery.Json.Printer
import FederatedQuery.Json.Record
import FederatedQuery.Native.Aggregator
import FederatedQuery.Native.Filter
import FederatedQuery.Native.Query
import FederatedQuery.Native.Restriction
import FederatedQuery.Plan.Basic
import FederatedQuery.Plan.Chain
import FederatedQuery.Plan.Pattern
import FederatedQuery.Proofs.Activity
import FederatedQuery.Proofs.Buckets
import FederatedQuery.Proofs.Calendar
import FederatedQuery.Proofs.Cancelling
import FederatedQuery.Proofs.Columns
import FederatedQuery.Proofs.Compilation
import FederatedQuery.Proofs.Contents
import FederatedQuery.Proofs.Decimals
import FederatedQuery.Proofs.Descent
import FederatedQuery.Proofs.Descriptors
import FederatedQuery.Proofs.Discovery
import FederatedQuery.Proofs.Documents
import FederatedQuery.Proofs.Doubles
import FederatedQuery.Proofs.Ending
import FederatedQuery.Proofs.Evaluation
import FederatedQuery.Proofs.FanOut
import FederatedQuery.Proofs.Filling
import FederatedQuery.Proofs.Filtering
import FederatedQuery.Proofs.Finishing
import FederatedQuery.Proofs.FiniteResults
import FederatedQuery.Proofs.Finiteness
import FederatedQuery.Proofs.FirstRequest
import FederatedQuery.Proofs.Grammar
import FederatedQuery.Proofs.HiddenColumns
import FederatedQuery.Proofs.Hoisting
import FederatedQuery.Proofs.Instants
import FederatedQuery.Proofs.Invariants
import FederatedQuery.Proofs.Keeping
import FederatedQuery.Proofs.Keys
import FederatedQuery.Proofs.Literals
import FederatedQuery.Proofs.Mantissas
import FederatedQuery.Proofs.Measures
import FederatedQuery.Proofs.NestedCells
import FederatedQuery.Proofs.Nesting
import FederatedQuery.Proofs.Operations
import FederatedQuery.Proofs.Ordering
import FederatedQuery.Proofs.Outcomes
import FederatedQuery.Proofs.Outputs
import FederatedQuery.Proofs.Overriding
import FederatedQuery.Proofs.PageBounds
import FederatedQuery.Proofs.Paging
import FederatedQuery.Proofs.Parts
import FederatedQuery.Proofs.Performing
import FederatedQuery.Proofs.Periods
import FederatedQuery.Proofs.Phases
import FederatedQuery.Proofs.Pipelines
import FederatedQuery.Proofs.Placement
import FederatedQuery.Proofs.Records
import FederatedQuery.Proofs.References
import FederatedQuery.Proofs.Reselection
import FederatedQuery.Proofs.RoundTrip
import FederatedQuery.Proofs.RowSorting
import FederatedQuery.Proofs.Rows
import FederatedQuery.Proofs.Safety
import FederatedQuery.Proofs.Sample
import FederatedQuery.Proofs.Settling
import FederatedQuery.Proofs.Shortest
import FederatedQuery.Proofs.Sources
import FederatedQuery.Proofs.StableSorting
import FederatedQuery.Proofs.Success
import FederatedQuery.Proofs.Surroundings
import FederatedQuery.Proofs.Tables
import FederatedQuery.Proofs.Totals
import FederatedQuery.Proofs.Translation
import FederatedQuery.Proofs.Truth
import FederatedQuery.Proofs.Unread
import FederatedQuery.Proofs.Validation
import FederatedQuery.Proofs.Versions
import FederatedQuery.Proofs.Width
import FederatedQuery.Proofs.Worlds
import FederatedQuery.Simulation.Backend
import FederatedQuery.Simulation.Computation
import FederatedQuery.Simulation.Running
import FederatedQuery.Simulation.Session
import FederatedQuery.Simulation.World
import FederatedQuery.Task
import FederatedQuery.Text.Blank
import FederatedQuery.Text.Digits
import FederatedQuery.Text.Printable
import FederatedQuery.Text.Quoted
import FederatedQuery.Text.Search
import FederatedQuery.Time.Calendar
import FederatedQuery.Time.Instant
import FederatedQuery.Time.Period
import FederatedQuery.Time.Printer
import FederatedQuery.Time.Range
import FederatedQuery.Time.Reader
import FederatedQuery.Value.Basic
import FederatedQuery.Value.Cell
import FederatedQuery.Value.Codec
import FederatedQuery.Value.Order
import FederatedQuery.Value.Plain
import FederatedQuery.Value.Table
import FederatedQuery.Value.Text
import FederatedQuery.Word
import FederatedQuery.Proofs.Intervals
import FederatedQuery.Proofs.Reading
import FederatedQuery.Proofs.Bounds
