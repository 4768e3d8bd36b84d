import SqlCompiler.Exchange.Error
import SqlCompiler.Exchange.Provider
import SqlCompiler.Exchange.Statement
import SqlCompiler.Exchange.Table
import SqlCompiler.Json.Parser
import SqlCompiler.Json.Printer
import SqlCompiler.Render.Script
import SqlCompiler.Exchange.Term
import SqlCompiler.Term.Normalize
import SqlCompiler.Term.Printer
import SqlCompiler.Exchange.Schema
import SqlCompiler.Exchange.Lowered
import SqlCompiler.Proofs.Rendering.ParameterBinding
import SqlCompiler.Proofs.Rendering.OpenedQueries
import SqlCompiler.Proofs.Lowering.Pipelines
import SqlCompiler.Proofs.Lowering.Frames
import SqlCompiler.Proofs.Lowering.RuleFrames
import SqlCompiler.Proofs.Lowering.History
import SqlCompiler.Proofs.Columns.Agreement
import SqlCompiler.Proofs.Columns.Names
import SqlCompiler.Proofs.Semantics.Rows
import SqlCompiler.Proofs.Groups.Counts
import SqlCompiler.Proofs.SetOperators.Sides
import SqlCompiler.Proofs.SetOperators.Results
import SqlCompiler.Proofs.Normalization.Preservation
import SqlCompiler.Proofs.Groups.Aggregation
import SqlCompiler.Proofs.Joins.Results
import SqlCompiler.Proofs.Membership.Subtypes
import SqlCompiler.Proofs.Paging.Emulation
import SqlCompiler.Proofs.Paging.NestedOrders
import SqlCompiler.Proofs.Idempotence.Statements
import SqlCompiler.Proofs.Modifications.Flattening
import SqlCompiler.Proofs.Modifications.TargetRows
import SqlCompiler.Proofs.Modifications.Resolution
import SqlCompiler.Proofs.Lowering.Propositions
import SqlCompiler.Proofs.Rendering.Tags
import SqlCompiler.Proofs.Reading.Literals
import SqlCompiler.Proofs.Columns.Assignment
import SqlCompiler.Proofs.Modifications.ChangedRows
import SqlCompiler.Proofs.Semantics.Nullability
import SqlCompiler.Proofs.Reading.Signs
import SqlCompiler.Proofs.Searches.CaseSensitive
import SqlCompiler.Proofs.Semantics.HostComparisons
import SqlCompiler.Proofs.Modifications.OutputClauses
import SqlCompiler.Proofs.Modifications.Upserts
import SqlCompiler.Proofs.Semantics.SpelledOperators
import SqlCompiler.Proofs.Columns.Pruning
import SqlCompiler.Proofs.Lowering.Aggregates
import SqlCompiler.Proofs.Columns.UnusedColumns
import SqlCompiler.Proofs.Lowering.RuleUses
import SqlCompiler.Proofs.Rendering.Templates
import SqlCompiler.Proofs.Queries.Recursion
import SqlCompiler.Proofs.Columns.Linkage
import SqlCompiler.Proofs.Rendering.Placeholders
import SqlCompiler.Proofs.Modifications.Settings
