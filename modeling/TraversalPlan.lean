import TraversalPlan.Command.FileTree
import TraversalPlan.Main
import TraversalPlan.Proofs.Alias.Places
import TraversalPlan.Proofs.Lowering.Success
import TraversalPlan.Proofs.Traversal.Width
import TraversalPlan.Traversal.Build
import TraversalPlan.Proofs.Alias.Distinct
import TraversalPlan.Proofs.Expression.Formula
import TraversalPlan.Proofs.Predicate.Reading
import TraversalPlan.Proofs.Expression.Chain
import TraversalPlan.Proofs.Expression.Operand
import TraversalPlan.Proofs.Lowering.WhereReading
import TraversalPlan.Proofs.Lowering.Slots
import TraversalPlan.Proofs.Lowering.Depth
import TraversalPlan.Proofs.Lowering.Output
import TraversalPlan.Proofs.Lowering.Policy
import TraversalPlan.Proofs.Lowering.OneValue
import TraversalPlan.Proofs.Lowering.Aggregates
import TraversalPlan.Proofs.Lowering.Faults
import TraversalPlan.Proofs.Plan.Reading
import TraversalPlan.Proofs.Plan.Decoding
import TraversalPlan.Proofs.Plan.SourceIds
import TraversalPlan.Proofs.Json.RoundTrip
import TraversalPlan.Proofs.Json.Records
import TraversalPlan.Proofs.Json.Values
import TraversalPlan.Proofs.Json.Traversals
import TraversalPlan.Proofs.Json.Results
import TraversalPlan.Proofs.Lowering.Relocation
import TraversalPlan.Proofs.Lowering.PureSteps
import TraversalPlan.Proofs.Expression.Negation
import TraversalPlan.Proofs.Expression.Tests
import TraversalPlan.Proofs.Lowering.Complement
import TraversalPlan.Proofs.Lowering.Log
import TraversalPlan.Proofs.Lowering.Tally
import TraversalPlan.Proofs.Lowering.Interruption
import TraversalPlan.Proofs.Lowering.Parallel
import TraversalPlan.Proofs.Lowering.Nesting
import TraversalPlan.Proofs.Lowering.Seeds
import TraversalPlan.Proofs.Lowering.Comparisons
import TraversalPlan.Proofs.Expression.Rewriting
import TraversalPlan.Proofs.Expression.Filters
import TraversalPlan.Proofs.Lowering.SampleAmounts
import TraversalPlan.Proofs.Result.Decoding
import TraversalPlan.Proofs.Result.Records
import TraversalPlan.Proofs.Expression.Subjects
import TraversalPlan.Proofs.Alias.Columns
import TraversalPlan.Proofs.Value.Distinct
import TraversalPlan.Proofs.Plan.Rows
import TraversalPlan.Proofs.Lowering.Occurrences
import TraversalPlan.Proofs.Predicate.Parentheses
import TraversalPlan.Proofs.Lowering.Handouts
