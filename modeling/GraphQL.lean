import GraphQL.Inspection
import GraphQL.Json.Parser
import GraphQL.Schema.Introspection
import GraphQL.Script.Session
import GraphQL.Proofs.Selection.Grouping
import GraphQL.Proofs.Selection.Walk
import GraphQL.Proofs.Selection.Occurrences
import GraphQL.Proofs.Selection.Exclusion
import GraphQL.Proofs.Selection.Repetition
import GraphQL.Proofs.Selection.Trace
import GraphQL.Proofs.Document.Inlining
import GraphQL.Proofs.Selection.Inlining
import GraphQL.Proofs.Schema.LeafForm
import GraphQL.Proofs.Execution.Place
import GraphQL.Proofs.Execution.Examination
import GraphQL.Proofs.Execution.Filling
import GraphQL.Proofs.Execution.Derivation
import GraphQL.Proofs.Execution.Run
import GraphQL.Proofs.Execution.Simulation
import GraphQL.Proofs.Execution.Serial
import GraphQL.Proofs.Execution.Validity
import GraphQL.Proofs.Execution.Reach
import GraphQL.Proofs.Execution.Correspondence
import GraphQL.Proofs.Execution.Agreement
import GraphQL.Proofs.Response.Conformance
import GraphQL.Proofs.Response.Data
import GraphQL.Proofs.Response.Failures
import GraphQL.Proofs.Response.NullPropagation
import GraphQL.Proofs.Response.Hiding
import GraphQL.Proofs.Response.Isolation
import GraphQL.Proofs.Execution.Order
import GraphQL.Proofs.Document.Rewriting
import GraphQL.Proofs.Calls.Recording
import GraphQL.Proofs.Calls.Views
import GraphQL.Proofs.Selection.Splitting
import GraphQL.Proofs.Calls.Notes
import GraphQL.Proofs.Calls.Sequence
import GraphQL.Proofs.Calls.Resolution
import GraphQL.Proofs.Calls.Inlining
import GraphQL.Proofs.Execution.AnyOrder
import GraphQL.Proofs.Coercion.InputForm
import GraphQL.Proofs.Coercion.Variables
import GraphQL.Proofs.Coercion.Arguments
import GraphQL.Proofs.Coercion.Nulls
import GraphQL.Proofs.Coercion.Omission
import GraphQL.Proofs.Execution.Plain
import GraphQL.Proofs.Response.Projection
import GraphQL.Proofs.Document.Aliases
import GraphQL.Proofs.Response.Idempotence
import GraphQL.Proofs.Binary64.IntegerText
import GraphQL.Proofs.Coercion.Agreement
import GraphQL.Proofs.Coercion.Stability
import GraphQL.Proofs.Calls.Splitting
import GraphQL.Proofs.Execution.Renaming
import GraphQL.Proofs.Selection.Renaming
import GraphQL.Proofs.Calls.Renaming
import GraphQL.Proofs.Response.RoundTrip
import GraphQL.Proofs.Schema.PossibleTypes
import GraphQL.Proofs.Schema.Membership
import GraphQL.Proofs.Calls.RuntimeType
import GraphQL.Proofs.Calls.Items
import GraphQL.Proofs.Execution.Depth
import GraphQL.Proofs.Document.Selecting
import GraphQL.Proofs.Calls.Refusal
import GraphQL.Proofs.Coercion.Integers
import GraphQL.Proofs.Coercion.Circles
import GraphQL.Proofs.Schema.Building
import GraphQL.Proofs.Execution.Nesting
