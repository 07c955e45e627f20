import PropertyGraph.Builder.Backend
import PropertyGraph.Builder.Operation
import PropertyGraph.Client.Basic
import PropertyGraph.Client.Normalize
import PropertyGraph.Console.Completion
import PropertyGraph.Console.Report
import PropertyGraph.Console.Session
import PropertyGraph.Cypher.Compiler
import PropertyGraph.Cypher.Expression
import PropertyGraph.Cypher.ExpressionReader
import PropertyGraph.Cypher.ExpressionScript
import PropertyGraph.Cypher.Lexical
import PropertyGraph.Cypher.MatchScript
import PropertyGraph.Cypher.Query
import PropertyGraph.Cypher.QueryReader
import PropertyGraph.Cypher.ReturnScript
import PropertyGraph.Cypher.Scope
import PropertyGraph.Cypher.WriteScript
import PropertyGraph.Dictionary
import PropertyGraph.Error
import PropertyGraph.Formula.Evaluate
import PropertyGraph.Function.Apply
import PropertyGraph.Function.Basic
import PropertyGraph.Graph.Basic
import PropertyGraph.Graph.Metrics
import PropertyGraph.Json.Basic
import PropertyGraph.Json.Reader
import PropertyGraph.Main
import PropertyGraph.Number.Arithmetic
import PropertyGraph.Number.Binary64
import PropertyGraph.Number.Decimal
import PropertyGraph.Plan.Basic
import PropertyGraph.Program.Basic
import PropertyGraph.Program.Binary
import PropertyGraph.Program.Family
import PropertyGraph.Program.Groovy
import PropertyGraph.Program.Json
import PropertyGraph.Program.Predicate
import PropertyGraph.Program.StepKind
import PropertyGraph.Program.Token
import PropertyGraph.Proofs.Builder.Admission
import PropertyGraph.Proofs.Builder.Compiled
import PropertyGraph.Proofs.Builder.Correspondence
import PropertyGraph.Proofs.Builder.Equivalence
import PropertyGraph.Proofs.Builder.Insertion
import PropertyGraph.Proofs.Builder.Material
import PropertyGraph.Proofs.Builder.Parity
import PropertyGraph.Proofs.Builder.Refusal
import PropertyGraph.Proofs.Builder.Stages
import PropertyGraph.Proofs.Client.Accounts
import PropertyGraph.Proofs.Client.Changing
import PropertyGraph.Proofs.Client.Clear
import PropertyGraph.Proofs.Client.ClearColumns
import PropertyGraph.Proofs.Client.Create
import PropertyGraph.Proofs.Client.Delete
import PropertyGraph.Proofs.Client.Distinct
import PropertyGraph.Proofs.Client.Explain
import PropertyGraph.Proofs.Client.Idempotence
import PropertyGraph.Proofs.Client.Identity
import PropertyGraph.Proofs.Client.InlineProperties
import PropertyGraph.Proofs.Client.JsonForm
import PropertyGraph.Proofs.Client.Pages
import PropertyGraph.Proofs.Client.Parameters
import PropertyGraph.Proofs.Client.Portable
import PropertyGraph.Proofs.Client.ReadOnly
import PropertyGraph.Proofs.Client.Rows
import PropertyGraph.Proofs.Client.Structure
import PropertyGraph.Proofs.Cypher.AggregatedRows
import PropertyGraph.Proofs.Cypher.Aggregation
import PropertyGraph.Proofs.Cypher.Agreement
import PropertyGraph.Proofs.Cypher.Anonymous
import PropertyGraph.Proofs.Cypher.AsWritten
import PropertyGraph.Proofs.Cypher.BoundStart
import PropertyGraph.Proofs.Cypher.ClauseAgreement
import PropertyGraph.Proofs.Cypher.ClauseNames
import PropertyGraph.Proofs.Cypher.ClauseTokens
import PropertyGraph.Proofs.Cypher.Columns
import PropertyGraph.Proofs.Cypher.Compilation
import PropertyGraph.Proofs.Cypher.Computation
import PropertyGraph.Proofs.Cypher.Condition
import PropertyGraph.Proofs.Cypher.Correspondence
import PropertyGraph.Proofs.Cypher.Courses
import PropertyGraph.Proofs.Cypher.CreateClause
import PropertyGraph.Proofs.Cypher.Creating
import PropertyGraph.Proofs.Cypher.Creation
import PropertyGraph.Proofs.Cypher.DeleteClause
import PropertyGraph.Proofs.Cypher.Delivery
import PropertyGraph.Proofs.Cypher.DistinctRows
import PropertyGraph.Proofs.Cypher.EarlyFilter
import PropertyGraph.Proofs.Cypher.Equality
import PropertyGraph.Proofs.Cypher.EscapedNames
import PropertyGraph.Proofs.Cypher.Evaluation
import PropertyGraph.Proofs.Cypher.ExpressionSoundness
import PropertyGraph.Proofs.Cypher.Finding
import PropertyGraph.Proofs.Cypher.Grouping
import PropertyGraph.Proofs.Cypher.InlineProperty
import PropertyGraph.Proofs.Cypher.Layout
import PropertyGraph.Proofs.Cypher.Levels
import PropertyGraph.Proofs.Cypher.Lexemes
import PropertyGraph.Proofs.Cypher.Literals
import PropertyGraph.Proofs.Cypher.Making
import PropertyGraph.Proofs.Cypher.Matches
import PropertyGraph.Proofs.Cypher.Matching
import PropertyGraph.Proofs.Cypher.Names
import PropertyGraph.Proofs.Cypher.Numerals
import PropertyGraph.Proofs.Cypher.Operands
import PropertyGraph.Proofs.Cypher.Padding
import PropertyGraph.Proofs.Cypher.Paired
import PropertyGraph.Proofs.Cypher.Passage
import PropertyGraph.Proofs.Cypher.PathLoop
import PropertyGraph.Proofs.Cypher.PatternScript
import PropertyGraph.Proofs.Cypher.PatternShape
import PropertyGraph.Proofs.Cypher.PatternSoundness
import PropertyGraph.Proofs.Cypher.PatternTokens
import PropertyGraph.Proofs.Cypher.Precedence
import PropertyGraph.Proofs.Cypher.Primaries
import PropertyGraph.Proofs.Cypher.Printing
import PropertyGraph.Proofs.Cypher.PropertyTests
import PropertyGraph.Proofs.Cypher.QueryMaterial
import PropertyGraph.Proofs.Cypher.QuerySoundness
import PropertyGraph.Proofs.Cypher.QueryTokens
import PropertyGraph.Proofs.Cypher.Reach
import PropertyGraph.Proofs.Cypher.Readiness
import PropertyGraph.Proofs.Cypher.Reading
import PropertyGraph.Proofs.Cypher.Readings
import PropertyGraph.Proofs.Cypher.Recursion
import PropertyGraph.Proofs.Cypher.ReturnSoundness
import PropertyGraph.Proofs.Cypher.RoundTrip
import PropertyGraph.Proofs.Cypher.Rows
import PropertyGraph.Proofs.Cypher.Scanning
import PropertyGraph.Proofs.Cypher.Scoping
import PropertyGraph.Proofs.Cypher.ScriptMaterial
import PropertyGraph.Proofs.Cypher.Sequences
import PropertyGraph.Proofs.Cypher.SetClause
import PropertyGraph.Proofs.Cypher.SignedNumbers
import PropertyGraph.Proofs.Cypher.SimplePaths
import PropertyGraph.Proofs.Cypher.Sorts
import PropertyGraph.Proofs.Cypher.Statements
import PropertyGraph.Proofs.Cypher.Steadiness
import PropertyGraph.Proofs.Cypher.Tokens
import PropertyGraph.Proofs.Cypher.VariableLength
import PropertyGraph.Proofs.Cypher.Variables
import PropertyGraph.Proofs.Cypher.WriteSoundness
import PropertyGraph.Proofs.Formula.Grammar
import PropertyGraph.Proofs.Formula.Recognition
import PropertyGraph.Proofs.Function.Arithmetic
import PropertyGraph.Proofs.Function.Results
import PropertyGraph.Proofs.Graph.Consistency
import PropertyGraph.Proofs.Graph.History
import PropertyGraph.Proofs.Graph.Labels
import PropertyGraph.Proofs.Graph.Removal
import PropertyGraph.Proofs.Json.Reading
import PropertyGraph.Proofs.Number.Rounding
import PropertyGraph.Proofs.Program.Binary
import PropertyGraph.Proofs.Program.Contents
import PropertyGraph.Proofs.Program.Floats
import PropertyGraph.Proofs.Program.Json
import PropertyGraph.Proofs.Program.Kinds
import PropertyGraph.Proofs.Program.Quoting
import PropertyGraph.Proofs.Run.Discipline
import PropertyGraph.Proofs.Run.Expansion
import PropertyGraph.Proofs.Run.Groups
import PropertyGraph.Proofs.Run.Independence
import PropertyGraph.Proofs.Run.Iteration
import PropertyGraph.Proofs.Run.Metrics
import PropertyGraph.Proofs.Run.Nesting
import PropertyGraph.Proofs.Run.Observation
import PropertyGraph.Proofs.Run.PlanSoundness
import PropertyGraph.Proofs.Run.Respect
import PropertyGraph.Proofs.Run.Single
import PropertyGraph.Proofs.Run.Sorting
import PropertyGraph.Proofs.Run.Soundness
import PropertyGraph.Proofs.Run.Strict
import PropertyGraph.Proofs.Run.Sums
import PropertyGraph.Proofs.Run.View
import PropertyGraph.Proofs.Server.Status
import PropertyGraph.Proofs.Value.Equality
import PropertyGraph.Proofs.Value.Json
import PropertyGraph.Proofs.Value.Preorder
import PropertyGraph.Run.Arrange
import PropertyGraph.Run.Branch
import PropertyGraph.Run.Collect
import PropertyGraph.Run.Effect
import PropertyGraph.Run.Exec
import PropertyGraph.Run.Fault
import PropertyGraph.Run.Filter
import PropertyGraph.Run.Navigate
import PropertyGraph.Run.Plan
import PropertyGraph.Run.Sorter
import PropertyGraph.Run.Traverser
import PropertyGraph.Server.Routes
import PropertyGraph.Text.Casing
import PropertyGraph.Text.CharClass
import PropertyGraph.Text.Columns
import PropertyGraph.Text.Quoted
import PropertyGraph.Value.Basic
import PropertyGraph.Value.Json
import PropertyGraph.Value.Order
import PropertyGraph.Value.Text
