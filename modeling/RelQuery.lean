import RelQuery.Cost.Model
import RelQuery.Cost.Scalar
import RelQuery.Data.Compare
import RelQuery.Data.DataType
import RelQuery.Data.Key
import RelQuery.Data.Schema
import RelQuery.Data.Value
import RelQuery.Engine
import RelQuery.Error
import RelQuery.Expr.Basic
import RelQuery.Expr.ColumnRef
import RelQuery.Expr.Conjunct
import RelQuery.Expr.Eval
import RelQuery.Expr.Typing
import RelQuery.Json.Basic
import RelQuery.Json.Reader
import RelQuery.Json.Writer
import RelQuery.Number.Binary64
import RelQuery.Number.Checked
import RelQuery.Number.Decimal
import RelQuery.Plan.Basic
import RelQuery.Plan.Memo
import RelQuery.Plan.Rule
import RelQuery.Plan.Search
import RelQuery.Plan.Tree
import RelQuery.Query.Basic
import RelQuery.Query.JoinOrder
import RelQuery.Query.Passes
import RelQuery.Query.Pruning
import RelQuery.Query.Pushdown
import RelQuery.Query.Tree
import RelQuery.Run.Executor
import RelQuery.Run.Grouping
import RelQuery.Run.HashJoin
import RelQuery.Run.History
import RelQuery.Run.Insertion
import RelQuery.Run.Lifecycle
import RelQuery.Run.LoopJoin
import RelQuery.Run.MergeJoin
import RelQuery.Run.Operator
import RelQuery.Run.Pull
import RelQuery.Store.Catalog
import RelQuery.Store.History
import RelQuery.Store.Statistics
import RelQuery.Stored
import RelQuery.Text.Case
import RelQuery.Text.CaseTable
import RelQuery.Text.Tree
import RelQuery.Proofs.Cost.Exact
import RelQuery.Proofs.Cost.Joins
import RelQuery.Proofs.Data.Choices
import RelQuery.Proofs.Data.Firsts
import RelQuery.Proofs.Data.KeyComparison
import RelQuery.Proofs.Data.Keys
import RelQuery.Proofs.Data.Lists
import RelQuery.Proofs.Data.Order
import RelQuery.Proofs.Data.Origin
import RelQuery.Proofs.Data.RowKeys
import RelQuery.Proofs.Data.Sift
import RelQuery.Proofs.Data.Transitivity
import RelQuery.Proofs.Data.Typed
import RelQuery.Proofs.Data.Yields
import RelQuery.Proofs.Engine
import RelQuery.Proofs.Expr.Conjunct
import RelQuery.Proofs.Expr.Conjunction
import RelQuery.Proofs.Expr.Equality
import RelQuery.Proofs.Expr.Integers
import RelQuery.Proofs.Expr.Look
import RelQuery.Proofs.Expr.OriginLook
import RelQuery.Proofs.Expr.PairLook
import RelQuery.Proofs.Expr.SiftLook
import RelQuery.Proofs.Expr.Typing
import RelQuery.Proofs.Number.Units
import RelQuery.Proofs.Number.Width
import RelQuery.Proofs.Plan.Accord
import RelQuery.Proofs.Plan.AggregateTypes
import RelQuery.Proofs.Plan.Answer
import RelQuery.Proofs.Plan.Baseline
import RelQuery.Proofs.Plan.Carry
import RelQuery.Proofs.Plan.Chosen
import RelQuery.Proofs.Plan.EquiKeys
import RelQuery.Proofs.Plan.Grouped
import RelQuery.Proofs.Plan.KeyJoins
import RelQuery.Proofs.Plan.Memo
import RelQuery.Proofs.Plan.Optimal
import RelQuery.Proofs.Query.Apart
import RelQuery.Proofs.Query.Arrange
import RelQuery.Proofs.Query.Cells
import RelQuery.Proofs.Query.Chain
import RelQuery.Proofs.Query.ClearKeys
import RelQuery.Proofs.Query.Coherent
import RelQuery.Proofs.Query.ColumnOrder
import RelQuery.Proofs.Query.Conserved
import RelQuery.Proofs.Query.Drawn
import RelQuery.Proofs.Query.FilterBy
import RelQuery.Proofs.Query.Filters
import RelQuery.Proofs.Query.Growth
import RelQuery.Proofs.Query.HandedOn
import RelQuery.Proofs.Query.Joined
import RelQuery.Proofs.Query.LeftDeep
import RelQuery.Proofs.Query.Narrow
import RelQuery.Proofs.Query.Neat
import RelQuery.Proofs.Query.Over
import RelQuery.Proofs.Query.Pruning
import RelQuery.Proofs.Query.PushRounds
import RelQuery.Proofs.Query.Pushdown
import RelQuery.Proofs.Query.QualifiedNames
import RelQuery.Proofs.Query.Reorder
import RelQuery.Proofs.Query.Requirement
import RelQuery.Proofs.Query.Restore
import RelQuery.Proofs.Query.Rows
import RelQuery.Proofs.Query.Scope
import RelQuery.Proofs.Query.Sinking
import RelQuery.Proofs.Query.WellScoped
import RelQuery.Proofs.Run.Aggregation
import RelQuery.Proofs.Run.CallValues
import RelQuery.Proofs.Run.EquiJoin
import RelQuery.Proofs.Run.Executor
import RelQuery.Proofs.Run.FailedStart
import RelQuery.Proofs.Run.Grouping
import RelQuery.Proofs.Run.Groups
import RelQuery.Proofs.Run.HashJoin
import RelQuery.Proofs.Run.History
import RelQuery.Proofs.Run.Insertion
import RelQuery.Proofs.Run.LoopJoin
import RelQuery.Proofs.Run.MergeJoin
import RelQuery.Proofs.Run.MergeRows
import RelQuery.Proofs.Run.Operator
import RelQuery.Proofs.Run.Results
import RelQuery.Proofs.Run.Supply
import RelQuery.Proofs.Store.Catalog
import RelQuery.Proofs.Store.Growth
import RelQuery.Proofs.Store.History
import RelQuery.Proofs.Text.Names
