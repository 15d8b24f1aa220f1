import RelQuery.Data.Key
import RelQuery.Expr.Eval
import RelQuery.Query.Basic

/-!
# Grouping

Rows are grouped by the key of their grouping values. Each group keeps its first row and, for every
aggregate call of the output items, an accumulator; calls that are equal share one. An output item
is evaluated on the group's first row with its aggregate calls replaced by their results.
-/

namespace RelQuery

/-! ## Aggregate calls -/

/-- An aggregate call; without argument it is over whole rows. -/
structure AggregateCall where
  fn : AggregateFn
  argument : Option Expr

namespace AggregateCall

def eqv (c d : AggregateCall) : Bool := c.fn == d.fn && Query.eqvCondition c.argument d.argument

def addTo (calls : List AggregateCall) (c : AggregateCall) : List AggregateCall :=
  if calls.any (·.eqv c) then calls else calls ++ [c]

end AggregateCall

namespace Expr

/-- The outermost aggregate calls at their places. -/
def aggregateCalls : Expr → List AggregateCall
  | literal _ | column _ _ => []
  | binary _ l r => l.aggregateCalls ++ r.aggregateCalls
  | not e => e.aggregateCalls
  | aggregate fn e => [⟨fn, some e⟩]
  | aggregateRows fn => [⟨fn, none⟩]

/-- The result of a call: that of the first equal one, and null when there is none. -/
def resultOf (results : List (AggregateCall × Value)) (c : AggregateCall) : Value :=
  ((results.find? fun r => r.1.eqv c).map (·.2)).getD .null

def withResults (results : List (AggregateCall × Value)) : Expr → Expr
  | literal v => literal v
  | column q n => column q n
  | binary op l r => binary op (l.withResults results) (r.withResults results)
  | not e => not (e.withResults results)
  | aggregate fn e => literal (resultOf results ⟨fn, some e⟩)
  | aggregateRows fn => literal (resultOf results ⟨fn, none⟩)

end Expr

def callsOf (outputs : List Item) : List AggregateCall :=
  (outputs.flatMap fun i => i.expr.aggregateCalls).foldl AggregateCall.addTo []

/-! ## Accumulators -/

inductive Accumulator
  | count (n : Nat)
  /-- Integers are added up exactly, and beside them the floats. -/
  | sum (integers : Int64) (floats : Binary64) (sawFloat : Bool)
  | avg (total : Binary64) (n : Nat)
  | min (least : Option Value)
  | max (greatest : Option Value)

namespace Accumulator

def start : AggregateFn → Accumulator
  | .count => count 0
  | .sum => sum 0 .zero false
  | .avg => avg .zero 0
  | .min => min none
  | .max => max none

/-- Takes in a row for a call over whole rows: only a count sees it. -/
def takeRow : Accumulator → Accumulator
  | count n => count (n + 1)
  | a => a

/-- The value to keep: `v` where nothing is kept or it compares with that as `wanted`. -/
def kept (wanted : Ordering) (old : Option Value) (v : Value) :
    Except QueryError (Option Value) :=
  match old with
  | none => .ok (some v)
  | some w => do return if (← v.compare w) = wanted then some v else some w

/-- Takes in a value that is not null. -/
def takeValue (v : Value) : Accumulator → Except QueryError Accumulator
  | count n => .ok (count (n + 1))
  | sum integers floats sawFloat =>
    match v.number? with
    | some (.float x) => .ok (sum integers (floats + x) true)
    | some (.integer i) =>
      match int64? (integers.toInt + i) with
      | some total => .ok (sum total floats sawFloat)
      | none => .error (.arithmetic (.overflow "SUM"))
    | none => .error (.typeMismatch "numeric" v.typeName)
  | avg total n =>
    match v.number? with
    | some m => .ok (avg (total + m.toBinary64) (n + 1))
    | none => .error (.typeMismatch "numeric" v.typeName)
  | min least => do return min (← kept .lt least v)
  | max greatest => do return max (← kept .gt greatest v)

def take (a : Accumulator) (v : Value) : Except QueryError Accumulator :=
  if v.isNull then .ok a else a.takeValue v

def result : Accumulator → Value
  | count n => .bigint (Int64.ofNat n)
  | sum integers floats sawFloat =>
    if sawFloat then .float (floats + Binary64.ofInt integers.toInt) else .bigint integers
  | avg total n => .float (total / Binary64.ofInt (if n = 0 then 1 else n))
  | min v | max v => v.getD .null

def resultOfNothing : AggregateFn → Value
  | .count | .sum => .bigint 0
  | .avg | .min | .max => .null

end Accumulator

/-! ## Groups -/

structure Group where
  firstRow : Row
  accumulators : List Accumulator

/-- The groups by key in the order of their first rows. -/
abbrev Groups := List (List UInt8 × Group)

structure Grouping where
  groupBy : List Expr
  outputs : List Item
  schema : Schema
  qualifiers : List String

namespace Grouping

def calls (g : Grouping) : List AggregateCall := callsOf g.outputs

def eval (g : Grouping) (row : Row) (e : Expr) : Except QueryError Value :=
  e.evalBound g.schema g.qualifiers row

def accumulate (g : Grouping) (row : Row) (c : AggregateCall) (a : Accumulator) :
    Except QueryError Accumulator :=
  match c.argument with
  | none => .ok a.takeRow
  | some e => do a.take (← g.eval row e)

def accumulateAll (g : Grouping) (row : Row) (group : Group) : Except QueryError Group := do
  let accumulators ← (g.calls.zip group.accumulators).mapM fun (c, a) => g.accumulate row c a
  return { group with accumulators }

def newGroup (g : Grouping) (row : Row) : Group := ⟨row, g.calls.map fun c => .start c.fn⟩

def takeInto (g : Grouping) (key : List UInt8) (row : Row) : Groups → Except QueryError Groups
  | [] => do return [(key, ← g.accumulateAll row (g.newGroup row))]
  | (k, group) :: groups =>
    if k = key then do return (k, ← g.accumulateAll row group) :: groups
    else do return (k, group) :: (← g.takeInto key row groups)

def take (g : Grouping) (groups : Groups) (row : Row) : Except QueryError Groups := do
  let values ← g.groupBy.mapM (g.eval row)
  g.takeInto (Key.ofRow values) row groups

def outputRow (g : Grouping) (results : List Value) (row : Row) : Except QueryError Row :=
  g.outputs.mapM fun i => g.eval row (i.expr.withResults (g.calls.zip results))

def emptyRow (g : Grouping) : Except QueryError Row :=
  g.outputRow (g.calls.map fun c => Accumulator.resultOfNothing c.fn) (Row.nulls g.schema.width)

def groupRow (g : Grouping) (group : Group) : Except QueryError Row :=
  g.outputRow (group.accumulators.map Accumulator.result) group.firstRow

/-- One row per group; without grouping expressions there is always one. -/
def outputRows (g : Grouping) (groups : Groups) : Except QueryError (List Row) :=
  if groups.isEmpty && g.groupBy.isEmpty then do return [← g.emptyRow]
  else groups.mapM fun (_, group) => g.groupRow group

end Grouping

end RelQuery
