import RelQuery.Expr.Eval
import RelQuery.Store.Catalog

/-!
# Inserting rows

A row to be inserted is given by expressions for some columns. They are evaluated, integers are
brought to the width of their column, and the values are put into the order of the table's columns.
Rows are stored one by one, so that those before a faulty one stay.
-/

namespace RelQuery

def coerce (column : Column) (v : Value) : Except QueryError Value :=
  match column.type, v with
  | .int, .bigint i =>
    match int32? i.toInt with
    | some n => .ok (.int n)
    | none => .error (.arithmetic (.outOfRange i column.name))
  | .bigint, .int i => .ok (.bigint (Int64.ofInt i.toInt))
  | .float, .int i => .ok (.float (Binary64.ofInt i.toInt))
  | .float, .bigint i => .ok (.float (Binary64.ofInt i.toInt))
  | _, v => .ok v

def givenValue (targets : List Column) (values : List Value) (column : Column) :
    Except QueryError Value :=
  let position := targets.findIdx? fun t => Text.eqIgnoringAsciiCase t.name column.name
  match position.bind (values[·]?) with
  | some v => .ok v
  | none => .error (.missingValue column.name)

def buildRow (targets : List Column) (schema : Schema) (exprs : List Expr) :
    Except QueryError Row := do
  if exprs.length ≠ targets.length then
    throw (.wrongArity targets.length exprs.length)
  let values ← (exprs.zip targets).mapM fun (e, target) => do
    coerce target (← e.evalRow Schema.empty [])
  let row ← schema.columns.mapM (givenValue targets values)
  match schema.checkRow row with
  | .ok row => .ok row
  | .error e => .error (.store e)

/-- Stores rows up to the first faulty one, and tells how many there were. -/
def insertRows (targets : List Column) (t : Table) :
    Nat → Catalog → List (List Expr) → Except QueryError Nat × Catalog
  | stored, c, [] => (.ok stored, c)
  | stored, c, exprs :: rows =>
    match buildRow targets t.schema exprs with
    | .error e => (.error e, c)
    | .ok row =>
      match c.insert t row with
      | .error e => (.error (.store e), c)
      | .ok (_, c) => insertRows targets t (stored + 1) c rows

end RelQuery
