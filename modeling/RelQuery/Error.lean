import RelQuery.Data.Value

/-!
# Errors

The ways in which a request fails, and the text of each. A `StoreError` comes from the tables, a
`QueryError` from binding, planning or running a query; `QueryError.category` tells these apart.
-/

namespace RelQuery

/-! ## Tables -/

inductive StoreError
  | wrongType (column : DataType) (value : Value)
  | wrongWidth (values columns : Nat)
  | nullValue (column : String)
  | tooLong (column : String) (max : UInt32)
  | noColumns
  | repeatedColumn
  | wrongInsertWidth (table : String) (columns values : Nat)
  | tableNotFound (table : String)
  | tableExists (table : String)
deriving DecidableEq, Repr

namespace StoreError

/-- The longest value text that a message shows whole. -/
def maxShown : Nat := 100

def shownValue (v : Value) : String :=
  let text := v.render
  if maxShown < text.length then String.ofList (text.toList.take maxShown) ++ "..." else text

def invalid (reason : String) : String := "validation error: " ++ reason

def message : StoreError → String
  | wrongType column value =>
    "type mismatch: expected " ++ column.render ++ ", got " ++ value.typeName ++
      " (value: " ++ shownValue value ++ ")"
  | wrongWidth values columns =>
    invalid ("tuple has " ++ toString values ++ " values but schema has " ++ toString columns ++
      " columns")
  | nullValue column => invalid ("column " ++ column ++ " does not accept NULL")
  | tooLong column max =>
    invalid ("value for " ++ column ++ " exceeds VARCHAR(" ++ toString max.toNat ++ ")")
  | noColumns => invalid "schema must have at least one column"
  | repeatedColumn => invalid "schema column names must be unique"
  | wrongInsertWidth table columns values =>
    invalid ("table " ++ table ++ " expects " ++ toString columns ++ " values, got " ++
      toString values)
  | tableNotFound table => "table not found: " ++ table
  | tableExists table => "table already exists: " ++ table

end StoreError

/-! ## Queries -/

inductive ArithmeticFault
  | overflow (operation : String)
  | divisionByZero
  | outOfRange (value : Int64) (column : String)
deriving DecidableEq, Repr

inductive StateFault
  | notOpened (operator : String)
  | closed (operator : String)
  | noTable
  /-- A position lies outside the rows held in memory, which an opening that failed has replaced. -/
  | outsideBuffer
deriving DecidableEq, Repr

inductive QueryError
  | unknownColumn (column : String)
  | ambiguousColumn (column : String)
  | unknownQualifier (qualifier : String)
  | typeMismatch (expected actual : String)
  | aggregateInScalar (call : String)
  | wrongArity (expected actual : Nat)
  | noAlternative (node : String)
  | unsupportedNode (rule node : String)
  | missingValue (column : String)
  | arithmetic (fault : ArithmeticFault)
  | invalidState (fault : StateFault)
  | store (error : StoreError)
deriving DecidableEq, Repr

inductive ErrorCategory
  | binding
  | planning
  | execution
deriving DecidableEq, Repr

def ArithmeticFault.message : ArithmeticFault → String
  | overflow operation => "integer overflow in " ++ operation
  | divisionByZero => "division by zero"
  | outOfRange value column =>
    toString value.toInt ++ " is out of range for INT column " ++ column

def StateFault.message : StateFault → String
  | notOpened operator => operator ++ ": next() called before open()"
  | closed operator => operator ++ ": next() called after close()"
  | noTable => "Insert: table not acquired"
  | outsideBuffer => "position outside the rows in memory"

namespace QueryError

def category : QueryError → ErrorCategory
  | unknownColumn _ | ambiguousColumn _ | unknownQualifier _ | typeMismatch _ _
  | aggregateInScalar _ | wrongArity _ _ => .binding
  | noAlternative _ | unsupportedNode _ _ => .planning
  | missingValue _ | arithmetic _ | invalidState _ | store _ => .execution

def message : QueryError → String
  | unknownColumn column => "unknown column: " ++ column
  | ambiguousColumn column => "ambiguous column: " ++ column
  | unknownQualifier qualifier => "unknown table qualifier: " ++ qualifier
  | typeMismatch expected actual => "type mismatch: expected " ++ expected ++ ", got " ++ actual
  | aggregateInScalar call => "aggregate " ++ call ++ " cannot be evaluated in scalar context"
  | wrongArity expected actual =>
    "expected " ++ toString expected ++ " values, got " ++ toString actual
  | noAlternative node => "no physical alternative for " ++ node
  | unsupportedNode rule node => "unsupported logical node: " ++ rule ++ " applied to " ++ node
  | missingValue column => "column " ++ column ++ " not specified in INSERT and has no default"
  | arithmetic fault => "arithmetic error: " ++ fault.message
  | invalidState fault => "invalid operator state: " ++ fault.message
  | store error => error.message

end QueryError

end RelQuery
