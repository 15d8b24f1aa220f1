import RelQuery.Data.Schema

/-!
# Expressions

The scalar expressions of queries, with their text. An aggregate call is an expression too; it has
a value only where rows are grouped.
-/

namespace RelQuery

/-! ## Operators -/

inductive ArithOp
  | add | sub | mul | div
deriving DecidableEq, Repr

inductive CompareOp
  | eq | ne | lt | le | gt | ge
deriving DecidableEq, Repr

inductive LogicOp
  | and | or
deriving DecidableEq, Repr

inductive BinaryOp
  | arith (op : ArithOp)
  | concat
  | compare (op : CompareOp)
  | logic (op : LogicOp)
deriving DecidableEq, Repr

def ArithOp.symbol : ArithOp → String
  | add => "+"
  | sub => "-"
  | mul => "*"
  | div => "/"

def CompareOp.symbol : CompareOp → String
  | eq => "="
  | ne => "<>"
  | lt => "<"
  | le => "<="
  | gt => ">"
  | ge => ">="

def CompareOp.holds : CompareOp → Ordering → Bool
  | eq, o => o == .eq
  | ne, o => o != .eq
  | lt, o => o == .lt
  | le, o => o != .gt
  | gt, o => o == .gt
  | ge, o => o != .lt

def LogicOp.symbol : LogicOp → String
  | and => "AND"
  | or => "OR"

def BinaryOp.symbol : BinaryOp → String
  | arith op => op.symbol
  | concat => "||"
  | compare op => op.symbol
  | logic op => op.symbol

/-! ## Aggregate functions -/

inductive AggregateFn
  | count | sum | avg | min | max
deriving DecidableEq, Repr

namespace AggregateFn

def name : AggregateFn → String
  | count => "COUNT"
  | sum => "SUM"
  | avg => "AVG"
  | min => "MIN"
  | max => "MAX"

def ofName? (s : String) : Option AggregateFn :=
  [count, sum, avg, min, max].find? fun f => Text.eqIgnoringAsciiCase f.name s

end AggregateFn

/-! ## Expressions -/

inductive Expr
  | literal (v : Value)
  | column (qualifier : Option String) (name : String)
  | binary (op : BinaryOp) (left right : Expr)
  | not (operand : Expr)
  | aggregate (fn : AggregateFn) (argument : Expr)
  /-- An aggregate call over whole rows, as in `COUNT(*)`. -/
  | aggregateRows (fn : AggregateFn)
deriving DecidableEq, Repr, Inhabited

def qualifiedName (qualifier : Option String) (name : String) : String :=
  match qualifier with
  | some q => q ++ "." ++ name
  | none => name

namespace Expr

def and (e f : Expr) : Expr := binary (.logic .and) e f

def isColumn : Expr → Bool
  | column _ _ => true
  | _ => false

def isNullLiteral : Expr → Bool
  | literal .null => true
  | _ => false

def columnName? : Expr → Option String
  | column _ name => some name
  | _ => none

def containsAggregate : Expr → Bool
  | literal _ | column _ _ => false
  | binary _ l r => l.containsAggregate || r.containsAggregate
  | not e => e.containsAggregate
  | aggregate _ _ | aggregateRows _ => true

def columnEquality? : Expr → Option (Expr × Expr)
  | binary (.compare .eq) l r => if l.isColumn && r.isColumn then some (l, r) else none
  | _ => none

/-- Equality of expressions, literals compared as values; a NaN literal differs from itself. -/
def eqv : Expr → Expr → Bool
  | literal v, literal w => v.eqv w
  | column q n, column q' n' => q == q' && n == n'
  | binary o l r, binary o' l' r' => o == o' && l.eqv l' && r.eqv r'
  | not e, not e' => e.eqv e'
  | aggregate f e, aggregate f' e' => f == f' && e.eqv e'
  | aggregateRows f, aggregateRows f' => f == f'
  | _, _ => false

def render : Expr → String
  | literal (.string s) => "'" ++ s ++ "'"
  | literal v => v.render
  | column q n => qualifiedName q n
  | binary op l r => "(" ++ l.render ++ " " ++ op.symbol ++ " " ++ r.render ++ ")"
  | not e => "NOT " ++ e.render
  | aggregate f e => f.name ++ "(" ++ e.render ++ ")"
  | aggregateRows f => f.name ++ "(*)"

end Expr

end RelQuery
