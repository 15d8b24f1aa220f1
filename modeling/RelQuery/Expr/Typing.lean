import RelQuery.Expr.Basic

/-!
# Types of expressions

The type an expression has over a schema. A null literal is a string by itself and takes the other
operand's type in arithmetic; comparisons and logic are boolean whatever their operands are.
-/

namespace RelQuery

def DataType.numeric (t : DataType) : Except QueryError DataType :=
  if t.isNumeric then .ok t else .error (.typeMismatch "numeric" t.render)

namespace Expr

def arithType (op : ArithOp) (l r : Expr) (s t : DataType) : Except QueryError DataType :=
  match l.isNullLiteral, r.isNullLiteral with
  | true, true => .ok .bigint
  | true, false => t.numeric
  | false, true => s.numeric
  | false, false =>
    match s.promote t with
    | some u => .ok u
    | none =>
      .error (.typeMismatch "numeric" (s.render ++ " " ++ op.symbol ++ " " ++ t.render))

def aggregateType (fn : AggregateFn) (t : DataType) : DataType :=
  match fn with
  | .count => .bigint
  | .avg => .float
  | .sum => if t = .float then .float else .bigint
  | .min | .max => t

def aggregateRowsType (fn : AggregateFn) : Except QueryError DataType :=
  match fn with
  | .count | .sum => .ok .bigint
  | .avg => .ok .float
  | .min | .max => .error (.typeMismatch "an argument" (fn.name ++ "(*)"))

def typeIn (schema : Schema) : Expr → Except QueryError DataType
  | literal v => .ok (v.dataType?.getD .string)
  | column q n =>
    match (schema.resolve q n).bind (schema.columns[·]?) with
    | some c => .ok c.type
    | none => .error (.unknownColumn (qualifiedName q n))
  | binary op l r => do
    let s ← l.typeIn schema
    let t ← r.typeIn schema
    match op with
    | .concat => .ok .string
    | .compare _ | .logic _ => .ok .boolean
    | .arith op => arithType op l r s t
  | not e => do
    let _ ← e.typeIn schema
    .ok .boolean
  | aggregate fn e => do
    let t ← e.typeIn schema
    .ok (aggregateType fn t)
  | aggregateRows fn => aggregateRowsType fn

end Expr

end RelQuery
