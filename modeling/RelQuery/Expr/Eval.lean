import RelQuery.Data.Compare
import RelQuery.Expr.Basic
import RelQuery.Number.Checked

/-!
# Evaluation

An expression is evaluated over the rows at hand, each with its schema and the names its scans go
by: one row, or the two rows that a join is about to combine. Nulls follow three-valued logic.
Both operands are evaluated before an operator is applied, the left one first.
-/

namespace RelQuery

/-! ## Logic -/

/-- A boolean operand; `none` is unknown. -/
def Value.truth : Value → Except QueryError (Option Bool)
  | .bool b => .ok (some b)
  | .null => .ok none
  | v => .error (.typeMismatch "BOOLEAN" v.typeName)

def LogicOp.decisive : LogicOp → Bool
  | and => false
  | or => true

def LogicOp.apply (op : LogicOp) (a b : Option Bool) : Value :=
  if a = some op.decisive ∨ b = some op.decisive then .bool op.decisive
  else if a = none ∨ b = none then .null
  else .bool (!op.decisive)

def Value.negation (v : Value) : Except QueryError Value := do
  match ← v.truth with
  | some b => .ok (.bool (!b))
  | none => .ok .null

/-! ## Arithmetic -/

namespace ArithOp

/-- The exact result, division rounding toward zero. -/
def onInt (op : ArithOp) (a b : Int) : Except QueryError Int :=
  match op with
  | add => .ok (a + b)
  | sub => .ok (a - b)
  | mul => .ok (a * b)
  | div => if b = 0 then .error (.arithmetic .divisionByZero) else .ok (a.tdiv b)

def onFloat (op : ArithOp) (x y : Binary64) : Except QueryError Binary64 :=
  match op with
  | add => .ok (x + y)
  | sub => .ok (x - y)
  | mul => .ok (x * y)
  | div => if y.isZero then .error (.arithmetic .divisionByZero) else .ok (x / y)

def fitted (op : ArithOp) : Option Value → Except QueryError Value
  | some v => .ok v
  | none => .error (.arithmetic (.overflow op.symbol))

def mismatch (v w : Value) : QueryError :=
  .typeMismatch "numeric" (if v.isNumeric then w.typeName else v.typeName)

/-- Two `INT`s give an `INT`, a float operand gives a `FLOAT`, other integers give a `BIGINT`. -/
def apply (op : ArithOp) (v w : Value) : Except QueryError Value :=
  match v.number?, w.number? with
  | some (.integer a), some (.integer b) => do
    let exact ← op.onInt a b
    if v.dataType? = some .int ∧ w.dataType? = some .int then
      op.fitted ((int32? exact).map .int)
    else op.fitted ((int64? exact).map .bigint)
  | some m, some n => do
    return .float (← op.onFloat m.toBinary64 n.toBinary64)
  | _, _ => .error (mismatch v w)

end ArithOp

/-! ## Binary operators -/

/-- Applies an operator that is unknown of a null. -/
def Value.strictly (v w : Value) (result : Except QueryError Value) : Except QueryError Value :=
  if v.isNull || w.isNull then .ok .null else result

def BinaryOp.apply (op : BinaryOp) (v w : Value) : Except QueryError Value :=
  match op with
  | logic op => do
    let a ← v.truth
    let b ← w.truth
    return op.apply a b
  | concat => v.strictly w (.ok (.string (v.render ++ w.render)))
  | compare op => v.strictly w (do return .bool (op.holds (← v.compare w)))
  | arith op => v.strictly w (op.apply v w)

/-! ## Rows at hand -/

/-- A row with its schema. `qualifiers` are the lower-cased names of the scans it comes from, when
they are known. -/
structure Source where
  row : Row
  schema : Schema
  qualifiers : Option (List String)

namespace Source

def owns (s : Source) (q : String) : Bool :=
  s.qualifiers.any (·.contains q) || s.schema.hasQualifier q

/-- Whether any qualifier is accepted: nothing is known of the scans, and no column has one. -/
def isAnonymous (s : Source) : Bool := s.qualifiers.isNone && !s.schema.hasQualifiedColumns

/-- The source that a qualifier names: the first that owns it, or an anonymous one that is alone. -/
def owner? (sources : List Source) (q : String) : Option Source :=
  (sources.find? (·.owns q)).or
    (match sources with
    | [s] => if s.isAnonymous then some s else none
    | _ => none)

/-- The cell at a resolved position; a row may be shorter than its schema. -/
def cell (s : Source) (name : String) (position : Nat) : Except QueryError Value :=
  match s.row[position]? with
  | some v => .ok v
  | none => .error (.unknownColumn name)

def qualified (sources : List Source) (q name : String) : Except QueryError Value :=
  match owner? sources q with
  | none => .error (.unknownQualifier q)
  | some s =>
    match s.schema.resolve (some q) name with
    | none => .error (.unknownColumn (q ++ "." ++ name))
    | some i => s.cell (q ++ "." ++ name) i

def unqualified (sources : List Source) (name : String) : Except QueryError Value :=
  match sources.filterMap fun s => (s.schema.resolve none name).map (s, ·) with
  | [] => .error (.unknownColumn name)
  | [(s, i)] => s.cell name i
  | _ => .error (.ambiguousColumn name)

end Source

/-! ## Expressions -/

namespace Expr

def eval (sources : List Source) : Expr → Except QueryError Value
  | literal v => .ok v
  | column (some q) name => Source.qualified sources (Text.lower q) name
  | column none name => Source.unqualified sources name
  | binary op l r => do
    let v ← l.eval sources
    let w ← r.eval sources
    op.apply v w
  | not e => do (← e.eval sources).negation
  | aggregate fn e => .error (.aggregateInScalar (aggregate fn e).render)
  | aggregateRows fn => .error (.aggregateInScalar (aggregateRows fn).render)

/-- Over one row, nothing being known of its scans. -/
def evalRow (schema : Schema) (row : Row) (e : Expr) : Except QueryError Value :=
  e.eval [⟨row, schema, none⟩]

def evalBound (schema : Schema) (qualifiers : List String) (row : Row) (e : Expr) :
    Except QueryError Value :=
  e.eval [⟨row, schema, some qualifiers⟩]

def evalPair (left : Schema) (leftQualifiers : List String) (right : Schema)
    (rightQualifiers : List String) (l r : Row) (e : Expr) : Except QueryError Value :=
  e.eval [⟨l, left, some leftQualifiers⟩, ⟨r, right, some rightQualifiers⟩]

end Expr

end RelQuery
