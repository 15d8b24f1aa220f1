import RelQuery.Data.DataType
import RelQuery.Number.Decimal

/-!
# Values

A value is one cell of a row. Integers come in two widths, a float is kept as its 64-bit word, and
`null` has no type. `Value.eqv` is the equality of the language, under which no NaN equals itself
and integers of different widths differ; comparison in expressions is another relation.
-/

namespace RelQuery

inductive Value
  | null
  | bool (b : Bool)
  | int (i : Int32)
  | bigint (i : Int64)
  | float (x : Binary64)
  | string (s : String)
deriving DecidableEq, Repr, Inhabited

abbrev Row := List Value

namespace Value

def isNull : Value → Bool
  | null => true
  | _ => false

def isNumeric : Value → Bool
  | int _ | bigint _ | float _ => true
  | _ => false

def isTrue : Value → Bool
  | bool b => b
  | _ => false

/-! ## Views -/

def toBool? : Value → Option Bool
  | bool b => some b
  | _ => none

def toInt? : Value → Option Int
  | int i => some i.toInt
  | bigint i => some i.toInt
  | _ => none

def toBinary64? : Value → Option Binary64
  | int i => some (Binary64.ofInt i.toInt)
  | bigint i => some (Binary64.ofInt i.toInt)
  | float x => some x
  | _ => none

def toString? : Value → Option String
  | string s => some s
  | _ => none

/-! ## Type -/

def dataType? : Value → Option DataType
  | null => none
  | bool _ => some .boolean
  | int _ => some .int
  | bigint _ => some .bigint
  | float _ => some .float
  | string _ => some .string

def typeName (v : Value) : String :=
  match v.dataType? with
  | some t => t.render
  | none => "NULL"

def fits (t : DataType) : Value → Bool
  | null => false
  | bool _ => t = .boolean
  | int _ => t = .int
  | bigint _ => t = .bigint
  | float _ => t = .float
  | string s =>
    match t with
    | .string => true
    | .varchar max => s.length ≤ max.toNat
    | _ => false

/-! ## Equality and text -/

def eqv : Value → Value → Bool
  | null, null => true
  | bool a, bool b => a == b
  | int a, int b => a == b
  | bigint a, bigint b => a == b
  | float a, float b => a.eqv b
  | string a, string b => a == b
  | _, _ => false

def render : Value → String
  | null => "NULL"
  | bool b => if b then "true" else "false"
  | int i => toString i.toInt
  | bigint i => toString i.toInt
  | float x => Decimal.shortest x
  | string s => s

end Value

/-! ## Rows -/

namespace Row

def nulls (width : Nat) : Row := List.replicate width Value.null

end Row

end RelQuery
