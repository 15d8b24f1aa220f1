/-!
# Column types

The declared type of a column, and the type that arithmetic on two types has.
-/

namespace RelQuery

inductive DataType
  | int
  | bigint
  | boolean
  | varchar (max : UInt32)
  | float
  | string
deriving DecidableEq, Repr, Inhabited

namespace DataType

def isNumeric : DataType → Bool
  | int | bigint | float => true
  | _ => false

def isText : DataType → Bool
  | varchar _ | string => true
  | _ => false

/-- The type of `+ - * /`: `float` wins over `bigint`, which wins over `int`. -/
def promote (s t : DataType) : Option DataType :=
  if s.isNumeric && t.isNumeric then
    if s = float ∨ t = float then some float
    else if s = bigint ∨ t = bigint then some bigint
    else some int
  else none

def render : DataType → String
  | int => "INT"
  | bigint => "BIGINT"
  | boolean => "BOOLEAN"
  | varchar max => "VARCHAR(" ++ toString max.toNat ++ ")"
  | float => "FLOAT"
  | string => "STRING"

end DataType

end RelQuery
