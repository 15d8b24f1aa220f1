import RelQuery.Error

/-!
# Comparing values

`Value.compare` is the comparison of the language: booleans with booleans, strings with strings,
numbers with numbers by exact value; anything else is a type error. `Value.order` extends it to
all pairs, for sorting.
-/

namespace RelQuery

inductive Number
  | integer (i : Int)
  | float (x : Binary64)
deriving DecidableEq, Repr

def Number.toBinary64 : Number → Binary64
  | integer i => Binary64.ofInt i
  | float x => x

def Number.compare : Number → Number → Ordering
  | integer a, integer b => Ord.compare a b
  | integer a, float y => Binary64.compareInt a y
  | float x, integer b => (Binary64.compareInt b x).swap
  | float x, float y => x.compareTotal y

namespace Value

def number? : Value → Option Number
  | int i => some (.integer i.toInt)
  | bigint i => some (.integer i.toInt)
  | float x => some (.float x)
  | _ => none

def compare (v w : Value) : Except QueryError Ordering :=
  match v, w with
  | bool a, bool b => .ok (Ord.compare a b)
  | string a, string b => .ok (Ord.compare a b)
  | v, w =>
    match v.number?, w.number? with
    | some a, some b => .ok (a.compare b)
    | _, _ => .error (.typeMismatch v.typeName w.typeName)

def kindRank : Value → Nat
  | null => 0
  | bool _ => 1
  | int _ | bigint _ | float _ => 2
  | string _ => 3

def order (v w : Value) : Ordering :=
  match v.compare w with
  | .ok o => o
  | .error _ => Ord.compare v.kindRank w.kindRank

end Value

end RelQuery
