import RelQuery.Data.Value

/-!
# Keys of values

Joins by hashing and grouping tell values apart by their keys. What a key tells of a value is its
`KeyPart`: integers of both widths and floats of integral value that fit 64 bits are one integer,
all NaNs are one, and every other float is told apart by its bits. A key is the bytes of a part,
a tag in front of the payload, or those of several parts in a row.
-/

namespace RelQuery

inductive KeyPart
  | null
  | bool (b : Bool)
  | integer (i : Int64)
  | float (x : Binary64)
  | string (s : String)
deriving DecidableEq, Repr

namespace KeyPart

def ofFloat (x : Binary64) : KeyPart :=
  match x.toInteger? with
  | some i => integer (Int64.ofInt i)
  | none => float (if x.isNaN then .nan else x)

def of : Value → KeyPart
  | .null => null
  | .bool b => bool b
  | .int i => integer (Int64.ofInt i.toInt)
  | .bigint i => integer i
  | .float x => ofFloat x
  | .string s => string s

/-! ## Bytes -/

/-- The `count` lowest bytes of `n`, the lowest first. -/
def bytesOf (count n : Nat) : List UInt8 :=
  (List.range count).map fun k => UInt8.ofNat (n / Nat.pow 256 k)

/-- The tag and the payload: eight bytes for a number, and for a text its UTF-8 behind eight bytes
that tell its length. -/
def bytes : KeyPart → List UInt8
  | null => [0]
  | bool b => [1, if b then 1 else 0]
  | integer i => 2 :: bytesOf 8 i.toUInt64.toNat
  | float x => 3 :: bytesOf 8 x.bits.toNat
  | string s =>
    let text := s.toUTF8.data.toList
    4 :: bytesOf 8 text.length ++ text

end KeyPart

namespace Key

def ofValue (v : Value) : List UInt8 := (KeyPart.of v).bytes

/-- The key of several values, such as the grouping values of a row. Nulls have a key here. -/
def ofRow (row : Row) : List UInt8 := row.flatMap ofValue

def forJoin (v : Value) : Option (List UInt8) := if v.isNull then none else some (ofValue v)

end Key

end RelQuery
