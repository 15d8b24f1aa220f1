/-!
# Integers of two widths

Arithmetic is computed on unbounded integers and then has to fit: `int32?` and `int64?` refuse what
does not.
-/

namespace RelQuery

def int32? (i : Int) : Option Int32 :=
  if -(Int.pow 2 31) ≤ i ∧ i < Int.pow 2 31 then some (Int32.ofInt i) else none

def int64? (i : Int) : Option Int64 :=
  if -(Int.pow 2 63) ≤ i ∧ i < Int.pow 2 63 then some (Int64.ofInt i) else none

end RelQuery
