import RelQuery.Number.Binary64

/-!
# JSON values

A JSON value as it is written: the members of an object in order, repeated ones included, and a
number by its digits, so that `1`, `1.0` and `-0` stay apart. Numbers turn into machine numbers
only on request.
-/

namespace RelQuery

structure JsonNumber where
  negative : Bool
  whole : List Nat
  fraction : List Nat
  /-- The sign, true for minus, and the digits behind the `e`. -/
  exponent : Option (Bool × List Nat)

inductive Json
  | null
  | bool (b : Bool)
  | number (n : JsonNumber)
  /-- A text; `none` when it holds half a surrogate pair and so is no text at all. -/
  | string (s : Option String)
  | array (items : List Json)
  | object (members : List (Option String × Json))

namespace JsonNumber

def ofDigits (digits : List Nat) : Nat := digits.foldl (fun n d => 10 * n + d) 0

/-! ## Integers -/

/-- The value of a number written without fraction and exponent. Minus zero is a float, and so is
what does not fit 64 bits. -/
def toInt? (n : JsonNumber) : Option Int :=
  let magnitude := ofDigits n.whole
  if n.fraction ≠ [] ∨ n.exponent.isSome then none
  else if n.negative then
    if magnitude = 0 ∨ Nat.pow 2 63 < magnitude then none else some (-(magnitude : Int))
  else if magnitude < Nat.pow 2 64 then some magnitude
  else none

def between? (low high : Int) (n : JsonNumber) : Option Int :=
  n.toInt?.filter fun i => low ≤ i && i ≤ high

/-! ## Floats -/

structure Scaled where
  significand : Nat
  exponent : Int

/-- Takes in digits as long as the significand stays below `2 ^ 64`; returns how many are left. -/
def takeDigits : Nat → List Nat → Nat × Nat
  | significand, [] => (significand, 0)
  | significand, d :: digits =>
    if 10 * significand + d < Nat.pow 2 64 then takeDigits (10 * significand + d) digits
    else (significand, digits.length + 1)

/-- The digits that fit, those before the point that do not being replaced by zeros and those
behind it dropped. -/
def scaled (n : JsonNumber) : Scaled :=
  let (significand, dropped) := takeDigits 0 n.whole
  let (significand, unread) := takeDigits significand n.fraction
  { significand, exponent := (dropped : Int) - (n.fraction.length - unread : Nat) }

/-- Multiplies by a power of ten in steps that the exponent range of doubles allows. -/
def scaleBy (steps : Nat) (x : Float) (exponent : Int) : Option Float :=
  if exponent.natAbs ≤ 308 then
    let power := Float.ofScientific 1 false exponent.natAbs
    if 0 ≤ exponent then
      if (x * power).isInf then none else some (x * power)
    else some (x / power)
  else if x == 0 then some x
  else if 0 ≤ exponent then none
  else
    match steps with
    | 0 => some x
    | steps + 1 => scaleBy steps (x / Float.ofScientific 1 false 308) (exponent + 308)

/-- The written exponent; `none` when it is beyond 32 bits. -/
def writtenExponent? (n : JsonNumber) : Option Int :=
  match n.exponent with
  | none => some 0
  | some (negative, digits) =>
    let e := ofDigits digits
    if Nat.pow 2 31 ≤ e then none else some (if negative then -(e : Int) else e)

def magnitude? (n : JsonNumber) : Option Float :=
  let s := n.scaled
  match n.writtenExponent? with
  | some e => scaleBy 4 s.significand.toUInt64.toFloat (s.exponent + e)
  | none =>
    if s.significand ≠ 0 ∧ n.exponent.any (fun e => !e.1) then none else some 0

def toFloat? (n : JsonNumber) : Option Float :=
  n.magnitude?.map fun x => if n.negative then -x else x

end JsonNumber

namespace Json

def ofNat (n : Nat) : Json :=
  .number ⟨false, (Nat.toDigits 10 n).map fun c => c.toNat - 48, [], none⟩

def ofInt (i : Int) : Json :=
  .number ⟨i < 0, (Nat.toDigits 10 i.natAbs).map fun c => c.toNat - 48, [], none⟩

def ofString (s : String) : Json := .string (some s)

def ofMembers (members : List (String × Json)) : Json :=
  .object (members.map fun (k, v) => (some k, v))

/-- The last member of this name. -/
def member? (j : Json) (name : String) : Option Json :=
  match j with
  | .object members => (members.reverse.find? fun m => m.1 == some name).map (·.2)
  | _ => none

end Json

end RelQuery
