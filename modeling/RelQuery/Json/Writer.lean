import RelQuery.Json.Basic

/-!
# Writing JSON

The text of a JSON value without blanks. Only quotes, backslashes and control characters are
escaped in strings.
-/

namespace RelQuery.Json

def hexChar (n : Nat) : Char := Char.ofNat (if n < 10 then 48 + n else 87 + n)

def escaped (c : Char) : List Char :=
  if c = '"' ∨ c = '\\' then ['\\', c]
  else if c.toNat < 32 then ['\\', 'u', '0', '0', hexChar (c.toNat / 16), hexChar (c.toNat % 16)]
  else [c]

def quoted (s : String) : String := "\"" ++ String.ofList (s.toList.flatMap escaped) ++ "\""

def digitText (digits : List Nat) : String := String.ofList (digits.map hexChar)

def numberText (n : JsonNumber) : String :=
  (if n.negative then "-" else "") ++ digitText n.whole ++
    (if n.fraction = [] then "" else "." ++ digitText n.fraction) ++
    (match n.exponent with
    | none => ""
    | some (negative, ds) => (if negative then "e-" else "e") ++ digitText ds)

mutual

def render : Json → String
  | .null => "null"
  | .bool b => if b then "true" else "false"
  | .number n => numberText n
  | .string s => quoted (s.getD "")
  | .array items => "[" ++ renderItems items ++ "]"
  | .object members => "\x7b" ++ renderMembers members ++ "\x7d"

def renderItems : List Json → String
  | [] => ""
  | [j] => render j
  | j :: items => render j ++ "," ++ renderItems items

def renderMembers : List (Option String × Json) → String
  | [] => ""
  | [(key, j)] => quoted (key.getD "") ++ ":" ++ render j
  | (key, j) :: members => quoted (key.getD "") ++ ":" ++ render j ++ "," ++ renderMembers members

end

end RelQuery.Json
