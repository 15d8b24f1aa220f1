import RelQuery.Text.CaseTable

/-!
# Folding case

Names are compared in two ways. `lower` is full Unicode lower-casing: U+0130 becomes two
characters, and a capital sigma becomes a final sigma when a cased character stands before it and
none after it, case-ignorable characters skipped. `asciiFold` changes `A` to `Z` only.
-/

namespace RelQuery.Text

def inRanges (ranges : List (Nat × Nat)) (c : Char) : Bool :=
  ranges.any fun r => r.1 ≤ c.toNat && c.toNat ≤ r.2

def isCased (c : Char) : Bool := inRanges casedRanges c

def isCaseIgnorable (c : Char) : Bool := inRanges caseIgnorableRanges c

/-! ## Characters -/

def CaseRange.covers (r : CaseRange) (n : Nat) : Bool :=
  r.first ≤ n && n ≤ r.last && (n - r.first) % r.step == 0

/-- The lower case of one character, a capital sigma taken as not final. -/
def lowerChar (c : Char) : List Char :=
  if c.toNat < 128 then [c.toLower]
  else if c.toNat = 0x130 then ['i', Char.ofNat 0x307]
  else
    match caseRanges.find? (·.covers c.toNat) with
    | some r => [Char.ofNat (c.toNat + r.shift).toNat]
    | none => [c]

def capitalSigma : Char := Char.ofNat 0x3A3

def smallSigma : Char := Char.ofNat 0x3C3

def finalSigma : Char := Char.ofNat 0x3C2

/-! ## Strings -/

def startsCased (cs : List Char) : Bool :=
  match cs.dropWhile isCaseIgnorable with
  | c :: _ => isCased c
  | [] => false

/-- Lower-cases `cs`, which follows the characters of `before`, nearest first. -/
def lowerAfter (before : List Char) : List Char → List Char
  | [] => []
  | c :: cs =>
    let here :=
      if c = capitalSigma then
        [if startsCased before && !startsCased cs then finalSigma else smallSigma]
      else lowerChar c
    here ++ lowerAfter (c :: before) cs

def lower (s : String) : String := String.ofList (lowerAfter [] s.toList)

def asciiFold (s : String) : String := s.map Char.toLower

def eqIgnoringAsciiCase (s t : String) : Bool := asciiFold s == asciiFold t

/-! ## Dotted names -/

def splitDot (s : String) : Option (String × String) :=
  match s.toList.span (· != '.') with
  | (_, []) => none
  | (q, _ :: rest) => some (String.ofList q, String.ofList rest)

def joinWith (separator : String) : List String → String
  | [] => ""
  | s :: rest => rest.foldl (fun acc t => acc ++ separator ++ t) s

end RelQuery.Text
