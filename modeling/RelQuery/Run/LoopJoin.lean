import RelQuery.Query.Basic
import RelQuery.Run.Pull

/-!
# Joining by nested loops

The right rows are held in memory; the left rows are pulled one at a time and compared with every
right row in turn. A left row without partner is padded with nulls where the join keeps left rows;
after the last left row, the right rows without partner are, where it keeps right rows.
-/

namespace RelQuery

structure LoopState where
  rightRows : List Row
  matched : List Bool
  current : Option Row
  position : Nat
  currentMatched : Bool
  /-- Set when the left rows are over: the right row from which to look for one without partner. -/
  unmatchedFrom : Option Nat

namespace LoopState

def empty : LoopState := ⟨[], [], none, 0, false, none⟩

def ready (rightRows : List Row) : LoopState :=
  ⟨rightRows, rightRows.map fun _ => false, none, 0, false, none⟩

def clear (st : LoopState) : LoopState :=
  { st with rightRows := [], matched := [], current := none }

/-- The first right row without partner from `position` on, and the position behind it. -/
def findUnmatched (matched : List Bool) :
    Nat → List Row → Except QueryError (Option Row) × Nat
  | position, [] => (.ok none, position)
  | position, r :: rows =>
    match matched[position]? with
    | some true => findUnmatched matched (position + 1) rows
    | some false => (.ok (some r), position + 1)
    | none => (.error (.invalidState .outsideBuffer), position)

/-- The first of `rows` that `accept` accepts with its position, and the position to go on at. -/
def findPartner (accept : Row → Except QueryError Bool) :
    Nat → List Row → Except QueryError (Option (Nat × Row)) × Nat
  | position, [] => (.ok none, position)
  | position, r :: rows =>
    match accept r with
    | .error e => (.error e, position + 1)
    | .ok true => (.ok (some (position, r)), position + 1)
    | .ok false => findPartner accept (position + 1) rows

structure Widths where
  left : Nat
  right : Nat

variable {σ : Type}

def next (kind : JoinKind) (widths : Widths) (accept : Row → Row → Except QueryError Bool)
    (pull : Pull σ) : Nat → LoopState → σ → Catalog → LoopState × Step σ (Option Row)
  | 0, st, s, c => (st, ⟨.ok none, s, c⟩)
  | fuel + 1, st, s, c =>
    match st.unmatchedFrom with
    | some position =>
      let (found, position) := findUnmatched st.matched position (st.rightRows.drop position)
      ({ st with unmatchedFrom := some position },
        ⟨found.map (·.map (Row.nulls widths.left ++ ·)), s, c⟩)
    | none =>
      match st.current with
      | none =>
        match pull s c with
        | ⟨.error e, s, c⟩ => (st, ⟨.error e, s, c⟩)
        | ⟨.ok (some l), s, c⟩ =>
          next kind widths accept pull fuel
            { st with current := some l, position := 0, currentMatched := false } s c
        | ⟨.ok none, s, c⟩ =>
          let first := if kind.keepsRight then 0 else st.rightRows.length
          next kind widths accept pull fuel { st with unmatchedFrom := some first } s c
      | some l =>
        match findPartner (accept l) st.position (st.rightRows.drop st.position) with
        | (.error e, position) => ({ st with position }, ⟨.error e, s, c⟩)
        | (.ok (some (i, r)), position) =>
          if i < st.matched.length then
            ({ st with position, currentMatched := true, matched := st.matched.set i true },
              ⟨.ok (some (l ++ r)), s, c⟩)
          else
            ({ st with position, currentMatched := true },
              ⟨.error (.invalidState .outsideBuffer), s, c⟩)
        | (.ok none, position) =>
          let st := { st with position, current := none }
          if kind.keepsLeft && !st.currentMatched then
            (st, ⟨.ok (some (l ++ Row.nulls widths.right)), s, c⟩)
          else next kind widths accept pull fuel st s c

end LoopState

end RelQuery
