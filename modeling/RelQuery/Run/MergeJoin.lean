import RelQuery.Data.Compare
import RelQuery.Run.Pull

/-!
# Joining by sort and merge

Both inputs are sorted by their join values, rows of equal values staying in their order and rows
with a null value left out. For each value that both inputs have, the run of left rows is crossed
with the run of right rows.
-/

namespace RelQuery

abbrev Keyed := Value × Row

/-! ## Sorting -/

/-- Puts `x` in front of the elements of a descending list that it is not less than. -/
def insertDescending {α : Type} (less : α → α → Bool) (x : α) : List α → List α
  | [] => [x]
  | y :: ys => if less x y then y :: insertDescending less x ys else x :: y :: ys

/-- Sorts by insertion from the back, so that equal elements keep their order. -/
def insertionSort {α : Type} (less : α → α → Bool) (xs : List α) : List α :=
  (xs.foldl (fun sorted x => insertDescending less x sorted) []).reverse

def sortKeyed (rows : List Keyed) : List Keyed :=
  insertionSort (fun a b => a.1.order b.1 == .lt) rows

def takeKeyed (keyOf : Row → Except QueryError Value) (rows : List Keyed) (row : Row) :
    Except QueryError (List Keyed) := do
  let v ← keyOf row
  .ok (if v.isNull then rows else rows ++ [(v, row)])

/-! ## Merging -/

/-- Two runs of rows with one value, being crossed: `left` and `right` come next. -/
structure Crossing where
  left : Nat
  leftEnd : Nat
  rightStart : Nat
  right : Nat
  rightEnd : Nat

def Crossing.advance (x : Crossing) : Crossing :=
  if x.right + 1 = x.rightEnd then { x with right := x.rightStart, left := x.left + 1 }
  else { x with right := x.right + 1 }

structure MergeState where
  leftRows : List Keyed
  rightRows : List Keyed
  leftPosition : Nat
  rightPosition : Nat
  crossing : Option Crossing

def runEnd (rows : List Keyed) (start : Nat) : Nat :=
  match rows.drop start with
  | [] => start
  | (v, row) :: rest =>
    start + (((v, row) :: rest).takeWhile fun k => k.1.order v == .eq).length

namespace MergeState

def empty : MergeState := ⟨[], [], 0, 0, none⟩

def ready (leftRows rightRows : List Keyed) : MergeState := ⟨leftRows, rightRows, 0, 0, none⟩

def clear (st : MergeState) : MergeState :=
  { st with leftRows := [], rightRows := [], crossing := none }

def next : Nat → MergeState → Except QueryError (Option Row) × MergeState
  | 0, st => (.ok none, st)
  | fuel + 1, st =>
    match st.crossing with
    | some x =>
      if x.left < x.leftEnd then
        match st.leftRows[x.left]?, st.rightRows[x.right]? with
        | some l, some r => (.ok (some (l.2 ++ r.2)), { st with crossing := some x.advance })
        | _, _ => (.error (.invalidState .outsideBuffer), st)
      else next fuel { st with crossing := none }
    | none =>
      match st.leftRows[st.leftPosition]?, st.rightRows[st.rightPosition]? with
      | some l, some r =>
        match l.1.order r.1 with
        | .lt => next fuel { st with leftPosition := st.leftPosition + 1 }
        | .gt => next fuel { st with rightPosition := st.rightPosition + 1 }
        | .eq =>
          let leftEnd := runEnd st.leftRows st.leftPosition
          let rightEnd := runEnd st.rightRows st.rightPosition
          next fuel
            { st with
              leftPosition := leftEnd
              rightPosition := rightEnd
              crossing :=
                some ⟨st.leftPosition, leftEnd, st.rightPosition, st.rightPosition, rightEnd⟩ }
      | _, _ => (.ok none, st)

/-- Rounds enough to come to the next row or to the end. -/
def rounds (st : MergeState) : Nat := 2 * (st.leftRows.length + st.rightRows.length) + 4

end MergeState

end RelQuery
