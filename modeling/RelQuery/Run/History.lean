import RelQuery.Run.Operator

/-!
# Histories of a tree of operators

In the course of time a tree of operators is opened, asked for rows and closed, in any order and any
number of times, while others store rows in the tables. `Running.run` answers a list of such events.
-/

namespace RelQuery

variable {κ : Type}

/-- Closes a tree and reports whether that failed anywhere; no failure keeps it from closing the
rest. -/
def Operator.closing : (p : Plan κ) → Operator p → Except QueryError Unit × Operator p
  | .scan .., scan life _ => (.ok (), scan life.close none)
  | .insert .., insert life _ done => (.ok (), insert life.close none done)
  | .filter _ _ p, filter life input =>
    let (result, input) := closing p input
    (result, filter life.close input)
  | .project _ _ _ p, project life input =>
    let (result, input) := closing p input
    (result, project life.close input)
  | .aggregate _ _ _ _ p, aggregate life _ input =>
    let (result, input) := closing p input
    (result, aggregate life.close [] input)
  | .loopJoin _ l r, loopJoin life st left right =>
    let (leftResult, left) := closing l left
    let (rightResult, right) := closing r right
    (leftResult *> rightResult, loopJoin life.close st.clear left right)
  | .hashJoin _ l r, hashJoin life st left right =>
    let (leftResult, left) := closing l left
    let (rightResult, right) := closing r right
    (leftResult *> rightResult, hashJoin life.close st.clear left right)
  | .mergeJoin _ l r, mergeJoin life st left right =>
    let (leftResult, left) := closing l left
    let (rightResult, right) := closing r right
    (leftResult *> rightResult, mergeJoin life.close st.clear left right)

inductive Event
  | start
  | next
  | close
  | store (table : String) (row : Row)

inductive Reply
  | started (result : Except QueryError Unit)
  | handed (result : Except QueryError (Option Row))
  | closed (result : Except QueryError Unit)
  | stored (result : Except StoreError RowId)

structure Running (p : Plan κ) where
  op : Operator p
  catalog : Catalog

namespace Running

variable {p : Plan κ}

def created (p : Plan κ) (c : Catalog) : Running p := ⟨.created p, c⟩

def phase (s : Running p) : Phase := s.op.life.phase

def step (s : Running p) : Event → Reply × Running p
  | .start =>
    let step := s.op.start p s.catalog
    (.started step.result, ⟨step.state, step.catalog⟩)
  | .next =>
    let step := s.op.next p s.catalog
    (.handed step.result, ⟨step.state, step.catalog⟩)
  | .close =>
    let (result, op) := s.op.closing p
    (.closed result, { s with op })
  | .store table row =>
    match s.catalog.table table with
    | .error e => (.stored (.error e), s)
    | .ok t =>
      match s.catalog.insert t row with
      | .error e => (.stored (.error e), s)
      | .ok (id, catalog) => (.stored (.ok id), { s with catalog })

def run (s : Running p) : List Event → List Reply × Running p
  | [] => ([], s)
  | event :: events =>
    let (reply, s) := s.step event
    let (replies, s) := s.run events
    (reply :: replies, s)

end Running

end RelQuery
