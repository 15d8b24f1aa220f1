import RelQuery.Plan.Basic
import RelQuery.Run.Grouping
import RelQuery.Run.HashJoin
import RelQuery.Run.Insertion
import RelQuery.Run.Lifecycle
import RelQuery.Run.LoopJoin
import RelQuery.Run.MergeJoin

/-!
# Operators

A plan is run by a tree of operators of the same shape, from which rows are pulled one at a time.
`Operator p` is the tree of plan `p` in some state: what each operator holds in memory between two
requests. `start` opens a tree, `next` asks its root for a row, `close` closes it; each leaves the
tree in a state also when it fails.
-/

namespace RelQuery

variable {κ : Type}

inductive Operator : Plan κ → Type
  | scan {t a s c} (life : Lifecycle) (cursor : Option Cursor) : Operator (.scan t a s c)
  /-- `table` is the target's number, `done` is set when the rows have been written. -/
  | insert {t cs rows c} (life : Lifecycle) (table : Option Nat) (done : Bool) :
    Operator (.insert t cs rows c)
  | filter {e c p} (life : Lifecycle) (input : Operator p) : Operator (.filter e c p)
  | project {is s c p} (life : Lifecycle) (input : Operator p) : Operator (.project is s c p)
  | aggregate {gs os s c p} (life : Lifecycle) (results : List Row) (input : Operator p) :
    Operator (.aggregate gs os s c p)
  | loopJoin {j l r} (life : Lifecycle) (state : LoopState) (left : Operator l)
    (right : Operator r) : Operator (.loopJoin j l r)
  | hashJoin {j l r} (life : Lifecycle) (state : HashState) (left : Operator l)
    (right : Operator r) : Operator (.hashJoin j l r)
  | mergeJoin {j l r} (life : Lifecycle) (state : MergeState) (left : Operator l)
    (right : Operator r) : Operator (.mergeJoin j l r)

namespace Operator

/-! ## States -/

def created : (p : Plan κ) → Operator p
  | .scan .. => scan .created none
  | .insert .. => insert .created none false
  | .filter _ _ p => filter .created (created p)
  | .project _ _ _ p => project .created (created p)
  | .aggregate _ _ _ _ p => aggregate .created [] (created p)
  | .loopJoin _ l r => loopJoin .created .empty (created l) (created r)
  | .hashJoin _ l r => hashJoin .created .empty (created l) (created r)
  | .mergeJoin _ l r => mergeJoin .created .empty (created l) (created r)

def life : {p : Plan κ} → Operator p → Lifecycle
  | _, scan life _ | _, insert life _ _ | _, filter life _ | _, project life _
  | _, aggregate life _ _ | _, loopJoin life _ _ _ | _, hashJoin life _ _ _
  | _, mergeJoin life _ _ _ => life

/-- A bound on the rows that an operator can still hand out before it is opened again. -/
def rowsLeft : (p : Plan κ) → Operator p → Nat
  | .scan .., scan _ cursor => (cursor.map (·.rows.length)).getD 0
  | .insert .., insert .. => 1
  | .filter _ _ p, filter _ input => rowsLeft p input
  | .project _ _ _ p, project _ input => rowsLeft p input
  | .aggregate .., aggregate _ results _ => results.length
  | .loopJoin _ l _, loopJoin _ st left _ => (rowsLeft l left + 2) * (st.rightRows.length + 1)
  | .hashJoin _ l _, hashJoin _ st left _ => (rowsLeft l left + 1) * st.buckets.size
  | .mergeJoin .., mergeJoin _ st _ _ => 2 * (st.leftRows.length * st.rightRows.length)

/-! ## Closing -/

def close : (p : Plan κ) → Operator p → Operator p
  | .scan .., scan life _ => scan life.close none
  | .insert .., insert life _ done => insert life.close none done
  | .filter _ _ p, filter life input => filter life.close (close p input)
  | .project _ _ _ p, project life input => project life.close (close p input)
  | .aggregate _ _ _ _ p, aggregate life _ input => aggregate life.close [] (close p input)
  | .loopJoin _ l r, loopJoin life st left right =>
    loopJoin life.close st.clear (close l left) (close r right)
  | .hashJoin _ l r, hashJoin life st left right =>
    hashJoin life.close st.clear (close l left) (close r right)
  | .mergeJoin _ l r, mergeJoin life st left right =>
    mergeJoin life.close st.clear (close l left) (close r right)

/-! ## Asking for rows -/

def request {p : Plan κ} (op : Operator p) (name : String) (c : Catalog)
    (answer : Step (Operator p) (Option Row)) : Step (Operator p) (Option Row) :=
  match op.life.mayAnswer name with
  | .error e => ⟨.error e, op, c⟩
  | .ok false => ⟨.ok none, op, c⟩
  | .ok true => answer

def lived (life : Lifecycle) : Except QueryError (Option Row) → Lifecycle
  | .ok answer => life.after answer
  | .error _ => life

def write (columns : List Column) (rows : List (List Expr)) (table : Option Nat) (c : Catalog) :
    Except QueryError (Option Row) × Catalog :=
  match table.bind c.withId? with
  | none => (.error (.invalidState .noTable), c)
  | some t =>
    match insertRows columns t 0 c rows with
    | (.error e, c) => (.error e, c)
    | (.ok n, c) => (.ok (some [.bigint (Int64.ofNat n)]), c)

def next : (p : Plan κ) → Operator p → Catalog → Step (Operator p) (Option Row)
  | .scan t a s k, scan life cursor, c =>
    request (scan life cursor) (Plan.scan t a s k).nodeType c
      (match cursor with
      | some cursor =>
        let (answer, cursor) := cursor.next
        ⟨.ok answer, scan (life.after answer) (some cursor), c⟩
      | none => ⟨.ok none, scan life.finish none, c⟩)
  | .insert t cs rows k, insert life table done, c =>
    request (insert life table done) (Plan.insert t cs rows k).nodeType c
      (if done then ⟨.ok none, insert life.finish table done, c⟩
      else
        let (result, c) := write cs rows table c
        ⟨result, insert (lived life result) table table.isSome, c⟩)
  | .filter e k p, filter life input, c =>
    request (filter life input) (Plan.filter e k p).nodeType c
      (let accept row := do return (← e.evalBound p.schema p.qualifiers row).isTrue
      let step := pullAccepted (next p) accept (rowsLeft p input + 1) input c
      ⟨step.result, filter (lived life step.result) step.state, step.catalog⟩)
  | .project is s k p, project life input, c =>
    request (project life input) (Plan.project is s k p).nodeType c
      (let output row := is.mapM fun i => i.expr.evalBound p.schema p.qualifiers row
      let step := pullMapped (next p) output input c
      ⟨step.result, project (lived life step.result) step.state, step.catalog⟩)
  | .aggregate gs os s k p, aggregate life results input, c =>
    request (aggregate life results input) (Plan.aggregate gs os s k p).nodeType c
      (match results with
      | row :: rows => ⟨.ok (some row), aggregate life.count rows input, c⟩
      | [] => ⟨.ok none, aggregate life.finish [] input, c⟩)
  | .loopJoin j l r, loopJoin life st left right, c =>
    request (loopJoin life st left right) (Plan.loopJoin j l r).nodeType c
      (let accept a b :=
        match j.condition with
        | none => .ok true
        | some e => do
          let v ← e.evalPair l.schema j.leftQualifiers r.schema j.rightQualifiers a b
          return v.isTrue
      let (st, step) :=
        LoopState.next j.kind ⟨l.schema.width, r.schema.width⟩ accept (next l)
          (2 * rowsLeft l left + 4) st left c
      ⟨step.result, loopJoin (lived life step.result) st step.state right, step.catalog⟩)
  | .hashJoin j l r, hashJoin life st left right, c =>
    request (hashJoin life st left right) (Plan.hashJoin j l r).nodeType c
      (let keyOf := fun row => j.leftKey.evalBound l.schema j.leftQualifiers row
      let (st, step) := HashState.next keyOf (next l) (rowsLeft l left + 2) st left c
      ⟨step.result, hashJoin (lived life step.result) st step.state right, step.catalog⟩)
  | .mergeJoin j l r, mergeJoin life st left right, c =>
    request (mergeJoin life st left right) (Plan.mergeJoin j l r).nodeType c
      (let (result, st) := st.next st.rounds
      ⟨result, mergeJoin (lived life result) st left right, c⟩)

/-! ## Opening -/

/-- Opens a tree, anew if it is open. Aggregations and joins read their inputs here: an aggregation
its only one, a join by nested loops or hashing the right one, a join by sort and merge both. -/
def start : (p : Plan κ) → Operator p → Catalog → Step (Operator p) Unit
  | .scan t .., scan life cursor, c =>
    match c.table t with
    | .error e => ⟨.error (.store e), scan life cursor, c⟩
    | .ok table => ⟨.ok (), scan life.start (some table.scan), c⟩
  | .insert t .., insert life table done, c =>
    match c.table t with
    | .error e => ⟨.error (.store e), insert life table done, c⟩
    | .ok target => ⟨.ok (), insert life.start (some target.id) false, c⟩
  | .filter _ _ p, filter life input, c =>
    match start p input c with
    | ⟨.error e, input, c⟩ => ⟨.error e, filter life input, c⟩
    | ⟨.ok (), input, c⟩ => ⟨.ok (), filter life.start input, c⟩
  | .project _ _ _ p, project life input, c =>
    match start p input c with
    | ⟨.error e, input, c⟩ => ⟨.error e, project life input, c⟩
    | ⟨.ok (), input, c⟩ => ⟨.ok (), project life.start input, c⟩
  | .aggregate gs os _ _ p, aggregate life results input, c =>
    match start p input c with
    | ⟨.error e, input, c⟩ => ⟨.error e, aggregate life results input, c⟩
    | ⟨.ok (), input, c⟩ =>
      let g : Grouping := ⟨gs, os, p.schema, p.qualifiers⟩
      match drain (next p) g.take (rowsLeft p input + 1) [] input c with
      | (_, ⟨.error e, input, c⟩) => ⟨.error e, aggregate life results input, c⟩
      | (groups, ⟨.ok (), input, c⟩) =>
        match g.outputRows groups with
        | .error e => ⟨.error e, aggregate life results input, c⟩
        | .ok rows => ⟨.ok (), aggregate life.start rows input, c⟩
  | .loopJoin _ l r, loopJoin life st left right, c =>
    match start l left c with
    | ⟨.error e, left, c⟩ => ⟨.error e, loopJoin life st left right, c⟩
    | ⟨.ok (), left, c⟩ =>
      match start r right c with
      | ⟨.error e, right, c⟩ => ⟨.error e, loopJoin life st left right, c⟩
      | ⟨.ok (), right, c⟩ =>
        match drain (next r) (fun rows row => .ok (rows ++ [row])) (rowsLeft r right + 1) []
          right c with
        | (rightRows, ⟨.error e, right, c⟩) =>
          ⟨.error e, loopJoin life { st with rightRows } left right, c⟩
        | (rightRows, ⟨.ok (), right, c⟩) =>
          ⟨.ok (), loopJoin life.start (.ready rightRows) left right, c⟩
  | .hashJoin j l r, hashJoin life st left right, c =>
    match start l left c with
    | ⟨.error e, left, c⟩ => ⟨.error e, hashJoin life st left right, c⟩
    | ⟨.ok (), left, c⟩ =>
      match start r right c with
      | ⟨.error e, right, c⟩ => ⟨.error e, hashJoin life st left right, c⟩
      | ⟨.ok (), right, c⟩ =>
        let keyOf := fun row => j.rightKey.evalBound r.schema j.rightQualifiers row
        match drain (next r) (Buckets.take keyOf) (rowsLeft r right + 1) .empty right c with
        | (buckets, ⟨.error e, right, c⟩) =>
          ⟨.error e, hashJoin life { st with buckets } left right, c⟩
        | (buckets, ⟨.ok (), right, c⟩) =>
          ⟨.ok (), hashJoin life.start (.ready buckets) left (close r right), c⟩
  | .mergeJoin j l r, mergeJoin life st left right, c =>
    match start l left c with
    | ⟨.error e, left, c⟩ => ⟨.error e, mergeJoin life st left right, c⟩
    | ⟨.ok (), left, c⟩ =>
      match start r right c with
      | ⟨.error e, right, c⟩ => ⟨.error e, mergeJoin life st left right, c⟩
      | ⟨.ok (), right, c⟩ =>
        let leftKeyOf := fun row => j.leftKey.evalBound l.schema j.leftQualifiers row
        match drain (next l) (takeKeyed leftKeyOf) (rowsLeft l left + 1) [] left c with
        | (_, ⟨.error e, left, c⟩) => ⟨.error e, mergeJoin life st left right, c⟩
        | (leftRows, ⟨.ok (), left, c⟩) =>
          let leftRows := sortKeyed leftRows
          let rightKeyOf := fun row => j.rightKey.evalBound r.schema j.rightQualifiers row
          match drain (next r) (takeKeyed rightKeyOf) (rowsLeft r right + 1) [] right c with
          | (_, ⟨.error e, right, c⟩) =>
            ⟨.error e, mergeJoin life { st with leftRows } left right, c⟩
          | (rightRows, ⟨.ok (), right, c⟩) =>
            ⟨.ok (), mergeJoin life.start (.ready leftRows (sortKeyed rightRows)) (close l left)
              (close r right), c⟩

end Operator

end RelQuery
