import RelQuery.Run.Operator

/-!
# Running plans

`collect` opens a tree, takes all its rows and closes it again, whether or not something failed on
the way; `execute` does so with a new tree.
-/

namespace RelQuery

variable {κ : Type}

namespace Operator

def foldRows {β : Type} (take : β → Row → β) (p : Plan κ) (b : β) (op : Operator p) (c : Catalog) :
    Step (Operator p) β :=
  match start p op c with
  | ⟨.error e, op, c⟩ => ⟨.error e, close p op, c⟩
  | ⟨.ok (), op, c⟩ =>
    let (b, step) := drain (next p) (fun b row => .ok (take b row)) (rowsLeft p op + 1) b op c
    ⟨step.result.map fun _ => b, close p step.state, step.catalog⟩

def collect (p : Plan κ) (op : Operator p) (c : Catalog) : Step (Operator p) (List Row) :=
  let step := foldRows (fun rows row => row :: rows) p [] op c
  ⟨step.result.map List.reverse, step.state, step.catalog⟩

def count (p : Plan κ) (op : Operator p) (c : Catalog) : Step (Operator p) Nat :=
  foldRows (fun n _ => n + 1) p 0 op c

end Operator

/-- Runs a plan. The tables may have changed also when this fails. -/
def Plan.execute (p : Plan κ) (c : Catalog) : Except QueryError (List Row) × Catalog :=
  let step := Operator.collect p (.created p) c
  (step.result, step.catalog)

end RelQuery
