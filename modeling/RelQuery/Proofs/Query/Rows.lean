import RelQuery.Proofs.Expr.Look
import RelQuery.Query.Basic
import RelQuery.Run.Grouping

/-!
# The rows of a query

What a query means over the tables, independently of how it is carried out. `Query.rows` is total: a
predicate that fails is not true, an output item that fails is null, an aggregation that fails has
no rows. `Query.Succeeds` says that nothing fails anywhere in it.
-/

namespace RelQuery

/-! ## Joining lists of rows -/

namespace JoinKind

/-- What one left row gives. -/
def rowsOf (kind : JoinKind) (rightWidth : Nat) (meets : Row → Row → Bool) (rs : List Row)
    (l : Row) : List Row :=
  (rs.filter (meets l)).map (l ++ ·) ++
    if kind.keepsLeft && !rs.any (meets l) then [l ++ Row.nulls rightWidth] else []

/-- The right rows without partner, padded. -/
def leftovers (kind : JoinKind) (leftWidth : Nat) (meets : Row → Row → Bool) (ls rs : List Row) :
    List Row :=
  if kind.keepsRight then
    (rs.filter fun r => !ls.any (meets · r)).map (Row.nulls leftWidth ++ ·)
  else []

def joinRows (kind : JoinKind) (leftWidth rightWidth : Nat) (meets : Row → Row → Bool)
    (ls rs : List Row) : List Row :=
  ls.flatMap (kind.rowsOf rightWidth meets rs) ++ kind.leftovers leftWidth meets ls rs

theorem joinRows_inner (wl wr : Nat) (meets : Row → Row → Bool) (ls rs : List Row) :
    inner.joinRows wl wr meets ls rs = ls.flatMap fun a => (rs.filter (meets a)).map (a ++ ·) := by
  have hnone : inner.leftovers wl meets ls rs = [] := rfl
  have hrows : inner.rowsOf wr meets rs = fun a => (rs.filter (meets a)).map (a ++ ·) :=
    funext fun a => by simp [rowsOf, keepsLeft]
  rw [joinRows, hnone, List.append_nil, hrows]

end JoinKind

/-! ## What operators do to rows -/

/-- A value, or null where there is none. -/
def orNull : Except QueryError Value → Value
  | .ok v => v
  | .error _ => .null

def conditionHolds (condition : Option Expr) (look : Look) : Bool := condition.all (·.holdsIn look)

def Item.valueIn (look : Look) (i : Item) : Value := orNull (i.expr.evalWith look)

namespace Grouping

def answer (g : Grouping) (rows : List Row) : Except QueryError (List Row) := do
  g.outputRows (← rows.foldlM g.take [])

def rowsOf (g : Grouping) (rows : List Row) : List Row :=
  match g.answer rows with
  | .ok rs => rs
  | .error _ => []

end Grouping

/-! ## Queries -/

namespace Query

def isReadOnly : Query → Bool
  | scan .. => true
  | insert .. => false
  | filter _ q | project _ _ q | aggregate _ _ _ q => q.isReadOnly
  | join _ _ _ l r => l.isReadOnly && r.isReadOnly

def lookIn (q : Query) (row : Row) : Look := Source.look [⟨row, q.schema, some q.qualifiers⟩]

def lookBoth (l r : Query) (a b : Row) : Look :=
  Source.look [⟨a, l.schema, some l.qualifiers⟩, ⟨b, r.schema, some r.qualifiers⟩]

def groupingOf (groupBy : List Expr) (outputs : List Item) (q : Query) : Grouping :=
  ⟨groupBy, outputs, q.schema, q.qualifiers⟩

def meets (condition : Option Expr) (l r : Query) (a b : Row) : Bool :=
  conditionHolds condition (l.lookBoth r a b)

def rows (c : Catalog) : Query → List Row
  | scan t _ _ => ((c.find? t).map (·.rows)).getD []
  | insert .. => []
  | filter e q => (q.rows c).filter fun row => e.holdsIn (q.lookIn row)
  | project is _ q => (q.rows c).map fun row => is.map (·.valueIn (q.lookIn row))
  | aggregate gs os _ q => (q.groupingOf gs os).rowsOf (q.rows c)
  | join k e _ l r =>
    k.joinRows l.schema.width r.schema.width (l.meets e r) (l.rows c) (r.rows c)

/-- Nothing fails: all tables exist and all that is evaluated has a value. -/
def Succeeds (c : Catalog) : Query → Prop
  | scan t _ _ => (c.find? t).isSome
  | insert .. => False
  | filter e q => q.Succeeds c ∧ ∀ row ∈ q.rows c, (e.evalWith (q.lookIn row)).isOk
  | project is _ q =>
    q.Succeeds c ∧ ∀ row ∈ q.rows c, ∀ i ∈ is, (i.expr.evalWith (q.lookIn row)).isOk
  | aggregate gs os _ q => q.Succeeds c ∧ ((q.groupingOf gs os).answer (q.rows c)).isOk
  | join _ e _ l r =>
    l.Succeeds c ∧ r.Succeeds c ∧
      ∀ a ∈ l.rows c, ∀ b ∈ r.rows c, ∀ f ∈ e, (f.evalWith (l.lookBoth r a b)).isOk

instance decidableSucceeds (c : Catalog) : ∀ q : Query, Decidable (q.Succeeds c)
  | scan .. => inferInstanceAs (Decidable (_ = true))
  | insert .. => inferInstanceAs (Decidable False)
  | filter _ q | project _ _ q | aggregate _ _ _ q =>
    have := decidableSucceeds c q
    inferInstanceAs (Decidable (_ ∧ _))
  | join _ _ _ l r =>
    have := decidableSucceeds c l
    have := decidableSucceeds c r
    inferInstanceAs (Decidable (_ ∧ _ ∧ _))

end Query

end RelQuery
