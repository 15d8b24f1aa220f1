import RelQuery.Plan.Rule
import RelQuery.Proofs.Data.Yields
import RelQuery.Proofs.Expr.Equality
import RelQuery.Proofs.Expr.PairLook

/-!
# Keys of a join condition

A condition that equates a column of each input is carried out by keys, one for either input. The
keys mean what the condition means: where it has a value over a pair of rows, each key has one over
the row of its own input.
-/

namespace RelQuery

open Text (IsAscii)

/-! ## Keys -/

theorem Expr.of_columnEquality? {e a b : Expr} (h : e.columnEquality? = some (a, b)) :
    e = .binary (.compare .eq) a b := by
  unfold columnEquality? at h
  split at h
  · split at h
    · cases h
      rfl
    · cases h
  · cases h

theorem Expr.of_columnRef? {e : Expr} {r : ColumnRef} (h : e.columnRef? = some r) :
    ∃ q n, e = .column q n ∧ r = .of q n := by
  cases e with
  | column q n => exact ⟨q, n, rfl, (Option.some.inj h).symm⟩
  | literal | binary | not | aggregate | aggregateRows => cases h

/-- The keys are columns that the other side does not provide, and the condition equates them. -/
theorem of_equiJoinKeys? {condition lk rk : Expr} {left right : Query}
    (h : equiJoinKeys? condition left right = some (lk, rk)) :
    (∃ q n, lk = .column q n ∧ right.binds (.of q n) = false) ∧
      (∃ q n, rk = .column q n ∧ left.binds (.of q n) = false) ∧
      (condition = .binary (.compare .eq) lk rk ∨ condition = .binary (.compare .eq) rk lk) := by
  unfold equiJoinKeys? at h
  simp only [Option.bind_eq_bind, Option.bind_eq_some_iff] at h
  obtain ⟨⟨a, b⟩, hsides, ra, hra, rb, hrb, h⟩ := h
  obtain ⟨q, n, ha, rfl⟩ := Expr.of_columnRef? hra
  obtain ⟨q', n', hb, rfl⟩ := Expr.of_columnRef? hrb
  have hcondition := Expr.of_columnEquality? hsides
  simp only at ha hb h
  subst ha hb
  unfold Query.bindsOnly at h
  split at h
  · rename_i honly
    simp only [Bool.and_eq_true, Bool.not_eq_true'] at honly
    cases h
    exact ⟨⟨_, _, rfl, honly.1.2⟩, ⟨_, _, rfl, honly.2.2⟩, .inl hcondition⟩
  · split at h
    · rename_i honly
      simp only [Bool.and_eq_true, Bool.not_eq_true'] at honly
      cases h
      exact ⟨⟨_, _, rfl, honly.1.2⟩, ⟨_, _, rfl, honly.2.2⟩, .inr hcondition⟩
    · cases h

namespace Query

variable {left right : Query} {l r : Row} {q : Option String} {n : String} {v : Value}

def evalOver (left right : Query) (l r : Row) (e : Expr) : Except QueryError Value :=
  e.evalPair left.schema left.qualifiers right.schema right.qualifiers l r

theorem evalBound_of_not_right (hq : ∀ x ∈ q, IsAscii x) (hn : IsAscii n)
    (hb : right.binds (.of q n) = false) (h : evalOver left right l r (.column q n) = .ok v) :
    (Expr.column q n).evalBound left.schema left.qualifiers l = .ok v := by
  rw [evalOver, Expr.evalPair, Expr.eval_eq] at h
  rw [Expr.evalBound, Expr.eval_eq]
  exact Source.look_left_of_lookPair hq hn hb h

theorem evalBound_of_not_left (hq : ∀ x ∈ q, IsAscii x) (hn : IsAscii n)
    (hb : left.binds (.of q n) = false) (h : evalOver left right l r (.column q n) = .ok v) :
    (Expr.column q n).evalBound right.schema right.qualifiers r = .ok v := by
  rw [evalOver, Expr.evalPair, Expr.eval_eq] at h
  rw [Expr.evalBound, Expr.eval_eq]
  exact Source.look_right_of_lookPair hq hn hb h

theorem of_evalOver_binary {op : BinaryOp} {a b : Expr}
    (h : evalOver left right l r (.binary op a b) = .ok v) :
    ∃ x y, evalOver left right l r a = .ok x ∧ evalOver left right l r b = .ok y ∧
      op.apply x y = .ok v := by
  obtain ⟨x, hx, h⟩ := bind_eq_ok_iff.mp h
  obtain ⟨y, hy, h⟩ := bind_eq_ok_iff.mp h
  exact ⟨x, y, hx, hy, h⟩

end Query

/-- Over a pair of rows on which the condition has a value, each key has one on the row of its side,
and the condition's value is what `=` makes of the two, null if one of them is null. -/
theorem equiJoinKeys_mean_condition {condition lk rk : Expr} {left right : Query}
    (hnames : condition.AsciiNames) (hkeys : equiJoinKeys? condition left right = some (lk, rk))
    {l r : Row} {v : Value}
    (hv : condition.evalPair left.schema left.qualifiers right.schema right.qualifiers l r = .ok v) :
    ∃ x y, lk.evalBound left.schema left.qualifiers l = .ok x ∧
      rk.evalBound right.schema right.qualifiers r = .ok y ∧
      (BinaryOp.compare .eq).apply x y = .ok v ∧
      (x.isNull = true ∨ y.isNull = true → v = .null) := by
  obtain ⟨⟨q, n, rfl, hleft⟩, ⟨q', n', rfl, hright⟩, hcondition⟩ := of_equiJoinKeys? hkeys
  have hmentions : (q, n) ∈ condition.mentions ∧ (q', n') ∈ condition.mentions := by
    rcases hcondition with rfl | rfl <;> simp [Expr.mentions]
  obtain ⟨hq, hn⟩ := hnames _ hmentions.1
  obtain ⟨hq', hn'⟩ := hnames _ hmentions.2
  -- the operands of the condition may come in either order
  have hvalues : ∃ x y, Query.evalOver left right l r (.column q n) = .ok x ∧
      Query.evalOver left right l r (.column q' n') = .ok y ∧
      (BinaryOp.compare .eq).apply x y = .ok v := by
    rcases hcondition with rfl | rfl
    · exact Query.of_evalOver_binary hv
    · obtain ⟨y, x, hy, hx, happly⟩ := Query.of_evalOver_binary hv
      exact ⟨x, y, hx, hy, BinaryOp.apply_eq_swap happly⟩
  obtain ⟨x, y, hx, hy, happly⟩ := hvalues
  refine ⟨x, y, Query.evalBound_of_not_right hq hn hleft hx,
    Query.evalBound_of_not_left hq' hn' hright hy, happly, fun hnull => ?_⟩
  rw [BinaryOp.apply_eq_null hnull] at happly
  exact (Except.ok.inj happly).symm

def readerScan : Query := .scan "reader" none ⟨[⟨"id", .int⟩]⟩

def noteScan : Query := .scan "note" none ⟨[⟨"by", .bigint⟩, ⟨"title", .varchar 8⟩]⟩

def isBorrower : Expr :=
  .binary (.compare .eq) (.column (some "Note") "BY") (.column none "ID")

theorem equiJoinKeys_mean_condition_on_borrower :
    isBorrower.AsciiNames ∧
      equiJoinKeys? isBorrower readerScan noteScan =
        some (.column none "ID", .column (some "Note") "BY") ∧
      isBorrower.evalPair readerScan.schema readerScan.qualifiers noteScan.schema
        noteScan.qualifiers [.int 2] [.bigint 2, .string "Ulysses"] = .ok (.bool true) ∧
      ∃ x y, (Expr.column none "ID").evalBound readerScan.schema readerScan.qualifiers [.int 2] =
          .ok x ∧
        (Expr.column (some "Note") "BY").evalBound noteScan.schema noteScan.qualifiers
          [.bigint 2, .string "Ulysses"] = .ok y ∧
        (BinaryOp.compare .eq).apply x y = .ok (.bool true) := by
  have hnames : isBorrower.AsciiNames := by decide
  have hkeys : equiJoinKeys? isBorrower readerScan noteScan =
      some (.column none "ID", .column (some "Note") "BY") := by decide +kernel
  -- the right operand is the column of the left input
  have hvalue : isBorrower.evalPair readerScan.schema readerScan.qualifiers noteScan.schema
      noteScan.qualifiers [.int 2] [.bigint 2, .string "Ulysses"] = .ok (.bool true) :=
    eq_ok_of_toOption (by decide +kernel)
  obtain ⟨x, y, hx, hy, happly, -⟩ := equiJoinKeys_mean_condition hnames hkeys hvalue
  exact ⟨hnames, hkeys, hvalue, x, y, hx, hy, happly⟩

end RelQuery
