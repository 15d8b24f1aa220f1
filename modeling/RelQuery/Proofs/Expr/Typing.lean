import RelQuery.Expr.Typing
import RelQuery.Proofs.Data.Order
import RelQuery.Proofs.Data.Typed
import RelQuery.Proofs.Data.Yields
import RelQuery.Proofs.Expr.PairLook
import RelQuery.Proofs.Run.Results

/-!
# Values of the inferred type

The type of an expression is told from its text and a schema, its value from the rows at hand. Over rows
that fit the schema the value is null or of the type, given that references resolve alike for both. They
do where names are ASCII.
-/

namespace RelQuery

/-! ## Values of a type, and nulls -/

def Value.Conforms (v : Value) (t : DataType) : Prop := v = .null ∨ v.HasType t

instance (v : Value) (t : DataType) : Decidable (v.HasType t) :=
  decidable_of_iff (Schema.faultOf ⟨"", t⟩ v = none) Schema.faultOf_eq_none_iff

instance (v : Value) (t : DataType) : Decidable (v.Conforms t) :=
  inferInstanceAs (Decidable (_ ∨ _))

theorem Value.Conforms.hasType {v : Value} {t : DataType} (h : v.Conforms t)
    (hv : v.isNull = false) : v.HasType t := by
  rcases h with rfl | h
  · cases hv
  · exact h

def Schema.Accepts (s : Schema) (row : Row) : Prop :=
  List.Forall₂ (fun c v => Value.Conforms v c.type) s.columns row

instance (s : Schema) (row : Row) : Decidable (s.Accepts row) :=
  decidable_of_iff
    (s.columns.length = row.length ∧ ∀ x ∈ s.columns.zip row, Value.Conforms x.2 x.1.type)
    (by
      rw [Schema.Accepts, List.forall₂_iff_zip]
      exact and_congr_right fun _ => ⟨fun h a b hab => h (a, b) hab, fun h x hx => h hx⟩)

theorem Schema.accepts_nulls (s : Schema) : s.Accepts (Row.nulls s.width) := by
  unfold Accepts Row.nulls width
  induction s.columns with
  | nil => exact .nil
  | cons c cs ih => exact .cons (.inl rfl) ih

/-! ## Operators -/

namespace ArithOp

variable {op : ArithOp} {v w r : Value} {s t u : DataType}

theorem exists_of_fitted {α : Type} {x : Option α} {f : α → Value}
    (h : op.fitted (x.map f) = .ok r) : ∃ a, r = f a := by
  cases x with
  | none => cases h
  | some a =>
    cases h
    exact ⟨a, rfl⟩

theorem apply_integers {a b : Int} (hv : v.number? = some (.integer a))
    (hw : w.number? = some (.integer b)) (h : op.apply v w = .ok r) :
    if v.dataType? = some .int ∧ w.dataType? = some .int then ∃ i, r = .int i
    else ∃ i, r = .bigint i := by
  simp only [apply, hv, hw] at h
  obtain ⟨exact, -, h⟩ := bind_eq_ok_iff.mp h
  split at h <;> rename_i hwidths
  · rw [if_pos hwidths]
    exact exists_of_fitted h
  · rw [if_neg hwidths]
    exact exists_of_fitted h

theorem apply_floats {m n : Number} (hv : v.number? = some m) (hw : w.number? = some n)
    (hfloat : v.isFloat = true ∨ w.isFloat = true) (h : op.apply v w = .ok r) :
    ∃ x, r = .float x := by
  have hfloats : op.apply v w = (do return .float (← op.onFloat m.toBinary64 n.toBinary64)) := by
    cases v <;> cases hv <;> cases w <;> cases hw <;>
      first
      | rfl
      | simp [Value.isFloat] at hfloat
  rw [hfloats] at h
  obtain ⟨x, -, h⟩ := bind_eq_ok_iff.mp h
  cases h
  exact ⟨x, rfl⟩

/-- Arithmetic on numbers gives a number of the promoted type. -/
theorem hasType_apply (hv : v.HasType s) (hw : w.HasType t) (hu : s.promote t = some u)
    (h : op.apply v w = .ok r) : r.HasType u := by
  cases hv <;> cases hw <;> simp [DataType.promote, DataType.isNumeric] at hu <;> subst hu
  case int.int =>
    obtain ⟨i, rfl⟩ := apply_integers rfl rfl h
    exact .int i
  case int.bigint | bigint.int | bigint.bigint =>
    obtain ⟨i, rfl⟩ := apply_integers rfl rfl h
    exact .bigint i
  all_goals
    obtain ⟨x, rfl⟩ := apply_floats rfl rfl (by simp [Value.isFloat]) h
    exact .float x

end ArithOp

theorem Value.conforms_of_strictly {v w r : Value} {result : Except QueryError Value} {t : DataType}
    (h : v.strictly w result = .ok r)
    (hresult : v.isNull = false → w.isNull = false → result = .ok r → r.HasType t) :
    r.Conforms t := by
  unfold strictly at h
  split at h
  · cases h
    exact .inl rfl
  · rename_i hnull
    rw [Bool.or_eq_true, not_or, Bool.not_eq_true, Bool.not_eq_true] at hnull
    exact .inr (hresult hnull.1 hnull.2 h)

theorem LogicOp.conforms_apply (op : LogicOp) (a b : Option Bool) :
    (op.apply a b).Conforms .boolean := by
  unfold apply
  split
  · exact .inr (.bool _)
  · split
    · exact .inl rfl
    · exact .inr (.bool _)

theorem Value.conforms_negation {v r : Value} (h : v.negation = .ok r) : r.Conforms .boolean := by
  obtain ⟨b, -, h⟩ := bind_eq_ok_iff.mp h
  cases b with
  | none =>
    cases h
    exact .inl rfl
  | some b =>
    cases h
    exact .inr (.bool _)

/-! ## Expressions -/

/-- The references resolve alike as written and with the qualifier lower-cased. -/
def Expr.ReadsAlike (s : Schema) (e : Expr) : Prop :=
  ∀ m ∈ e.mentions, s.resolve (m.1.map Text.lower) m.2 = s.resolve m.1 m.2

instance (s : Schema) (e : Expr) : Decidable (e.ReadsAlike s) :=
  inferInstanceAs (Decidable (∀ _ ∈ _, _))

/-- The references that are found have values of their columns' types, or none. -/
def Expr.FindsTyped (s : Schema) (look : Look) (e : Expr) : Prop :=
  ∀ m ∈ e.mentions, ∀ v c, look m.1 m.2 = .ok v →
    (s.resolve m.1 m.2).bind (s.columns[·]?) = some c → v.Conforms c.type

theorem Expr.ReadsAlike.findsTyped {s : Schema} {e : Expr} (h : e.ReadsAlike s) {row : Row}
    (hrow : s.Accepts row) (quals : Option (List String)) :
    e.FindsTyped s (Source.look [⟨row, s, quals⟩]) := by
  intro m hm v c hv hc
  obtain ⟨i, hi, hvi⟩ := Source.exists_of_look hv
  rw [← h m hm, hi, Option.bind_some] at hc
  obtain ⟨hlt, rfl⟩ := List.getElem?_eq_some_iff.mp hc
  obtain ⟨hlt', rfl⟩ := List.getElem?_eq_some_iff.mp hvi
  exact List.Forall₂.get hrow hlt hlt'

namespace Expr

theorem eq_of_isNullLiteral {e : Expr} (h : e.isNullLiteral = true) : e = literal .null := by
  cases e with
  | literal v =>
    cases v with
    | null => rfl
    | bool | int | bigint | float | string => cases h
  | _ => cases h

theorem conforms_literal (v : Value) : v.Conforms (v.dataType?.getD .string) := by
  cases v with
  | null => exact .inl rfl
  | bool b => exact .inr (.bool b)
  | int i => exact .inr (.int i)
  | bigint i => exact .inr (.bigint i)
  | float x => exact .inr (.float x)
  | string s => exact .inr (.string s)

theorem isNull_of_isNullLiteral {look : Look} {value : AggregateCall → Value} {e : Expr} {v : Value}
    (h : e.isNullLiteral = true) (hv : (e.replaceCalls value).evalWith look = .ok v) :
    v.isNull = true := by
  rw [eq_of_isNullLiteral h] at hv
  cases hv
  rfl

/-- Where the calls have been replaced by values of their types, an expression has a value of its type. -/
theorem conforms_of_evalWith {s : Schema} {look : Look} {value : AggregateCall → Value} :
    ∀ {e : Expr} {t : DataType} {v : Value}, e.FindsTyped s look →
      (∀ c ∈ e.aggregateCalls, ∀ t, c.expr.typeIn s = .ok t → (value c).Conforms t) →
      e.typeIn s = .ok t → (e.replaceCalls value).evalWith look = .ok v → v.Conforms t
  | literal v, _, _, _, _, ht, hv => by
    cases ht
    cases hv
    exact conforms_literal v
  | column q n, t, v, hlook, _, ht, hv => by
    rw [typeIn] at ht
    cases hc : (s.resolve q n).bind (s.columns[·]?) with
    | none =>
      rw [hc] at ht
      cases ht
    | some c =>
      rw [hc] at ht
      cases ht
      exact hlook (q, n) (by simp [mentions]) v c hv hc
  | binary op l r, t, v, hlook, hvalue, ht, hv => by
    obtain ⟨a, hl, ht⟩ := bind_eq_ok_iff.mp ht
    obtain ⟨b, hr, ht⟩ := bind_eq_ok_iff.mp ht
    obtain ⟨x, hx, hv⟩ := bind_eq_ok_iff.mp hv
    obtain ⟨y, hy, hv⟩ := bind_eq_ok_iff.mp hv
    have hx' : x.Conforms a := conforms_of_evalWith (e := l)
      (fun m hm => hlook m (List.mem_append_left _ hm))
      (fun c hc => hvalue c (List.mem_append_left _ hc)) hl hx
    have hy' : y.Conforms b := conforms_of_evalWith (e := r)
      (fun m hm => hlook m (List.mem_append_right _ hm))
      (fun c hc => hvalue c (List.mem_append_right _ hc)) hr hy
    cases op with
    | logic op =>
      cases ht
      obtain ⟨_, -, hv⟩ := bind_eq_ok_iff.mp hv
      obtain ⟨_, -, hv⟩ := bind_eq_ok_iff.mp hv
      cases hv
      exact op.conforms_apply _ _
    | concat =>
      cases ht
      refine Value.conforms_of_strictly hv fun _ _ h => ?_
      cases h
      exact .string _
    | compare op =>
      cases ht
      refine Value.conforms_of_strictly hv fun _ _ h => ?_
      obtain ⟨_, -, h⟩ := bind_eq_ok_iff.mp h
      cases h
      exact .bool _
    | arith op =>
      refine Value.conforms_of_strictly hv fun hxn hyn h => ?_
      -- a null literal would have made the result null
      have hl' : l.isNullLiteral = false := by
        rw [Bool.eq_false_iff]
        intro hnull
        rw [isNull_of_isNullLiteral hnull hx] at hxn
        cases hxn
      have hr' : r.isNullLiteral = false := by
        rw [Bool.eq_false_iff]
        intro hnull
        rw [isNull_of_isNullLiteral hnull hy] at hyn
        cases hyn
      simp only [arithType, hl', hr'] at ht
      cases hu : a.promote b with
      | none =>
        rw [hu] at ht
        cases ht
      | some u =>
        rw [hu] at ht
        cases ht
        exact ArithOp.hasType_apply (hx'.hasType hxn) (hy'.hasType hyn) hu h
  | not e, t, v, _, _, ht, hv => by
    obtain ⟨_, -, ht⟩ := bind_eq_ok_iff.mp ht
    obtain ⟨x, -, hv⟩ := bind_eq_ok_iff.mp hv
    cases ht
    exact Value.conforms_negation hv
  | aggregate fn e, t, v, _, hvalue, ht, hv => by
    cases hv
    exact hvalue ⟨fn, some e⟩ (List.mem_singleton_self _) t ht
  | aggregateRows fn, t, v, _, hvalue, ht, hv => by
    cases hv
    exact hvalue ⟨fn, none⟩ (List.mem_singleton_self _) t ht

/-- An expression that has a value has no calls to replace. -/
theorem evalWith_replaceCalls {look : Look} (value : AggregateCall → Value) :
    ∀ {e : Expr} {v : Value}, e.evalWith look = .ok v →
      (e.replaceCalls value).evalWith look = .ok v
  | literal _, _, h | column _ _, _, h => h
  | binary _ l r, _, h => by
    obtain ⟨x, hl, h⟩ := bind_eq_ok_iff.mp h
    obtain ⟨y, hr, h⟩ := bind_eq_ok_iff.mp h
    rw [replaceCalls, evalWith, evalWith_replaceCalls value hl, evalWith_replaceCalls value hr]
    exact h
  | not e, _, h => by
    obtain ⟨x, he, h⟩ := bind_eq_ok_iff.mp h
    rw [replaceCalls, evalWith, evalWith_replaceCalls value he]
    exact h
  | aggregate _ _, _, h | aggregateRows _, _, h => by cases h

theorem ReadsAlike.conforms {s : Schema} {row : Row} {quals : Option (List String)} {e : Expr}
    {t : DataType} {v : Value} (hread : e.ReadsAlike s) (hrow : s.Accepts row)
    (ht : e.typeIn s = .ok t) (hv : e.eval [⟨row, s, quals⟩] = .ok v) : v.Conforms t := by
  rw [eval_eq] at hv
  -- there are no calls, so it does not matter by what they would be replaced
  exact conforms_of_evalWith (hread.findsTyped hrow quals) (fun _ _ _ _ => .inl rfl) ht
    (evalWith_replaceCalls (fun _ => .null) hv)

/-! ## Names in ASCII -/

theorem AsciiNames.readsAlike {e : Expr} (h : e.AsciiNames) (s : Schema) : e.ReadsAlike s := by
  intro (q, n) hm
  obtain ⟨hq, hn⟩ := h (q, n) hm
  cases q with
  | none => rfl
  | some x => exact s.resolve_lowerQualifier (hq x rfl) hn

/-- Over a row that fits the schema an expression has null or a value of its type, whether the names of
the scans are known or not. -/
theorem conforms_of_eval {s : Schema} {row : Row} {e : Expr} {t : DataType} {v : Value}
    (hnames : e.AsciiNames) (hrow : s.Accepts row) (ht : e.typeIn s = .ok t)
    (hv : e.evalRow s row = .ok v ∨ ∃ quals, e.evalBound s quals row = .ok v) : v.Conforms t := by
  obtain hv | ⟨quals, hv⟩ := hv
  · exact (hnames.readsAlike s).conforms hrow ht hv
  · exact (hnames.readsAlike s).conforms hrow ht hv

def orderLines : Schema := ⟨[⟨"pieces", .int⟩, ⟨"order.cents", .bigint⟩, ⟨"note", .varchar 4⟩]⟩

def withOneMore : Expr :=
  .binary (.arith .mul) (.binary (.arith .add) (.column none "Pieces") (.literal (.int 1)))
    (.column (some "ORDER") "cents")

theorem conforms_of_eval_on_order :
    withOneMore.AsciiNames ∧ orderLines.Accepts [.int 3, .bigint 250, .null] ∧
      withOneMore.typeIn orderLines = .ok .bigint ∧
      withOneMore.evalRow orderLines [.int 3, .bigint 250, .null] = .ok (.bigint 1000) ∧
      (Value.bigint 1000).Conforms .bigint := by
  have hnames : withOneMore.AsciiNames := by decide
  have hrow : orderLines.Accepts [.int 3, .bigint 250, .null] := by decide
  have ht : withOneMore.typeIn orderLines = .ok .bigint := eq_ok_of_toOption (by decide +kernel)
  have hv : withOneMore.evalRow orderLines [.int 3, .bigint 250, .null] = .ok (.bigint 1000) :=
    eq_ok_of_toOption (by decide +kernel)
  exact ⟨hnames, hrow, ht, hv, conforms_of_eval hnames hrow ht (.inl hv)⟩

/-! ## Equal expressions -/

theorem isNullLiteral_of_eqv {e f : Expr} (h : e.eqv f = true) :
    e.isNullLiteral = f.isNullLiteral := by
  cases e <;> cases f <;> try cases h
  case literal.literal v w => cases v <;> cases w <;> first | rfl | cases h
  all_goals rfl

/-- Expressions that are taken for equal have one type. -/
theorem typeIn_of_eqv {s : Schema} {e f : Expr} (h : e.eqv f = true) :
    e.typeIn s = f.typeIn s := by
  induction e generalizing f with
  | literal v =>
    cases f with
    | literal w => cases v <;> cases w <;> first | rfl | cases h
    | _ => cases h
  | column q n =>
    cases f with
    | column q' n' =>
      simp only [eqv, Bool.and_eq_true, beq_iff_eq] at h
      rw [h.1, h.2]
    | _ => cases h
  | binary op l r ihl ihr =>
    cases f with
    | binary op' l' r' =>
      simp only [eqv, Bool.and_eq_true, beq_iff_eq] at h
      obtain ⟨⟨rfl, hl⟩, hr⟩ := h
      simp only [typeIn, arithType, ihl hl, ihr hr, isNullLiteral_of_eqv hl,
        isNullLiteral_of_eqv hr]
    | _ => cases h
  | not e ih =>
    cases f with
    | not e' => rw [typeIn, typeIn, ih h]
    | _ => cases h
  | aggregate fn e ih =>
    cases f with
    | aggregate fn' e' =>
      simp only [eqv, Bool.and_eq_true, beq_iff_eq] at h
      rw [typeIn, typeIn, ih h.2, h.1]
    | _ => cases h
  | aggregateRows fn =>
    cases f with
    | aggregateRows fn' =>
      simp only [eqv, beq_iff_eq] at h
      rw [h]
    | _ => cases h

end Expr

theorem AggregateCall.expr_eqv {c d : AggregateCall} (h : c.eqv d = true) :
    c.expr.eqv d.expr = true := by
  obtain ⟨fn, argument⟩ := c
  obtain ⟨fn', argument'⟩ := d
  unfold eqv at h
  cases argument <;> cases argument' <;> simp_all [expr, Expr.eqv, Query.eqvCondition]

end RelQuery
