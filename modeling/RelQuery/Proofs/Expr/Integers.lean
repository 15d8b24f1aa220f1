import RelQuery.Proofs.Data.Yields
import RelQuery.Proofs.Expr.Look
import RelQuery.Proofs.Number.Width

/-!
# Arithmetic on integers

Arithmetic on integers of two widths is exact or fails. An expression has an exact number, computed
without bounds, and a width, told from the widths of its operands. It evaluates to that number in that
width as long as nothing is divided by zero and all numbers on the way fit, and fails otherwise.
-/

namespace RelQuery

/-! ## One operation -/

namespace ArithOp

def exact : ArithOp → Int → Int → Option Int
  | add, a, b => some (a + b)
  | sub, a, b => some (a - b)
  | mul, a, b => some (a * b)
  | div, a, b => if b = 0 then none else some (a.tdiv b)

variable {op : ArithOp} {v w : Value} {s t : IntWidth} {a b x : Int}

theorem exact_eq_none_iff : op.exact a b = none ↔ op = .div ∧ b = 0 := by
  cases op <;> simp [exact]

theorem onInt_of_exact (h : op.exact a b = some x) : op.onInt a b = .ok x := by
  cases op with
  | add | sub | mul =>
    cases h
    rfl
  | div =>
    rw [exact, Option.ite_none_left_eq_some] at h
    obtain ⟨hb, h⟩ := h
    cases h
    exact if_neg hb

theorem apply_integers_eq (hv : v.IsInteger s a) (hw : w.IsInteger t b) :
    op.apply v w = op.onInt a b >>= fun x => op.fitted ((s.common t).fit x) := by
  cases hv <;> cases hw <;> rfl

/-- On integers an operation divides by zero, or has an exact result: it gives that if it fits the
common width of the operands, and overflows if not. -/
theorem apply_cases (hv : v.IsInteger s a) (hw : w.IsInteger t b) :
    (op = .div ∧ b = 0 ∧ op.apply v w = .error (.arithmetic .divisionByZero)) ∨
    ∃ x, op.exact a b = some x ∧
      (((s.common t).Holds x ∧ ∃ u, op.apply v w = .ok u ∧ u.IsInteger (s.common t) x) ∨
        (¬ (s.common t).Holds x ∧ op.apply v w = .error (.arithmetic (.overflow op.symbol)))) := by
  rw [apply_integers_eq hv hw]
  cases hx : op.exact a b with
  | none =>
    obtain ⟨rfl, rfl⟩ := exact_eq_none_iff.mp hx
    exact .inl ⟨rfl, rfl, rfl⟩
  | some x =>
    refine .inr ⟨x, rfl, ?_⟩
    rw [onInt_of_exact hx]
    by_cases h : (s.common t).Holds x
    · obtain ⟨u, hu, hinteger⟩ := IntWidth.exists_fit h
      exact .inl ⟨h, u, congrArg op.fitted hu, hinteger⟩
    · exact .inr ⟨h, congrArg op.fitted (IntWidth.fit_eq_none h)⟩

end ArithOp

/-! ## Expressions -/

namespace Expr

/-- Built by arithmetic from integers and from columns that have integers. -/
inductive Integral (look : Look) : Expr → Prop
  | literal {v : Value} {w : IntWidth} {x : Int} : v.IsInteger w x → Integral look (literal v)
  | column {q : Option String} {n : String} {v : Value} {w : IntWidth} {x : Int} :
    look q n = .ok v → v.IsInteger w x → Integral look (column q n)
  | arith (op : ArithOp) {l r : Expr} :
    Integral look l → Integral look r → Integral look (binary (.arith op) l r)

/-- The exact number, computed without bounds; where something is divided by zero there is none. -/
def exactIn (look : Look) : Expr → Option Int
  | literal v => v.toInt?
  | column q n => (look q n).toOption.bind Value.toInt?
  | binary (.arith op) l r => do op.exact (← l.exactIn look) (← r.exactIn look)
  | _ => none

/-- An operation has 32 bits if both of its operands have. -/
def widthIn (look : Look) : Expr → IntWidth
  | literal v => v.intWidth
  | column q n => ((look q n).toOption.map Value.intWidth).getD .bits64
  | binary (.arith _) l r => (l.widthIn look).common (r.widthIn look)
  | _ => .bits64

def parts : Expr → List Expr
  | binary op l r => binary op l r :: (l.parts ++ r.parts)
  | not e => not e :: e.parts
  | aggregate fn e => aggregate fn e :: e.parts
  | e => [e]

def divisor? : Expr → Option Expr
  | binary (.arith .div) _ r => some r
  | _ => none

def DividesSafely (look : Look) (e : Expr) : Prop :=
  ∀ f ∈ e.parts, ∀ d ∈ f.divisor?, d.exactIn look ≠ some 0

def Fits (look : Look) (e : Expr) : Prop :=
  ∀ f ∈ e.parts, ∀ x ∈ f.exactIn look, (f.widthIn look).Holds x

instance (look : Look) (e : Expr) : Decidable (e.DividesSafely look) :=
  inferInstanceAs (Decidable (∀ _ ∈ _, ∀ _ ∈ Expr.divisor? _, _))

instance (look : Look) (e : Expr) : Decidable (e.Fits look) :=
  inferInstanceAs (Decidable (∀ _ ∈ _, ∀ _ ∈ exactIn look _, _))

/-- The errors that there is reason for: a division by zero, or a number that does not fit. -/
inductive Warrants (look : Look) (e : Expr) : QueryError → Prop
  | divisionByZero : ¬ e.DividesSafely look → Warrants look e (.arithmetic .divisionByZero)
  | overflow (op : ArithOp) : ¬ e.Fits look → Warrants look e (.arithmetic (.overflow op.symbol))

variable {look : Look} {op : ArithOp} {e f l r : Expr} {v : Value} {err : QueryError}

theorem Warrants.mono (h : e.Warrants look err) (hsafe : f.DividesSafely look → e.DividesSafely look)
    (hfits : f.Fits look → e.Fits look) : f.Warrants look err := by
  cases h with
  | divisionByZero h => exact .divisionByZero (mt hsafe h)
  | overflow op h => exact .overflow op (mt hfits h)

theorem dividesSafely_arith : (binary (.arith op) l r).DividesSafely look ↔
    (op = .div → r.exactIn look ≠ some 0) ∧ l.DividesSafely look ∧ r.DividesSafely look := by
  unfold DividesSafely
  rw [parts, List.forall_mem_cons, List.forall_mem_append]
  refine and_congr_left fun _ => ?_
  cases op <;> simp [divisor?]

theorem fits_arith : (binary (.arith op) l r).Fits look ↔
    (∀ x ∈ (binary (.arith op) l r).exactIn look,
        ((l.widthIn look).common (r.widthIn look)).Holds x) ∧ l.Fits look ∧ r.Fits look := by
  unfold Fits
  rw [parts, List.forall_mem_cons, List.forall_mem_append]
  rfl

theorem exactIn_arith {a b : Int} (hl : l.exactIn look = some a) (hr : r.exactIn look = some b) :
    (binary (.arith op) l r).exactIn look = op.exact a b := by
  rw [exactIn, hl, hr]
  rfl

theorem exact_of_leaf {w : IntWidth} {x : Int} (hparts : e.parts = [e]) (hdivisor : e.divisor? = none)
    (hx : e.exactIn look = some x) (hw : e.widthIn look = w) (hv : v.IsInteger w x) :
    e.DividesSafely look ∧ e.Fits look ∧
      ∃ x, e.exactIn look = some x ∧ v.IsInteger (e.widthIn look) x := by
  subst hw
  unfold DividesSafely Fits
  rw [hparts, List.forall_mem_singleton, List.forall_mem_singleton, hdivisor, hx]
  refine ⟨nofun, fun y hy => ?_, x, rfl, hv⟩
  cases hy
  exact hv.holds

theorem evalWith_arith {w : Value} {s t : IntWidth} {a b : Int} (hl : l.evalWith look = .ok v)
    (hr : r.evalWith look = .ok w) (hv : v.IsInteger s a) (hw : w.IsInteger t b) :
    (binary (.arith op) l r).evalWith look = op.apply v w := by
  rw [evalWith, hl, hr]
  show v.strictly w (op.apply v w) = op.apply v w
  rw [Value.strictly, hv.isNull, hw.isNull]
  rfl

theorem exact_of_evalWith (h : e.Integral look) (hv : e.evalWith look = .ok v) :
    e.DividesSafely look ∧ e.Fits look ∧
      ∃ x, e.exactIn look = some x ∧ v.IsInteger (e.widthIn look) x := by
  induction h generalizing v with
  | literal hi =>
    cases hv
    exact exact_of_leaf rfl rfl hi.toInt? hi.intWidth hi
  | column hq hi =>
    cases hq.symm.trans hv
    refine exact_of_leaf rfl rfl ?_ ?_ hi
    · rw [exactIn, hq]
      exact hi.toInt?
    · rw [widthIn, hq]
      exact hi.intWidth
  | @arith op l r _ _ ihl ihr =>
    obtain ⟨y, hl, h⟩ := bind_eq_ok_iff.mp hv
    obtain ⟨z, hr, -⟩ := bind_eq_ok_iff.mp h
    obtain ⟨hsafeL, hfitsL, a, ha, hya⟩ := ihl hl
    obtain ⟨hsafeR, hfitsR, b, hb, hzb⟩ := ihr hr
    rw [evalWith_arith hl hr hya hzb] at hv
    obtain ⟨-, -, herr⟩ | ⟨x, hx, ⟨hholds, u, hu, hinteger⟩ | ⟨-, herr⟩⟩ := op.apply_cases hya hzb
    · cases herr.symm.trans hv
    · cases hu.symm.trans hv
      have hexact : (binary (.arith op) l r).exactIn look = some x := by
        rw [exactIn_arith ha hb, hx]
      refine ⟨dividesSafely_arith.mpr ⟨fun hop hzero => ?_, hsafeL, hsafeR⟩,
        fits_arith.mpr ⟨fun y hy => ?_, hfitsL, hfitsR⟩, x, hexact, hinteger⟩
      · -- a division by zero would have had no exact result
        cases hb.symm.trans hzero
        rw [ArithOp.exact_eq_none_iff.mpr ⟨hop, rfl⟩] at hx
        cases hx
      · cases hexact.symm.trans hy
        exact hholds
    · cases herr.symm.trans hv

theorem warrants_of_evalWith (h : e.Integral look) (herr : e.evalWith look = .error err) :
    e.Warrants look err := by
  induction h generalizing err with
  | literal hi => cases herr
  | column hq hi => cases hq.symm.trans herr
  | @arith op l r hl hr ihl ihr =>
    cases hy : l.evalWith look with
    | error errL =>
      rw [evalWith, hy] at herr
      cases herr
      exact (ihl hy).mono (fun h => (dividesSafely_arith.mp h).2.1) fun h => (fits_arith.mp h).2.1
    | ok y =>
      cases hz : r.evalWith look with
      | error errR =>
        rw [evalWith, hy, hz] at herr
        cases herr
        exact (ihr hz).mono (fun h => (dividesSafely_arith.mp h).2.2) fun h => (fits_arith.mp h).2.2
      | ok z =>
        -- both operands have values, so the operation itself fails
        obtain ⟨-, -, a, ha, hya⟩ := exact_of_evalWith hl hy
        obtain ⟨-, -, b, hb, hzb⟩ := exact_of_evalWith hr hz
        rw [evalWith_arith hy hz hya hzb] at herr
        obtain ⟨hop, rfl, hfail⟩ | ⟨x, hx, ⟨-, u, hu, -⟩ | ⟨hholds, hfail⟩⟩ :=
          op.apply_cases hya hzb
        · cases hfail.symm.trans herr
          exact .divisionByZero fun h => (dividesSafely_arith.mp h).1 hop hb
        · cases hu.symm.trans herr
        · cases hfail.symm.trans herr
          refine .overflow op fun h => hholds ((fits_arith.mp h).1 x ?_)
          rw [exactIn_arith ha hb]
          exact hx

/-- Over whatever rows are at hand, an expression built by arithmetic from integers has a value if and
only if nothing is divided by zero and every exact number on the way fits its width. The value is then
the exact number, as an integer of the width of the expression. Otherwise the error is an arithmetic one,
and tells of a division by zero or of an overflow only where there is one. -/
theorem eval_integers_exact {sources : List Source} {e : Expr}
    (h : e.Integral (Source.look sources)) :
    ((∃ v, e.eval sources = .ok v) ↔
      e.DividesSafely (Source.look sources) ∧ e.Fits (Source.look sources)) ∧
    (∀ v, e.eval sources = .ok v → ∃ x, e.exactIn (Source.look sources) = some x ∧
      v.IsInteger (e.widthIn (Source.look sources)) x) ∧
    ∀ err, e.eval sources = .error err → e.Warrants (Source.look sources) err := by
  simp only [eval_eq]
  refine ⟨⟨fun ⟨v, hv⟩ => ?_, fun ⟨hsafe, hfits⟩ => ?_⟩, fun v hv => (exact_of_evalWith h hv).2.2,
    fun err => warrants_of_evalWith h⟩
  · obtain ⟨hsafe, hfits, -⟩ := exact_of_evalWith h hv
    exact ⟨hsafe, hfits⟩
  · cases hv : e.evalWith (Source.look sources) with
    | ok v => exact ⟨v, rfl⟩
    | error err =>
      cases warrants_of_evalWith h hv with
      | divisionByZero hnot => exact absurd hsafe hnot
      | overflow op hnot => exact absurd hfits hnot

def gauge : Schema := ⟨[⟨"level", .int⟩, ⟨"scale", .bigint⟩]⟩

def lowest : Row := [.int Int32.minValue, .bigint (-1)]

def scaled : Expr := .binary (.arith .div) (.column none "level") (.column (some "gauge") "scale")

def twiceScaled : Expr := .binary (.arith .mul) scaled (.literal (.int 2))

def turned : Expr := .binary (.arith .div) (.column none "level") (.literal (.int (-1)))

/-- In 64 bits the lowest level of 32 bits can be turned upside down and doubled, and in 32 bits it
cannot be turned upside down. -/
theorem eval_integers_exact_of_lowest :
    let look := Source.look [⟨lowest, gauge, none⟩]
    (twiceScaled.Integral look ∧ twiceScaled.DividesSafely look ∧ twiceScaled.Fits look ∧
      ∃ v, twiceScaled.evalRow gauge lowest = .ok v ∧ v.IsInteger .bits64 4294967296) ∧
    turned.Integral look ∧ turned.DividesSafely look ∧ ¬ turned.Fits look ∧
      ∃ op : ArithOp, turned.evalRow gauge lowest = .error (.arithmetic (.overflow op.symbol)) := by
  intro look
  have hlevel : (column none "level").Integral look :=
    .column (eq_ok_of_toOption (by decide +kernel)) (.int Int32.minValue)
  have hscale : (column (some "gauge") "scale").Integral look :=
    .column (eq_ok_of_toOption (by decide +kernel)) (.bigint (-1))
  have htwice : twiceScaled.Integral look := .arith _ (.arith _ hlevel hscale) (.literal (.int 2))
  have hturned : turned.Integral look := .arith _ hlevel (.literal (.int (-1)))
  have hsafe : twiceScaled.DividesSafely look := by decide +kernel
  have hfits : twiceScaled.Fits look := by decide +kernel
  have hnot : ¬ turned.Fits look := by decide +kernel
  refine ⟨⟨htwice, hsafe, hfits, ?_⟩, hturned, by decide +kernel, hnot, ?_⟩
  · obtain ⟨hok, hexact, -⟩ := eval_integers_exact htwice
    obtain ⟨v, hv⟩ := hok.mpr ⟨hsafe, hfits⟩
    obtain ⟨x, hx, hinteger⟩ := hexact v hv
    have hnumber : twiceScaled.exactIn look = some 4294967296 := by decide +kernel
    cases hnumber.symm.trans hx
    exact ⟨v, hv, hinteger⟩
  · obtain ⟨hok, -, herror⟩ := eval_integers_exact hturned
    cases hv : turned.evalRow gauge lowest with
    | ok v => exact absurd (hok.mp ⟨v, hv⟩).2 hnot
    | error err =>
      cases herror err hv with
      | divisionByZero hzero => exact absurd (by decide +kernel) hzero
      | overflow op _ => exact ⟨op, rfl⟩

end Expr

end RelQuery
