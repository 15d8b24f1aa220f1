import RelQuery.Proofs.Data.Firsts
import RelQuery.Proofs.Data.Lists
import RelQuery.Proofs.Data.Order
import RelQuery.Proofs.Number.Width
import RelQuery.Proofs.Query.Rows

/-!
# What aggregate calls give

An accumulator takes in the rows of a group one after the other. Here its result is told from the rows
as a whole: how many they are, what their values add up to, which of their values leads.
-/

namespace RelQuery

/-! ## Several values -/

namespace Value

def float? : Value → Option Binary64
  | float x => some x
  | _ => none

def integerTotal (vs : List Value) : Int := (vs.filterMap toInt?).foldl (· + ·) 0

def floatTotal (xs : List Binary64) : Binary64 := xs.foldl (· + ·) .zero

@[simp] theorem integerTotal_concat (vs : List Value) (v : Value) :
    integerTotal (vs ++ [v]) = integerTotal vs + v.toInt?.getD 0 := by
  unfold integerTotal
  cases h : v.toInt? <;> simp [List.filterMap_append, h]

@[simp] theorem floatTotal_concat (xs : List Binary64) (x : Binary64) :
    floatTotal (xs ++ [x]) = floatTotal xs + x := by
  simp [floatTotal]

def sum (vs : List Value) : Value :=
  if vs.any isFloat then
    float (floatTotal (vs.filterMap float?) + Binary64.ofInt (integerTotal vs))
  else bigint (Int64.ofInt (integerTotal vs))

def mean (vs : List Value) : Value :=
  float (floatTotal (vs.filterMap toBinary64?) /
    Binary64.ofInt (if vs.length = 0 then 1 else vs.length))

def atMost (v w : Value) : Bool := v.AtMost w

def atLeast (v w : Value) : Bool := w.AtMost v

/-- The value that is left if a later one replaces it only when less. -/
def least (vs : List Value) : Value := (leading? atMost vs).getD null

/-- The value that is left if a later one replaces it only when greater. -/
def greatest (vs : List Value) : Value := (leading? atLeast vs).getD null

section

variable {vs : List Value} (h : ∀ v ∈ vs, v.isFloat = false)
include h

theorem sum_of_integers : sum vs = bigint (Int64.ofInt (integerTotal vs)) := by
  rw [sum, if_neg]
  simpa using h

/-- Unless there are floats among them, the first of the least values. -/
theorem least_eq : least vs = (vs.find? fun v => vs.all (v.atMost ·)).getD null := by
  rw [least, leading?_eq_find? (by simpa [atMost] using atMost_total)]
  simp only [atMost, decide_eq_true_eq]
  exact fun u hu v hv w hw => atMost_trans (h u hu) (h v hv) (h w hw)

theorem greatest_eq : greatest vs = (vs.find? fun v => vs.all (v.atLeast ·)).getD null := by
  rw [greatest, leading?_eq_find? fun v w => by simpa [atLeast] using atMost_total w v]
  simp only [atLeast, decide_eq_true_eq]
  exact fun u hu v hv w hw huv hvw => atMost_trans (h w hw) (h v hv) (h u hu) hvw huv

end

end Value

/-- What a function gives of the values of its argument that are not null. -/
def AggregateFn.over : AggregateFn → List Value → Value
  | count, vs => .bigint (Int64.ofNat vs.length)
  | sum, vs => .sum vs
  | avg, vs => .mean vs
  | min, vs => .least vs
  | max, vs => .greatest vs

/-! ## Calls over rows -/

namespace Grouping

/-- The values of a call's argument over rows, without the nulls. -/
def given (g : Grouping) (rows : List Row) (c : AggregateCall) : List Value :=
  match c.argument with
  | none => []
  | some e => (rows.map fun row => orNull (g.eval row e)).filter (!·.isNull)

/-- The value of a call over these rows alone. `COUNT(*)` counts them, and `AVG` is null of none. -/
def valueOver (g : Grouping) (rows : List Row) (c : AggregateCall) : Value :=
  if c.fn = .count ∧ c.argument.isNone then .bigint (Int64.ofNat rows.length)
  else if c.fn = .avg ∧ rows = [] then .null
  else c.fn.over (g.given rows c)

def accumulatorOver (g : Grouping) (rows : List Row) (c : AggregateCall) :
    Except QueryError Accumulator :=
  rows.foldlM (fun a row => g.accumulate row c a) (.start c.fn)

def callOver (g : Grouping) (rows : List Row) (c : AggregateCall) : Except QueryError Value :=
  if rows = [] then .ok (Accumulator.resultOfNothing c.fn)
  else do return (← g.accumulatorOver rows c).result

end Grouping

/-! ## What an accumulator holds -/

namespace Accumulator

/-- What is held after these values. The integers of a sum have stayed within 64 bits. -/
inductive Holds : AggregateFn → List Value → Accumulator → Prop
  | count (vs : List Value) : Holds .count vs (.count vs.length)
  | sum (vs : List Value) {i : Int64} : i.toInt = Value.integerTotal vs →
    Holds .sum vs (.sum i (Value.floatTotal (vs.filterMap Value.float?)) (vs.any Value.isFloat))
  | avg (vs : List Value) :
    Holds .avg vs (.avg (Value.floatTotal (vs.filterMap Value.toBinary64?)) vs.length)
  | min (vs : List Value) : Holds .min vs (.min (leading? Value.atMost vs))
  | max (vs : List Value) : Holds .max vs (.max (leading? Value.atLeast vs))

variable {fn : AggregateFn} {vs : List Value} {v : Value} {a b : Accumulator}

theorem holds_start (fn : AggregateFn) : Holds fn [] (start fn) := by
  cases fn
  case count => exact .count []
  case sum => exact .sum [] rfl
  case avg => exact .avg []
  case min => exact .min []
  case max => exact .max []

theorem kept_eq_keepLeading {le : Value → Value → Bool} (wanted : Ordering)
    (hle : ∀ v w : Value, v.order w = wanted ↔ le w v = false) {old new : Option Value}
    (h : kept wanted old v = .ok new) : new = keepLeading le old v := by
  cases old with
  | none =>
    cases h
    rfl
  | some w =>
    obtain ⟨o, ho, hnew⟩ := bind_eq_ok_iff.mp h
    have horder : v.order w = o := by rw [Value.order, ho]
    cases hnew
    rw [keepLeading, ← horder]
    by_cases hw : v.order w = wanted
    · rw [if_pos hw, if_neg (by simp [(hle v w).mp hw])]
    · rw [if_neg hw, if_pos (by simpa using mt (hle v w).mpr hw)]

theorem Holds.takeInteger (h : Holds .sum vs a) {n : Int} (hv : v.toInt? = some n)
    (hb : a.takeValue v = .ok b) : Holds .sum (vs ++ [v]) b := by
  have hfloat : v.float? = none ∧ v.isFloat = false ∧ v.number? = some (.integer n) := by
    cases v <;> cases hv <;> exact ⟨rfl, rfl, rfl⟩
  cases h with
  | @sum _ i hi =>
    simp only [Accumulator.takeValue, hfloat.2.2] at hb
    cases ht : int64? (i.toInt + n) with
    | none =>
      rw [ht] at hb
      cases hb
    | some t =>
      rw [ht] at hb
      cases hb
      have htotal : t.toInt = Value.integerTotal (vs ++ [v]) := by
        rw [toInt_of_int64? ht, Value.integerTotal_concat, hv, hi]
        rfl
      simpa [hfloat] using Holds.sum (vs ++ [v]) htotal

theorem Holds.takeValue (h : Holds fn vs a) (hb : a.takeValue v = .ok b) :
    Holds fn (vs ++ [v]) b := by
  cases h with
  | count =>
    cases hb
    have := Holds.count (vs ++ [v])
    rwa [List.length_append] at this
  | @sum _ i hi =>
    cases v with
    | null | bool | string => cases hb
    | int n | bigint n => exact (Holds.sum vs hi).takeInteger rfl hb
    | float x =>
      cases hb
      have htotal : i.toInt = Value.integerTotal (vs ++ [.float x]) := by
        rw [Value.integerTotal_concat, hi]
        exact (Int.add_zero _).symm
      have := Holds.sum (vs ++ [.float x]) htotal
      rw [List.filterMap_append, List.any_append] at this
      simpa [Value.float?, Value.isFloat] using this
  | avg =>
    simp only [Accumulator.takeValue] at hb
    cases hm : v.number? with
    | none =>
      rw [hm] at hb
      cases hb
    | some m =>
      rw [hm] at hb
      cases hb
      have hx : v.toBinary64? = some m.toBinary64 := by
        cases v <;> cases hm <;> rfl
      simpa [hx] using Holds.avg (vs ++ [v])
  | min =>
    obtain ⟨new, hnew, hb⟩ := bind_eq_ok_iff.mp hb
    cases hb
    have := Holds.min (vs ++ [v])
    rwa [leading?_concat, ← kept_eq_keepLeading .lt ?_ hnew] at this
    simp [Value.atMost, Value.order_lt_iff]
  | max =>
    obtain ⟨new, hnew, hb⟩ := bind_eq_ok_iff.mp hb
    cases hb
    have := Holds.max (vs ++ [v])
    rwa [leading?_concat, ← kept_eq_keepLeading .gt ?_ hnew] at this
    simp [Value.atLeast, Value.order_gt_iff]

theorem Holds.result_eq (h : Holds fn vs a) : a.result = fn.over vs := by
  cases h with
  | count | avg | min | max => rfl
  | sum vs hi => simp only [result, AggregateFn.over, Value.sum, ← hi, Int64.ofInt_toInt]

end Accumulator

namespace Grouping

variable {g : Grouping} {rows : List Row} {c : AggregateCall} {e : Expr} {a : Accumulator}

theorem accumulatorOver_concat {row : Row} {b : Accumulator} (h : g.accumulatorOver rows c = .ok a)
    (hrow : g.accumulate row c a = .ok b) : g.accumulatorOver (rows ++ [row]) c = .ok b := by
  unfold accumulatorOver at h ⊢
  rw [List.foldlM_append, h]
  refine bind_eq_ok_iff.mpr ⟨a, rfl, ?_⟩
  rw [List.foldlM_cons, hrow]
  rfl

theorem given_nil (c : AggregateCall) : g.given [] c = [] := by
  unfold given
  cases c.argument <;> rfl

theorem given_of_no_argument (hc : c.argument = none) : g.given rows c = [] := by
  simp [given, hc]

theorem given_concat (hc : c.argument = some e) {row : Row} {v : Value}
    (hv : g.eval row e = .ok v) :
    g.given (rows ++ [row]) c = g.given rows c ++ if v.isNull then [] else [v] := by
  simp only [given, hc, List.map_append, List.filter_append]
  cases hn : v.isNull <;> simp [hv, orNull, hn]

theorem holds_given (hc : c.argument = some e) (h : g.accumulatorOver rows c = .ok a) :
    (∀ row ∈ rows, (g.eval row e).isOk = true) ∧ a.Holds c.fn (g.given rows c) := by
  refine foldlM_inv (fun seen a => (∀ row ∈ seen, (g.eval row e).isOk = true) ∧
    a.Holds c.fn (g.given seen c)) ⟨nofun, ?_⟩ ?_ h
  · rw [given_nil]
    exact Accumulator.holds_start c.fn
  rintro seen row a b ⟨hok, ha⟩ hb
  simp only [accumulate, hc] at hb
  obtain ⟨v, hv, hb⟩ := bind_eq_ok_iff.mp hb
  rw [given_concat hc hv]
  refine ⟨?_, ?_⟩
  · rw [List.forall_mem_append, List.forall_mem_singleton, hv]
    exact ⟨hok, rfl⟩
  · unfold Accumulator.take at hb
    by_cases hnull : v.isNull = true
    · rw [if_pos hnull] at hb
      cases hb
      simpa [hnull] using ha
    · rw [if_neg hnull] at hb
      simpa [hnull] using ha.takeValue hb

theorem accumulatorOver_no_argument (hc : c.argument = none)
    (h : g.accumulatorOver rows c = .ok a) :
    a = if c.fn = .count then .count rows.length else .start c.fn := by
  refine foldlM_inv (fun seen a => a = if c.fn = .count then .count seen.length else .start c.fn)
    ?_ ?_ h
  · cases c.fn <;> rfl
  · rintro seen row a b rfl hb
    simp only [accumulate, hc] at hb
    cases hb
    cases c.fn <;> simp [Accumulator.takeRow, Accumulator.start]

theorem valueOver_nil (c : AggregateCall) :
    g.valueOver [] c = Accumulator.resultOfNothing c.fn := by
  unfold valueOver
  rw [given_nil]
  cases c.fn with
  | count => split <;> rfl
  | sum | avg | min | max => rfl

/-- Taking rows into an accumulator gives the value of the call over them. -/
theorem eq_valueOver {v : Value} (h : g.callOver rows c = .ok v) : v = g.valueOver rows c := by
  unfold callOver at h
  by_cases hnil : rows = []
  · rw [if_pos hnil] at h
    cases h
    rw [hnil, valueOver_nil]
  · rw [if_neg hnil] at h
    obtain ⟨a, ha, hv⟩ := bind_eq_ok_iff.mp h
    cases hv
    unfold valueOver
    cases hc : c.argument with
    | some e => simp [hnil, (holds_given hc ha).2.result_eq]
    | none =>
      rw [accumulatorOver_no_argument hc ha, given_of_no_argument hc]
      cases c.fn <;> simp [hnil, Accumulator.result, Accumulator.start] <;> rfl

/-- A sum that has a value has not left 64 bits. -/
theorem toInt_integerTotal {v : Value} (h : g.callOver rows c = .ok v) (hfn : c.fn = .sum) :
    (Int64.ofInt (Value.integerTotal (g.given rows c))).toInt =
      Value.integerTotal (g.given rows c) := by
  cases hc : c.argument with
  | none =>
    rw [given_of_no_argument hc]
    rfl
  | some e =>
    unfold callOver at h
    by_cases hnil : rows = []
    · rw [hnil, given_nil]
      rfl
    · rw [if_neg hnil] at h
      obtain ⟨a, ha, -⟩ := bind_eq_ok_iff.mp h
      have hholds := (holds_given hc ha).2
      rw [hfn] at hholds
      cases hholds with
      | sum _ hi => rw [← hi, Int64.ofInt_toInt]

end Grouping

end RelQuery
