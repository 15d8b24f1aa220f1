import RelQuery.Proofs.Expr.OriginLook
import RelQuery.Proofs.Plan.Answer
import RelQuery.Proofs.Run.Aggregation
import RelQuery.Proofs.Run.Groups
import RelQuery.Proofs.Run.Results

/-!
# Aggregations answer group by group

An aggregation that can be opened has a row for each group of its input's rows, and this row depends on
the group's rows alone: every call among the outputs has the value that it has over these rows, as if
there were no other call, as long as no two different calls are taken for equal.
-/

namespace RelQuery

namespace Grouping

variable {g : Grouping} {members : List Row} {c : AggregateCall} {out : Row}

/-! ## The row of a group -/

/-- Every output over the group's first row, each call replaced by its value over the group's rows. -/
def RowOver (g : Grouping) (members : List Row) (out : Row) : Prop :=
  List.Forall₂
    (fun i v => g.eval (g.leadOf members) (i.expr.replaceCalls (g.valueOver members)) = .ok v)
    g.outputs out

/-- What is known of a call that has a value over the rows of a group. -/
structure Tells (g : Grouping) (members : List Row) (c : AggregateCall) : Prop where
  evaluates : ∀ e, c.argument = some e → ∀ row ∈ members, (g.eval row e).isOk = true
  sum : c.fn = .sum → (∀ v ∈ g.given members c, v.isFloat = false) →
    ∃ n : Int64, g.valueOver members c = .bigint n ∧
      n.toInt = Value.integerTotal (g.given members c)
  min : c.fn = .min → (∀ v ∈ g.given members c, v.isFloat = false) →
    g.valueOver members c =
      ((g.given members c).find? fun v => (g.given members c).all (v.atMost ·)).getD .null
  max : c.fn = .max → (∀ v ∈ g.given members c, v.isFloat = false) →
    g.valueOver members c =
      ((g.given members c).find? fun v => (g.given members c).all (v.atLeast ·)).getD .null

theorem tells_of_callOver {v : Value} (h : g.callOver members c = .ok v) : g.Tells members c where
  evaluates e hc row hrow := by
    have hne : members ≠ [] := List.ne_nil_of_mem hrow
    rw [callOver, if_neg hne] at h
    obtain ⟨a, ha, -⟩ := bind_eq_ok_iff.mp h
    exact (holds_given hc ha).1 row hrow
  sum hfn hfloat := by
    refine ⟨_, ?_, toInt_integerTotal h hfn⟩
    simp [valueOver, hfn, AggregateFn.over, Value.sum_of_integers hfloat]
  min hfn hfloat := by simp [valueOver, hfn, AggregateFn.over, Value.least_eq hfloat]
  max hfn hfloat := by simp [valueOver, hfn, AggregateFn.over, Value.greatest_eq hfloat]

/-- Unless calls are confused, the row of a group is made of the values of its own calls. -/
theorem AnswersFor.rowOver (h : g.AnswersFor members out)
    (hnan : ∀ i ∈ g.outputs, i.expr.hasNaN = false) (hcalls : CallsApart g.outputs) :
    g.RowOver members out ∧ ∀ i ∈ g.outputs, ∀ c ∈ i.expr.aggregateCalls, g.Tells members c := by
  obtain ⟨results, hresults, hout⟩ := h
  have hown : ∀ i ∈ g.outputs, ∀ c ∈ i.expr.aggregateCalls,
      g.callOver members c = .ok (Expr.resultOf (g.calls.zip results) c) :=
    fun i hi c hc => resultOf_own hcalls hresults hi (hnan i hi) hc
  refine ⟨?_, fun i hi c hc => tells_of_callOver (hown i hi c hc)⟩
  have houtputs := (List.forall₂_and_left _ _).mpr
    ⟨fun i (hi : i ∈ g.outputs) => hi, mapM_eq_ok_iff.mp hout⟩
  refine houtputs.imp fun i v ⟨hi, hv⟩ => ?_
  rwa [Expr.withResults_eq, Expr.replaceCalls_congr fun c hc => eq_valueOver (hown i hi c hc)] at hv

/-- Over no rows at all, sums and counts are zero and everything else is null. -/
theorem RowOver.of_nothing (h : g.RowOver [] out) :
    List.Forall₂ (fun i v => (i.expr.isColumn = true → v = .null) ∧
      ∀ c : AggregateCall, i.expr = c.expr →
        v = if c.fn = .count ∨ c.fn = .sum then .bigint 0 else .null) g.outputs out := by
  refine h.imp fun i v hv => ⟨fun hcolumn => ?_, fun c hc => ?_⟩
  · cases he : i.expr with
    | column x n =>
      rw [he, eval, Expr.evalBound, Expr.replaceCalls, Expr.eval_eq] at hv
      obtain ⟨k, -, hk⟩ := Source.exists_of_look hv
      exact List.eq_of_mem_replicate (List.mem_of_getElem? hk)
    | _ => simp [he, Expr.isColumn] at hcolumn
  · have hvalue : g.valueOver [] c = v := by
      rw [hc] at hv
      obtain ⟨fn, argument⟩ := c
      cases argument <;> exact Except.ok.inj hv
    rw [← hvalue, valueOver_nil]
    cases c.fn <;> rfl

end Grouping

/-! ## Running an aggregation -/

namespace Plan

variable {κ : Type} {p : Plan κ} {gs : List Expr} {os : List Item} {s : Schema} {k : Cost κ}
  {life : Lifecycle} {results : List Row} {input : Operator p} {c : Catalog}

/-- An aggregation that can be opened hands out one row for each group of the rows of its input. -/
theorem aggregate_collects_by_groups (hnan : ∀ i ∈ os, i.expr.hasNaN = false)
    (hcalls : CallsApart os)
    (h : ((Operator.aggregate life results input).start (.aggregate gs os s k p) c).result =
      .ok ()) :
    ∃ rows out, (input.collect p c).result = .ok rows ∧
      (Operator.collect (.aggregate gs os s k p) (.aggregate life results input) c).result =
        .ok out ∧
      List.Forall₂ (p.grouping gs os).RowOver ((p.grouping gs os).groupsOf rows) out ∧
      ((p.grouping gs os).groupsOf rows).flatten.Perm rows ∧
      (∀ row ∈ rows, ∀ e ∈ gs, ((p.grouping gs os).eval row e).isOk = true) ∧
      (∀ members ∈ (p.grouping gs os).groupsOf rows, ∀ i ∈ os, ∀ call ∈ i.expr.aggregateCalls,
        (p.grouping gs os).Tells members call) ∧
      (rows = [] → gs = [] → ∃ row, out = [row] ∧
        List.Forall₂ (fun i v => (i.expr.isColumn = true → v = .null) ∧
          ∀ call : AggregateCall, i.expr = call.expr →
            v = if call.fn = .count ∨ call.fn = .sum then .bigint 0 else .null) os row) := by
  obtain ⟨rows, out, hrows, hout, hanswer⟩ := collect_aggregate h
  have hgroups := Grouping.answersFor_groups hanswer
  have hover : ∀ members row, (p.grouping gs os).AnswersFor members row → _ :=
    fun members row hrow => hrow.rowOver hnan hcalls
  have hanswers : List.Forall₂ (p.grouping gs os).RowOver ((p.grouping gs os).groupsOf rows) out :=
    hgroups.imp fun members row hrow => (hover members row hrow).1
  refine ⟨rows, out, hrows, hout, hanswers, Grouping.flatten_groupsOf _ rows, ?_, ?_, ?_⟩
  · obtain ⟨groups, hfold, -⟩ := bind_eq_ok_iff.mp hanswer
    exact (Grouping.allStand_of_foldlM hfold).1
  · intro members hmembers
    obtain ⟨row, -, hrow⟩ := exists_left_of_forall₂ hgroups.flip members hmembers
    exact (hover members row hrow).2
  · rintro rfl rfl
    have hgroup : (p.grouping [] os).groupsOf [] = [[]] := rfl
    rw [hgroup, List.forall₂_cons_left_iff] at hanswers
    obtain ⟨row, rest, hrow, hrest, rfl⟩ := hanswers
    cases hrest
    exact ⟨row, rfl, hrow.of_nothing⟩

def sales : Catalog :=
  (Catalog.empty.createWithRawRows "sale" ⟨[⟨"region", .string⟩, ⟨"amount", .int⟩]⟩
    [[.string "north", .int 3], [.string "south", .int 5], [.string "north", .null],
      [.string "north", .int 4]]).2

def saleScan : Plan Unit :=
  .scan "sale" none ⟨[⟨"region", .string⟩, ⟨"amount", .int⟩]⟩ ⟨(), (), ()⟩

/-- What a region sells in the mean, the sales without amount included, and its least amount. -/
def regionOutputs : List Item :=
  [⟨.column none "region", "region"⟩,
    ⟨.binary (.arith .div) (.aggregate .sum (.column none "amount")) (.aggregateRows .count),
      "mean"⟩,
    ⟨.aggregate .min (.column none "amount"), "least"⟩]

def regions : Plan Unit :=
  .aggregate [.column none "region"] regionOutputs
    ⟨[⟨"region", .string⟩, ⟨"mean", .bigint⟩, ⟨"least", .int⟩]⟩ ⟨(), (), ()⟩ saleScan

theorem aggregate_collects_by_groups_of_sales :
    (∀ i ∈ regionOutputs, i.expr.hasNaN = false) ∧ CallsApart regionOutputs ∧
      ((Operator.created regions).start regions sales).result = .ok () ∧
      ((Operator.created regions).collect regions sales).result =
        .ok [[.string "north", .bigint 2, .int 3], [.string "south", .bigint 5, .int 5]] ∧
      List.Forall₂ (saleScan.grouping [.column none "region"] regionOutputs).RowOver
        [[[.string "north", .int 3], [.string "north", .null], [.string "north", .int 4]],
          [[.string "south", .int 5]]]
        [[.string "north", .bigint 2, .int 3], [.string "south", .bigint 5, .int 5]] := by
  have hnan : ∀ i ∈ regionOutputs, i.expr.hasNaN = false := by decide
  have hcalls : CallsApart regionOutputs := by decide
  have hstart : ((Operator.created regions).start regions sales).result = .ok () :=
    eq_ok_of_toOption (by decide +kernel)
  have hinput : ((Operator.created saleScan).collect saleScan sales).result =
      .ok [[.string "north", .int 3], [.string "south", .int 5], [.string "north", .null],
        [.string "north", .int 4]] := eq_ok_of_toOption (by decide +kernel)
  have hcollect : ((Operator.created regions).collect regions sales).result =
      .ok [[.string "north", .bigint 2, .int 3], [.string "south", .bigint 5, .int 5]] :=
    eq_ok_of_toOption (by decide +kernel)
  obtain ⟨rows, out, hrows, hout, hgroups, -⟩ := aggregate_collects_by_groups hnan hcalls hstart
  cases hinput.symm.trans hrows
  cases hcollect.symm.trans hout
  exact ⟨hnan, hcalls, hstart, hcollect, hgroups⟩

def readings : Catalog :=
  (Catalog.empty.createWithRows "reading" ⟨[⟨"x", .float⟩]⟩ [[.float .zero]]).2

def readingScan : Plan Unit := .scan "reading" none ⟨[⟨"x", .float⟩]⟩ ⟨(), (), ()⟩

def allAbove (x : Binary64) (name : String) : Item :=
  ⟨.aggregate .min (.binary (.compare .gt) (.column none "x") (.literal (.float x))), name⟩

def zeroOutputs : List Item :=
  [allAbove .zero "above", allAbove ⟨0x8000000000000000⟩ "above_negative"]

def overReadings (outputs : List Item) : Plan Unit :=
  .aggregate [] outputs ⟨outputs.map fun i => ⟨i.name, .boolean⟩⟩ ⟨(), (), ()⟩ readingScan

/-- The calls over the two zeros are taken for equal, so the second has the value of the first; by
itself it has another one. -/
theorem aggregate_confuses_zeros :
    (∀ i ∈ zeroOutputs, i.expr.hasNaN = false) ∧
      ((Operator.created (overReadings zeroOutputs)).collect _ readings).result =
        .ok [[.bool false, .bool false]] ∧
      ((Operator.created (overReadings zeroOutputs.tail)).collect _ readings).result =
        .ok [[.bool true]] ∧
      ¬ (readingScan.grouping [] zeroOutputs).RowOver [[.float .zero]]
        [.bool false, .bool false] := by
  refine ⟨by decide, eq_ok_of_toOption (by decide +kernel),
    eq_ok_of_toOption (by decide +kernel), ?_⟩
  intro h
  have hsecond := congrArg Except.toOption (List.forall₂_cons.mp (List.forall₂_cons.mp h).2).1
  exact absurd hsecond (by decide +kernel)

end Plan

end RelQuery
