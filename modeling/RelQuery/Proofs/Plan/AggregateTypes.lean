import RelQuery.Proofs.Expr.Typing
import RelQuery.Proofs.Plan.Answer
import RelQuery.Proofs.Query.Over
import RelQuery.Proofs.Run.Aggregation
import RelQuery.Proofs.Run.Groups

/-!
# Types of aggregations

The type that is declared for an aggregate call is that of its result, unless it is a sum of doubles
without any: then the result is an integer zero. But for these sums the rows of an aggregation fit the
schema that was declared for it.
-/

namespace RelQuery

namespace Grouping

variable {g : Grouping} {members : List Row} {c : AggregateCall} {t : DataType}

/-! ## Types of calls -/

theorem conforms_eval {e : Expr} {row : Row} (hread : e.ReadsAlike g.schema)
    (hrow : g.schema.Accepts row) (ht : e.typeIn g.schema = .ok t) {v : Value}
    (hv : g.eval row e = .ok v) : v.Conforms t := hread.conforms hrow ht hv

theorem hasType_given {e : Expr} (hc : c.argument = some e) (hread : e.ReadsAlike g.schema)
    (hrows : ∀ row ∈ members, g.schema.Accepts row) (ht : e.typeIn g.schema = .ok t) :
    ∀ v ∈ g.given members c, v.HasType t := by
  intro v hv
  simp only [given, hc, List.mem_filter, List.mem_map, Bool.not_eq_true'] at hv
  obtain ⟨⟨row, hrow, rfl⟩, hnull⟩ := hv
  cases he : g.eval row e with
  | error _ =>
    rw [he] at hnull
    cases hnull
  | ok v =>
    rw [he] at hnull
    exact (conforms_eval hread (hrows row hrow) ht he).hasType hnull

theorem isFloat_of_hasType {v : Value} (h : v.HasType t) : v.isFloat = true ↔ t = .float := by
  cases h <;> simp [Value.isFloat]

theorem conforms_leading {le : Value → Value → Bool} {vs : List Value} (h : ∀ v ∈ vs, v.HasType t) :
    ((leading? le vs).getD .null).Conforms t := by
  cases hv : leading? le vs with
  | none => exact .inl rfl
  | some v => exact .inr (h v (mem_of_leading? hv))

/-- The sum of doubles is a double only if there is one. -/
theorem conforms_sum_iff {vs : List Value} (h : ∀ v ∈ vs, v.HasType t) :
    (Value.sum vs).Conforms (Expr.aggregateType .sum t) ↔
      ¬ (Expr.aggregateType .sum t = .float ∧ vs = []) := by
  by_cases ht : t = .float
  · rw [Expr.aggregateType, if_pos ht]
    cases vs with
    | nil =>
      refine iff_of_false ?_ (by simp)
      rintro (h | h) <;> cases h
    | cons v vs =>
      have hv : v.isFloat = true := (isFloat_of_hasType (h v List.mem_cons_self)).mpr ht
      rw [Value.sum, if_pos (by simp [hv])]
      exact iff_of_true (.inr (.float _)) (by simp)
  · have hintegers : ∀ v ∈ vs, v.isFloat = false := fun v hv => by
      rw [Bool.eq_false_iff]
      exact mt (isFloat_of_hasType (h v hv)).mp ht
    rw [Expr.aggregateType, if_neg ht, Value.sum_of_integers hintegers]
    exact iff_of_true (.inr (.bigint _)) (by simp)

theorem conforms_avg (hfn : c.fn = .avg) : (g.valueOver members c).Conforms .float := by
  simp only [valueOver, hfn, AggregateFn.over, reduceCtorEq, false_and, if_false, true_and]
  split
  · exact .inl rfl
  · exact .inr (.float _)

/-- The value of a call is null or of the call's type, but for a sum of doubles without any. -/
theorem conforms_valueOver_iff (hread : c.expr.ReadsAlike g.schema)
    (hrows : ∀ row ∈ members, g.schema.Accepts row) (ht : c.expr.typeIn g.schema = .ok t) :
    (g.valueOver members c).Conforms t ↔
      ¬ (c.fn = .sum ∧ t = .float ∧ g.given members c = []) := by
  obtain ⟨fn, argument⟩ := c
  cases argument with
  | none =>
    cases fn with
    | min | max => cases ht
    | count | sum =>
      cases ht
      exact iff_of_true (.inr (.bigint _)) (by simp)
    | avg =>
      cases ht
      exact iff_of_true (conforms_avg rfl) (by simp)
  | some e =>
    obtain ⟨te, hte, ht⟩ := bind_eq_ok_iff.mp ht
    have hgiven := hasType_given (c := ⟨fn, some e⟩) rfl hread hrows hte
    cases ht
    cases fn with
    | count => exact iff_of_true (.inr (.bigint _)) (by simp)
    | sum =>
      have hsum : g.valueOver members ⟨.sum, some e⟩ = .sum (g.given members ⟨.sum, some e⟩) := rfl
      simpa [hsum] using conforms_sum_iff hgiven
    | avg => exact iff_of_true (conforms_avg rfl) (by simp)
    | min | max => exact iff_of_true (conforms_leading hgiven) (by simp)

/-! ## Types of rows -/

/-- No call sums doubles up where there are none. -/
def SumsNumbers (g : Grouping) (members : List Row) : Prop :=
  ∀ i ∈ g.outputs, ∀ c ∈ i.expr.aggregateCalls,
    ¬ (c.fn = .sum ∧ c.expr.typeIn g.schema = .ok .float ∧ g.given members c = [])

instance (g : Grouping) (members : List Row) : Decidable (g.SumsNumbers members) :=
  inferInstanceAs (Decidable (∀ _ ∈ _, ∀ _ ∈ _, ¬ _))

theorem readsAlike_of_mem_aggregateCalls {s : Schema} {e : Expr} (h : e.ReadsAlike s)
    (hc : c ∈ e.aggregateCalls) : c.expr.ReadsAlike s := by
  obtain ⟨fn, argument⟩ := c
  cases argument with
  | none => exact nofun
  | some f => exact fun m hm => h m (Expr.mentions_of_mem_aggregateCalls hc rfl m hm)

theorem accepts_leadOf (hrows : ∀ row ∈ members, g.schema.Accepts row) :
    g.schema.Accepts (g.leadOf members) := by
  cases members with
  | nil => exact g.schema.accepts_nulls
  | cons row _ => exact hrows row List.mem_cons_self

/-- The result that is found for a call conforms to the call's type, whichever equal call it is of. -/
theorem conforms_resultOf {results : List Value}
    (hread : ∀ i ∈ g.outputs, i.expr.ReadsAlike g.schema)
    (hrows : ∀ row ∈ members, g.schema.Accepts row) (hsums : g.SumsNumbers members)
    (hresults : List.Forall₂ (fun c v => g.callOver members c = .ok v) g.calls results)
    (ht : c.expr.typeIn g.schema = .ok t) :
    (Expr.resultOf (g.calls.zip results) c).Conforms t := by
  by_cases hfound : ∃ d ∈ g.calls, d.eqv c = true
  · obtain ⟨d, hd, hdc, hresult⟩ := exists_resultOf hresults hfound
    obtain ⟨i, hi, hmem⟩ := mem_callsOf hd
    rw [← Expr.typeIn_of_eqv (AggregateCall.expr_eqv hdc)] at ht
    rw [eq_valueOver hresult, conforms_valueOver_iff
      (readsAlike_of_mem_aggregateCalls (hread i hi) hmem) hrows ht]
    rintro ⟨hfn, rfl, hgiven⟩
    exact hsums i hi d hmem ⟨hfn, ht, hgiven⟩
  · have hnone : (g.calls.zip results).find? (fun r => r.1.eqv c) = none := by
      rw [List.find?_eq_none]
      intro r hr heq
      exact hfound ⟨r.1, (List.of_mem_zip hr).1, heq⟩
    rw [Expr.resultOf, hnone]
    exact .inl rfl

theorem AnswersFor.accepts {s : Schema} {out : Row} (h : g.AnswersFor members out)
    (hs : Query.itemSchema g.schema g.outputs = .ok s)
    (hread : ∀ i ∈ g.outputs, i.expr.ReadsAlike g.schema)
    (hrows : ∀ row ∈ members, g.schema.Accepts row) (hsums : g.SumsNumbers members) :
    s.Accepts out := by
  obtain ⟨results, hresults, hout⟩ := h
  have hcolumns := (List.forall₂_and_left _ _).mpr
    ⟨fun i (hi : i ∈ g.outputs) => hi, Query.forall₂_itemSchema hs⟩
  refine forall₂_through ?_ hcolumns.flip (mapM_eq_ok_iff.mp hout)
  rintro column i v ⟨hi, -, ht⟩ hv
  rw [eval, Expr.evalBound, Expr.withResults_eq, Expr.eval_eq] at hv
  exact Expr.conforms_of_evalWith ((hread i hi).findsTyped (accepts_leadOf hrows) (some g.qualifiers))
    (fun c _ t ht => conforms_resultOf hread hrows hsums hresults ht) ht hv

theorem conforms_callOver_iff {v : Value} (hread : c.expr.ReadsAlike g.schema)
    (hrows : ∀ row ∈ members, g.schema.Accepts row) (ht : c.expr.typeIn g.schema = .ok t)
    (hv : g.callOver members c = .ok v) :
    v.Conforms t ↔ ¬ (c.fn = .sum ∧ t = .float ∧ g.given members c = []) := by
  rw [eq_valueOver hv]
  exact conforms_valueOver_iff hread hrows ht

theorem accepts_answer {s : Schema} {rows out : List Row} (h : g.answer rows = .ok out)
    (hs : Query.itemSchema g.schema g.outputs = .ok s)
    (hread : ∀ i ∈ g.outputs, i.expr.ReadsAlike g.schema)
    (hrows : ∀ row ∈ rows, g.schema.Accepts row)
    (hsums : ∀ members ∈ g.groupsOf rows, g.SumsNumbers members) : ∀ row ∈ out, s.Accepts row := by
  intro row hrow
  obtain ⟨members, hmembers, hrow⟩ := exists_left_of_forall₂ (answersFor_groups h) row hrow
  refine hrow.accepts hs hread (fun r hr => hrows r ?_) (hsums members hmembers)
  exact (g.flatten_groupsOf rows).mem_iff.mp (List.mem_flatten_of_mem hmembers hr)

end Grouping

/-! ## Running an aggregation -/

namespace Plan

/-- Over rows that fit their schema, a call that has a value has one of its type or null, but for a sum
of doubles without any; without such sums an aggregation that can be opened hands out rows that fit the
schema declared for it. -/
theorem aggregate_results_conform {κ : Type} :
    (∀ (g : Grouping) (members : List Row) (call : AggregateCall) (t : DataType) (v : Value),
      call.expr.ReadsAlike g.schema → (∀ row ∈ members, g.schema.Accepts row) →
        call.expr.typeIn g.schema = .ok t → g.callOver members call = .ok v →
          (v.Conforms t ↔ ¬ (call.fn = .sum ∧ t = .float ∧ g.given members call = []))) ∧
    ∀ (p : Plan κ) (gs : List Expr) (os : List Item) (s : Schema) (k : Cost κ) (life : Lifecycle)
      (results : List Row) (input : Operator p) (c : Catalog),
      Query.itemSchema p.schema os = .ok s → (∀ i ∈ os, i.expr.ReadsAlike p.schema) →
      ((Operator.aggregate life results input).start (.aggregate gs os s k p) c).result = .ok () →
        ∃ rows out, (input.collect p c).result = .ok rows ∧
          (Operator.collect (.aggregate gs os s k p) (.aggregate life results input) c).result =
            .ok out ∧
          ((∀ row ∈ rows, p.schema.Accepts row) →
            (∀ members ∈ (p.grouping gs os).groupsOf rows,
              (p.grouping gs os).SumsNumbers members) →
            ∀ row ∈ out, s.Accepts row) := by
  refine ⟨fun g members call t v hread hrows ht hv => ?_, ?_⟩
  · exact Grouping.conforms_callOver_iff hread hrows ht hv
  · intro p gs os s k life results input c hs hread hstart
    obtain ⟨rows, out, hrows, hout, hanswer⟩ := collect_aggregate hstart
    refine ⟨rows, out, hrows, hout, fun haccepts hsums => ?_⟩
    exact Grouping.accepts_answer hanswer hs hread haccepts hsums

def parcels : Catalog :=
  (Catalog.empty.createWithRawRows "parcel"
    ⟨[⟨"depot", .varchar 8⟩, ⟨"pieces", .int⟩, ⟨"weight", .float⟩]⟩
    [[.string "west", .int 3, .float ⟨0x4004000000000000⟩], [.string "east", .null, .null],
      [.string "west", .int 4, .null]]).2

def parcelScan : Plan Unit :=
  .scan "parcel" none ⟨[⟨"depot", .varchar 8⟩, ⟨"pieces", .int⟩, ⟨"weight", .float⟩]⟩ ⟨(), (), ()⟩

/-- The pieces of a depot, with one more, beside its greatest weight. -/
def depotOutputs : List Item :=
  [⟨.column none "depot", "depot"⟩,
    ⟨.binary (.arith .add) (.aggregate .sum (.column none "pieces")) (.literal (.int 1)), "pieces"⟩,
    ⟨.aggregate .max (.column none "weight"), "heaviest"⟩]

def depotSchema : Schema := ⟨[⟨"depot", .varchar 8⟩, ⟨"pieces", .bigint⟩, ⟨"heaviest", .float⟩]⟩

def depots : Plan Unit :=
  .aggregate [.column none "depot"] depotOutputs depotSchema ⟨(), (), ()⟩ parcelScan

theorem aggregate_results_conform_of_depots :
    let g := parcelScan.grouping [.column none "depot"] depotOutputs
    let total : AggregateCall := ⟨.sum, some (.column none "pieces")⟩
    let east : Row := [.string "east", .null, .null]
    g.callOver [east] total = .ok (.bigint 0) ∧
      total.expr.typeIn g.schema = .ok .bigint ∧ (Value.bigint 0).Conforms .bigint ∧
      Query.itemSchema parcelScan.schema depotOutputs = .ok depotSchema ∧
      ((Operator.created depots).collect depots parcels).result =
        .ok [[.string "west", .bigint 8, .float ⟨0x4004000000000000⟩],
          [.string "east", .bigint 1, .null]] ∧
      ∀ row ∈ [[Value.string "west", .bigint 8, .float ⟨0x4004000000000000⟩],
        [.string "east", .bigint 1, .null]], depotSchema.Accepts row := by
  intro g total east
  have htotal : g.callOver [east] total = .ok (.bigint 0) := eq_ok_of_toOption (by decide +kernel)
  have ht : total.expr.typeIn g.schema = .ok .bigint := eq_ok_of_toOption (by decide +kernel)
  have hs : Query.itemSchema parcelScan.schema depotOutputs = .ok depotSchema :=
    eq_ok_of_toOption (by decide +kernel)
  have hinput : ((Operator.created parcelScan).collect parcelScan parcels).result =
      .ok [[.string "west", .int 3, .float ⟨0x4004000000000000⟩], [.string "east", .null, .null],
        [.string "west", .int 4, .null]] := eq_ok_of_toOption (by decide +kernel)
  have hcollect : ((Operator.created depots).collect depots parcels).result =
      .ok [[.string "west", .bigint 8, .float ⟨0x4004000000000000⟩],
        [.string "east", .bigint 1, .null]] := eq_ok_of_toOption (by decide +kernel)
  obtain ⟨hcall, hrun⟩ := @aggregate_results_conform Unit
  have hstart : ((Operator.created depots).start depots parcels).result = .ok () :=
    eq_ok_of_toOption (by decide +kernel)
  obtain ⟨rows, out, hrows, hout, haccepts⟩ := hrun _ _ _ _ _ _ _ _ _ hs (by decide +kernel) hstart
  cases hinput.symm.trans hrows
  cases hcollect.symm.trans hout
  refine ⟨htotal, ht, ?_, hs, hcollect, haccepts (by decide +kernel) (by decide +kernel)⟩
  exact (hcall g [east] total _ _ (by decide +kernel) (by decide +kernel) ht htotal).mpr (by simp)

def coldReadings : Catalog := (Catalog.empty.createWithRows "reading" ⟨[⟨"x", .float⟩]⟩ []).2

def coldScan : Plan Unit := .scan "reading" none ⟨[⟨"x", .float⟩]⟩ ⟨(), (), ()⟩

def readingTotal : List Item := [⟨.aggregate .sum (.column none "x"), "total"⟩]

/-- Two columns whose qualifiers are the two small forms of one capital letter, which ends the name of
the scan. -/
def sigmas : Schema := ⟨[⟨"a\u03c3.x", .int⟩, ⟨"a\u03c2.x", .string⟩]⟩

def sigmaTable : Catalog :=
  (Catalog.empty.createWithRows "t" sigmas [[.int 1, .string "one"]]).2

def sigmaScan : Plan Unit := .scan "t" (some "A\u03a3") sigmas ⟨(), (), ()⟩

def sigmaLeast : List Item := [⟨.aggregate .min (.column (some "A\u03a3") "x"), "least"⟩]

/-- A sum of doubles over no rows is an integer, and a call may be typed by one column and be evaluated
on another. -/
theorem aggregate_results_stray :
    Query.itemSchema coldScan.schema readingTotal = .ok ⟨[⟨"total", .float⟩]⟩ ∧
      (Plan.execute (.aggregate [] readingTotal ⟨[⟨"total", .float⟩]⟩ ⟨(), (), ()⟩ coldScan)
        coldReadings).1 = .ok [[.bigint 0]] ∧
      ¬ Schema.Accepts ⟨[⟨"total", .float⟩]⟩ [.bigint 0] ∧
      Query.itemSchema sigmas sigmaLeast = .ok ⟨[⟨"least", .int⟩]⟩ ∧
      (Plan.execute (.aggregate [] sigmaLeast ⟨[⟨"least", .int⟩]⟩ ⟨(), (), ()⟩ sigmaScan)
        sigmaTable).1 = .ok [[.string "one"]] ∧
      ¬ Schema.Accepts ⟨[⟨"least", .int⟩]⟩ [.string "one"] :=
  ⟨eq_ok_of_toOption (by decide +kernel), eq_ok_of_toOption (by decide +kernel), by decide,
    eq_ok_of_toOption (by decide +kernel), eq_ok_of_toOption (by decide +kernel), by decide⟩

end Plan

end RelQuery
