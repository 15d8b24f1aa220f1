import RelQuery.Proofs.Run.Grouping

/-!
# Results in the place of calls

An output is evaluated after its aggregate calls have been replaced by their results. The result of a
call is kept under the first equal call of all outputs, so it is the call's own exactly if no other
call is taken for equal.
-/

namespace RelQuery

deriving instance DecidableEq for AggregateCall

def AggregateCall.expr : AggregateCall → Expr
  | ⟨fn, some e⟩ => .aggregate fn e
  | ⟨fn, none⟩ => .aggregateRows fn

namespace Expr

def replaceCalls (value : AggregateCall → Value) : Expr → Expr
  | literal v => literal v
  | column q n => column q n
  | binary op l r => binary op (l.replaceCalls value) (r.replaceCalls value)
  | not e => not (e.replaceCalls value)
  | aggregate fn e => literal (value ⟨fn, some e⟩)
  | aggregateRows fn => literal (value ⟨fn, none⟩)

theorem withResults_eq (results : List (AggregateCall × Value)) :
    ∀ e : Expr, e.withResults results = e.replaceCalls (resultOf results)
  | literal _ | column _ _ | aggregate _ _ | aggregateRows _ => rfl
  | binary _ l r => by
    rw [withResults, replaceCalls, withResults_eq results l, withResults_eq results r]
  | not e => by rw [withResults, replaceCalls, withResults_eq results e]

theorem replaceCalls_congr {value value' : AggregateCall → Value} :
    ∀ {e : Expr}, (∀ c ∈ e.aggregateCalls, value c = value' c) →
      e.replaceCalls value = e.replaceCalls value'
  | literal _, _ | column _ _, _ => rfl
  | binary _ l r, h => by
    rw [aggregateCalls, List.forall_mem_append] at h
    rw [replaceCalls, replaceCalls, replaceCalls_congr h.1, replaceCalls_congr h.2]
  | not e, h => by rw [replaceCalls, replaceCalls, replaceCalls_congr (e := e) h]
  | aggregate fn e, h => congrArg literal (h ⟨fn, some e⟩ (List.mem_singleton_self _))
  | aggregateRows fn, h => congrArg literal (h ⟨fn, none⟩ (List.mem_singleton_self _))

/-! ## Equality with itself -/

def hasNaN : Expr → Bool
  | literal (.float x) => x.isNaN
  | literal _ | column _ _ | aggregateRows _ => false
  | binary _ l r => l.hasNaN || r.hasNaN
  | not e | aggregate _ e => e.hasNaN

theorem eqv_self : ∀ {e : Expr}, e.hasNaN = false → e.eqv e = true
  | literal v, h => by
    cases v with
    | float x => simp_all [eqv, hasNaN, Value.eqv, Binary64.eqv]
    | null | bool | int | bigint | string => simp [eqv, Value.eqv]
  | column _ _, _ => by simp [eqv]
  | binary _ l r, h => by
    rw [hasNaN, Bool.or_eq_false_iff] at h
    simp [eqv, eqv_self h.1, eqv_self h.2]
  | not e, h => eqv_self (e := e) h
  | aggregate _ e, h => by simp [eqv, eqv_self (e := e) h]
  | aggregateRows _, _ => by simp [eqv]

theorem call_eqv_self {c : AggregateCall} : ∀ {e : Expr}, e.hasNaN = false →
    c ∈ e.aggregateCalls → c.eqv c = true
  | literal _, _, hc | column _ _, _, hc => by cases hc
  | binary _ l r, h, hc => by
    rw [hasNaN, Bool.or_eq_false_iff] at h
    exact (List.mem_append.mp hc).elim (call_eqv_self h.1) (call_eqv_self h.2)
  | not e, h, hc => call_eqv_self (e := e) h hc
  | aggregate _ e, h, hc => by
    rw [List.mem_singleton.mp hc]
    simp [AggregateCall.eqv, Query.eqvCondition, eqv_self (e := e) h]
  | aggregateRows _, _, hc => by
    rw [List.mem_singleton.mp hc]
    simp [AggregateCall.eqv, Query.eqvCondition]

end Expr

/-! ## The calls of all outputs -/

/-- A call that equals itself is among the calls of the outputs, or an equal one is. -/
theorem exists_mem_callsOf {outputs : List Item} {i : Item} {c : AggregateCall} (hi : i ∈ outputs)
    (hc : c ∈ i.expr.aggregateCalls) (hself : c.eqv c = true) :
    ∃ d ∈ callsOf outputs, d.eqv c = true := by
  have key : ∀ calls seen : List AggregateCall, (∃ d ∈ seen, d.eqv c = true) ∨ c ∈ calls →
      ∃ d ∈ calls.foldl AggregateCall.addTo seen, d.eqv c = true := by
    intro calls
    induction calls with
    | nil =>
      rintro seen (h | h)
      · exact h
      · cases h
    | cons x calls ih =>
      intro seen h
      refine ih _ ?_
      unfold AggregateCall.addTo
      rcases h with ⟨d, hd, hdc⟩ | h
      · refine .inl ⟨d, ?_, hdc⟩
        split
        · exact hd
        · exact List.mem_append_left _ hd
      · rcases List.mem_cons.mp h with rfl | h
        · left
          split
          · rename_i hany
            exact List.any_eq_true.mp hany
          · exact ⟨c, by simp, hself⟩
        · exact .inr h
  exact key _ [] (.inr (List.mem_flatMap.mpr ⟨i, hi, hc⟩))

/-- The result found for a call is that of an equal one. -/
theorem exists_resultOf {R : AggregateCall → Value → Prop} {c : AggregateCall} :
    ∀ {calls : List AggregateCall} {results : List Value}, List.Forall₂ R calls results →
      (∃ d ∈ calls, d.eqv c = true) →
      ∃ d ∈ calls, d.eqv c = true ∧ R d (Expr.resultOf (calls.zip results) c)
  | _, _, .nil, ⟨_, hd, _⟩ => by cases hd
  | d :: calls, v :: results, .cons hv hrest, h => by
    unfold Expr.resultOf
    rw [List.zip_cons_cons, List.find?_cons]
    cases hdc : d.eqv c with
    | true => exact ⟨d, List.mem_cons_self, hdc, hv⟩
    | false =>
      have h : ∃ d ∈ calls, d.eqv c = true := by simpa [hdc] using h
      obtain ⟨d', hd', h'⟩ := exists_resultOf hrest h
      exact ⟨d', List.mem_cons_of_mem d hd', h'⟩

/-- Calls of the outputs that are taken for equal are the same. -/
def CallsApart (outputs : List Item) : Prop :=
  ∀ c ∈ outputs.flatMap (·.expr.aggregateCalls), ∀ d ∈ outputs.flatMap (·.expr.aggregateCalls),
    c.eqv d = true → c = d

instance (outputs : List Item) : Decidable (CallsApart outputs) :=
  inferInstanceAs (Decidable (∀ _ ∈ _, ∀ _ ∈ _, _ → _))

/-- Where no two calls are confused, every call gets its own result. -/
theorem resultOf_own {R : AggregateCall → Value → Prop} {outputs : List Item} {results : List Value}
    (hcalls : CallsApart outputs) (h : List.Forall₂ R (callsOf outputs) results) {i : Item}
    (hi : i ∈ outputs) (hnan : i.expr.hasNaN = false) {c : AggregateCall}
    (hc : c ∈ i.expr.aggregateCalls) :
    R c (Expr.resultOf ((callsOf outputs).zip results) c) := by
  obtain ⟨d, hd, hdc, hresult⟩ :=
    exists_resultOf h (exists_mem_callsOf hi hc (Expr.call_eqv_self hnan hc))
  rwa [hcalls d (List.mem_flatMap.mpr (mem_callsOf hd)) c (List.mem_flatMap.mpr ⟨i, hi, hc⟩) hdc]
    at hresult

end RelQuery
