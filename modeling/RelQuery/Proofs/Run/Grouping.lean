import RelQuery.Proofs.Data.Lists
import RelQuery.Proofs.Query.Rows

/-!
# Grouping other rows alike

Two groupings with the same expressions over different schemas answer alike if every reference that
has a value over one row has it over the corresponding row. The groups correspond one by one: they
have the same keys and accumulators, and corresponding first rows.
-/

namespace RelQuery

/-! ## What aggregate calls mention -/

namespace Expr

theorem mentions_of_mem_aggregateCalls {f : Expr} {call : AggregateCall} :
    ∀ {e : Expr}, call ∈ e.aggregateCalls → call.argument = some f → ∀ m ∈ f.mentions,
      m ∈ e.mentions
  | literal _, h, _, _, _ | column _ _, h, _, _, _ => by cases h
  | binary _ l r, h, hf, m, hm => by
    rw [mentions, List.mem_append]
    rcases List.mem_append.mp h with h | h
    · exact .inl (mentions_of_mem_aggregateCalls h hf m hm)
    · exact .inr (mentions_of_mem_aggregateCalls h hf m hm)
  | not e, h, hf, m, hm => mentions_of_mem_aggregateCalls (e := e) h hf m hm
  | aggregate _ e, h, hf, m, hm => by
    rw [List.mem_singleton.mp h] at hf
    cases hf
    exact hm
  | aggregateRows _, h, hf, _, _ => by
    rw [List.mem_singleton.mp h] at hf
    cases hf

theorem mentions_withResults (results : List (AggregateCall × Value)) :
    ∀ e : Expr, ∀ m ∈ (e.withResults results).mentions, m ∈ e.mentions
  | literal _, _, h | column _ _, _, h => h
  | binary _ l r, m, h => by
    rw [mentions, List.mem_append]
    rcases List.mem_append.mp h with h | h
    · exact .inl (mentions_withResults results l m h)
    · exact .inr (mentions_withResults results r m h)
  | not e, m, h => mentions_withResults results e m h
  | aggregate _ _, _, h | aggregateRows _, _, h => by cases h

end Expr

theorem mem_callsOf {outputs : List Item} {call : AggregateCall} (h : call ∈ callsOf outputs) :
    ∃ i ∈ outputs, call ∈ i.expr.aggregateCalls := by
  have key : ∀ calls seen : List AggregateCall, call ∈ calls.foldl AggregateCall.addTo seen →
      call ∈ seen ∨ call ∈ calls := by
    intro calls
    induction calls with
    | nil => exact fun _ h => .inl h
    | cons c calls ih =>
      intro seen h
      rcases ih _ h with h | h
      · unfold AggregateCall.addTo at h
        split at h
        · exact .inl h
        · rcases List.mem_append.mp h with h | h
          · exact .inl h
          · exact .inr (by simp [List.mem_singleton.mp h])
      · exact .inr (List.mem_cons_of_mem _ h)
  rcases key _ _ h with h | h
  · cases h
  · exact List.mem_flatMap.mp h

/-! ## Groups over other rows -/

def Group.over (f : Row → Row) (g : Group) : Group := { g with firstRow := f g.firstRow }

def Groups.over (f : Row → Row) (groups : Groups) : Groups := groups.map fun g => (g.1, g.2.over f)

/-- References that have a value over a row have it over the other row. -/
def Expr.Follows (s s' : Schema) (quals quals' : List String) (f : Row → Row) (e : Expr) : Prop :=
  ∀ m ∈ e.mentions, ∀ row v, Source.look [⟨row, s, some quals⟩] m.1 m.2 = .ok v →
    Source.look [⟨f row, s', some quals'⟩] m.1 m.2 = .ok v

namespace Grouping

variable {gs : List Expr} {os : List Item} {s s' : Schema} {quals quals' : List String}
  {f : Row → Row}

theorem eval_of_follows {e : Expr} (h : e.Follows s s' quals quals' f) {row : Row} {v : Value}
    (hv : (⟨gs, os, s, quals⟩ : Grouping).eval row e = .ok v) :
    (⟨gs, os, s', quals'⟩ : Grouping).eval (f row) e = .ok v := by
  unfold eval Expr.evalBound at hv ⊢
  rw [Expr.eval_eq] at hv ⊢
  exact Expr.evalWith_mono (fun x n hm => h (x, n) hm row) hv

section

variable (hos : ∀ i ∈ os, i.expr.Follows s s' quals quals' f)
include hos

theorem accumulate_of_follows {call : AggregateCall} (hcall : call ∈ callsOf os) {row : Row}
    {a b : Accumulator} (h : (⟨gs, os, s, quals⟩ : Grouping).accumulate row call a = .ok b) :
    (⟨gs, os, s', quals'⟩ : Grouping).accumulate (f row) call a = .ok b := by
  unfold accumulate at h ⊢
  cases hc : call.argument with
  | none =>
    rw [hc] at h
    exact h
  | some e =>
    obtain ⟨i, hi, hmem⟩ := mem_callsOf hcall
    have he : e.Follows s s' quals quals' f :=
      fun m hm => hos i hi m (Expr.mentions_of_mem_aggregateCalls hmem hc m hm)
    simp only [hc] at h ⊢
    cases hv : (⟨gs, os, s, quals⟩ : Grouping).eval row e with
    | error _ =>
      rw [hv] at h
      cases h
    | ok v =>
      rw [hv] at h
      rw [eval_of_follows he hv]
      exact h

theorem accumulateAll_of_follows {row : Row} {g g' : Group}
    (h : (⟨gs, os, s, quals⟩ : Grouping).accumulateAll row g = .ok g') :
    (⟨gs, os, s', quals'⟩ : Grouping).accumulateAll (f row) (g.over f) = .ok (g'.over f) := by
  unfold accumulateAll at h ⊢
  cases has : ((callsOf os).zip g.accumulators).mapM
      fun x => (⟨gs, os, s, quals⟩ : Grouping).accumulate row x.1 x.2 with
  | error _ =>
    simp only [calls, has] at h
    cases h
  | ok as =>
    have has' := mapM_ok_mono (m := id)
      (g := fun x => (⟨gs, os, s', quals'⟩ : Grouping).accumulate (f row) x.1 x.2)
      (fun x hx b hb => accumulate_of_follows hos (List.of_mem_zip hx).1 hb) has
    rw [List.map_id] at has'
    simp only [calls, has] at h
    cases h
    simp only [calls, Group.over, has']
    rfl

theorem takeInto_of_follows {key : List UInt8} {row : Row} : ∀ {groups groups' : Groups},
    (⟨gs, os, s, quals⟩ : Grouping).takeInto key row groups = .ok groups' →
      (⟨gs, os, s', quals'⟩ : Grouping).takeInto key (f row) (groups.over f) = .ok (groups'.over f)
  | [], groups', h => by
    unfold takeInto at h
    cases hg : (⟨gs, os, s, quals⟩ : Grouping).accumulateAll row
        (newGroup ⟨gs, os, s, quals⟩ row) with
    | error _ =>
      rw [hg] at h
      cases h
    | ok g =>
      rw [hg] at h
      cases h
      have := accumulateAll_of_follows hos hg
      simp only [Groups.over, List.map_nil, takeInto]
      exact this ▸ rfl
  | (k, g) :: groups, groups', h => by
    unfold takeInto at h
    simp only [Groups.over, List.map_cons, takeInto]
    by_cases hk : k = key
    · rw [if_pos hk] at h ⊢
      cases hg : (⟨gs, os, s, quals⟩ : Grouping).accumulateAll row g with
      | error _ =>
        rw [hg] at h
        cases h
      | ok g' =>
        rw [hg] at h
        cases h
        rw [accumulateAll_of_follows hos hg]
        rfl
    · rw [if_neg hk] at h ⊢
      cases hg : (⟨gs, os, s, quals⟩ : Grouping).takeInto key row groups with
      | error _ =>
        rw [hg] at h
        cases h
      | ok gs' =>
        rw [hg] at h
        cases h
        have := takeInto_of_follows hg
        unfold Groups.over at this
        rw [this]
        rfl

theorem outputRow_of_follows {results : List Value} {row out : Row}
    (h : (⟨gs, os, s, quals⟩ : Grouping).outputRow results row = .ok out) :
    (⟨gs, os, s', quals'⟩ : Grouping).outputRow results (f row) = .ok out := by
  unfold outputRow at h ⊢
  have := mapM_ok_mono (m := id)
    (g := fun i : Item => (⟨gs, os, s', quals'⟩ : Grouping).eval (f row)
      (i.expr.withResults ((callsOf os).zip results)))
    (fun i hi v hv => eval_of_follows
      (fun m hm => hos i hi m (Expr.mentions_withResults _ _ m hm)) hv) h
  rwa [List.map_id] at this

theorem outputRows_of_follows (hnulls : f (Row.nulls s.width) = Row.nulls s'.width)
    {groups : Groups} {out : List Row}
    (h : (⟨gs, os, s, quals⟩ : Grouping).outputRows groups = .ok out) :
    (⟨gs, os, s', quals'⟩ : Grouping).outputRows (groups.over f) = .ok out := by
  unfold outputRows at h ⊢
  have hempty : (groups.over f).isEmpty = groups.isEmpty := by
    cases groups <;> rfl
  simp only [hempty]
  by_cases hnone : (groups.isEmpty && gs.isEmpty) = true
  · simp only [hnone, if_true] at h ⊢
    cases hrow : (⟨gs, os, s, quals⟩ : Grouping).emptyRow with
    | error _ =>
      rw [hrow] at h
      cases h
    | ok row =>
      have hrow' : (⟨gs, os, s', quals'⟩ : Grouping).emptyRow = .ok row := by
        unfold emptyRow at hrow ⊢
        simp only [← hnulls]
        exact outputRow_of_follows hos hrow
      rw [hrow] at h
      rw [hrow']
      exact h
  · simp only [hnone] at h ⊢
    exact mapM_ok_mono (fun g _ row hrow => outputRow_of_follows hos hrow) h

/-- Corresponding rows are grouped alike and answered alike. -/
theorem answer_of_follows (hgs : ∀ e ∈ gs, e.Follows s s' quals quals' f)
    (hnulls : f (Row.nulls s.width) = Row.nulls s'.width) {rows out : List Row}
    (h : (⟨gs, os, s, quals⟩ : Grouping).answer rows = .ok out) :
    (⟨gs, os, s', quals'⟩ : Grouping).answer (rows.map f) = .ok out := by
  have htake : ∀ {groups groups' : Groups} {row : Row},
      (⟨gs, os, s, quals⟩ : Grouping).take groups row = .ok groups' →
        (⟨gs, os, s', quals'⟩ : Grouping).take (groups.over f) (f row) = .ok (groups'.over f) := by
    intro groups groups' row h
    unfold take at h ⊢
    cases hvs : gs.mapM ((⟨gs, os, s, quals⟩ : Grouping).eval row) with
    | error _ =>
      simp only [hvs] at h
      cases h
    | ok vs =>
      have hvs' := mapM_ok_mono (m := id) (g := (⟨gs, os, s', quals'⟩ : Grouping).eval (f row))
        (fun e he v hv => eval_of_follows (hgs e he) hv) hvs
      rw [List.map_id] at hvs'
      simp only [hvs] at h
      simp only [hvs']
      exact takeInto_of_follows hos h
  -- the groups of the rows so far stay in step
  have hfold : ∀ (rows : List Row) {groups groups' : Groups},
      rows.foldlM (⟨gs, os, s, quals⟩ : Grouping).take groups = .ok groups' →
        (rows.map f).foldlM (⟨gs, os, s', quals'⟩ : Grouping).take (groups.over f) =
          .ok (groups'.over f) := by
    intro rows
    induction rows with
    | nil =>
      intro groups groups' h
      cases h
      rfl
    | cons row rows ih =>
      intro groups groups' h
      rw [List.foldlM_cons] at h
      rw [List.map_cons, List.foldlM_cons]
      cases ht : (⟨gs, os, s, quals⟩ : Grouping).take groups row with
      | error _ =>
        rw [ht] at h
        cases h
      | ok next =>
        rw [ht] at h
        rw [htake ht]
        exact ih h
  unfold answer at h ⊢
  cases hg : rows.foldlM (⟨gs, os, s, quals⟩ : Grouping).take [] with
  | error _ =>
    rw [hg] at h
    cases h
  | ok groups =>
    rw [hg] at h
    have := hfold rows hg
    rw [Groups.over, List.map_nil] at this
    rw [this]
    exact outputRows_of_follows hos hnulls h

end

end Grouping

end RelQuery
