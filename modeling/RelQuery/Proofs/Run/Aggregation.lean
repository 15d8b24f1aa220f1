import RelQuery.Proofs.Run.Executor

/-!
# The rows that an aggregation reads

An aggregation takes its input's rows in while it is opened. Whatever its input is, these are the rows
that the input would hand out by itself, and their answer is what the aggregation hands out.
-/

namespace RelQuery

/-- What a loop has taken in is a list of rows, whatever it made of them. -/
theorem drain_eq_ok {σ β : Type} {pull : Pull σ} {take : β → Row → Except QueryError β} :
    ∀ {fuel : Nat} {b b' : β} {s s' : σ} {c c' : Catalog},
      drain pull take fuel b s c = (b', ⟨.ok (), s', c'⟩) →
      ∃ rows : List Row, rows.foldlM take b = .ok b' ∧ ∀ {γ : Type} (f : γ → Row → γ) (z : γ),
        drain pull (fun z row => .ok (f z row)) fuel z s c = (rows.foldl f z, ⟨.ok (), s', c'⟩)
  | 0, _, _, _, _, _, _, h => by
    cases h
    exact ⟨[], rfl, fun _ _ => rfl⟩
  | fuel + 1, b, b', s, s', c, c', h => by
    simp only [drain] at h ⊢
    cases hp : pull s c with
    | mk r s₁ c₁ =>
      rw [hp] at h
      cases r with
      | error _ => cases h
      | ok answer =>
        cases answer with
        | none =>
          cases h
          exact ⟨[], rfl, fun _ _ => rfl⟩
        | some row =>
          cases ht : take b row with
          | error _ =>
            simp only [ht] at h
            cases h
          | ok b₁ =>
            simp only [ht] at h
            obtain ⟨rows, hrows, hdrain⟩ := drain_eq_ok h
            refine ⟨row :: rows, ?_, fun f z => hdrain f (f z row)⟩
            rw [List.foldlM_cons, ht]
            exact hrows

namespace Plan

variable {κ : Type} {p : Plan κ} {c : Catalog} {out : List Row}

theorem collect_eq_ok_iff {op : Operator p} :
    (op.collect p c).result = .ok out ↔ ∃ op₁ c₁ op₂ c₂, op.start p c = ⟨.ok (), op₁, c₁⟩ ∧
      drain (Operator.next p) (fun rows row => .ok (row :: rows)) (op₁.rowsLeft p + 1) [] op₁ c₁ =
        (out.reverse, ⟨.ok (), op₂, c₂⟩) := by
  unfold Operator.collect Operator.foldRows
  cases hs : op.start p c with
  | mk r op₁ c₁ =>
    cases r with
    | error _ => simp [Except.map]
    | ok =>
      simp only []
      cases hd : drain (Operator.next p) (fun rows row => .ok (row :: rows)) (op₁.rowsLeft p + 1) []
        op₁ c₁ with
      | mk rows step =>
        obtain ⟨r, op₂, c₂⟩ := step
        cases r with
        | error _ => simp [Except.map, hd]
        | ok => simp [Except.map, hd, List.reverse_eq_iff]

section

variable {gs : List Expr} {os : List Item} {s : Schema} {k : Cost κ} {life : Lifecycle}
  {results : List Row} {input : Operator p}

theorem foldl_cons_ofRows (rows : List Row) :
    (Supply.ofRows rows).fold
      (fun rows row => (.ok (row :: rows) : Except QueryError (List Row))) [] =
      .ok rows.reverse := by
  have hreverse : rows.foldl (fun rows row => row :: rows) [] = rows.reverse := by simp
  rw [Supply.fold_ofRows, ← hreverse]
  exact List.foldlM_pure

theorem start_aggregate_eq_ok {op : Operator (.aggregate gs os s k p)} {c₁ : Catalog}
    (h : (Operator.aggregate life results input).start (.aggregate gs os s k p) c =
      ⟨.ok (), op, c₁⟩) :
    ∃ input₁ c₂ groups input₂ rows, input.start p c = ⟨.ok (), input₁, c₂⟩ ∧
      drain (Operator.next p) (p.grouping gs os).take (input₁.rowsLeft p + 1) [] input₁ c₂ =
        (groups, ⟨.ok (), input₂, c₁⟩) ∧
      (p.grouping gs os).outputRows groups = .ok rows ∧ op = .aggregate life.start rows input₂ := by
  rw [Operator.start] at h
  cases hs : input.start p c with
  | mk r input₁ c₂ =>
    rw [hs] at h
    cases r with
    | error _ => cases h
    | ok =>
      cases hd : drain (Operator.next p) (p.grouping gs os).take (input₁.rowsLeft p + 1) []
        input₁ c₂ with
      | mk groups step =>
        obtain ⟨r, input₂, c₃⟩ := step
        unfold grouping at hd ⊢
        simp only [hd] at h
        cases r with
        | error _ => cases h
        | ok =>
          cases hrows : (⟨gs, os, p.schema, p.qualifiers⟩ : Grouping).outputRows groups with
          | error _ =>
            simp only [hrows] at h
            cases h
          | ok rows =>
            simp only [hrows] at h
            cases h
            exact ⟨input₁, c₂, groups, input₂, rows, rfl, hd, hrows, rfl⟩

/-- An aggregation that can be opened hands out the answer over the rows of its input. -/
theorem collect_aggregate
    (h : ((Operator.aggregate life results input).start (.aggregate gs os s k p) c).result =
      .ok ()) :
    ∃ rows out, (input.collect p c).result = .ok rows ∧
      (Operator.collect (.aggregate gs os s k p) (.aggregate life results input) c).result =
        .ok out ∧
      (p.grouping gs os).answer rows = .ok out := by
  cases hs : (Operator.aggregate life results input).start (.aggregate gs os s k p) c with
  | mk r op c₁ =>
    rw [hs] at h
    cases h
    obtain ⟨input₁, c₂, groups, input₂, out, hinput, htake, hout, rfl⟩ := start_aggregate_eq_ok hs
    obtain ⟨rows, hfold, hdrain⟩ := drain_eq_ok htake
    have hcollect := hdrain (fun rows row => row :: rows) []
    -- what is held for the groups is handed out row by row
    have hsupply : Supplies (Operator.next (.aggregate gs os s k p)) _ c₁ _
        (.aggregate life.start out input₂) := aggregate_supplies rfl out input₂
    obtain ⟨op₂, hdrain'⟩ := drain_ok hsupply (Nat.lt_succ_of_le hsupply.length_le)
      (foldl_cons_ofRows out)
    refine ⟨rows, out, ?_, ?_, bind_eq_ok_iff.mpr ⟨groups, hfold, hout⟩⟩
    · refine collect_eq_ok_iff.mpr ⟨input₁, c₂, input₂, c₁, hinput, ?_⟩
      simpa using hcollect
    · exact collect_eq_ok_iff.mpr ⟨_, c₁, op₂, c₁, hs, hdrain'⟩

end

end Plan

end RelQuery
