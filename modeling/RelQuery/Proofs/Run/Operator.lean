import RelQuery.Proofs.Run.LoopJoin
import RelQuery.Run.Operator

/-!
# What plans answer with

`Plan.Starts` says what the operators of a plan supply once they are opened, or with which failure
opening them ends. `Plan.Runs` states from it what matters to whoever runs the plan: when it
succeeds, and with which rows. There is one lemma for each kind of node, over any plans for its
inputs, and the tables never change.
-/

namespace RelQuery

variable {κ : Type}

namespace Plan

/-- From any state, opening the operators of a plan leads to this supply or this failure. -/
def Starts (c : Catalog) (p : Plan κ) : Except QueryError Supply → Prop
  | .ok st => ∀ op : Operator p, ∃ op', op.start p c = ⟨.ok (), op', c⟩ ∧
      Supplies (Operator.next p) (Operator.rowsLeft p) c st op'
  | .error e => ∀ op : Operator p, ∃ op', op.start p c = ⟨.error e, op', c⟩

/-- A plan that answers with `rows` if `succeeds`, and fails otherwise. -/
def Runs (c : Catalog) (p : Plan κ) (succeeds : Prop) (rows : List Row) : Prop :=
  ∃ x, Starts c p x ∧ ∀ out, x = .ok (.ofRows out) ↔ succeeds ∧ out = rows

end Plan

/-! ## Requests to open operators -/

section

variable {σ τ : Type} {c : Catalog}

theorem Answers.map {answer : Step σ (Option Row)} {remains : Supply → σ → Prop} {st : Supply}
    (h : Answers answer c remains st) {remains' : Supply → τ → Prop}
    {f : Except QueryError (Option Row) → σ → τ}
    (hf : ∀ r rest s, remains rest s → remains' rest (f (.ok (some r)) s)) :
    Answers ⟨answer.result, f answer.result answer.state, answer.catalog⟩ c remains' st := by
  cases h with
  | done s e => exact .done (f (.ok none) s) (by rw [e])
  | fail err s e => exact .fail err (f (.error err) s) (by rw [e])
  | row r rest s e h => exact .row r rest (f (.ok (some r)) s) (by rw [e]) (hf r rest s h)

end

namespace Operator

variable {p : Plan κ} {c : Catalog}

theorem request_opened {op : Operator p} (h : op.life.phase = .opened) (name : String)
    (answer : Step (Operator p) (Option Row)) : op.request name c answer = answer := by
  rw [request, Lifecycle.mayAnswer, h]

theorem phase_lived {life : Lifecycle} (h : life.phase = .opened) (r : Row) :
    (lived life (.ok (some r))).phase = .opened := h

end Operator

namespace Plan

variable {c : Catalog} {p : Plan κ} {succeeds : Prop} {rows : List Row}

attribute [local simp] Operator.next Operator.start

/-! ## Scans -/

theorem scan_supplies {t : String} {a : Option String} {s : Schema} {k : Cost κ} {life : Lifecycle}
    (hl : life.phase = .opened) (rs : List Row) :
    Supplies (Operator.next (.scan t a s k)) (Operator.rowsLeft (.scan t a s k)) c (.ofRows rs)
      (.scan life (some ⟨rs⟩)) := by
  induction rs generalizing life with
  | nil =>
    refine .done _ (.scan life.finish (some ⟨[]⟩)) ?_
    rw [Operator.next, Operator.request_opened]
    · rfl
    · exact hl
  | cons r rs ih =>
    refine .row r _ _ (.scan life.count (some ⟨rs⟩)) ?_ ?_ (ih hl)
    · rw [Supply.length_ofRows]; exact Nat.lt_succ_self _
    · rw [Operator.next, Operator.request_opened]
      · rfl
      · exact hl

theorem scan_runs {t : String} {a : Option String} {s : Schema} {k : Cost κ} :
    Runs c (.scan t a s k) (c.find? t).isSome (((c.find? t).map (·.rows)).getD []) := by
  cases ht : c.find? t with
  | none =>
    refine ⟨.error (.store (.tableNotFound t)), fun op => ?_, by simp⟩
    cases op with
    | scan life cursor => exact ⟨.scan life cursor, by simp [Catalog.table, ht]⟩
  | some table =>
    refine ⟨.ok (.ofRows table.rows), fun op => ?_, fun out => ?_⟩
    · cases op with
      | scan life cursor =>
        exact ⟨.scan life.start (some table.scan), by simp [Catalog.table, ht],
          scan_supplies rfl table.rows⟩
    · simp only [Option.isSome_some, Option.map_some, Option.getD_some, true_and, Except.ok.injEq]
      exact ⟨fun e => (Supply.ofRows_inj e).symm, fun e => by rw [e]⟩

/-! ## Filters and projections -/

def test (p : Plan κ) (e : Expr) (row : Row) : Except QueryError Bool := do
  return (← e.evalBound p.schema p.qualifiers row).isTrue

def output (p : Plan κ) (is : List Item) (row : Row) : Except QueryError Row :=
  is.mapM fun i => i.expr.evalBound p.schema p.qualifiers row

theorem filter_supplies {e : Expr} {k : Cost κ} {st : Supply} {input : Operator p}
    {life : Lifecycle} (hl : life.phase = .opened)
    (h : Supplies (Operator.next p) (Operator.rowsLeft p) c st input) :
    Supplies (Operator.next (.filter e k p)) (Operator.rowsLeft (.filter e k p)) c
      (st.accepted (p.test e)) (.filter life input) := by
  refine Supplies.of_relation
    (fun out op => ∃ st life input, life.phase = .opened ∧ op = .filter life input ∧
      out = st.accepted (p.test e) ∧
      Supplies (Operator.next p) (Operator.rowsLeft p) c st input)
    ?_ ?_ ⟨st, life, input, hl, rfl, rfl, h⟩
  · rintro _ _ ⟨st, life, input, -, rfl, rfl, h⟩
    exact Nat.le_trans (Supply.length_accepted_le _ st) h.length_le
  · rintro _ _ ⟨st, life, input, hl, rfl, rfl, h⟩
    rw [Operator.next, Operator.request_opened]
    · refine (pullAccepted_answers h (Nat.lt_succ_of_le h.length_le)).map
        (f := fun result s => Operator.filter (Operator.lived life result) s) ?_
      rintro r rest s ⟨st', h', rfl⟩
      exact ⟨st', _, s, Operator.phase_lived hl r, rfl, rfl, h'⟩
    · exact hl

theorem project_supplies {is : List Item} {s : Schema} {k : Cost κ} {st : Supply}
    {input : Operator p} {life : Lifecycle} (hl : life.phase = .opened)
    (h : Supplies (Operator.next p) (Operator.rowsLeft p) c st input) :
    Supplies (Operator.next (.project is s k p)) (Operator.rowsLeft (.project is s k p)) c
      (st.mapped (p.output is)) (.project life input) := by
  refine Supplies.of_relation
    (fun out op => ∃ st life input, life.phase = .opened ∧ op = .project life input ∧
      out = st.mapped (p.output is) ∧
      Supplies (Operator.next p) (Operator.rowsLeft p) c st input)
    ?_ ?_ ⟨st, life, input, hl, rfl, rfl, h⟩
  · rintro _ _ ⟨st, life, input, -, rfl, rfl, h⟩
    exact Nat.le_trans (Supply.length_mapped_le _ st) h.length_le
  · rintro _ _ ⟨st, life, input, hl, rfl, rfl, h⟩
    rw [Operator.next, Operator.request_opened]
    · refine (pullMapped_answers h).map
        (f := fun result s => Operator.project (Operator.lived life result) s) ?_
      rintro r rest s ⟨st', h', rfl⟩
      exact ⟨st', _, s, Operator.phase_lived hl r, rfl, rfl, h'⟩
    · exact hl

theorem Starts.filter {x : Except QueryError Supply} (h : Starts c p x) (e : Expr) (k : Cost κ) :
    Starts c (.filter e k p) (x.map (·.accepted (p.test e))) := by
  cases x with
  | error err =>
    intro op
    cases op with
    | filter life input =>
      obtain ⟨op', e'⟩ := h input
      exact ⟨.filter life op', by simp [e']⟩
  | ok st =>
    intro op
    cases op with
    | filter life input =>
      obtain ⟨op', e', hs⟩ := h input
      exact ⟨.filter life.start op', by simp [e'], filter_supplies rfl hs⟩

theorem Starts.project {x : Except QueryError Supply} (h : Starts c p x) (is : List Item)
    (s : Schema) (k : Cost κ) :
    Starts c (.project is s k p) (x.map (·.mapped (p.output is))) := by
  cases x with
  | error err =>
    intro op
    cases op with
    | project life input =>
      obtain ⟨op', e'⟩ := h input
      exact ⟨.project life op', by simp [e']⟩
  | ok st =>
    intro op
    cases op with
    | project life input =>
      obtain ⟨op', e', hs⟩ := h input
      exact ⟨.project life.start op', by simp [e'], project_supplies rfl hs⟩

def lookIn (p : Plan κ) (row : Row) : Look := Source.look [⟨row, p.schema, some p.qualifiers⟩]

theorem test_of_isOk {e : Expr} {row : Row} (h : (e.evalWith (p.lookIn row)).isOk) :
    p.test e row = .ok (e.holdsIn (p.lookIn row)) := by
  rw [test, Expr.evalBound, Expr.eval_eq, Expr.holdsIn]
  unfold lookIn at h ⊢
  cases hv : e.evalWith (Source.look [⟨row, p.schema, some p.qualifiers⟩]) with
  | ok v => rfl
  | error err => rw [hv] at h; cases h

theorem isOk_of_test {e : Expr} {row : Row} {b : Bool} (h : p.test e row = .ok b) :
    (e.evalWith (p.lookIn row)).isOk := by
  rw [test, Expr.evalBound, Expr.eval_eq] at h
  unfold lookIn
  cases hv : e.evalWith (Source.look [⟨row, p.schema, some p.qualifiers⟩]) with
  | ok v => rfl
  | error err => rw [hv] at h; cases h

theorem output_of_isOk {row : Row} : ∀ {is : List Item},
    (∀ i ∈ is, (i.expr.evalWith (p.lookIn row)).isOk) →
      p.output is row = .ok (is.map (·.valueIn (p.lookIn row)))
  | [], _ => rfl
  | i :: is, h => by
    have ih := output_of_isOk fun j hj => h j (List.mem_cons_of_mem i hj)
    have hi := h i List.mem_cons_self
    rw [output] at ih ⊢
    rw [List.mapM_cons, ih, Expr.evalBound, Expr.eval_eq, List.map_cons, Item.valueIn]
    unfold lookIn at hi ⊢
    cases hv : i.expr.evalWith (Source.look [⟨row, p.schema, some p.qualifiers⟩]) with
    | ok v => rfl
    | error err => rw [hv] at hi; cases hi

theorem isOk_of_output {row : Row} : ∀ {is : List Item} {out : Row},
    p.output is row = .ok out → ∀ i ∈ is, (i.expr.evalWith (p.lookIn row)).isOk
  | [], _, _ => by simp
  | i :: is, out, h => by
    rw [output, List.mapM_cons] at h
    cases hv : i.expr.evalBound p.schema p.qualifiers row with
    | error err => rw [hv] at h; cases h
    | ok v =>
      rw [hv] at h
      cases hrest : is.mapM fun i => i.expr.evalBound p.schema p.qualifiers row with
      | error err => rw [hrest] at h; cases h
      | ok vs =>
        refine List.forall_mem_cons.mpr ⟨?_, isOk_of_output hrest⟩
        rw [Expr.evalBound, Expr.eval_eq] at hv
        rw [lookIn, hv]
        rfl

theorem Runs.filter (h : Runs c p succeeds rows) (e : Expr) (k : Cost κ) :
    Runs c (.filter e k p)
      (succeeds ∧ ∀ row ∈ rows, (e.evalWith (p.lookIn row)).isOk)
      (rows.filter fun row => e.holdsIn (p.lookIn row)) := by
  obtain ⟨x, hstart, hx⟩ := h
  refine ⟨_, hstart.filter e k, fun out => ⟨fun h => ?_, ?_⟩⟩
  · cases x with
    | error err => cases h
    | ok st =>
      obtain ⟨rs, rfl, hrs⟩ := Supply.of_accepted (Except.ok.inj h)
      obtain ⟨hsucc, rfl⟩ := (hx rs).mp rfl
      have hok : ∀ row ∈ rs, (e.evalWith (p.lookIn row)).isOk := fun row hrow =>
        isOk_of_test (hrs row hrow).choose_spec
      refine ⟨⟨hsucc, hok⟩, Supply.ofRows_inj ?_⟩
      rw [← Except.ok.inj h]
      exact Supply.accepted_ofRows fun row hrow => test_of_isOk (hok row hrow)
  · rintro ⟨⟨hsucc, hok⟩, rfl⟩
    rw [(hx rows).mpr ⟨hsucc, rfl⟩, Except.map]
    exact congrArg _ (Supply.accepted_ofRows fun row hrow => test_of_isOk (hok row hrow))

theorem Runs.project (h : Runs c p succeeds rows) (is : List Item) (s : Schema) (k : Cost κ) :
    Runs c (.project is s k p)
      (succeeds ∧ ∀ row ∈ rows, ∀ i ∈ is, (i.expr.evalWith (p.lookIn row)).isOk)
      (rows.map fun row => is.map (·.valueIn (p.lookIn row))) := by
  obtain ⟨x, hstart, hx⟩ := h
  refine ⟨_, hstart.project is s k, fun out => ⟨fun h => ?_, ?_⟩⟩
  · cases x with
    | error err => cases h
    | ok st =>
      obtain ⟨rs, rfl, hrs⟩ := Supply.of_mapped (Except.ok.inj h)
      obtain ⟨hsucc, rfl⟩ := (hx rs).mp rfl
      have hok : ∀ row ∈ rs, ∀ i ∈ is, (i.expr.evalWith (p.lookIn row)).isOk := fun row hrow =>
        isOk_of_output (hrs row hrow).choose_spec
      refine ⟨⟨hsucc, hok⟩, Supply.ofRows_inj ?_⟩
      rw [← Except.ok.inj h]
      exact Supply.mapped_ofRows fun row hrow => output_of_isOk (hok row hrow)
  · rintro ⟨⟨hsucc, hok⟩, rfl⟩
    rw [(hx rows).mpr ⟨hsucc, rfl⟩, Except.map]
    exact congrArg _ (Supply.mapped_ofRows fun row hrow => output_of_isOk (hok row hrow))

/-! ## Aggregations -/

def grouping (p : Plan κ) (gs : List Expr) (os : List Item) : Grouping :=
  ⟨gs, os, p.schema, p.qualifiers⟩

theorem aggregate_supplies {gs : List Expr} {os : List Item} {s : Schema} {k : Cost κ}
    {life : Lifecycle} (hl : life.phase = .opened) (rs : List Row) (input : Operator p) :
    Supplies (Operator.next (.aggregate gs os s k p)) (Operator.rowsLeft (.aggregate gs os s k p))
      c (.ofRows rs) (.aggregate life rs input) := by
  induction rs generalizing life with
  | nil =>
    refine .done _ (.aggregate life.finish [] input) ?_
    rw [Operator.next, Operator.request_opened]
    exact hl
  | cons r rs ih =>
    refine .row r _ _ (.aggregate life.count rs input) ?_ ?_ (ih hl)
    · rw [Supply.length_ofRows]; exact Nat.lt_succ_self _
    · rw [Operator.next, Operator.request_opened]
      exact hl

def aggregated (g : Grouping) (x : Except QueryError Supply) : Except QueryError Supply := do
  let groups ← (← x).fold g.take []
  return .ofRows (← g.outputRows groups)

theorem Starts.aggregate {x : Except QueryError Supply} (h : Starts c p x) (gs : List Expr)
    (os : List Item) (s : Schema) (k : Cost κ) :
    Starts c (.aggregate gs os s k p) (aggregated (p.grouping gs os) x) := by
  cases x with
  | error err =>
    intro op
    cases op with
    | aggregate life results input =>
      obtain ⟨op', e'⟩ := h input
      exact ⟨.aggregate life results op', by rw [Operator.start, e']⟩
  | ok st =>
    have hstart : ∀ input : Operator p, ∃ op', op'.rowsLeft p + 1 > st.length ∧
        input.start p c = ⟨.ok (), op', c⟩ ∧
        Supplies (Operator.next p) (Operator.rowsLeft p) c st op' := fun input =>
      let ⟨op', e', hs⟩ := h input
      ⟨op', Nat.lt_succ_of_le hs.length_le, e', hs⟩
    cases hfold : st.fold (p.grouping gs os).take [] with
    | error err =>
      simp only [aggregated, bind, Except.bind, hfold]
      intro op
      cases op with
      | aggregate life results input =>
        obtain ⟨op', hfuel, e', hs⟩ := hstart input
        obtain ⟨b', s', e''⟩ := drain_error hs hfuel hfold
        refine ⟨.aggregate life results s', ?_⟩
        rw [Operator.start, e']
        simp only [grouping] at e''
        simp only [e'']
    | ok groups =>
      simp only [aggregated, bind, Except.bind, hfold]
      cases hout : (p.grouping gs os).outputRows groups with
      | error err =>
        intro op
        cases op with
        | aggregate life results input =>
          obtain ⟨op', hfuel, e', hs⟩ := hstart input
          obtain ⟨s', e''⟩ := drain_ok hs hfuel hfold
          refine ⟨.aggregate life results s', ?_⟩
          rw [Operator.start, e']
          simp only [grouping] at e'' hout
          simp only [e'', hout]
      | ok rs =>
        intro op
        cases op with
        | aggregate life results input =>
          obtain ⟨op', hfuel, e', hs⟩ := hstart input
          obtain ⟨s', e''⟩ := drain_ok hs hfuel hfold
          refine ⟨.aggregate life.start rs s', ?_, aggregate_supplies rfl rs s'⟩
          rw [Operator.start, e']
          simp only [grouping] at e'' hout
          simp only [e'', hout]

theorem Runs.aggregate (h : Runs c p succeeds rows) (gs : List Expr) (os : List Item) (s : Schema)
    (k : Cost κ) :
    Runs c (.aggregate gs os s k p)
      (succeeds ∧ ((p.grouping gs os).answer rows).isOk) ((p.grouping gs os).rowsOf rows) := by
  obtain ⟨x, hstart, hx⟩ := h
  refine ⟨_, hstart.aggregate gs os s k, fun out => ⟨fun h => ?_, ?_⟩⟩
  · obtain ⟨st, rfl, h₁⟩ := bind_eq_ok_iff.mp h
    obtain ⟨groups, hfold, h₂⟩ := bind_eq_ok_iff.mp h₁
    obtain ⟨out', hout, h₃⟩ := bind_eq_ok_iff.mp h₂
    obtain ⟨rs, rfl, hrs⟩ := Supply.fold_eq_ok hfold
    obtain ⟨hsucc, rfl⟩ := (hx rs).mp rfl
    have hanswer : (p.grouping gs os).answer rs = .ok out' := bind_eq_ok_iff.mpr ⟨_, hrs, hout⟩
    rw [Grouping.rowsOf, hanswer]
    exact ⟨⟨hsucc, rfl⟩, (Supply.ofRows_inj (Except.ok.inj h₃)).symm⟩
  · rintro ⟨⟨hsucc, hok⟩, rfl⟩
    obtain ⟨out', hanswer⟩ := isOk_iff_exists.mp hok
    obtain ⟨groups, hfold, hout⟩ := bind_eq_ok_iff.mp hanswer
    rw [(hx rows).mpr ⟨hsucc, rfl⟩, Grouping.rowsOf, hanswer]
    exact bind_eq_ok_iff.mpr ⟨_, rfl, bind_eq_ok_iff.mpr
      ⟨groups, (Supply.fold_ofRows _ _ _).trans hfold, bind_eq_ok_iff.mpr ⟨out', hout, rfl⟩⟩⟩

/-! ## Joins by nested loops -/

section

variable {j : LoopJoin κ} {l r : Plan κ}

def pairTest (j : LoopJoin κ) (l r : Plan κ) (a b : Row) : Except QueryError Bool :=
  match j.condition with
  | none => .ok true
  | some e => do
    let v ← e.evalPair l.schema j.leftQualifiers r.schema j.rightQualifiers a b
    return v.isTrue

def widths (l r : Plan κ) : LoopState.Widths := ⟨l.schema.width, r.schema.width⟩

theorem loopJoin_supplies {rights : List Row} {st : Supply} {left : Operator l}
    {right : Operator r} {life : Lifecycle} (hl : life.phase = .opened)
    (h : Supplies (Operator.next l) (Operator.rowsLeft l) c st left) :
    Supplies (Operator.next (.loopJoin j l r)) (Operator.rowsLeft (.loopJoin j l r)) c
      (LoopState.supply j.kind (widths l r) (pairTest j l r) rights st (rights.map fun _ => false))
      (.loopJoin life (.ready rights) left right) := by
  refine Supplies.of_relation
    (fun out op => ∃ life x, life.phase = .opened ∧ op = .loopJoin life x.1 x.2 right ∧
      LoopState.Stands j.kind (widths l r) (pairTest j l r) (Operator.next l)
        (Operator.rowsLeft l) c rights out x)
    ?_ ?_ ⟨life, (.ready rights, left), hl, rfl, .between h (List.length_map ..)⟩
  · rintro out _ ⟨life, ⟨st, left⟩, -, rfl, h⟩
    exact h.length_le
  · rintro out _ ⟨life, ⟨st, left⟩, hl, rfl, h⟩
    rw [Operator.next, Operator.request_opened]
    · refine (h.answers (Nat.le_refl _)).map
        (f := fun result x => Operator.loopJoin (Operator.lived life result) x.1 x.2 right) ?_
      intro row rest x hx
      exact ⟨_, x, Operator.phase_lived hl row, rfl, hx⟩
    · exact hl

def looped (j : LoopJoin κ) (l r : Plan κ) (x y : Except QueryError Supply) :
    Except QueryError Supply := do
  let left ← x
  let rights ← (← y).fold (fun rows row => .ok (rows ++ [row])) []
  return LoopState.supply j.kind (widths l r) (pairTest j l r) rights left
    (rights.map fun _ => false)

theorem Starts.loopJoin {x y : Except QueryError Supply} (hl : Starts c l x) (hr : Starts c r y)
    (j : LoopJoin κ) : Starts c (.loopJoin j l r) (looped j l r x y) := by
  cases x with
  | error err =>
    intro op
    cases op with
    | loopJoin life st left right =>
      obtain ⟨left', e₁⟩ := hl left
      exact ⟨.loopJoin life st left' right, by rw [Operator.start, e₁]⟩
  | ok sl =>
    cases y with
    | error err =>
      intro op
      cases op with
      | loopJoin life st left right =>
        obtain ⟨left', e₁, -⟩ := hl left
        obtain ⟨right', e₂⟩ := hr right
        exact ⟨.loopJoin life st left' right', by rw [Operator.start, e₁]; simp only [e₂]⟩
    | ok sr =>
      cases hfold : sr.fold (fun rows row => (.ok (rows ++ [row]) : Except QueryError _)) [] with
      | error err =>
        simp only [looped, bind, Except.bind, hfold]
        intro op
        cases op with
        | loopJoin life st left right =>
          obtain ⟨left', e₁, -⟩ := hl left
          obtain ⟨right', e₂, hs₂⟩ := hr right
          obtain ⟨rows, right'', e₃⟩ := drain_error hs₂ (Nat.lt_succ_of_le hs₂.length_le) hfold
          refine ⟨.loopJoin life { st with rightRows := rows } left' right'', ?_⟩
          rw [Operator.start, e₁]
          simp only [e₂, e₃]
      | ok rights =>
        simp only [looped, bind, Except.bind, hfold]
        intro op
        cases op with
        | loopJoin life st left right =>
          obtain ⟨left', e₁, hs₁⟩ := hl left
          obtain ⟨right', e₂, hs₂⟩ := hr right
          obtain ⟨right'', e₃⟩ := drain_ok hs₂ (Nat.lt_succ_of_le hs₂.length_le) hfold
          refine ⟨.loopJoin life.start (.ready rights) left' right'', ?_, loopJoin_supplies rfl hs₁⟩
          rw [Operator.start, e₁]
          simp only [e₂, e₃]

theorem foldlM_append_eq : ∀ (rs seen : List Row),
    rs.foldlM (fun rows row => (.ok (rows ++ [row]) : Except QueryError (List Row))) seen =
      .ok (seen ++ rs)
  | [], seen => by simp [pure, Except.pure]
  | r :: rs, seen => by
    rw [List.foldlM_cons]
    refine (foldlM_append_eq rs (seen ++ [r])).trans ?_
    simp

def lookBoth (j : LoopJoin κ) (l r : Plan κ) (a b : Row) : Look :=
  Source.look [⟨a, l.schema, some j.leftQualifiers⟩, ⟨b, r.schema, some j.rightQualifiers⟩]

theorem pairTest_of_isOk {a b : Row}
    (h : ∀ e ∈ j.condition, (e.evalWith (lookBoth j l r a b)).isOk) :
    pairTest j l r a b = .ok (conditionHolds j.condition (lookBoth j l r a b)) := by
  rw [pairTest]
  cases hc : j.condition with
  | none => rfl
  | some e =>
    have he := h e hc
    simp only [conditionHolds, Option.all_some, Expr.holdsIn, Expr.evalPair, Expr.eval_eq]
    unfold lookBoth at he ⊢
    cases hv : e.evalWith (Source.look
        [⟨a, l.schema, some j.leftQualifiers⟩, ⟨b, r.schema, some j.rightQualifiers⟩]) with
    | ok v => rfl
    | error err => rw [hv] at he; cases he

theorem isOk_of_pairTest {a b : Row} {t : Bool} (h : pairTest j l r a b = .ok t) :
    ∀ e ∈ j.condition, (e.evalWith (lookBoth j l r a b)).isOk := by
  intro e he
  rw [pairTest, he] at h
  simp only [Expr.evalPair, Expr.eval_eq] at h
  unfold lookBoth
  cases hv : e.evalWith (Source.look
      [⟨a, l.schema, some j.leftQualifiers⟩, ⟨b, r.schema, some j.rightQualifiers⟩]) with
  | ok v => rfl
  | error err => rw [hv] at h; cases h

theorem Runs.loopJoin {succeeds' : Prop} {rows' : List Row} (hl : Runs c l succeeds rows)
    (hr : Runs c r succeeds' rows') (j : LoopJoin κ) :
    Runs c (.loopJoin j l r)
      (succeeds ∧ succeeds' ∧ ∀ a ∈ rows, ∀ b ∈ rows', ∀ e ∈ j.condition,
        (e.evalWith (lookBoth j l r a b)).isOk)
      (j.kind.joinRows l.schema.width r.schema.width
        (fun a b => conditionHolds j.condition (lookBoth j l r a b)) rows rows') := by
  obtain ⟨x, hstart, hx⟩ := hl
  obtain ⟨y, hstart', hy⟩ := hr
  have hrows : ∀ ls rs : List Row, (∀ a ∈ ls, ∀ b ∈ rs, ∀ e ∈ j.condition,
      (e.evalWith (lookBoth j l r a b)).isOk) →
      LoopState.supply j.kind (widths l r) (pairTest j l r) rs (.ofRows ls)
        (rs.map fun _ => false) = .ofRows (j.kind.joinRows l.schema.width r.schema.width
          (fun a b => conditionHolds j.condition (lookBoth j l r a b)) ls rs) := by
    intro ls rs hok
    rw [LoopState.supply_ofRows ls (fun _ => false) fun a ha b hb => pairTest_of_isOk (hok a ha b hb)]
    simp only [JoinKind.joinRows, JoinKind.leftovers, Bool.false_or, widths]
  refine ⟨_, hstart.loopJoin hstart' j, fun out => ⟨fun h => ?_, ?_⟩⟩
  · obtain ⟨sl, rfl, h₁⟩ := bind_eq_ok_iff.mp h
    obtain ⟨sr, rfl, h₂⟩ := bind_eq_ok_iff.mp h₁
    obtain ⟨rights, hfold, h₃⟩ := bind_eq_ok_iff.mp h₂
    obtain ⟨rs, rfl, hrs⟩ := Supply.fold_eq_ok hfold
    rw [foldlM_append_eq, List.nil_append, Except.ok.injEq] at hrs
    subst hrs
    obtain ⟨ls, rfl, hls⟩ := LoopState.of_supply (Except.ok.inj h₃)
    obtain ⟨hsucc, rfl⟩ := (hx ls).mp rfl
    obtain ⟨hsucc', rfl⟩ := (hy rs).mp rfl
    have hok : ∀ a ∈ ls, ∀ b ∈ rs, ∀ e ∈ j.condition,
        (e.evalWith (lookBoth j l r a b)).isOk := fun a ha b hb =>
      isOk_of_pairTest (hls a ha b hb).choose_spec
    refine ⟨⟨hsucc, hsucc', hok⟩, Supply.ofRows_inj ?_⟩
    rw [← hrows ls rs hok]
    exact (Except.ok.inj h₃).symm
  · rintro ⟨⟨hsucc, hsucc', hok⟩, rfl⟩
    rw [(hx rows).mpr ⟨hsucc, rfl⟩, (hy rows').mpr ⟨hsucc', rfl⟩, looped]
    simp only [bind, Except.bind, Supply.fold_ofRows, foldlM_append_eq, List.nil_append]
    exact congrArg _ (hrows rows rows' hok)

end

end Plan

end RelQuery
