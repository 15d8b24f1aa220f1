import RelQuery.Proofs.Run.History

/-!
# Reads within buffers

Rows in memory are read by their positions in joins by nested loops and by sort and merge alone. A tree
whose root does not pass requests on to such a join never reads outside of what it holds, whatever its
state is and however its openings have ended. Evaluating expressions and storing rows fail otherwise.
-/

namespace RelQuery

variable {κ : Type} {α β : Type}

/-- The computation does not fail for a position outside the rows in memory. -/
def WithinBuffers (x : Except QueryError α) : Prop := x ≠ .error (.invalidState .outsideBuffer)

namespace WithinBuffers

variable {x : Except QueryError α}

theorem ok (a : α) : WithinBuffers (.ok a) := nofun

theorem of_ne {e : QueryError} (h : e ≠ .invalidState .outsideBuffer) :
    WithinBuffers (.error e : Except QueryError α) := fun he => h (Except.error.inj he)

theorem error {e : QueryError} (h : WithinBuffers (.error e : Except QueryError α)) :
    WithinBuffers (.error e : Except QueryError β) :=
  of_ne fun he => h (congrArg _ he)

theorem bind {f : α → Except QueryError β} (h : WithinBuffers x) (hf : ∀ a, WithinBuffers (f a)) :
    WithinBuffers (x >>= f) := by
  cases x with
  | ok a => exact hf a
  | error e => exact h.error

theorem map (h : WithinBuffers x) (f : α → β) : WithinBuffers (x >>= fun a => pure (f a)) :=
  h.bind fun a => ok (f a)

theorem mapM {f : α → Except QueryError β} (h : ∀ a, WithinBuffers (f a)) :
    ∀ xs : List α, WithinBuffers (xs.mapM f)
  | [] => nofun
  | x :: xs => by
    rw [List.mapM_cons]
    exact (h x).bind fun b => (mapM h xs).map (b :: ·)

end WithinBuffers

/-! ## Evaluation -/

theorem Value.truth_within (v : Value) : WithinBuffers v.truth := by cases v <;> exact nofun

theorem Value.compare_within (v w : Value) : WithinBuffers (v.compare w) := by
  unfold Value.compare
  split
  · exact nofun
  · exact nofun
  · split <;> exact nofun

theorem Value.strictly_within {v w : Value} {result : Except QueryError Value}
    (h : WithinBuffers result) : WithinBuffers (v.strictly w result) := by
  unfold Value.strictly
  split
  · exact nofun
  · exact h

namespace ArithOp

theorem fitted_within (op : ArithOp) (v : Option Value) : WithinBuffers (op.fitted v) := by
  cases v <;> exact nofun

theorem onInt_within (op : ArithOp) (a b : Int) : WithinBuffers (op.onInt a b) := by
  cases op with
  | add | sub | mul => exact .ok _
  | div =>
    rw [onInt]
    split <;> exact nofun

theorem onFloat_within (op : ArithOp) (x y : Binary64) : WithinBuffers (op.onFloat x y) := by
  cases op with
  | add | sub | mul => exact .ok _
  | div =>
    rw [onFloat]
    split <;> exact nofun

theorem apply_within (op : ArithOp) (v w : Value) : WithinBuffers (op.apply v w) := by
  unfold apply
  split
  · refine (op.onInt_within _ _).bind fun i => ?_
    split <;> exact op.fitted_within _
  · exact (op.onFloat_within _ _).map Value.float
  · exact nofun

end ArithOp

theorem BinaryOp.apply_within (op : BinaryOp) (v w : Value) : WithinBuffers (op.apply v w) := by
  cases op with
  | logic op => exact v.truth_within.bind fun a => w.truth_within.map (op.apply a)
  | concat => exact Value.strictly_within nofun
  | compare op =>
    exact Value.strictly_within ((v.compare_within w).map fun o => Value.bool (op.holds o))
  | arith op => exact Value.strictly_within (op.apply_within v w)

namespace Source

theorem cell_within (s : Source) (name : String) (i : Nat) : WithinBuffers (s.cell name i) := by
  unfold cell
  split <;> exact nofun

theorem qualified_within (sources : List Source) (q name : String) :
    WithinBuffers (qualified sources q name) := by
  unfold qualified
  split
  · exact nofun
  · split
    · exact nofun
    · exact cell_within _ _ _

theorem unqualified_within (sources : List Source) (name : String) :
    WithinBuffers (unqualified sources name) := by
  unfold unqualified
  split
  · exact nofun
  · exact cell_within _ _ _
  · exact nofun

end Source

theorem Expr.eval_within (sources : List Source) : ∀ e : Expr, WithinBuffers (e.eval sources)
  | literal _ => nofun
  | column (some q) name => Source.qualified_within sources (Text.lower q) name
  | column none name => Source.unqualified_within sources name
  | binary op l r =>
    (l.eval_within sources).bind fun v => (r.eval_within sources).bind (op.apply_within v)
  | not e =>
    (e.eval_within sources).bind fun v => v.truth_within.bind fun b => by cases b <;> exact nofun
  | aggregate .. | aggregateRows _ => nofun

/-! ## Storing rows -/

theorem coerce_within (column : Column) (v : Value) : WithinBuffers (coerce column v) := by
  unfold coerce
  split
  · split <;> exact nofun
  all_goals exact nofun

theorem givenValue_within (targets : List Column) (values : List Value) (column : Column) :
    WithinBuffers (givenValue targets values column) := by
  unfold givenValue
  dsimp only
  split <;> exact nofun

theorem buildRow_within (targets : List Column) (schema : Schema) (exprs : List Expr) :
    WithinBuffers (buildRow targets schema exprs) := by
  rw [buildRow]
  split
  · exact nofun
  refine (WithinBuffers.mapM (fun x => ?_) _).bind fun values => ?_
  · exact (x.1.eval_within _).bind (coerce_within x.2)
  refine (WithinBuffers.mapM (givenValue_within targets values) _).bind fun row => ?_
  split <;> exact nofun

theorem insertRows_within (targets : List Column) (t : Table) :
    ∀ (n : Nat) (c : Catalog) (rows : List (List Expr)),
      WithinBuffers (insertRows targets t n c rows).1
  | _, _, [] => nofun
  | n, c, exprs :: rows => by
    rw [insertRows]
    have hbuild := buildRow_within targets t.schema exprs
    cases hb : buildRow targets t.schema exprs with
    | error e =>
      rw [hb] at hbuild
      exact hbuild.error
    | ok row =>
      dsimp only
      cases c.insert t row with
      | error e => exact nofun
      | ok stored => exact insertRows_within targets t (n + 1) stored.2 rows

theorem Operator.write_within (columns : List Column) (rows : List (List Expr))
    (table : Option Nat) (c : Catalog) : WithinBuffers (write columns rows table c).1 := by
  rw [write]
  cases table.bind c.withId? with
  | none => exact nofun
  | some t =>
    have hrows := insertRows_within columns t 0 c rows
    dsimp only
    generalize insertRows columns t 0 c rows = answer at hrows ⊢
    obtain ⟨e | n, c'⟩ := answer
    · exact hrows.error
    · exact nofun

/-! ## Requests -/

section

variable {σ : Type} {pull : Pull σ} (hpull : ∀ s c, WithinBuffers (pull s c).result)
include hpull

theorem pullAccepted_within {accept : Row → Except QueryError Bool}
    (haccept : ∀ row, WithinBuffers (accept row)) :
    ∀ (fuel : Nat) (s : σ) (c : Catalog), WithinBuffers (pullAccepted pull accept fuel s c).result
  | 0, _, _ => .ok none
  | fuel + 1, s, c => by
    rw [pullAccepted]
    have hp := hpull s c
    generalize pull s c = answer at hp ⊢
    obtain ⟨e | _ | row, s', c'⟩ := answer
    · exact hp
    · exact .ok none
    · have ha := haccept row
      dsimp only
      generalize accept row = accepted at ha ⊢
      obtain e | _ | _ := accepted
      · exact ha.error
      · exact pullAccepted_within haccept fuel s' c'
      · exact .ok (some row)

theorem pullMapped_within {f : Row → Except QueryError Row} (hf : ∀ row, WithinBuffers (f row))
    (s : σ) (c : Catalog) : WithinBuffers (pullMapped pull f s c).result := by
  rw [pullMapped]
  have hp := hpull s c
  generalize pull s c = answer at hp ⊢
  obtain ⟨e | _ | row, s', c'⟩ := answer
  · exact hp
  · exact .ok none
  · exact (hf row).map some

theorem HashState.next_within {keyOf : Row → Except QueryError Value}
    (hkey : ∀ row, WithinBuffers (keyOf row)) :
    ∀ (fuel : Nat) (st : HashState) (s : σ) (c : Catalog),
      WithinBuffers (HashState.next keyOf pull fuel st s c).2.result
  | 0, _, _, _ => .ok none
  | fuel + 1, st, s, c => by
    rw [HashState.next]
    cases st.partner? with
    | some row => exact .ok (some row)
    | none =>
      have hp := hpull s c
      dsimp only
      generalize pull s c = answer at hp ⊢
      obtain ⟨e | _ | row, s', c'⟩ := answer
      · exact hp
      · exact .ok none
      · have hk := hkey row
        dsimp only
        generalize keyOf row = key at hk ⊢
        obtain e | v := key
        · exact hk.error
        · exact next_within hkey fuel _ s' c'

end

/-- Whether a request for a row comes to an operator that goes by positions in the rows it holds. -/
def Plan.goesByPositions : Plan κ → Bool
  | scan .. | insert .. | aggregate .. => false
  | filter _ _ p | project _ _ _ p => p.goesByPositions
  | hashJoin _ l _ => l.goesByPositions
  | loopJoin .. | mergeJoin .. => true

namespace Operator

theorem request_within {p : Plan κ} {op : Operator p} {name : String} {c : Catalog}
    {answer : Step (Operator p) (Option Row)} (h : WithinBuffers answer.result) :
    WithinBuffers (op.request name c answer).result := by
  rw [request, Lifecycle.mayAnswer]
  cases op.life.phase with
  | created => exact .of_ne (by simp)
  | opened => exact h
  | finished => exact .ok none
  | closed => exact .of_ne (by simp)

theorem next_within : ∀ {p : Plan κ}, p.goesByPositions = false → ∀ (op : Operator p) (c : Catalog),
    WithinBuffers (next p op c).result
  | .scan .., _, scan life cursor, c => by
    cases cursor with
    | none => exact request_within (.ok none)
    | some cursor => exact request_within (.ok _)
  | .insert _ columns rows _, _, insert life table done, c => by
    rw [next]
    apply request_within
    cases done with
    | true => exact .ok none
    | false => exact write_within columns rows table c
  | .filter e _ p, hp, filter life input, c => by
    rw [next]
    apply request_within
    exact pullAccepted_within (next_within (p := p) hp) (fun row => (e.eval_within _).map _) _ _ _
  | .project is _ _ p, hp, project life input, c => by
    rw [next]
    apply request_within
    exact pullMapped_within (next_within (p := p) hp)
      (fun row => .mapM (fun i => i.expr.eval_within _) is) _ _
  | .aggregate .., _, aggregate life results input, c => by
    cases results with
    | nil => exact request_within (.ok none)
    | cons row rows => exact request_within (.ok (some row))
  | .hashJoin j l _, hp, hashJoin life st left right, c => by
    rw [next]
    apply request_within
    exact HashState.next_within (next_within (p := l) hp) (fun row => j.leftKey.eval_within _) _ _ _ _

end Operator

namespace Running

variable {p : Plan κ}

theorem step_within (hp : p.goesByPositions = false) (s : Running p) (e : Event)
    {result : Except QueryError (Option Row)} (h : (s.step e).1 = .handed result) :
    WithinBuffers result := by
  cases e with
  | start | close => cases h
  | next =>
    cases h
    exact Operator.next_within hp s.op s.catalog
  | store table row => exact absurd h (step_store_ne_handed s table row result)

theorem run_within (hp : p.goesByPositions = false) (s : Running p) (events : List Event) :
    ∀ result, .handed result ∈ (s.run events).1 → WithinBuffers result := by
  induction events generalizing s with
  | nil => exact fun _ h => absurd h List.not_mem_nil
  | cons e events ih =>
    intro result hresult
    rw [run_cons] at hresult
    obtain hhead | htail := List.mem_cons.mp hresult
    · exact step_within hp s e hhead.symm
    · exact ih (s.step e).2 result htail

end Running

end RelQuery
