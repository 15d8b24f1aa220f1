import RelQuery.Expr.ColumnRef
import RelQuery.Expr.Conjunct
import RelQuery.Expr.Eval
import RelQuery.Proofs.Data.Lists

/-!
# Evaluation over looked-up columns

What an expression evaluates to depends on the rows at hand only through the columns it mentions.
`Expr.evalWith` makes this plain: it takes the look-up of a column as an argument. An expression
holds when it evaluates to `TRUE`, and it holds exactly when all its conjuncts do.
-/

namespace RelQuery

abbrev Look := Option String → String → Except QueryError Value

def Source.look (sources : List Source) : Look
  | some q, name => Source.qualified sources (Text.lower q) name
  | none, name => Source.unqualified sources name

namespace Expr

/-- The references as they are written. -/
def mentions : Expr → List (Option String × String)
  | literal _ => []
  | column q n => [(q, n)]
  | binary _ l r => l.mentions ++ r.mentions
  | not e => e.mentions
  | aggregate _ e => e.mentions
  | aggregateRows _ => []

def evalWith (look : Look) : Expr → Except QueryError Value
  | literal v => .ok v
  | column q n => look q n
  | binary op l r => do
    let v ← l.evalWith look
    let w ← r.evalWith look
    op.apply v w
  | not e => do (← e.evalWith look).negation
  | aggregate fn e => .error (.aggregateInScalar (aggregate fn e).render)
  | aggregateRows fn => .error (.aggregateInScalar (aggregateRows fn).render)

theorem eval_eq (sources : List Source) :
    ∀ e : Expr, e.eval sources = e.evalWith (Source.look sources)
  | literal _ => rfl
  | column (some _) _ => rfl
  | column none _ => rfl
  | binary _ l r => by rw [eval, evalWith, eval_eq sources l, eval_eq sources r]
  | not e => by rw [eval, evalWith, eval_eq sources e]
  | aggregate _ _ => rfl
  | aggregateRows _ => rfl

theorem evalWith_congr {look look' : Look} : ∀ {e : Expr},
    (∀ q n, (q, n) ∈ e.mentions → look q n = look' q n) → e.evalWith look = e.evalWith look'
  | literal _, _ => rfl
  | column q n, h => h q n (by simp [mentions])
  | binary op l r, h => by
    rw [evalWith, evalWith,
      evalWith_congr (e := l) fun q n hm => h q n (by simp [mentions, hm]),
      evalWith_congr (e := r) fun q n hm => h q n (by simp [mentions, hm])]
  | not e, h => by rw [evalWith, evalWith, evalWith_congr (e := e) h]
  | aggregate _ _, _ => rfl
  | aggregateRows _, _ => rfl

/-- Columns that are found keep their values, so an expression that has a value keeps it. -/
theorem evalWith_mono {look look' : Look} : ∀ {e : Expr} {v : Value},
    (∀ q n, (q, n) ∈ e.mentions → ∀ v, look q n = .ok v → look' q n = .ok v) →
      e.evalWith look = .ok v → e.evalWith look' = .ok v
  | literal _, _, _, hv => hv
  | column q n, v, h, hv => h q n (by simp [mentions]) v hv
  | binary op l r, v, h, hv => by
    obtain ⟨a, hl, hv⟩ := bind_eq_ok_iff.mp hv
    obtain ⟨b, hr, hv⟩ := bind_eq_ok_iff.mp hv
    rw [evalWith, evalWith_mono (e := l) (fun q n hm => h q n (by simp [mentions, hm])) hl,
      evalWith_mono (e := r) (fun q n hm => h q n (by simp [mentions, hm])) hr]
    exact hv
  | not e, v, h, hv => by
    obtain ⟨a, he, hv⟩ := bind_eq_ok_iff.mp hv
    rw [evalWith, evalWith_mono (e := e) h he]
    exact hv
  | aggregate _ _, _, _, hv => hv
  | aggregateRows _, _, _, hv => hv

/-- An expression has a value only if all its references have. -/
theorem isOk_look {look : Look} : ∀ {e : Expr}, (e.evalWith look).isOk = true →
    ∀ m ∈ e.mentions, (look m.1 m.2).isOk = true
  | literal _, _, _, hm => by cases hm
  | column q n, h, m, hm => by
    rw [List.mem_singleton.mp hm]
    exact h
  | binary op l r, h, m, hm => by
    obtain ⟨v, hv⟩ := isOk_iff_exists.mp h
    obtain ⟨a, hl, hv⟩ := bind_eq_ok_iff.mp hv
    obtain ⟨b, hr, -⟩ := bind_eq_ok_iff.mp hv
    rcases List.mem_append.mp hm with hm | hm
    · exact isOk_look (e := l) (isOk_iff_exists.mpr ⟨a, hl⟩) m hm
    · exact isOk_look (e := r) (isOk_iff_exists.mpr ⟨b, hr⟩) m hm
  | not e, h, m, hm => by
    obtain ⟨v, hv⟩ := isOk_iff_exists.mp h
    obtain ⟨a, he, -⟩ := bind_eq_ok_iff.mp hv
    exact isOk_look (e := e) (isOk_iff_exists.mpr ⟨a, he⟩) m hm
  | aggregate _ _, h, _, _ | aggregateRows _, h, _, _ => by cases h

/-! ## References -/

theorem references_eq : ∀ e : Expr, e.references = e.mentions.map fun m => ColumnRef.of m.1 m.2
  | literal _ => rfl
  | column _ _ => rfl
  | binary _ l r => by rw [references, mentions, references_eq l, references_eq r, List.map_append]
  | not e => references_eq e
  | aggregate _ e => references_eq e
  | aggregateRows _ => rfl

theorem mem_columnRefs {e : Expr} {r : ColumnRef} : r ∈ e.columnRefs ↔ r ∈ e.references := by
  have key : ∀ rs seen : List ColumnRef,
      r ∈ rs.foldl (fun seen r => if seen.contains r then seen else seen ++ [r]) seen ↔
        r ∈ seen ∨ r ∈ rs := by
    intro rs
    induction rs with
    | nil => simp
    | cons x rs ih =>
      intro seen
      rw [List.foldl_cons, ih, List.mem_cons]
      split
      · rename_i hx
        have hx : x ∈ seen := by simpa using hx
        constructor
        · rintro (h | h)
          · exact .inl h
          · exact .inr (.inr h)
        · rintro (h | rfl | h)
          · exact .inl h
          · exact .inl hx
          · exact .inr h
      · simp [or_assoc]
  simpa [columnRefs] using key e.references []

theorem of_mem_columnRefs {e : Expr} {q : Option String} {n : String} (h : (q, n) ∈ e.mentions) :
    ColumnRef.of q n ∈ e.columnRefs := by
  rw [mem_columnRefs, references_eq]
  exact List.mem_map_of_mem h

/-! ## Truth -/

/-- Whether the expression evaluates to `TRUE`; one that fails does not. -/
def holdsIn (look : Look) (e : Expr) : Bool :=
  match e.evalWith look with
  | .ok v => v.isTrue
  | .error _ => false

theorem holdsIn_congr {look look' : Look} {e : Expr}
    (h : ∀ q n, (q, n) ∈ e.mentions → look q n = look' q n) :
    e.holdsIn look = e.holdsIn look' := by
  rw [holdsIn, holdsIn, evalWith_congr h]

theorem isTrue_iff {v : Value} : v.isTrue = true ↔ v = .bool true := by
  cases v <;> simp [Value.isTrue]

theorem holdsIn_iff {look : Look} {e : Expr} :
    e.holdsIn look = true ↔ e.evalWith look = .ok (.bool true) := by
  unfold holdsIn
  cases e.evalWith look with
  | ok v => simp [isTrue_iff]
  | error _ => simp

theorem truth_bool_true {v : Value} : v.truth = .ok (some true) ↔ v = .bool true := by
  cases v <;> simp [Value.truth]

theorem apply_and {v w : Value} :
    (BinaryOp.logic .and).apply v w = .ok (.bool true) ↔ v = .bool true ∧ w = .bool true := by
  rw [← truth_bool_true (v := v), ← truth_bool_true (v := w)]
  unfold BinaryOp.apply
  cases v.truth with
  | error _ => simp [bind, Except.bind]
  | ok a =>
    cases w.truth with
    | error _ => simp [bind, Except.bind]
    | ok b =>
      rcases a with _ | _ | _ <;> rcases b with _ | _ | _ <;>
        simp [bind, Except.bind, pure, Except.pure, LogicOp.apply, LogicOp.decisive]

theorem holdsIn_and (look : Look) (e f : Expr) :
    (e.and f).holdsIn look = (e.holdsIn look && f.holdsIn look) := by
  rw [Bool.eq_iff_iff, Bool.and_eq_true, holdsIn_iff, holdsIn_iff, holdsIn_iff, Expr.and, evalWith]
  cases e.evalWith look with
  | error _ => simp [bind, Except.bind]
  | ok v =>
    cases f.evalWith look with
    | error _ => simp [bind, Except.bind]
    | ok w => simpa [bind, Except.bind] using apply_and

theorem holdsIn_conjuncts (look : Look) :
    ∀ e : Expr, e.conjuncts.all (·.holdsIn look) = e.holdsIn look := by
  intro e
  fun_induction conjuncts e with
  | case1 l r ihl ihr =>
    rw [List.all_append, ihl, ihr]
    exact (holdsIn_and look l r).symm
  | case2 e _ => simp

theorem holdsIn_conjoin (look : Look) :
    ∀ es : List Expr, (conjoin es).holdsIn look = es.all (·.holdsIn look)
  | [] => rfl
  | e :: es => by
    rw [conjoin, List.all_cons]
    induction es generalizing e with
    | nil => simp
    | cons f es ih => rw [List.foldl_cons, ih (e.and f), holdsIn_and, List.all_cons, Bool.and_assoc]

theorem mentions_conjuncts {e f : Expr} (hf : f ∈ e.conjuncts) :
    ∀ m ∈ f.mentions, m ∈ e.mentions := by
  fun_induction conjuncts e with
  | case1 l r ihl ihr =>
    intro m hm
    rw [mentions, List.mem_append]
    rcases List.mem_append.mp hf with h | h
    · exact .inl (ihl h m hm)
    · exact .inr (ihr h m hm)
  | case2 e _ =>
    intro m hm
    rwa [← List.mem_singleton.mp hf]

end Expr

end RelQuery
