import RelQuery.Proofs.Expr.Look

/-!
# Conjunctions taken apart and put together

The conjuncts of a predicate are no conjunctions themselves, and a list of such predicates comes back
when their conjunction is taken apart. The other way round only the shape may change: what the
conjuncts of a predicate make together looks like the predicate only if it is the same.
-/

namespace RelQuery.Expr

def isAnd : Expr → Bool
  | binary op _ _ => op = .logic .and
  | _ => false

theorem conjuncts_of_not_isAnd {e : Expr} (h : e.isAnd = false) : e.conjuncts = [e] := by
  unfold conjuncts
  split
  · cases h
  · rfl

theorem conjuncts_ne_nil (e : Expr) : e.conjuncts ≠ [] := by
  fun_induction conjuncts e with
  | case1 l r ihl ihr => simp [ihl]
  | case2 e _ => simp

theorem not_isAnd_of_mem_conjuncts {e f : Expr} (hf : f ∈ e.conjuncts) : f.isAnd = false := by
  fun_induction conjuncts e with
  | case1 l r ihl ihr => exact (List.mem_append.mp hf).elim ihl ihr
  | case2 e hne =>
    rw [List.mem_singleton.mp hf, Bool.eq_false_iff]
    intro hand
    unfold isAnd at hand
    split at hand
    · rw [of_decide_eq_true hand] at hne
      exact hne _ _ rfl
    · cases hand

theorem conjuncts_foldl_and (e : Expr) {es : List Expr} (h : ∀ f ∈ es, f.isAnd = false) :
    (es.foldl Expr.and e).conjuncts = e.conjuncts ++ es := by
  induction es generalizing e with
  | nil => simp
  | cons f es ih =>
    obtain ⟨hf, hes⟩ := List.forall_mem_cons.mp h
    rw [List.foldl_cons, ih _ hes, Expr.and, conjuncts, conjuncts_of_not_isAnd hf, List.append_assoc,
      List.singleton_append]

/-- Conjuncts that are put together come apart again. -/
theorem conjuncts_conjoin {es : List Expr} (hne : es ≠ []) (h : ∀ e ∈ es, e.isAnd = false) :
    (conjoin es).conjuncts = es := by
  cases es with
  | nil => exact absurd rfl hne
  | cons e es =>
    obtain ⟨he, hes⟩ := List.forall_mem_cons.mp h
    rw [conjoin, conjuncts_foldl_and e hes, conjuncts_of_not_isAnd he, List.singleton_append]

theorem conjoin_concat {es : List Expr} (hne : es ≠ []) (e : Expr) :
    conjoin (es ++ [e]) = (conjoin es).and e := by
  cases es with
  | nil => exact absurd rfl hne
  | cons f es => rw [List.cons_append, conjoin, List.foldl_append, conjoin, List.foldl_cons, List.foldl_nil]

/-! ## Shapes -/

theorem isAnd_of_eqv {e f : Expr} (h : e.eqv f = true) : e.isAnd = f.isAnd := by
  cases e <;> cases f <;> try cases h
  case binary.binary op l r op' l' r' =>
    simp only [eqv, Bool.and_eq_true, beq_iff_eq] at h
    obtain ⟨⟨rfl, -⟩, -⟩ := h
    rfl
  all_goals rfl

theorem length_conjuncts_of_eqv {e f : Expr} (h : e.eqv f = true) :
    e.conjuncts.length = f.conjuncts.length := by
  fun_induction conjuncts e generalizing f with
  | case1 l r ihl ihr =>
    cases f with
    | binary op l' r' =>
      simp only [eqv, Bool.and_eq_true, beq_iff_eq] at h
      obtain ⟨⟨rfl, hl⟩, hr⟩ := h
      rw [conjuncts, List.length_append, List.length_append, ihl hl, ihr hr]
    | _ => cases h
  | case2 e hne =>
    have hf : f.isAnd = false := by
      rw [← isAnd_of_eqv h]
      exact not_isAnd_of_mem_conjuncts (e := e) (by simp [conjuncts])
    rw [conjuncts_of_not_isAnd hf]
    rfl

/-- If the conjuncts of a predicate put together look like the predicate, they are the predicate. -/
theorem conjoin_conjuncts_of_eqv {e : Expr} (h : (conjoin e.conjuncts).eqv e = true) :
    conjoin e.conjuncts = e := by
  fun_induction conjuncts e with
  | case1 l r ihl ihr =>
    obtain ⟨es, f, hes⟩ := (List.eq_nil_or_concat r.conjuncts).resolve_left r.conjuncts_ne_nil
    have hf : f.isAnd = false := not_isAnd_of_mem_conjuncts (e := r) (by simp [hes])
    rw [hes, List.concat_eq_append, ← List.append_assoc,
      conjoin_concat (by simp [l.conjuncts_ne_nil])] at h ⊢
    simp only [Expr.and, eqv, Bool.and_eq_true] at h
    obtain ⟨⟨-, hl⟩, hr⟩ := h
    -- the right operand looks like the last conjunct, so it is the last conjunct
    have hsingle : r.conjuncts = [r] := conjuncts_of_not_isAnd ((isAnd_of_eqv hr).symm.trans hf)
    have hone : es ++ [f] = [] ++ [r] := by rw [← List.concat_eq_append, ← hes, hsingle, List.nil_append]
    obtain ⟨rfl, hlast⟩ := List.append_inj' hone rfl
    cases hlast
    rw [List.append_nil] at hl ⊢
    rw [ihl hl, Expr.and]
  | case2 e _ => rfl

end RelQuery.Expr
