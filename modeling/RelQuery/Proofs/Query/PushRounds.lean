import RelQuery.Proofs.Query.Sinking
import RelQuery.Query.Passes

/-!
# Rounds of pushing

What a query and some carried conjuncts become by pushing, and then with further conjuncts by pushing
again, they become in one go with all these conjuncts. So the second round changes nothing. The rounds
also end where a query only looks like the pushed one; but then it is the pushed one, since pushing
that moves a conjunct takes it out of its filter.
-/

namespace RelQuery

namespace Query

variable {k : JoinKind} {l r : Query} {e : Expr} {es : List Expr}

/-! ## Pushing twice -/

theorem filterBy_of_ne_nil (h : es ≠ []) (q : Query) : filterBy es q = filter (Expr.conjoin es) q := by
  rw [filterBy, if_neg (by rwa [List.isEmpty_iff])]

theorem pushDownFrom_filterBy (h : ∀ e ∈ es, e.isAnd = false) (q : Query) (fs : List Expr) :
    (filterBy es q).pushDownFrom fs = q.pushDownFrom (fs ++ es) := by
  obtain ⟨rfl, hq⟩ | ⟨e, hq, he⟩ := filterBy_cases h q
  · rw [hq, List.append_nil]
  · rw [hq, pushDownFrom, he]

theorem going_append (k : JoinKind) (l r : Query) (es fs : List Expr) (d : Descent) :
    going k l r (es ++ fs) d = going k l r es d ++ going k l r fs d := List.filter_append es fs

theorem going_going (k : JoinKind) (l r : Query) (es : List Expr) (d d' : Descent) :
    going k l r (going k l r es d) d' = if d' = d then going k l r es d else [] := by
  split_ifs with h
  · exact List.filter_eq_self.mpr fun e he => by rw [(mem_going.mp he).2, h, beq_self_eq_true]
  · exact List.filter_eq_nil_iff.mpr fun e he => by
      rw [(mem_going.mp he).2, beq_iff_eq]
      exact Ne.symm h

/-- Pushing into the inputs of a join keeps the ways of the conjuncts above it. -/
theorem going_pushDownFrom (k : JoinKind) (l r : Query) (ls rs : List Expr) :
    going k (l.pushDownFrom ls) (r.pushDownFrom rs) = going k l r := by
  have hl : (l.pushDownFrom ls).bindsAll = l.bindsAll :=
    bindsAll_congr (schema_pushDownFrom l ls) (qualifiers_pushDownFrom l ls)
  have hr : (r.pushDownFrom rs).bindsAll = r.bindsAll :=
    bindsAll_congr (schema_pushDownFrom r rs) (qualifiers_pushDownFrom r rs)
  funext es d
  simp only [going, JoinKind.descent, hl, hr]

theorem pushDownFrom_pushDownFrom : ∀ (q : Query) (es : List Expr), (∀ e ∈ es, e.isAnd = false) →
    ∀ fs, (q.pushDownFrom es).pushDownFrom fs = q.pushDownFrom (fs ++ es)
  | scan .., _, h, fs | insert .., _, h, fs => pushDownFrom_filterBy h _ fs
  | filter e q, es, h, fs => by
    have hes : ∀ f ∈ es ++ e.conjuncts, f.isAnd = false :=
      List.forall_mem_append.mpr ⟨h, fun _ => Expr.not_isAnd_of_mem_conjuncts⟩
    rw [pushDownFrom, pushDownFrom_pushDownFrom q _ hes, pushDownFrom, List.append_assoc]
  | project _ _ q, _, h, fs | aggregate _ _ _ q, _, h, fs => by
    have ih := pushDownFrom_pushDownFrom q [] (by simp) []
    rw [pushDownFrom, pushDownFrom_filterBy h, pushDownFrom, ih, pushDownFrom, List.append_nil]
  | join k condition s l r, es, h, fs => by
    have ihl := pushDownFrom_pushDownFrom l (going k l r es .intoLeft) (isAnd_of_going h)
    have ihr := pushDownFrom_pushDownFrom r (going k l r es .intoRight) (isAnd_of_going h)
    -- what stayed in the first round stays again, so only `fs` are sent into the inputs
    have hgoing : ∀ d, going k l r (fs ++ going k l r es .stays) d = going k l r fs d ++
        if d = .stays then going k l r es .stays else [] := fun d => by
      rw [going_append, going_going]
    rw [pushDownFrom_join, pushDownFrom_filterBy (isAnd_of_going h), pushDownFrom_join,
      going_pushDownFrom, hgoing, hgoing, hgoing, ihl, ihr, pushDownFrom_join, going_append,
      going_append, going_append]
    simp only [reduceCtorEq, if_true, if_false, List.append_nil]

/-! ## Queries that look pushed -/

theorem isFilter_of_eqv {q q' : Query} (h : q.eqv q' = true) : q.isFilter = q'.isFilter := by
  cases q <;> cases q' <;> first | rfl | cases h

/-- Where the conjuncts that stay above a join make what looks like all of them, none has moved. -/
theorem going_of_eqv (hne : going k l r e.conjuncts .stays ≠ [])
    (h : (Expr.conjoin (going k l r e.conjuncts .stays)).eqv e = true) :
    going k l r e.conjuncts .intoLeft = [] ∧ going k l r e.conjuncts .intoRight = [] ∧
      going k l r e.conjuncts .stays = e.conjuncts := by
  have hatoms := isAnd_of_going (k := k) (l := l) (r := r) (d := .stays)
    fun f (hf : f ∈ e.conjuncts) => Expr.not_isAnd_of_mem_conjuncts hf
  have hlength := Expr.length_conjuncts_of_eqv h
  rw [Expr.conjuncts_conjoin hne hatoms] at hlength
  have hstay : going k l r e.conjuncts .stays = e.conjuncts :=
    List.filter_sublist.eq_of_length hlength
  refine ⟨?_, ?_, hstay⟩
  · rw [← hstay, going_going, if_neg (by decide)]
  · rw [← hstay, going_going, if_neg (by decide)]

/-- A filter that looks pushed keeps its place and hands nothing on. -/
theorem pushDown_filter_of_eqv {q : Query} (h : (filter e q).pushDown.eqv (filter e q) = true) :
    (filter e q).pushDown = filter (Expr.conjoin e.conjuncts) q.pushDown := by
  have hne := e.conjuncts_ne_nil
  cases q with
  | scan | insert | project | aggregate => exact filterBy_of_ne_nil hne _
  | filter f q =>
    -- the pushed query would be one filter on another as well
    have hapart : (filter e (filter f q)).pushDown.FiltersApart := filtersApart_pushDownFrom _ []
    have htop := isFilter_of_eqv h
    cases hp : (filter e (filter f q)).pushDown with
    | filter g p =>
      rw [hp] at h hapart
      simp only [eqv, Bool.and_eq_true] at h
      have hbelow := (isFilter_of_eqv h.2).symm.trans hapart.1
      cases hbelow
    | _ => rw [hp] at htop; cases htop
  | join k condition s l r =>
    have hjoin : (filter e (join k condition s l r)).pushDown = _ :=
      pushDownFrom_join k condition s l r e.conjuncts
    have hstay : going k l r e.conjuncts .stays ≠ [] := by
      intro hnil
      rw [hjoin, hnil] at h
      cases h
    rw [hjoin, filterBy_of_ne_nil hstay] at h
    simp only [eqv, Bool.and_eq_true] at h
    obtain ⟨hl, hr, hall⟩ := going_of_eqv hstay h.1
    rw [hjoin, hl, hr, hall, filterBy_of_ne_nil hne]
    rfl

theorem pushDown_of_eqv : ∀ {q : Query}, q.pushDown.eqv q = true → q.pushDown = q
  | scan .., _ | insert .., _ => rfl
  | filter e q, h => by
    have hq := pushDown_filter_of_eqv h
    rw [hq] at h ⊢
    simp only [eqv, Bool.and_eq_true] at h
    rw [Expr.conjoin_conjuncts_of_eqv h.1, pushDown_of_eqv h.2]
  | project is s q, h => by
    have hq : (project is s q).pushDown = project is s q.pushDown := rfl
    rw [hq] at h ⊢
    simp only [eqv, Bool.and_eq_true] at h
    rw [pushDown_of_eqv h.2]
  | aggregate gs os s q, h => by
    have hq : (aggregate gs os s q).pushDown = aggregate gs os s q.pushDown := rfl
    rw [hq] at h ⊢
    simp only [eqv, Bool.and_eq_true] at h
    rw [pushDown_of_eqv h.2]
  | join k condition s l r, h => by
    have hq : (join k condition s l r).pushDown = join k condition s l.pushDown r.pushDown := rfl
    rw [hq] at h ⊢
    simp only [eqv, Bool.and_eq_true] at h
    rw [pushDown_of_eqv h.1.2, pushDown_of_eqv h.2]

/-! ## Rounds -/

theorem pushDown_pushDown (q : Query) : q.pushDown.pushDown = q.pushDown :=
  pushDownFrom_pushDownFrom q [] (by simp) []

theorem pushRounds_of_pushDown_eq {q : Query} (h : q.pushDown = q) :
    ∀ rounds, Passes.pushRounds rounds q = q
  | 0 => rfl
  | rounds + 1 => by rw [Passes.pushRounds, h, pushRounds_of_pushDown_eq h rounds, ite_self]

/-- One round of pushing reaches what no further round changes, so any positive number of rounds that
is allowed gives the same query. -/
theorem pushDown_reaches_fixpoint (q : Query) :
    q.pushDown.pushDown = q.pushDown ∧
      ∀ rounds, Passes.pushRounds (rounds + 1) q = q.pushDown := by
  refine ⟨pushDown_pushDown q, fun rounds => ?_⟩
  rw [Passes.pushRounds]
  split
  next h => exact (pushDown_of_eqv h).symm
  next => exact pushRounds_of_pushDown_eq (pushDown_pushDown q) rounds

end Query

end RelQuery
