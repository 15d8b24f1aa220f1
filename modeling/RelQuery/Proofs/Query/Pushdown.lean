import RelQuery.Proofs.Plan.Baseline
import RelQuery.Proofs.Query.FilterBy
import RelQuery.Proofs.Query.WellScoped

/-!
# Pushing predicates keeps the rows

A conjunct that goes into the left input of a join means the same there. One that goes into the
right input does so if the left input provides none of its unqualified references: above the join
such a reference means the left column, in the right input it means the right one. Under that
condition a query and the pushed one have the same rows in the same order.
-/

namespace RelQuery

/-! ## Filters over joins -/

namespace JoinKind

variable {k : JoinKind} {wl wr : Nat} {meets : Row → Row → Bool} {ls rs : List Row}

/-- A filter that looks at left rows only filters the left rows, if no right row is kept alone. -/
theorem filter_joinRows_left {P p : Row → Bool} (hk : k.keepsRight = false)
    (h : ∀ a ∈ ls, ∀ b, P (a ++ b) = p a) :
    (k.joinRows wl wr meets ls rs).filter P = k.joinRows wl wr meets (ls.filter p) rs := by
  have hrow : ∀ a ∈ ls, (k.rowsOf wr meets rs a).filter P =
      if p a then k.rowsOf wr meets rs a else [] := by
    intro a ha
    have hall : ∀ x ∈ k.rowsOf wr meets rs a, P x = p a := by
      intro x hx
      rw [rowsOf, List.mem_append, List.mem_map] at hx
      rcases hx with ⟨b, -, rfl⟩ | hx
      · exact h a ha b
      · split at hx
        · rw [List.mem_singleton.mp hx, h a ha]
        · cases hx
    cases hp : p a with
    | true => exact List.filter_eq_self.mpr fun x hx => by rw [hall x hx, hp]
    | false => exact List.filter_eq_nil_iff.mpr fun x hx => by rw [hall x hx, hp]; simp
  simp only [joinRows, leftovers, hk, Bool.false_eq_true, if_false, List.append_nil]
  rw [List.filter_flatMap]
  induction ls with
  | nil => rfl
  | cons a ls ih =>
    have ih := ih (fun a' ha' => h a' (List.mem_cons_of_mem a ha'))
      (fun a' ha' => hrow a' (List.mem_cons_of_mem a ha'))
    rw [List.flatMap_cons, hrow a List.mem_cons_self, ih, List.filter_cons]
    cases p a with
    | true => rfl
    | false => rfl

/-- A filter that looks at right rows only filters the right rows, if no left row is kept alone. -/
theorem filter_joinRows_right {P p : Row → Bool} (hk : k.keepsLeft = false)
    (h : ∀ a, a ∈ ls ∨ a = Row.nulls wl → ∀ b ∈ rs, P (a ++ b) = p b) :
    (k.joinRows wl wr meets ls rs).filter P = k.joinRows wl wr meets ls (rs.filter p) := by
  have hmap : ∀ a, a ∈ ls ∨ a = Row.nulls wl → ∀ keep : Row → Bool,
      ((rs.filter keep).map (a ++ ·)).filter P = ((rs.filter p).filter keep).map (a ++ ·) := by
    intro a ha keep
    rw [List.filter_map, List.filter_filter, List.filter_filter]
    congr 1
    refine List.filter_congr fun b hb => ?_
    rw [Function.comp, h a ha b hb, Bool.and_comm]
  have hrow : ∀ a ∈ ls, (k.rowsOf wr meets rs a).filter P = k.rowsOf wr meets (rs.filter p) a := by
    intro a ha
    simp only [rowsOf, hk, Bool.false_and, Bool.false_eq_true, if_false, List.append_nil]
    exact hmap a (.inl ha) (meets a)
  rw [joinRows, List.filter_append, List.filter_flatMap, joinRows]
  congr 1
  · exact List.flatMap_congr fun a ha => hrow a ha
  · rw [leftovers, leftovers]
    split
    · exact hmap _ (.inr rfl) fun r => !ls.any (meets · r)
    · rfl

end JoinKind

namespace Query

/-! ## Names stay -/

theorem schema_pushDownFrom : ∀ (q : Query) (es : List Expr),
    (q.pushDownFrom es).schema = q.schema
  | scan .., _ | insert .., _ | project .., _ | aggregate .., _ | join .., _ => schema_filterBy _ _
  | filter _ q, _ => schema_pushDownFrom q _

theorem qualifiers_pushDownFrom : ∀ (q : Query) (es : List Expr),
    (q.pushDownFrom es).qualifiers = q.qualifiers
  | scan .., _ | insert .., _ => qualifiers_filterBy _ _
  | filter _ q, _ => qualifiers_pushDownFrom q _
  | project _ _ q, _ | aggregate _ _ _ q, _ =>
    (qualifiers_filterBy _ _).trans (qualifiers_pushDownFrom q [])
  | join _ _ _ l r, _ => by
    rw [pushDownFrom, qualifiers_filterBy, qualifiers, qualifiers_pushDownFrom l,
      qualifiers_pushDownFrom r, qualifiers]

theorem lookIn_pushDownFrom (q : Query) (es : List Expr) : (q.pushDownFrom es).lookIn = q.lookIn :=
  lookIn_congr (schema_pushDownFrom q es) (qualifiers_pushDownFrom q es)

theorem lookBoth_pushDownFrom (l r : Query) (es fs : List Expr) :
    (l.pushDownFrom es).lookBoth (r.pushDownFrom fs) = l.lookBoth r := by
  funext a b
  rw [lookBoth, lookBoth, schema_pushDownFrom, qualifiers_pushDownFrom, schema_pushDownFrom,
    qualifiers_pushDownFrom]

theorem meets_pushDownFrom (l r : Query) (es fs : List Expr) (e : Option Expr) :
    (l.pushDownFrom es).meets e (r.pushDownFrom fs) = l.meets e r := by
  funext a b
  rw [meets, meets, lookBoth_pushDownFrom]

theorem isReadOnly_pushDownFrom : ∀ (q : Query) (es : List Expr),
    (q.pushDownFrom es).isReadOnly = q.isReadOnly
  | scan .., _ | insert .., _ => isReadOnly_filterBy _ _
  | filter _ q, _ => isReadOnly_pushDownFrom q _
  | project _ _ q, _ | aggregate _ _ _ q, _ =>
    (isReadOnly_filterBy _ _).trans (isReadOnly_pushDownFrom q [])
  | join _ _ _ l r, _ => by
    rw [pushDownFrom, isReadOnly_filterBy, isReadOnly, isReadOnly_pushDownFrom l,
      isReadOnly_pushDownFrom r, isReadOnly]

/-! ## Rows stay -/

/-- No conjunct is sent into the right input of a join although the left input as well provides a
column that it refers to without qualifier. -/
def StaysClear : Query → List Expr → Prop
  | filter e q, es => q.StaysClear (es ++ e.conjuncts)
  | join k _ _ l r, es =>
    (∀ e ∈ es, k.descent l r e = .intoRight → ∀ m ∈ e.mentions, m.1 = none →
      l.binds (.of none m.2) = false) ∧
    l.StaysClear (es.filter fun e => k.descent l r e == .intoLeft) ∧
    r.StaysClear (es.filter fun e => k.descent l r e == .intoRight)
  | project _ _ q, _ | aggregate _ _ _ q, _ => q.StaysClear []
  | scan .., _ | insert .., _ => True

instance decidableStaysClear : ∀ (q : Query) (es : List Expr), Decidable (q.StaysClear es)
  | filter e q, es => decidableStaysClear q (es ++ e.conjuncts)
  | join k _ _ l r, es =>
    have := decidableStaysClear l (es.filter fun e => k.descent l r e == .intoLeft)
    have := decidableStaysClear r (es.filter fun e => k.descent l r e == .intoRight)
    inferInstanceAs (Decidable (_ ∧ _ ∧ _))
  | project _ _ q, _ | aggregate _ _ _ q, _ => decidableStaysClear q []
  | scan .., _ | insert .., _ => inferInstanceAs (Decidable True)

section

variable {k : JoinKind} {l r : Query} {e : Expr}

theorem of_intoLeft (h : k.descent l r e = .intoLeft) :
    l.bindsAll e = true ∧ r.bindsAll e = false ∧ k.keepsRight = false := by
  unfold JoinKind.descent at h
  simp only at h
  split at h
  · rename_i h'
    simp only [Bool.and_eq_true, Bool.not_eq_true'] at h'
    exact ⟨h'.1.1, h'.1.2, h'.2⟩
  · split at h <;> cases h

theorem of_intoRight (h : k.descent l r e = .intoRight) :
    r.bindsAll e = true ∧ l.bindsAll e = false ∧ k.keepsLeft = false := by
  unfold JoinKind.descent at h
  simp only at h
  split at h
  · cases h
  · split at h
    · rename_i h'
      simp only [Bool.and_eq_true, Bool.not_eq_true'] at h'
      exact ⟨h'.1.1, h'.1.2, h'.2⟩
    · cases h

end

def going (k : JoinKind) (l r : Query) (es : List Expr) (d : Descent) : List Expr :=
  es.filter fun e => k.descent l r e == d

theorem mem_going {k : JoinKind} {l r : Query} {es : List Expr} {d : Descent} {e : Expr} :
    e ∈ going k l r es d ↔ e ∈ es ∧ k.descent l r e = d := by
  rw [going, List.mem_filter, beq_iff_eq]

theorem all_going (k : JoinKind) (l r : Query) (es : List Expr) (f : Expr → Bool) :
    es.all f = ((going k l r es .intoLeft).all f && (going k l r es .intoRight).all f &&
      (going k l r es .stays).all f) := by
  rw [Bool.eq_iff_iff, Bool.and_eq_true, Bool.and_eq_true]
  simp only [List.all_eq_true, mem_going]
  constructor
  · intro h
    exact ⟨⟨fun e he => h e he.1, fun e he => h e he.1⟩, fun e he => h e he.1⟩
  · rintro ⟨⟨hleft, hright⟩, hstays⟩ e he
    cases hd : k.descent l r e with
    | intoLeft => exact hleft e ⟨he, hd⟩
    | intoRight => exact hright e ⟨he, hd⟩
    | stays => exact hstays e ⟨he, hd⟩

section

variable {c : Catalog} {l r : Query} (hl : l.Scoped) (hr : r.Scoped)
  (hd : l.qualifiers.Disjoint r.qualifiers) {k : JoinKind} {es : List Expr}
  (hes : ∀ f ∈ es, f.PlainRefs)
include hl hr hd hes

/-- A conjunct that goes into the left input means there what it means above the join. -/
theorem allHold_intoLeft {e : Option Expr} {a : Row} (ha : a.length = l.schema.width) (b : Row) :
    (join k e (l.schema.join r.schema r.qualifier) l r).allHold (going k l r es .intoLeft)
      (a ++ b) = l.allHold (going k l r es .intoLeft) a := by
  have hjoin : (join k e (l.schema.join r.schema r.qualifier) l r).Scoped := ⟨rfl, hl, hr, hd⟩
  refine all_congr_of_mem fun f hf => Expr.holdsIn_congr fun x n hm => ?_
  obtain ⟨hf, hgo⟩ := mem_going.mp hf
  have hn : Text.Plain n := hes f hf (x, n) hm
  rw [hjoin.lookIn_eq (a ++ b) hn]
  exact look_left hl hr hd ha hn (binds_of_bindsAll (of_intoLeft hgo).1 hm)

/-- So does one that goes into the right input, if the left one provides none of its unqualified
references. -/
theorem allHold_intoRight {e : Option Expr} {a : Row} (ha : a.length = l.schema.width) (b : Row)
    (hclear : ∀ f ∈ es, k.descent l r f = .intoRight → ∀ m ∈ f.mentions, m.1 = none →
      l.binds (.of none m.2) = false) :
    (join k e (l.schema.join r.schema r.qualifier) l r).allHold (going k l r es .intoRight)
      (a ++ b) = r.allHold (going k l r es .intoRight) b := by
  have hjoin : (join k e (l.schema.join r.schema r.qualifier) l r).Scoped := ⟨rfl, hl, hr, hd⟩
  refine all_congr_of_mem fun f hf => Expr.holdsIn_congr fun x n hm => ?_
  obtain ⟨hf, hgo⟩ := mem_going.mp hf
  have hn : Text.Plain n := hes f hf (x, n) hm
  rw [hjoin.lookIn_eq (a ++ b) hn]
  exact look_right hl hr hd ha hn (binds_of_bindsAll (of_intoRight hgo).1 hm)
    fun hx => hclear f hf hgo (x, n) hm hx

end

theorem filter_join {k : JoinKind} {l r : Query} {es : List Expr} {wl wr : Nat}
    {meets : Row → Row → Bool} {ls rs : List Row} (q : Query)
    (hleft : ∀ a ∈ ls, ∀ b, q.allHold (going k l r es .intoLeft) (a ++ b) =
      l.allHold (going k l r es .intoLeft) a)
    (hright : ∀ a, a ∈ ls ∨ a = Row.nulls wl → ∀ b, q.allHold (going k l r es .intoRight) (a ++ b) =
      r.allHold (going k l r es .intoRight) b) :
    (k.joinRows wl wr meets ls rs).filter (q.allHold es) =
      (k.joinRows wl wr meets (ls.filter (l.allHold (going k l r es .intoLeft)))
        (rs.filter (r.allHold (going k l r es .intoRight)))).filter
          (q.allHold (going k l r es .stays)) := by
  have hsplit : q.allHold es = fun row => q.allHold (going k l r es .stays) row &&
      (q.allHold (going k l r es .intoRight) row && q.allHold (going k l r es .intoLeft) row) := by
    funext row
    rw [allHold, all_going k l r]
    simp only [allHold, Bool.and_comm]
  -- where a side may not be filtered, no conjunct goes into it
  have hL : (k.joinRows wl wr meets ls rs).filter (q.allHold (going k l r es .intoLeft)) =
      k.joinRows wl wr meets (ls.filter (l.allHold (going k l r es .intoLeft))) rs := by
    by_cases hk : k.keepsRight = true
    · have hnil : going k l r es .intoLeft = [] := List.eq_nil_iff_forall_not_mem.mpr fun f hf => by
        have := (of_intoLeft (mem_going.mp hf).2).2.2
        rw [hk] at this; cases this
      rw [hnil, filter_allHold_nil, filter_allHold_nil]
    · exact JoinKind.filter_joinRows_left (Bool.not_eq_true _ ▸ hk) hleft
  have hR : ∀ ls', (∀ a ∈ ls', a ∈ ls) →
      (k.joinRows wl wr meets ls' rs).filter (q.allHold (going k l r es .intoRight)) =
        k.joinRows wl wr meets ls' (rs.filter (r.allHold (going k l r es .intoRight))) := by
    intro ls' hls
    by_cases hk : k.keepsLeft = true
    · have hnil : going k l r es .intoRight = [] := List.eq_nil_iff_forall_not_mem.mpr fun f hf => by
        have := (of_intoRight (mem_going.mp hf).2).2.2
        rw [hk] at this; cases this
      rw [hnil, filter_allHold_nil, filter_allHold_nil]
    · refine JoinKind.filter_joinRows_right (Bool.not_eq_true _ ▸ hk) fun a ha b _ => ?_
      exact hright a (ha.imp_left (hls a)) b
  rw [hsplit, ← List.filter_filter, ← List.filter_filter, hL, hR _ fun a ha => (List.mem_filter.mp ha).1]

/-- Pushing keeps the rows: those of the query that the carried conjuncts hold in. -/
theorem rows_pushDownFrom {c : Catalog} (hc : c.IsRectangular) : ∀ {q : Query} (es : List Expr),
    q.IsOver c → q.ScopedJoins → (∀ e ∈ q.exprs, e.PlainRefs) → (∀ e ∈ es, e.PlainRefs) →
      q.StaysClear es → (q.pushDownFrom es).rows c = (q.rows c).filter (q.allHold es)
  | scan .., es, _, _, _, _, _ => rows_filterBy c es _
  | filter e q, es, ho, hj, hp, hes, hclear => by
    have hp' := List.forall_mem_cons.mp hp
    have ih := rows_pushDownFrom hc (q := q) (es ++ e.conjuncts) ho hj hp'.2
      (List.forall_mem_append.mpr ⟨hes, hp'.1.conjuncts⟩) hclear
    rw [pushDownFrom, ih, rows, List.filter_filter]
    refine List.filter_congr fun row _ => ?_
    rw [allHold, List.all_append, Expr.holdsIn_conjuncts]
    rfl
  | project is s q, es, ho, hj, hp, hes, hclear => by
    have ih := rows_pushDownFrom hc (q := q) [] ho.2 hj
      (List.forall_mem_append.mp hp).2 (by simp) hclear
    have hhold : (project is s (q.pushDownFrom [])).allHold = (project is s q).allHold :=
      allHold_congr rfl (qualifiers_pushDownFrom q [])
    rw [pushDownFrom, rows_filterBy, rows, ih, filter_allHold_nil, lookIn_pushDownFrom, hhold, rows]
  | aggregate gs os s q, es, ho, hj, hp, hes, hclear => by
    have ih := rows_pushDownFrom hc (q := q) [] ho.2 hj
      (List.forall_mem_append.mp hp).2 (by simp) hclear
    have hhold : (aggregate gs os s (q.pushDownFrom [])).allHold = (aggregate gs os s q).allHold :=
      allHold_congr rfl (qualifiers_pushDownFrom q [])
    have hgroup : (q.pushDownFrom []).groupingOf gs os = q.groupingOf gs os := by
      rw [groupingOf, schema_pushDownFrom, qualifiers_pushDownFrom, groupingOf]
    rw [pushDownFrom, rows_filterBy, rows, ih, filter_allHold_nil, hgroup, hhold, rows]
  | join k e s l r, es, ⟨hs, hol, hor⟩, ⟨_, hl, hr, hd⟩, hp, hes, ⟨hclear, hcl, hcr⟩ => by
    subst hs
    have hp' := List.forall_mem_append.mp hp
    have ihl := rows_pushDownFrom hc (going k l r es .intoLeft) hol hl.scopedJoins
      (List.forall_mem_append.mp hp'.1).2 (fun f hf => hes f (mem_going.mp hf).1) hcl
    have ihr := rows_pushDownFrom hc (going k l r es .intoRight) hor hr.scopedJoins
      hp'.2 (fun f hf => hes f (mem_going.mp hf).1) hcr
    have hhold : (join k e (l.schema.join r.schema r.qualifier)
        (l.pushDownFrom (going k l r es .intoLeft))
        (r.pushDownFrom (going k l r es .intoRight))).allHold =
          (join k e (l.schema.join r.schema r.qualifier) l r).allHold :=
      allHold_congr rfl (by
        rw [qualifiers, qualifiers_pushDownFrom, qualifiers_pushDownFrom, qualifiers])
    have hwidth := hol.length_rows hc
    show (filterBy (going k l r es .stays) (join k e _ (l.pushDownFrom (going k l r es .intoLeft))
      (r.pushDownFrom (going k l r es .intoRight)))).rows c = _
    rw [rows_filterBy, rows, schema_pushDownFrom, schema_pushDownFrom, meets_pushDownFrom, ihl, ihr,
      hhold, rows]
    refine (filter_join _ (fun a ha b => ?_) fun a ha b => ?_).symm
    · exact allHold_intoLeft hl hr hd hes (hwidth a ha) b
    · refine allHold_intoRight hl hr hd hes (ha.elim (hwidth a) fun h => ?_) b hclear
      rw [h, Row.nulls, List.length_replicate]
  | insert .., _, ho, _, _, _, _ => ho.elim

/-- A query and the pushed one answer alike wherever both answer. -/
theorem pushDown_answers_alike {κ : Type} [CostScalar κ] (m : CostModel κ) {c : Catalog}
    (hc : c.Reachable) {q : Query} (hq : q.WellScoped c) (hclear : q.StaysClear []) :
    q.pushDown.schema = q.schema ∧
      ∀ rs rs', q.runBaseline m c = .ok rs → q.pushDown.runBaseline m c = .ok rs' → rs' = rs := by
  refine ⟨schema_pushDownFrom q [], fun rs rs' h h' => ?_⟩
  have hread : q.pushDown.isReadOnly = true :=
    (isReadOnly_pushDownFrom q []).trans hq.isOver.isReadOnly
  have hrows : q.pushDown.rows c = q.rows c := by
    rw [pushDown, rows_pushDownFrom hc.isRectangular [] hq.isOver hq.scopedJoins hq.references
      (by simp) hclear, filter_allHold_nil]
  rw [((runBaseline_eq_ok hread).mp h').2, ((runBaseline_eq_ok hq.isOver.isReadOnly).mp h).2, hrows]

/-! ## A conjunct that loses its meaning -/

def sameNames : Catalog :=
  ((Catalog.empty.createWithRows "h" ⟨[⟨"id", .int⟩]⟩ [[.int 2]]).2.createWithRows "g"
    ⟨[⟨"id", .int⟩, ⟨"n", .int⟩]⟩ [[.int 3, .int 1]]).2

theorem reachable_sameNames : sameNames.Reachable :=
  Catalog.reachable_createFilled (Catalog.reachable_createFilled .empty _ _ _ _) _ _ _ _

/-- The join of the two tables, filtered by the comparison of a column with `g.id`. -/
def comparedWithId (column : String) : Query :=
  filter (.binary (.compare .lt) (.column none column) (.column (some "g") "id"))
    (joinOf .inner none (scan "h" none ⟨[⟨"id", .int⟩]⟩)
      (scan "g" none ⟨[⟨"id", .int⟩, ⟨"n", .int⟩]⟩))

/-- The column `n` is in one table only, and the conjunct keeps its meaning in the right input. -/
theorem pushDown_answers_alike_on_n :
    sameNames.Reachable ∧ (comparedWithId "n").WellScoped sameNames ∧
      (comparedWithId "n").StaysClear [] ∧ (comparedWithId "n").pushDown ≠ comparedWithId "n" ∧
      (comparedWithId "n").runBaseline .uninformed sameNames = .ok [[.int 2, .int 3, .int 1]] ∧
      (comparedWithId "n").pushDown.runBaseline .uninformed sameNames =
        .ok [[.int 2, .int 3, .int 1]] := by
  have hq : (comparedWithId "n").WellScoped sameNames := by decide +kernel
  have hclear : (comparedWithId "n").StaysClear [] := by decide +kernel
  have hrun : (comparedWithId "n").runBaseline .uninformed sameNames =
      .ok [[.int 2, .int 3, .int 1]] :=
    (runBaseline_eq_ok hq.isOver.isReadOnly).mpr (by decide +kernel)
  have hrun' : (comparedWithId "n").pushDown.runBaseline .uninformed sameNames =
      .ok ((comparedWithId "n").pushDown.rows sameNames) :=
    (runBaseline_eq_ok (by decide +kernel)).mpr ⟨by decide +kernel, rfl⟩
  have hsame := (pushDown_answers_alike .uninformed reachable_sameNames hq hclear).2 _ _ hrun hrun'
  exact ⟨reachable_sameNames, hq, hclear, by decide +kernel, hrun, by rw [hrun', hsame]⟩

/-- Above the join `id` means the column of `h`, in the right input it means that of `g`. -/
theorem pushDown_loses_row :
    sameNames.Reachable ∧ (comparedWithId "id").WellScoped sameNames ∧
      (comparedWithId "id").runBaseline .uninformed sameNames = .ok [[.int 2, .int 3, .int 1]] ∧
      (comparedWithId "id").pushDown.runBaseline .uninformed sameNames = .ok [] := by
  have hq : (comparedWithId "id").WellScoped sameNames := by decide +kernel
  refine ⟨reachable_sameNames, hq, (runBaseline_eq_ok hq.isOver.isReadOnly).mpr ?_,
    (runBaseline_eq_ok (by decide +kernel)).mpr ?_⟩
  · decide +kernel
  · decide +kernel

end Query

end RelQuery
