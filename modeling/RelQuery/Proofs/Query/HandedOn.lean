import RelQuery.Proofs.Query.ClearKeys
import RelQuery.Proofs.Query.PushRounds

/-!
# What pushing and pruning hand on

The passes before the reordering hand on a neat query for a neat one: it groups no more, its joins draw
on the same leaves and have the same conditions. And where the query that they are given succeeds, no
filter, item or condition of the one that they hand on is left without a value that matters.
-/

namespace RelQuery

namespace Query

variable {c : Catalog}

/-! ## What filters have no part in -/

/-- What a query shares with the one without its filters, it shares with the pushed one. -/
theorem eq_pushDownFrom {α : Type} {f : Query → α} (h : ∀ q, f q.unfiltered = f q) (q : Query)
    (es : List Expr) : f (q.pushDownFrom es) = f q := by
  rw [← h, unfiltered_pushDownFrom, h]

theorem qualifier_unfiltered : ∀ q : Query, q.unfiltered.qualifier = q.qualifier
  | scan .. | insert .. => rfl
  | filter _ q | project _ _ q | aggregate _ _ _ q => qualifier_unfiltered q
  | join _ _ _ l _ => qualifier_unfiltered l

theorem isOverOneScan_unfiltered : ∀ q : Query, q.unfiltered.isOverOneScan = q.isOverOneScan
  | scan .. | insert .. | aggregate .. | join .. => rfl
  | filter _ q | project _ _ q => isOverOneScan_unfiltered q

theorem groupsNothing_unfiltered : ∀ q : Query, q.unfiltered.groupsNothing = q.groupsNothing
  | scan .. | insert .. | aggregate .. => rfl
  | filter _ q | project _ _ q => groupsNothing_unfiltered q
  | join _ _ _ l r => by
    rw [unfiltered, groupsNothing, groupsNothing_unfiltered l, groupsNothing_unfiltered r,
      groupsNothing]

theorem innerConjuncts_unfiltered : ∀ q : Query, q.unfiltered.innerConjuncts = q.innerConjuncts
  | scan .. | insert .. => rfl
  | filter _ q | project _ _ q | aggregate _ _ _ q => innerConjuncts_unfiltered q
  | join k _ _ l r => by
    cases k <;> simp only [unfiltered, innerConjuncts, innerConjuncts_unfiltered l,
      innerConjuncts_unfiltered r]

theorem isOver_unfiltered : ∀ q : Query, q.unfiltered.IsOver c = q.IsOver c
  | scan .. | insert .. => rfl
  | filter _ q => isOver_unfiltered q
  | project _ _ q | aggregate _ _ _ q => by
    rw [unfiltered, IsOver, schema_unfiltered, isOver_unfiltered q, IsOver]
  | join _ _ _ l r => by
    rw [unfiltered, IsOver, schema_unfiltered, schema_unfiltered, qualifier_unfiltered,
      isOver_unfiltered l, isOver_unfiltered r, IsOver]

end Query

/-! ## Neatness of pushed queries -/

theorem Expr.plainRefs_conjoin {es : List Expr} (h : ∀ e ∈ es, e.PlainRefs) :
    (conjoin es).PlainRefs := by
  cases es with
  | nil => exact nofun
  | cons e es =>
    obtain ⟨he, hes⟩ := List.forall_mem_cons.mp h
    rw [conjoin]
    clear h
    induction es generalizing e with
    | nil => exact he
    | cons f es ih =>
      obtain ⟨hf, hes⟩ := List.forall_mem_cons.mp hes
      exact ih (e.and f) (List.forall_mem_append.mpr ⟨he, hf⟩) hes

namespace Query

variable {c : Catalog}

theorem neatTree_filterBy {es : List Expr} {q : Query} (hes : ∀ e ∈ es, e.PlainRefs)
    (h : q.NeatTree) : (filterBy es q).NeatTree := by
  unfold filterBy
  split
  · exact h
  · exact ⟨Expr.plainRefs_conjoin hes, h⟩

theorem neat_filterBy {es : List Expr} {q : Query} (hes : ∀ e ∈ es, e.PlainRefs) (h : q.Neat) :
    (filterBy es q).Neat := by
  unfold filterBy
  split
  · exact h
  · exact ⟨Expr.plainRefs_conjoin hes, h⟩

theorem plainRefs_going {k : JoinKind} {l r : Query} {es : List Expr} (hes : ∀ e ∈ es, e.PlainRefs)
    (d : Descent) : ∀ f ∈ going k l r es d, f.PlainRefs := fun f hf => hes f (mem_going.mp hf).1

theorem neatTree_pushDownFrom : ∀ {q : Query} (es : List Expr), q.NeatTree →
    (∀ e ∈ es, e.PlainRefs) → (q.pushDownFrom es).NeatTree
  | scan .., _, h, hes => neatTree_filterBy hes h
  | filter e q, es, h, hes =>
    neatTree_pushDownFrom (q := q) _ h.2 (List.forall_mem_append.mpr ⟨hes, h.1.conjuncts⟩)
  | project is s q, es, ⟨hp, hs, hone, h⟩, hes => by
    have ih := neatTree_pushDownFrom (q := q) [] h (by simp)
    have hone' : (q.pushDownFrom []).isOverOneScan = true :=
      (eq_pushDownFrom isOverOneScan_unfiltered q []).trans hone
    exact neatTree_filterBy hes (q := project is s (q.pushDownFrom [])) ⟨hp, hs, hone', ih⟩
  | join k e s l r, es, ⟨he, hd, hl, hr⟩, hes => by
    rw [pushDownFrom_join]
    refine neatTree_filterBy (plainRefs_going hes .stays) ⟨he, ?_,
      neatTree_pushDownFrom _ hl (plainRefs_going hes .intoLeft),
      neatTree_pushDownFrom _ hr (plainRefs_going hes .intoRight)⟩
    rw [qualifiers_pushDownFrom, qualifiers_pushDownFrom]
    exact hd

theorem neat_pushDownFrom : ∀ {q : Query} (es : List Expr), q.Neat → (∀ e ∈ es, e.PlainRefs) →
    (q.pushDownFrom es).Neat
  | scan .., _, h, hes | insert .., _, h, hes => neat_filterBy hes h
  | filter e q, es, h, hes =>
    neat_pushDownFrom (q := q) _ h.2 (List.forall_mem_append.mpr ⟨hes, h.1.conjuncts⟩)
  | project is s q, es, h, hes => by
    have ih := neat_pushDownFrom (q := q) [] h.2 (by simp)
    exact neat_filterBy hes (q := project is s (q.pushDownFrom [])) ⟨h.1, ih⟩
  | aggregate gs os s q, es, h, hes => by
    have ih := neat_pushDownFrom (q := q) [] h.2.2 (by simp)
    exact neat_filterBy hes (q := aggregate gs os s (q.pushDownFrom [])) ⟨h.1, h.2.1, ih⟩
  | join k e s l r, es, ⟨he, hd, hl, hr⟩, hes => by
    rw [pushDownFrom_join]
    apply neat_filterBy (plainRefs_going hes .stays)
    have hd' : (l.pushDownFrom (going k l r es .intoLeft)).qualifiers.Disjoint
        (r.pushDownFrom (going k l r es .intoRight)).qualifiers := by
      rw [qualifiers_pushDownFrom, qualifiers_pushDownFrom]
      exact hd
    exact ⟨he, hd', neatTree_pushDownFrom _ hl (plainRefs_going hes .intoLeft),
      neatTree_pushDownFrom _ hr (plainRefs_going hes .intoRight)⟩

end Query

/-! ## Values that matter -/

/-- One of the conjuncts decides that not all hold, or all have values. -/
def Expr.DecidedIn (look : Look) (es : List Expr) : Prop :=
  (∃ f ∈ es, ∃ v, f.evalWith look = .ok v ∧ v.isTrue = false) ∨ ∀ f ∈ es, (f.evalWith look).isOk

/-- What is decided where a further predicate holds is decided together with its conjuncts. -/
theorem Expr.decidedIn_append {look : Look} {es : List Expr} {e : Expr}
    (h : e.holdsIn look = true → DecidedIn look es) (hok : (e.evalWith look).isOk) :
    DecidedIn look (es ++ e.conjuncts) := by
  have hconjuncts := isOk_conjuncts hok
  by_cases hholds : e.holdsIn look = true
  · obtain ⟨f, hf, hfalse⟩ | hall := h hholds
    · exact .inl ⟨f, List.mem_append_left _ hf, hfalse⟩
    · exact .inr (List.forall_mem_append.mpr ⟨hall, hconjuncts⟩)
  · rw [← holdsIn_conjuncts, Bool.not_eq_true, List.all_eq_false] at hholds
    obtain ⟨f, hf, hno⟩ := hholds
    obtain ⟨v, hv⟩ := isOk_iff_exists.mp (hconjuncts f hf)
    rw [holdsIn, hv, Bool.not_eq_true] at hno
    exact .inl ⟨f, List.mem_append_right _ hf, v, hv, hno⟩

namespace Query

variable {c : Catalog} {q : Query} {es : List Expr}

theorem settled_of_isFilteredTree (h : q.isFilteredTree = true) : q.Settled c := by
  cases q with
  | scan | join => exact trivial
  | filter => exact .inl h
  | project | aggregate | insert => cases h

theorem isFilteredTree_filterBy (es : List Expr) (q : Query) :
    (filterBy es q).isFilteredTree = q.isFilteredTree := by
  unfold filterBy
  split
  · rfl
  · rfl

theorem settled_filterBy (hatoms : ∀ e ∈ es, e.isAnd = false) (hq : q.Settled c)
    (h : ∀ row ∈ q.rows c, Expr.DecidedIn (q.lookIn row) es) : (filterBy es q).Settled c := by
  obtain ⟨-, heq⟩ | ⟨e, heq, he⟩ := filterBy_cases hatoms q
  · rw [heq]
    exact hq
  · rw [heq]
    refine .inr ⟨hq, fun row hrow => ?_⟩
    rw [Expr.SettledIn, he]
    exact h row hrow

theorem conditionsAnswer_filterBy (h : q.ConditionsAnswer c) :
    (filterBy es q).ConditionsAnswer c := by
  unfold filterBy
  split
  · exact h
  · exact h

theorem rows_pushDown (hc : c.IsRectangular) (ho : q.IsOver c) (hn : q.Neat)
    (hclear : q.StaysClear []) : q.pushDown.rows c = q.rows c := by
  rw [pushDown, rows_pushDownFrom hc [] ho (hn.scopedJoins ho.coherent) hn.references (by simp) hclear,
    filter_allHold_nil]

/-- A pushed query is settled where the query succeeds, if the carried conjuncts are decided. -/
theorem settled_pushDownFrom (hc : c.IsRectangular) : ∀ {q : Query} (es : List Expr), q.IsOver c →
    q.Neat → q.StaysClear es → q.Succeeds c → (∀ e ∈ es, e.isAnd = false) →
      (∀ row ∈ q.rows c, Expr.DecidedIn (q.lookIn row) es) → (q.pushDownFrom es).Settled c
  | scan .., es, _, _, _, _, _, _ => settled_of_isFilteredTree (isFilteredTree_filterBy es _)
  | join .., es, _, _, _, _, _, _ => settled_of_isFilteredTree (isFilteredTree_filterBy _ _)
  | filter e q, es, ho, hn, hclear, hok, hatoms, hdec => by
    refine settled_pushDownFrom hc (q := q) (es ++ e.conjuncts) ho hn.2 hclear hok.1
      (List.forall_mem_append.mpr ⟨hatoms, fun _ => Expr.not_isAnd_of_mem_conjuncts⟩) ?_
    intro row hrow
    exact Expr.decidedIn_append (fun hholds => hdec row (List.mem_filter.mpr ⟨hrow, hholds⟩))
      (hok.2 row hrow)
  | project is s q, es, ho, hn, hclear, hok, hatoms, hdec => by
    have ih := settled_pushDownFrom hc (q := q) [] ho.2 hn.2 hclear hok.1 (by simp)
      fun _ _ => .inr (by simp)
    have hrows : q.pushDown.rows c = q.rows c := rows_pushDown hc ho.2 hn.2 hclear
    have hsame : (project is s q.pushDown).rows c = (project is s q).rows c := by
      rw [rows, hrows, pushDown, lookIn_pushDownFrom, rows]
    have hlook : (project is s q.pushDown).lookIn = (project is s q).lookIn :=
      lookIn_congr rfl (qualifiers_pushDownFrom q [])
    refine settled_filterBy hatoms (q := project is s q.pushDown) ⟨ih, ?_⟩ ?_
    · rw [hrows, pushDown, lookIn_pushDownFrom]
      exact hok.2
    · rw [hsame, hlook]
      exact hdec
  | aggregate gs os s q, es, ho, hn, hclear, hok, hatoms, hdec => by
    have ih := settled_pushDownFrom hc (q := q) [] ho.2 hn.2.2 hclear hok.1 (by simp)
      fun _ _ => .inr (by simp)
    have hrows : q.pushDown.rows c = q.rows c := rows_pushDown hc ho.2 hn.2.2 hclear
    have hgroup : q.pushDown.groupingOf gs os = q.groupingOf gs os := by
      rw [groupingOf, pushDown, schema_pushDownFrom, qualifiers_pushDownFrom, groupingOf]
    have hsame : (aggregate gs os s q.pushDown).rows c = (aggregate gs os s q).rows c := by
      rw [rows, hrows, hgroup, rows]
    have hlook : (aggregate gs os s q.pushDown).lookIn = (aggregate gs os s q).lookIn :=
      lookIn_congr rfl (qualifiers_pushDownFrom q [])
    refine settled_filterBy hatoms (q := aggregate gs os s q.pushDown) ⟨ih, ?_⟩ ?_
    · rw [hrows, hgroup]
      exact hok.2
    · rw [hsame, hlook]
      exact hdec
  | insert .., _, ho, _, _, _, _, _ => ho.elim

theorem mem_of_rows_pushDownFrom (hc : c.IsRectangular) (ho : q.IsOver c) (hj : q.ScopedJoins)
    (hp : ∀ e ∈ q.exprs, e.PlainRefs) (hes : ∀ e ∈ es, e.PlainRefs) (hclear : q.StaysClear es) :
    ∀ row ∈ (q.pushDownFrom es).rows c, row ∈ q.rows c := by
  intro row hrow
  rw [rows_pushDownFrom hc es ho hj hp hes hclear] at hrow
  exact (List.mem_filter.mp hrow).1

/-- The inputs of a pushed join have some of the rows that the inputs had. -/
theorem conditionsAnswer_pushDownFrom (hc : c.IsRectangular) : ∀ {q : Query} (es : List Expr),
    q.IsOver c → q.ScopedJoins → (∀ e ∈ q.exprs, e.PlainRefs) → (∀ e ∈ es, e.PlainRefs) →
      q.StaysClear es → q.ConditionsAnswer c → (q.pushDownFrom es).ConditionsAnswer c
  | scan .., _, _, _, _, _, _, h => conditionsAnswer_filterBy h
  | filter e q, es, ho, hj, hp, hes, hclear, h => by
    obtain ⟨he, hp'⟩ := List.forall_mem_cons.mp hp
    exact conditionsAnswer_pushDownFrom hc (q := q) (es ++ e.conjuncts) ho hj hp'
      (List.forall_mem_append.mpr ⟨hes, he.conjuncts⟩) hclear h
  | project _ _ q, es, ho, hj, hp, _, hclear, h | aggregate _ _ _ q, es, ho, hj, hp, _, hclear, h => by
    have ih := conditionsAnswer_pushDownFrom hc (q := q) [] ho.2 hj (List.forall_mem_append.mp hp).2
      (by simp) hclear h
    exact conditionsAnswer_filterBy ih
  | join k e s l r, es, ⟨_, hol, hor⟩, ⟨_, hl, hr, _⟩, hp, hes, ⟨_, hcl, hcr⟩, ⟨hal, har, h⟩ => by
    obtain ⟨hel, hpr⟩ := List.forall_mem_append.mp hp
    have hpl := (List.forall_mem_append.mp hel).2
    have hgoing : ∀ d, ∀ f ∈ going k l r es d, f.PlainRefs := fun d f hf => hes f (mem_going.mp hf).1
    have hl := hl.scopedJoins
    have hr := hr.scopedJoins
    rw [pushDownFrom_join]
    apply conditionsAnswer_filterBy
    refine ⟨conditionsAnswer_pushDownFrom hc _ hol hl hpl (hgoing .intoLeft) hcl hal,
      conditionsAnswer_pushDownFrom hc _ hor hr hpr (hgoing .intoRight) hcr har, ?_⟩
    intro a ha b hb f hf
    rw [lookBoth_pushDownFrom]
    exact h a (mem_of_rows_pushDownFrom hc hol hl hpl (hgoing .intoLeft) hcl a ha) b
      (mem_of_rows_pushDownFrom hc hor hr hpr (hgoing .intoRight) hcr b hb) f hf
  | insert .., _, ho, _, _, _, _, _ => ho.elim

/-! ## Leaves of pushed queries -/

theorem leafCells_filterBy (es : List Expr) (q : Query) :
    (filterBy es q).leafCells c = q.leafCells c := by
  unfold filterBy
  split
  · rfl
  · rfl

theorem joinedCells_filterBy (es : List Expr) (q : Query) :
    (filterBy es q).joinedCells c = q.joinedCells c := by
  unfold filterBy
  split
  · rfl
  · rfl

theorem leafCells_pushDownFrom (hc : c.IsRectangular) : ∀ {q : Query} (es : List Expr),
    q.IsOver c → q.NeatTree → q.StaysClear es → (q.pushDownFrom es).leafCells c = q.leafCells c
  | scan .., es, _, _, _ => leafCells_filterBy es _
  | filter _ q, es, ho, hn, hclear => leafCells_pushDownFrom hc (q := q) _ ho hn.2 hclear
  | project is s q, es, ho, ⟨_, _, _, hn⟩, hclear => by
    have hrows : (q.pushDownFrom []).rows c = q.rows c := by
      rw [rows_pushDownFrom hc [] ho.2 (hn.scoped ho.2.coherent).scopedJoins hn.references (by simp)
        hclear, filter_allHold_nil]
    have hqualifier : (q.pushDownFrom []).qualifier = q.qualifier :=
      eq_pushDownFrom qualifier_unfiltered q []
    rw [pushDownFrom, leafCells_filterBy]
    simp only [leafCells, origins_project, rows, hrows, hqualifier, lookIn_pushDownFrom]
  | join k e s l r, es, ho, ⟨_, _, hl, hr⟩, ⟨_, hcl, hcr⟩ => by
    have ihl := leafCells_pushDownFrom hc (going k l r es .intoLeft) ho.2.1 hl hcl
    have ihr := leafCells_pushDownFrom hc (going k l r es .intoRight) ho.2.2 hr hcr
    rw [pushDownFrom_join, leafCells_filterBy, leafCells, ihl, ihr, leafCells]
  | insert .., _, ho, _, _ => ho.elim

theorem joinedCells_pushDownFrom (hc : c.IsRectangular) : ∀ {q : Query} (es : List Expr),
    q.IsOver c → q.Neat → q.StaysClear es → (q.pushDownFrom es).joinedCells c = q.joinedCells c
  | scan .., es, _, _, _ => joinedCells_filterBy es _
  | filter _ q, es, ho, hn, hclear => joinedCells_pushDownFrom hc (q := q) _ ho hn.2 hclear
  | project _ _ q, es, ho, hn, hclear => by
    rw [pushDownFrom, joinedCells_filterBy]
    exact joinedCells_pushDownFrom hc (q := q) [] ho.2 hn.2 hclear
  | aggregate _ _ _ q, es, ho, hn, hclear => by
    rw [pushDownFrom, joinedCells_filterBy]
    exact joinedCells_pushDownFrom hc (q := q) [] ho.2 hn.2.2 hclear
  | join k e s l r, es, ho, ⟨_, _, hl, hr⟩, ⟨_, hcl, hcr⟩ => by
    have hleft := leafCells_pushDownFrom hc (going k l r es .intoLeft) ho.2.1 hl hcl
    have hright := leafCells_pushDownFrom hc (going k l r es .intoRight) ho.2.2 hr hcr
    rw [pushDownFrom_join, joinedCells_filterBy, joinedCells, hleft, hright, joinedCells]
  | insert .., _, ho, _, _ => ho.elim

/-! ## Rounds of pushing -/

/-- The second query is handed on for the first: it answers as the first one does, and is as good for
the passes to come. -/
structure HandsOn (c : Catalog) (q p : Query) : Prop where
  isOver : p.IsOver c
  neat : p.Neat
  groupsNothing : p.groupsNothing = q.groupsNothing
  innerConjuncts : p.innerConjuncts = q.innerConjuncts
  joinedCells : p.joinedCells c = q.joinedCells c
  rows : p.rows c = q.rows c
  settled : q.Succeeds c → p.Settled c
  conditionsAnswer : q.Succeeds c → p.ConditionsAnswer c

section

variable (hc : c.IsRectangular) (ho : q.IsOver c) (hn : q.Neat)

include ho hn in
theorem HandsOn.refl : HandsOn c q q :=
  ⟨ho, hn, rfl, rfl, rfl, rfl, Succeeds.settled, Succeeds.conditionsAnswer⟩

include hc ho hn in
theorem handsOn_pushDown (hclear : q.StaysClear []) : HandsOn c q q.pushDown where
  isOver := (eq_pushDownFrom isOver_unfiltered q []).mpr ho
  neat := neat_pushDownFrom [] hn (by simp)
  groupsNothing := eq_pushDownFrom groupsNothing_unfiltered q []
  innerConjuncts := eq_pushDownFrom innerConjuncts_unfiltered q []
  joinedCells := joinedCells_pushDownFrom hc [] ho hn hclear
  rows := rows_pushDown hc ho hn hclear
  settled hok := settled_pushDownFrom hc [] ho hn hclear hok (by simp) fun _ _ => .inr (by simp)
  conditionsAnswer hok := conditionsAnswer_pushDownFrom hc [] ho (hn.scopedJoins ho.coherent)
    hn.references (by simp) hclear hok.conditionsAnswer

include hc ho hn in
theorem handsOn_pushRounds (hclear : q.StaysClear []) :
    ∀ rounds, HandsOn c q (Passes.pushRounds rounds q)
  | 0 => .refl ho hn
  | rounds + 1 => by
    rw [Passes.pushRounds]
    split
    · exact .refl ho hn
    · rw [pushRounds_of_pushDown_eq (pushDown_pushDown q)]
      exact handsOn_pushDown hc ho hn hclear

end

/-! ## Pruning -/

theorem groupsNothing_prune : ∀ (q : Query) (required : List ColumnRef) (root : Bool),
    (q.prune required root).groupsNothing = q.groupsNothing
  | scan t a s, required, _ => by
    obtain heq | ⟨s', heq⟩ := narrow_cases required t a s
    · rw [prune, heq]
    · rw [prune, heq]
      rfl
  | insert .., _, _ | aggregate .., _, _ => rfl
  | filter _ q, _, _ => groupsNothing_prune q _ _
  | project items s q, required, root => by
    unfold prune
    simp only
    split
    · exact groupsNothing_prune q _ _
    · exact groupsNothing_prune q _ _
  | join _ _ _ l r, _, _ => by
    rw [prune, joinOf, groupsNothing, groupsNothing_prune l, groupsNothing_prune r, groupsNothing]

theorem innerConjuncts_prune : ∀ (q : Query) (required : List ColumnRef) (root : Bool),
    (q.prune required root).innerConjuncts = q.innerConjuncts
  | scan t a s, required, _ => by
    obtain heq | ⟨s', heq⟩ := narrow_cases required t a s
    · rw [prune, heq]
    · rw [prune, heq]
      rfl
  | insert .., _, _ => rfl
  | aggregate _ _ _ q, _, _ | filter _ q, _, _ => innerConjuncts_prune q _ _
  | project items s q, required, root => by
    unfold prune
    simp only
    split
    · exact innerConjuncts_prune q _ _
    · exact innerConjuncts_prune q _ _
  | join k _ _ l r, _, _ => by
    cases k <;> simp only [prune, joinOf, innerConjuncts, innerConjuncts_prune l,
      innerConjuncts_prune r]

theorem isRectangular_prune : ∀ {q : Query} (required : List ColumnRef) (root : Bool),
    q.IsRectangular c → (q.prune required root).IsRectangular c
  | scan t a s, required, _, h => by
    obtain heq | ⟨s', heq⟩ := narrow_cases required t a s
    · rw [prune, heq]
      exact h
    · rw [prune, heq]
      exact ⟨(List.length_map _).symm, h⟩
  | filter _ q, _, _, h => isRectangular_prune (q := q) _ _ h
  | project items s q, required, root, h => by
    have hlen : items.length = s.columns.length := h.1.symm
    rw [prune_project items q hlen]
    refine ⟨?_, isRectangular_prune (q := q) _ _ h.2⟩
    have hkept := sift_marks (keptItems required root items) items
    rw [← hkept, length_sift _ (List.length_map _).symm]
    exact length_sift _ (hlen.symm.trans (List.length_map _).symm)
  | aggregate _ _ _ q, _, _, h => ⟨h.1, isRectangular_prune (q := q) _ _ h.2⟩
  | join _ _ _ l r, _, _, h =>
    ⟨width_join .., isRectangular_prune _ _ h.2.1, isRectangular_prune _ _ h.2.2⟩
  | insert .., _, _, h => h

theorem conditionsAnswer_of_isOverOneScan : ∀ {q : Query}, q.isOverOneScan = true →
    q.ConditionsAnswer c
  | scan .., _ => trivial
  | filter _ q, h | project _ _ q, h => conditionsAnswer_of_isOverOneScan (q := q) h

/-- Under the joins of a pruned tree, conditions find what they found. -/
theorem conditionsAnswer_prune_of_neatTree (hc : c.IsRectangular) : ∀ {q : Query}
    (required : List ColumnRef) (root : Bool), q.NeatTree → q.IsOver c → q.ConditionsAnswer c →
      (q.prune required root).ConditionsAnswer c
  | scan t a s, required, root, _, _, _ =>
    conditionsAnswer_of_isOverOneScan (isOverOneScan_prune (q := scan t a s) required root rfl)
  | project items s q, required, root, hn, _, _ =>
    conditionsAnswer_of_isOverOneScan
      (isOverOneScan_prune (q := project items s q) required root hn.2.2.1)
  | filter _ q, _, _, hn, ho, h => conditionsAnswer_prune_of_neatTree hc (q := q) _ false hn.2 ho h
  | join k e s l r, required, _, ⟨he, _, hl, hr⟩, ⟨_, hol, hor⟩, ⟨hal, har, h⟩ => by
    refine ⟨conditionsAnswer_prune_of_neatTree hc _ false hl hol hal,
      conditionsAnswer_prune_of_neatTree hc _ false hr hor har, ?_⟩
    obtain ⟨ml, hnl⟩ := narrows_prune hc (q := l)
      (required.filter (fun x => l.binds x || !r.binds x) ++ (e.map (·.columnRefs)).getD []) false
      hl hol
    obtain ⟨mr, hnr⟩ := narrows_prune hc (q := r)
      (required.filter (fun x => r.binds x || !l.binds x) ++ (e.map (·.columnRefs)).getD []) false
      hr hor
    intro a' ha' b' hb' f hf
    rw [hnl.rows] at ha'
    rw [hnr.rows] at hb'
    obtain ⟨a, ha, rfl⟩ := List.mem_map.mp ha'
    obtain ⟨b, hb, rfl⟩ := List.mem_map.mp hb'
    -- the references of the condition are required of both inputs
    have hrefs : ∀ g ∈ e, ∀ x ∈ g.columnRefs, x ∈ (e.map (·.columnRefs)).getD [] := by
      intro g hg x hx
      rw [Option.mem_def.mp hg]
      exact hx
    rw [evalWith_lookBoth (hl.scoped hol.coherent) (hr.scoped hor.coherent) he hnl hnr
      (fun g hg x hx => List.mem_append_right _ (hrefs g hg x hx))
      (fun g hg x hx => List.mem_append_right _ (hrefs g hg x hx)) hf a b]
    exact h a ha b hb f hf

theorem scopedJoins_conditionsAnswer_prune (hc : c.IsRectangular) : ∀ {q : Query}
    (required : List ColumnRef) (root : Bool), q.IsOver c → q.Neat → q.ConditionsAnswer c →
      (q.prune required root).ScopedJoins ∧ (q.prune required root).ConditionsAnswer c
  | scan t a s, required, root, ho, hn, h => by
    obtain ⟨_, hnarrows⟩ := narrows_prune hc (q := scan t a s) required root hn ho
    exact ⟨hnarrows.isScoped.scopedJoins, conditionsAnswer_prune_of_neatTree hc _ _ hn ho h⟩
  | join k e s l r, required, root, ho, hn, h => by
    obtain ⟨_, hnarrows⟩ := narrows_prune hc (q := join k e s l r) required root hn ho
    exact ⟨hnarrows.isScoped.scopedJoins,
      conditionsAnswer_prune_of_neatTree hc (q := join k e s l r) _ _ hn ho h⟩
  | filter _ q, _, _, ho, hn, h => scopedJoins_conditionsAnswer_prune hc (q := q) _ false ho hn.2 h
  | project items s q, required, root, ho, hn, h => by
    rw [prune_project items q (width_itemSchema ho.1).symm]
    exact scopedJoins_conditionsAnswer_prune hc (q := q) _ false ho.2 hn.2 h
  | aggregate _ _ _ q, _, _, ho, hn, h =>
    scopedJoins_conditionsAnswer_prune hc (q := q) _ false ho.2 hn.2.2 h
  | insert .., _, _, ho, _, _ => ho.elim

theorem plainRefs_innerConjuncts : ∀ {q : Query}, (∀ e ∈ q.exprs, e.PlainRefs) →
    ∀ f ∈ q.innerConjuncts, f.PlainRefs
  | filter _ q, h, f, hf => plainRefs_innerConjuncts (q := q) (List.forall_mem_cons.mp h).2 f hf
  | project _ _ q, h, f, hf | aggregate _ _ _ q, h, f, hf =>
    plainRefs_innerConjuncts (q := q) (List.forall_mem_append.mp h).2 f hf
  | join k e _ l r, h, f, hf => by
    obtain ⟨hel, hr⟩ := List.forall_mem_append.mp h
    obtain ⟨he, hl⟩ := List.forall_mem_append.mp hel
    have ihl := plainRefs_innerConjuncts hl
    have ihr := plainRefs_innerConjuncts hr
    cases k with
    | inner =>
      rcases List.mem_append.mp hf with hf | hf
      · exact List.forall_mem_append.mpr ⟨ihl, ihr⟩ f hf
      · obtain ⟨g, hg, hfg⟩ := List.mem_flatMap.mp hf
        exact (he g hg).conjuncts f hfg
    | left | right | full => exact List.forall_mem_append.mpr ⟨ihl, ihr⟩ f hf

theorem traced_pruneColumns (hc : c.IsRectangular) (ho : q.IsOver c) (hn : q.Neat)
    (hg : q.groupsNothing = true) (ha : q.ConditionsAnswer c)
    (hkeys : q.KeysClear (q.joinedCells c)) : q.pruneColumns.Traced c (q.joinedCells c) := by
  obtain ⟨hscoped, hanswer⟩ := scopedJoins_conditionsAnswer_prune hc q.rootRefs true ho hn ha
  have hconjuncts : q.pruneColumns.innerConjuncts = q.innerConjuncts := innerConjuncts_prune q _ _
  refine ⟨hscoped, isRectangular_prune _ _ ho.isRectangular, ?_, hanswer, ?_, ?_, ?_⟩
  · rw [pruneColumns, groupsNothing_prune]
    exact hg
  · exact joinsDrawn_prune hc _ _ hn ho fun _ hz => hz
  · rw [hconjuncts]
    exact plainRefs_innerConjuncts hn.references
  · rw [KeysClear, hconjuncts]
    exact hkeys

end Query

end RelQuery
