import RelQuery.Proofs.Plan.Chosen
import RelQuery.Proofs.Query.Conserved
import RelQuery.Proofs.Query.Drawn

/-!
# Keys of reordered joins

Reordering joins moves the equations in their conditions to other joins, over other rows. But the
values that these compare are drawn from the same columns of the same tables. So if the values stored
in columns that are equated do not stray from one another, no reordered join goes by values that do.
-/

namespace RelQuery

/-! ## Columns that are equated -/

def Expr.reads (e : Expr) (o : Origin) : Bool := e.columnRefs.any (·.means o)

/-- If this is an equation between columns, the values in them do not stray from one another. -/
def Expr.ClearOver (cells : List (Origin × Value)) (e : Expr) : Prop :=
  e.columnEquality?.isSome → ∀ z ∈ cells, ∀ z' ∈ cells, e.reads z.1 = true → e.reads z'.1 = true →
    ¬ z.2.Strays z'.2

theorem isSome_columnEquality?_of_keys {f a b : Expr} {l r : Query}
    (h : equiJoinKeys? f l r = some (a, b)) : f.columnEquality?.isSome := by
  unfold equiJoinKeys? at h
  obtain ⟨sides, hsides, -⟩ := Option.bind_eq_some_iff.mp h
  rw [hsides]
  rfl

theorem Expr.conjuncts_of_columnEquality? {e : Expr} (h : e.columnEquality?.isSome) :
    e.conjuncts = [e] := by
  obtain ⟨⟨a, b⟩, hsides⟩ := Option.isSome_iff_exists.mp h
  rw [of_columnEquality? hsides]
  rfl

theorem Expr.plainRefs_of_conjuncts {e : Expr} : (∀ f ∈ e.conjuncts, f.PlainRefs) → e.PlainRefs := by
  fun_induction conjuncts e with
  | case1 l r ihl ihr =>
    intro h
    have h' := List.forall_mem_append.mp h
    exact List.forall_mem_append.mpr ⟨ihl h'.1, ihr h'.2⟩
  | case2 e _ => exact fun h => h e (List.mem_singleton_self e)

theorem Expr.clearOver_of_conjuncts {cells : List (Origin × Value)} {e : Expr}
    (h : ∀ f ∈ e.conjuncts, f.ClearOver cells) : e.ClearOver cells := by
  intro hsides
  rw [conjuncts_of_columnEquality? hsides] at h
  exact h e (List.mem_singleton_self e) hsides

namespace Query

variable {c : Catalog} {cells : List (Origin × Value)}

/-! ## One join -/

/-- References to the columns of a query are looked up by these origins, and its values are drawn from
the cells. -/
structure Displays (c : Catalog) (cells : List (Origin × Value)) (q : Query) (os : List Origin) :
    Prop where
  look : ∀ row x n, Readable x n → q.lookIn row x n = Origin.look os row x n
  draws : Draws cells os (q.rows c)

theorem Displays.congr {q q' : Query} {os : List Origin} (h : Displays c cells q os)
    (hlook : q'.lookIn = q.lookIn) (hrows : ∀ row ∈ q'.rows c, row ∈ q.rows c) :
    Displays c cells q' os where
  look row x n hn := by
    rw [hlook]
    exact h.look row x n hn
  draws := h.draws.of_subset hrows

theorem Named.displays {q : Query} {os : List Origin} (h : q.Named os)
    (hdraws : Draws cells os (q.rows c)) : Displays c cells q os where
  look row _ _ hn := h.spells.look_eq row hn
  draws := hdraws

theorem Displays.exists_cell {q : Query} {os : List Origin} (h : Displays c cells q os)
    {row : Row} (hrow : row ∈ q.rows c) {x : Option String} {n : String} (hn : Readable x n)
    (hnull : (q.keyIn (.column x n) row).isNull = false) :
    ∃ z ∈ cells, z.2 = q.keyIn (.column x n) row ∧ (ColumnRef.of x n).means z.1 = true := by
  have hkey : q.keyIn (.column x n) row = orNull (Origin.look os row x n) :=
    congrArg orNull (h.look row x n hn)
  rw [hkey] at hnull ⊢
  cases hlook : Origin.look os row x n with
  | error err =>
    rw [hlook] at hnull
    cases hnull
  | ok v =>
    rw [hlook] at hnull
    obtain ⟨o, ho, hmeans⟩ := Origin.exists_of_look hlook
    exact ⟨(o, v), h.draws row hrow _ ho hnull, rfl, hmeans⟩

theorem Displays.clearJoin {l r : Query} {os os' : List Origin} (hl : Displays c cells l os)
    (hr : Displays c cells r os') {f : Expr} (hplain : f.PlainRefs) (hclear : f.ClearOver cells) :
    ClearJoin c f l r where
  names m hm := (hplain m hm).ascii
  keys a b hkeys v hv w hw := by
    obtain ⟨⟨x, n, rfl, -⟩, ⟨y, m, rfl, -⟩, hcondition⟩ := of_equiJoinKeys? hkeys
    have hmentions : (x, n) ∈ f.mentions ∧ (y, m) ∈ f.mentions := by
      rcases hcondition with rfl | rfl <;> simp [Expr.mentions]
    have hcell : ∀ u ∈ Plan.joinKeys (l.keyIn (.column x n)) (r.keyIn (.column y m)) (l.rows c)
        (r.rows c), ∃ z ∈ cells, z.2 = u ∧ f.reads z.1 = true := by
      intro u hu
      obtain ⟨hu, hnull⟩ := List.mem_filter.mp hu
      rw [Bool.not_eq_true'] at hnull
      rcases List.mem_append.mp hu with hu | hu
      · obtain ⟨row, hrow, rfl⟩ := List.mem_map.mp hu
        obtain ⟨z, hz, hzu, hmeans⟩ := hl.exists_cell hrow
          (readable_of_plain (hplain _ hmentions.1) x) hnull
        exact ⟨z, hz, hzu, List.any_eq_true.mpr ⟨_, Expr.of_mem_columnRefs hmentions.1, hmeans⟩⟩
      · obtain ⟨row, hrow, rfl⟩ := List.mem_map.mp hu
        obtain ⟨z, hz, hzu, hmeans⟩ := hr.exists_cell hrow
          (readable_of_plain (hplain _ hmentions.2) y) hnull
        exact ⟨z, hz, hzu, List.any_eq_true.mpr ⟨_, Expr.of_mem_columnRefs hmentions.2, hmeans⟩⟩
    obtain ⟨z, hz, rfl, hreads⟩ := hcell v hv
    obtain ⟨z', hz', rfl, hreads'⟩ := hcell w hw
    exact hclear (isSome_columnEquality?_of_keys hkeys) z hz z' hz' hreads hreads'

/-! ## Trees grown anew -/

section

variable {leaf : Nat → Query} {os : Nat → List Origin} {all : List Nat}

theorem clear_connected (hin : Inputs c leaf os all)
    (hleaf : ∀ p ∈ all, (leaf p).ClearJoins c ∧ Draws cells (os p) ((leaf p).rows c)) {t : Query}
    {ps : List Nat} {used : List Expr} (h : Connected leaf t ps used) :
    (∀ p ∈ ps, p ∈ all) → ps.Nodup → (∀ f ∈ used, f.PlainRefs ∧ f.ClearOver cells) →
      Spans leaf os all ps t ∧ (∀ row ∈ t.rows c, row.length = t.schema.width) ∧
        Draws cells (originsAt os ps) (t.rows c) ∧ t.ClearJoins c := by
  induction h with
  | single p =>
    intro hsub _ _
    have hp := hsub p (List.mem_singleton_self p)
    have hone : originsAt os [p] = os p := List.flatMap_singleton ..
    exact ⟨hin.spans hp, hin.widths p hp, hone ▸ (hleaf p hp).2, (hleaf p hp).1⟩
  | @join t ps used e p _ _ ih =>
    intro hsub hnodup hused
    have hsub' := List.forall_mem_append.mp hsub
    have hnodup' := List.nodup_append'.mp hnodup
    have hused' := List.forall_mem_append.mp hused
    have hp := hsub'.2 p (List.mem_singleton_self p)
    obtain ⟨hspans, hwidths, hdraws, hclear⟩ := ih hsub'.1 hnodup'.1 hused'.1
    have hright := hin.spans hp
    have hdraws' : Draws cells (originsAt os [p]) ((leaf p).rows c) := by
      have hone : originsAt os [p] = os p := List.flatMap_singleton ..
      exact hone ▸ (hleaf p hp).2
    have happend : originsAt os (ps ++ [p]) = originsAt os ps ++ originsAt os [p] :=
      List.flatMap_append
    refine ⟨hspans.join hin hright hnodup'.2.2 e, ?_, ?_, hclear, (hleaf p hp).1, ?_⟩
    · intro row hrow
      rw [joinOf, schema, width_join]
      exact length_joinRows hwidths (hin.widths p hp) row hrow
    · rw [happend]
      exact hdraws.joinRows hdraws' hspans.named.length_origins hwidths
    · intro _ f hf
      obtain ⟨hplain, hf'⟩ := hused'.2 f (Option.mem_toList.mpr hf)
      exact (hspans.named.displays hdraws).clearJoin (hright.named.displays hdraws') hplain hf'

end

/-! ## Whole queries -/

def innerConjuncts : Query → List Expr
  | scan .. | insert .. => []
  | filter _ q | project _ _ q | aggregate _ _ _ q => q.innerConjuncts
  | join .inner e _ l r => l.innerConjuncts ++ r.innerConjuncts ++ e.toList.flatMap Expr.conjuncts
  | join _ _ _ l r => l.innerConjuncts ++ r.innerConjuncts

theorem mem_innerConjuncts : ∀ {t : Query}, ∀ f ∈ t.joinConditions.flatMap Expr.conjuncts,
    f ∈ t.innerConjuncts
  | join .inner e s l r, f, hf => by
    rw [joinConditions, List.flatMap_append, List.flatMap_append] at hf
    refine List.append_subset.mpr ⟨?_, List.subset_append_right _ _⟩ hf
    exact List.append_subset.mpr ⟨fun g hg =>
        List.mem_append_left _ (List.mem_append_left _ (mem_innerConjuncts (t := l) g hg)),
      fun g hg => List.mem_append_left _ (List.mem_append_right _ (mem_innerConjuncts (t := r) g hg))⟩

theorem innerConjuncts_sides (k : JoinKind) (o : Option Expr) (s : Schema) (l r : Query) :
    (∀ f ∈ l.innerConjuncts, f ∈ (join k o s l r).innerConjuncts) ∧
      ∀ f ∈ r.innerConjuncts, f ∈ (join k o s l r).innerConjuncts := by
  cases k with
  | inner =>
    exact ⟨fun f hf => List.mem_append_left _ (List.mem_append_left _ hf),
      fun f hf => List.mem_append_left _ (List.mem_append_right _ hf)⟩
  | left | right | full =>
    exact ⟨fun f hf => List.mem_append_left _ hf, fun f hf => List.mem_append_right _ hf⟩

/-- The equations in the conditions of inner joins are between columns with values that do not stray
from one another. -/
def KeysClear (cells : List (Origin × Value)) (q : Query) : Prop :=
  ∀ f ∈ q.innerConjuncts, f.ClearOver cells

theorem keysClear_of_isFloat {q : Query} (h : ∀ z ∈ cells, z.2.isFloat = false) :
    q.KeysClear cells := fun _ _ _ z hz z' hz' _ _ => Value.not_strays (h z hz) (h z' hz')

/-- A query whose joins compare values that are drawn from the cells, and on which comparison and keys
agree. -/
structure Traced (c : Catalog) (cells : List (Origin × Value)) (q : Query) : Prop where
  scopedJoins : q.ScopedJoins
  isRectangular : q.IsRectangular c
  groupsNothing : q.groupsNothing = true
  conditionsAnswer : q.ConditionsAnswer c
  joinsDrawn : q.JoinsDrawn c cells
  plainConjuncts : ∀ f ∈ q.innerConjuncts, f.PlainRefs
  keysClear : q.KeysClear cells

namespace Traced

variable {e : Expr} {is : List Item} {s : Schema} {q l r : Query} {k : JoinKind} {o : Option Expr}

theorem filter (h : (Query.filter e q).Traced c cells) : q.Traced c cells :=
  ⟨h.scopedJoins, h.isRectangular, h.groupsNothing, h.conditionsAnswer, h.joinsDrawn,
    h.plainConjuncts, h.keysClear⟩

theorem project (h : (Query.project is s q).Traced c cells) : q.Traced c cells :=
  ⟨h.scopedJoins, h.isRectangular.2, h.groupsNothing, h.conditionsAnswer, h.joinsDrawn,
    h.plainConjuncts, h.keysClear⟩

theorem isScoped (h : (Query.join k o s l r).Traced c cells) : (Query.join k o s l r).Scoped :=
  h.scopedJoins

theorem sides (h : (Query.join k o s l r).Traced c cells) : l.Traced c cells ∧ r.Traced c cells := by
  obtain ⟨-, hsl, hsr, -⟩ := h.isScoped
  obtain ⟨-, hrl, hrr⟩ := h.isRectangular
  obtain ⟨hgl, hgr⟩ := Bool.and_eq_true _ _ ▸ h.groupsNothing
  obtain ⟨hal, har, -⟩ := h.conditionsAnswer
  obtain ⟨hdl, hdr⟩ := h.joinsDrawn
  obtain ⟨hsubl, hsubr⟩ := innerConjuncts_sides k o s l r
  exact ⟨⟨hsl.scopedJoins, hrl, hgl, hal, hdl.joinsDrawn hsl,
      fun f hf => h.plainConjuncts f (hsubl f hf), fun f hf => h.keysClear f (hsubl f hf)⟩,
    ⟨hsr.scopedJoins, hrr, hgr, har, hdr.joinsDrawn hsr,
      fun f hf => h.plainConjuncts f (hsubr f hf), fun f hf => h.keysClear f (hsubr f hf)⟩⟩

theorem displays (h : q.Traced c cells) (hc : c.IsRectangular) (hs : q.Scoped)
    (hd : q.Drawn c cells) : Displays c cells q q.origins :=
  hs.named.displays (hd.draws hc hs h.isRectangular)

theorem displays_inputs (hc : c.IsRectangular) {t : Query} (h : t.Traced c cells) (hs : t.Scoped)
    (hd : t.Drawn c cells) :
    ∀ x ∈ t.joinInputs, x.ConditionsAnswer c ∧ Displays c cells x x.origins := by
  have hall := Query.of_mem_joinInputs
    (P := fun q => q.Traced c cells ∧ q.Scoped ∧ q.Drawn c cells)
    (fun e s l r ⟨h, hs, hd⟩ => ⟨⟨h.sides.1, hs.2.1, hd.1⟩, h.sides.2, hs.2.2.1, hd.2⟩)
    (t := t) ⟨h, hs, hd⟩
  intro x hx
  obtain ⟨h, hs, hd⟩ := hall x hx
  exact ⟨h.conditionsAnswer, h.displays hc hs hd⟩

end Traced

theorem Inputs.congr {leaf leaf' : Nat → Query} {os : Nat → List Origin} {all : List Nat}
    (h : Inputs c leaf os all) (heq : ∀ p ∈ all, leaf' p = leaf p) : Inputs c leaf' os all where
  isReadOnly p hp := heq p hp ▸ h.isReadOnly p hp
  widths p hp := heq p hp ▸ h.widths p hp
  named p hp := heq p hp ▸ h.named p hp
  apartJoins p hp := heq p hp ▸ h.apartJoins p hp
  apart p hp q hq hpq := by
    rw [heq p hp, heq q hq]
    exact h.apart p hp q hq hpq

theorem clearJoins_filterBy {es : List Expr} {q : Query} (h : q.ClearJoins c) :
    (filterBy es q).ClearJoins c := by
  unfold filterBy
  split
  · exact h
  · exact h

section

variable {κ : Type} [CostScalar κ] {m : CostModel κ} (hc : c.IsRectangular)
include hc

theorem Traced.reorders_inputs {t : Query} (h : t.Traced c cells) (hst : t.SteadyBelow m) :
    ∀ l ∈ t.joinInputs, Reorders c l (l.reorderJoins m) :=
  Query.reorders_inputs hc h.scopedJoins h.isRectangular h.groupsNothing hst

theorem Traced.reorders_written {t : Query} (h : t.Traced c cells) (hst : t.SteadyBelow m) :
    Reorders c t (t.written m) :=
  (Query.reorders_written h.scopedJoins h.isRectangular (h.reorders_inputs hc hst)).1

theorem clearJoins_written : ∀ {t : Query}, t.Traced c cells → t.SteadyBelow m →
    (∀ l ∈ t.joinInputs, (l.reorderJoins m).ClearJoins c) → (t.written m).ClearJoins c
  | join k e s l r, ht, hst, h => by
    cases k with
    | inner =>
      have h' := List.forall_mem_append.mp h
      obtain ⟨htl, htr⟩ := ht.sides
      obtain ⟨-, hsl, hsr, -⟩ := ht.isScoped
      obtain ⟨hdl, hdr⟩ := ht.joinsDrawn
      have hl := htl.reorders_written hc hst.1
      have hr := htr.reorders_written hc hst.2
      refine ⟨clearJoins_written htl hst.1 h'.1, clearJoins_written htr hst.2 h'.2, ?_⟩
      intro _ f hf
      -- the inputs look as before, and have the same rows
      have hleft := (htl.displays hc hsl hdl).congr hl.lookIn_eq
        fun row hrow => (hl.rows htl.conditionsAnswer).subset hrow
      have hright := (htr.displays hc hsr hdr).congr hr.lookIn_eq
        fun row hrow => (hr.rows htr.conditionsAnswer).subset hrow
      have hconjunct : ∀ g ∈ f.conjuncts, g ∈ (join .inner e s l r).innerConjuncts := by
        intro g hg
        exact List.mem_append_right _ (List.mem_flatMap.mpr ⟨f, Option.mem_toList.mpr hf, hg⟩)
      exact hleft.clearJoin hright
        (Expr.plainRefs_of_conjuncts fun g hg => ht.plainConjuncts g (hconjunct g hg))
        (Expr.clearOver_of_conjuncts fun g hg => ht.keysClear g (hconjunct g hg))
    | left => exact h (.join .left e s l r) (List.mem_singleton_self _)
    | right => exact h (.join .right e s l r) (List.mem_singleton_self _)
    | full => exact h (.join .full e s l r) (List.mem_singleton_self _)
  | scan t a s, _, _, h => h (.scan t a s) (List.mem_singleton_self _)
  | filter e q, _, _, h => h (.filter e q) (List.mem_singleton_self _)
  | project is s q, _, _, h => h (.project is s q) (List.mem_singleton_self _)
  | aggregate gs os s q, _, _, h => h (.aggregate gs os s q) (List.mem_singleton_self _)
  | insert .., ht, _, _ => ht.isRectangular.elim

section

variable {t : Query} (ht : t.Traced c cells) (hst : t.Steady m)
  (h : ∀ l ∈ t.joinInputs, (l.reorderJoins m).ClearJoins c)
include ht hst h

theorem clearJoins_grown (hlong : 2 < t.joinInputs.length)
    (hlead : ∀ l ∈ t.joinInputs, (l.reorderJoins m).qualifier = l.qualifier) {g : Growth κ}
    (hg : t.grown? m = some g) : g.tree.ClearJoins c := by
  obtain ⟨hs, hd⟩ : t.Scoped ∧ t.Drawn c cells := by
    cases t with
    | join => exact ⟨ht.scopedJoins, ht.joinsDrawn⟩
    | scan | filter | project | aggregate | insert => simp [joinInputs] at hlong
  have hre := ht.reorders_inputs hc hst.2
  have hin : Inputs c (t.reorderedAt m) (fun p => (t.inputAt p).origins) t.places := by
    have hwritten := inputs_written hs hre hlead
    rw [places_written] at hwritten
    exact hwritten.congr fun p hp => (inputAt_written hp).symm
  have hleaf : ∀ p ∈ t.places, (t.reorderedAt m p).ClearJoins c ∧
      Draws cells (t.inputAt p).origins ((t.reorderedAt m p).rows c) := by
    intro p hp
    have hmem := inputAt_mem hp
    obtain ⟨ha, hdisplays⟩ := ht.displays_inputs hc hs hd _ hmem
    refine ⟨h _ hmem, hdisplays.draws.of_subset fun row hrow => ?_⟩
    exact ((hre _ hmem).rows ha).subset hrow
  obtain ⟨⟨used, hconnected, hused⟩, hperm, -⟩ := conserves_grown hg
  have hkeys : ∀ f ∈ used, f.PlainRefs ∧ f.ClearOver cells := by
    intro f hf
    have hmem := mem_innerConjuncts f (hused.subset (List.mem_append_left _ hf))
    exact ⟨ht.plainConjuncts f hmem, ht.keysClear f hmem⟩
  obtain ⟨-, -, -, hclear⟩ := clear_connected hin hleaf hconnected (fun p hp => hperm.subset hp)
    (hperm.nodup_iff.mpr t.nodup_places) hkeys
  exact hclear

theorem clearJoins_finish : (t.reorderJoins m).ClearJoins c := by
  have hwritten := clearJoins_written hc ht hst.2 h
  obtain hw | ⟨-, hlead⟩ := hst.1
  · rw [hw]
    exact hwritten
  obtain hw | ⟨hlong, g, hg, hrestore⟩ := reorderJoins_cases m t
  · rw [hw]
    exact hwritten
  · have hgrown : (filterBy g.conjuncts g.tree).ClearJoins c :=
      clearJoins_filterBy (clearJoins_grown hc ht hst h hlong hlead hg)
    obtain ⟨hsame, -⟩ | ⟨items, hproject, -⟩ := restoreColumns_cases hrestore
    · rw [hsame]
      exact hgrown
    · rw [hproject]
      exact hgrown

end

theorem clearJoins_inputs : ∀ {t : Query}, t.Traced c cells → t.SteadyBelow m →
    ∀ l ∈ t.joinInputs, (l.reorderJoins m).ClearJoins c
  | scan .., _, _, x, hx => by
    rw [List.mem_singleton.mp hx]
    exact trivial
  | filter e q, ht, hst, x, hx => by
    rw [List.mem_singleton.mp hx]
    exact clearJoins_finish hc (t := q) ht.filter hst
      (clearJoins_inputs (t := q) ht.filter hst.2)
  | project is s q, ht, hst, x, hx => by
    rw [List.mem_singleton.mp hx]
    exact clearJoins_finish hc (t := q) ht.project hst
      (clearJoins_inputs (t := q) ht.project hst.2)
  | join k e s l r, ht, hst, x, hx => by
    obtain ⟨htl, htr⟩ := ht.sides
    cases k with
    | inner =>
      rcases List.mem_append.mp hx with hx | hx
      · exact clearJoins_inputs htl hst.1 x hx
      · exact clearJoins_inputs htr hst.2 x hx
    | left | right | full =>
      rw [List.mem_singleton.mp hx]
      exact ⟨clearJoins_finish hc htl hst.1 (clearJoins_inputs htl hst.1.2),
        clearJoins_finish hc htr hst.2 (clearJoins_inputs htr hst.2.2), nofun⟩
  | aggregate .., ht, _, _, _ => by cases ht.groupsNothing
  | insert .., ht, _, _, _ => ht.isRectangular.elim

theorem clearJoins_reorderJoins {q : Query} (hq : q.Traced c cells) (hst : q.Steady m) :
    (q.reorderJoins m).ClearJoins c :=
  clearJoins_finish hc hq hst (clearJoins_inputs hc hq hst.2)

end

end Query

end RelQuery
