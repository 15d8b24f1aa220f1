import RelQuery.Proofs.Plan.Baseline
import RelQuery.Proofs.Query.Narrow
import RelQuery.Proofs.Run.Grouping

/-!
# Pruning keeps the answer

Above the joins, projections drop unread items. Names are of any kind there, and a reference that
finds its column still finds it among fewer ones, though one that found none may now find some. So
a query that answers is answered alike when it is pruned.
-/

namespace RelQuery

/-! ## Settled queries -/

namespace Expr

/-- A conjunct decides that the expression does not hold, or all have values. -/
def SettledIn (look : Look) (e : Expr) : Prop :=
  (∃ f ∈ e.conjuncts, ∃ v, f.evalWith look = .ok v ∧ v.isTrue = false) ∨
    ∀ f ∈ e.conjuncts, (f.evalWith look).isOk

theorem isOk_conjuncts {look : Look} {e : Expr} (h : (e.evalWith look).isOk) :
    ∀ f ∈ e.conjuncts, (f.evalWith look).isOk := by
  fun_induction conjuncts e with
  | case1 l r ihl ihr =>
    obtain ⟨v, hv⟩ := isOk_iff_exists.mp h
    rw [evalWith] at hv
    have hl : (l.evalWith look).isOk := by
      cases hl : l.evalWith look with
      | ok _ => rfl
      | error _ =>
        rw [hl] at hv
        cases hv
    have hr : (r.evalWith look).isOk := by
      obtain ⟨a, ha⟩ := isOk_iff_exists.mp hl
      cases hr : r.evalWith look with
      | ok _ => rfl
      | error _ =>
        rw [ha, hr] at hv
        cases hv
    exact List.forall_mem_append.mpr ⟨ihl hl, ihr hr⟩
  | case2 e _ =>
    intro f hf
    rwa [List.mem_singleton.mp hf]

theorem SettledIn.of_isOk {look : Look} {e : Expr} (h : (e.evalWith look).isOk) :
    e.SettledIn look := .inr (isOk_conjuncts h)

/-- What is settled stays so when more references have values. -/
theorem SettledIn.holdsIn_eq {look look' : Look} {e : Expr} (h : e.SettledIn look)
    (hmono : ∀ x n, (x, n) ∈ e.mentions → ∀ v, look x n = .ok v → look' x n = .ok v) :
    e.holdsIn look' = e.holdsIn look := by
  have hconj : ∀ f ∈ e.conjuncts, ∀ v, f.evalWith look = .ok v → f.evalWith look' = .ok v :=
    fun f hf v => evalWith_mono fun x n hm => hmono x n (mentions_conjuncts hf _ hm)
  rw [← holdsIn_conjuncts, ← holdsIn_conjuncts]
  rcases h with ⟨f, hf, v, hv, hfalse⟩ | h
  · have hno : ∀ look : Look, f.evalWith look = .ok v →
        e.conjuncts.all (·.holdsIn look) = false := by
      intro look hv
      rw [List.all_eq_false]
      exact ⟨f, hf, by simp [holdsIn, hv, hfalse]⟩
    rw [hno look hv, hno look' (hconj f hf v hv)]
  · refine all_congr_of_mem fun f hf => ?_
    obtain ⟨v, hv⟩ := isOk_iff_exists.mp (h f hf)
    unfold holdsIn
    rw [hv, hconj f hf v hv]

end Expr

namespace Query

variable {c : Catalog}

/-- Above the joins all items and aggregations have values, and all filters are settled. -/
def Settled (c : Catalog) : Query → Prop
  | scan .. | join .. => True
  | insert .. => False
  | filter e q =>
    q.isFilteredTree = true ∨ q.Settled c ∧ ∀ row ∈ q.rows c, e.SettledIn (q.lookIn row)
  | project is _ q =>
    q.Settled c ∧ ∀ row ∈ q.rows c, ∀ i ∈ is, (i.expr.evalWith (q.lookIn row)).isOk
  | aggregate gs os _ q => q.Settled c ∧ ((q.groupingOf gs os).answer (q.rows c)).isOk

theorem Succeeds.settled : ∀ {q : Query}, q.Succeeds c → q.Settled c
  | scan .., _ | join .., _ => trivial
  | filter _ q, h =>
    .inr ⟨Succeeds.settled (q := q) h.1, fun row hrow => .of_isOk (h.2 row hrow)⟩
  | project _ _ q, h | aggregate _ _ _ q, h => ⟨Succeeds.settled (q := q) h.1, h.2⟩

end Query

/-! ## Output names -/

theorem meansItem_ofColumnName {name : String} (h : Text.IsAscii name) :
    (ColumnRef.ofColumnName name).meansItem name = true := by
  unfold ColumnRef.ofColumnName
  cases hs : Text.splitDot name with
  | none => simp [ColumnRef.meansItem, ColumnRef.of]
  | some p =>
    obtain ⟨q, rest⟩ := p
    obtain ⟨-, rfl⟩ := Text.of_splitDot hs
    have hascii := h.of_dotted
    by_cases hq : q.isEmpty = true
    · simp [hq, ColumnRef.meansItem, ColumnRef.of]
    · simp [hq, ColumnRef.meansItem, ColumnRef.of, ColumnRef.fullName, qualifiedName,
        Text.lower_dotted hascii.1 hascii.2.sigma_notMem]

theorem means_ofColumnName {lead : String} {o : Origin} {name : String} (h : o.Spells lead name) :
    (ColumnRef.ofColumnName name).means o = true := by
  unfold Origin.Spells at h
  unfold ColumnRef.ofColumnName
  split at h
  · rw [Text.splitDot_dotFree h.1.dotFree]
    simp [ColumnRef.means, ColumnRef.of, h.2]
  · obtain ⟨q, n, hq, hne, hn, hqo, hno, rfl⟩ := h
    rw [Text.splitDot_dotted hq.dotFree]
    simp [ColumnRef.means, ColumnRef.of, hqo, hno, hne]

/-! ## Pruned queries -/

namespace Query

variable {required : List ColumnRef} {mask : List Bool} {q q' : Query}

/-- The second query answers with the first one's rows, sifted by a mask; a required reference that
finds its column in a row finds it in the sifted row. -/
structure Prunes (c : Catalog) (required : List ColumnRef) (mask : List Bool) (q q' : Query) :
    Prop where
  qualifiers : q'.qualifiers = q.qualifiers
  length_mask : mask.length = q.schema.width
  schema : q'.schema = ⟨sift mask q.schema.columns⟩
  rows : q.Settled c → q'.rows c = (q.rows c).map (sift mask)
  succeeds : q.Succeeds c → q'.Succeeds c
  finds : ∀ x n, Text.Plain n → ColumnRef.of x n ∈ required → ∀ row v,
    q.lookIn row x n = .ok v → q'.lookIn (sift mask row) x n = .ok v
  keeps : List.Forall₂ (fun k b => ColumnRef.ofColumnName k.name ∈ required → b = true)
    q.schema.columns mask

theorem Narrows.prunes (hq : q.Scoped) (h : Narrows c required mask q q') :
    Prunes c required mask q q' where
  qualifiers := h.qualifiers
  length_mask := h.length_mask hq
  schema := h.schema
  rows _ := h.rows
  succeeds := h.succeeds
  finds x n hn hr row v hv := (h.lookIn_eq hq hn hr row).trans hv
  keeps := by
    have hboth := hq.from.names
    rw [List.forall₂_iff_get] at hboth ⊢
    have hcov := List.forall₂_iff_get.mp h.covers
    refine ⟨by rw [← hboth.1, hcov.1], fun i hi hi' hr => ?_⟩
    exact hcov.2 i (hboth.1 ▸ hi) hi' ⟨_, hr, means_ofColumnName (hboth.2 i (hboth.1 ▸ hi) hi)⟩

namespace Prunes

theorem evalWith_ok (h : Prunes c required mask q q') {e : Expr} (he : e.PlainRefs)
    (hr : ∀ r ∈ e.columnRefs, r ∈ required) {row : Row} {v : Value}
    (hv : e.evalWith (q.lookIn row) = .ok v) : e.evalWith (q'.lookIn (sift mask row)) = .ok v :=
  Expr.evalWith_mono
    (fun x n hm => h.finds x n (he _ hm) (hr _ (Expr.of_mem_columnRefs hm)) row) hv

theorem isOk_evalWith (h : Prunes c required mask q q') {e : Expr} (he : e.PlainRefs)
    (hr : ∀ r ∈ e.columnRefs, r ∈ required) {row : Row}
    (hok : (e.evalWith (q.lookIn row)).isOk) : (e.evalWith (q'.lookIn (sift mask row))).isOk := by
  obtain ⟨v, hv⟩ := isOk_iff_exists.mp hok
  exact isOk_iff_exists.mpr ⟨v, h.evalWith_ok he hr hv⟩

theorem follows (h : Prunes c required mask q q') {e : Expr} (he : e.PlainRefs)
    (hr : ∀ r ∈ e.columnRefs, r ∈ required) :
    e.Follows q.schema q'.schema q.qualifiers q'.qualifiers (sift mask) :=
  fun m hm row v => h.finds m.1 m.2 (he m hm) (hr _ (Expr.of_mem_columnRefs hm)) row v

theorem sift_nulls (h : Prunes c required mask q q') :
    sift mask (Row.nulls q.schema.width) = Row.nulls q'.schema.width := by
  unfold Row.nulls
  rw [← h.length_mask, sift_replicate, h.schema]
  congr 1
  exact (length_sift mask h.length_mask.symm).symm

theorem filter {e : Expr} (hfree : (Query.filter e q).isFilteredTree = false) (he : e.PlainRefs)
    (h : Prunes c (required ++ e.columnRefs) mask q q') :
    Prunes c required mask (.filter e q) (.filter e q') where
  qualifiers := h.qualifiers
  length_mask := h.length_mask
  schema := h.schema
  rows hset := by
    rcases hset with htree | ⟨hset, hsettled⟩
    · rw [isFilteredTree] at hfree
      rw [hfree] at htree
      cases htree
    · simp only [Query.rows]
      rw [h.rows hset, List.filter_map]
      congr 1
      refine List.filter_congr fun row hrow => ?_
      refine (hsettled row hrow).holdsIn_eq fun x n hm v hv => ?_
      exact h.finds x n (he _ hm) (List.mem_append_right _ (Expr.of_mem_columnRefs hm)) row v hv
  succeeds hok := by
    refine ⟨h.succeeds hok.1, ?_⟩
    rw [h.rows hok.1.settled]
    intro row' hrow'
    obtain ⟨row, hrow, rfl⟩ := List.mem_map.mp hrow'
    exact h.isOk_evalWith he (fun r hr => List.mem_append_right _ hr) (hok.2 row hrow)
  finds x n hn hr := h.finds x n hn (List.mem_append_left _ hr)
  keeps := h.keeps.imp fun _ _ hb hr => hb (List.mem_append_left _ hr)

end Prunes

/-! ## Output items -/

/-- The scans' names, lower-cased, are what `look_sift_ok` asks for. -/
theorem plain_qualifiers : ∀ {q : Query}, q.IsOver c → (∀ x ∈ q.scans, ScanName x.1) →
    ∀ y ∈ q.qualifiers, Text.Plain y ∧ Text.lower y = y ∧ y ≠ ""
  | scan t a s, _, h, y, hy => by
    have hn := h _ (List.mem_singleton_self _)
    rw [List.mem_singleton.mp hy]
    refine ⟨hn.plain.lower, hn.plain.lower_lower, fun e => hn.nonempty ?_⟩
    rw [hn.plain.ascii.lower_eq] at e
    exact Text.asciiFold_eq_empty.mp e
  | filter _ q, ho, h, y, hy => plain_qualifiers (q := q) ho h y hy
  | project _ _ q, ho, h, y, hy | aggregate _ _ _ q, ho, h, y, hy =>
    plain_qualifiers (q := q) ho.2 h y hy
  | join _ _ _ l r, ho, h, y, hy => by
    have h' := List.forall_mem_append.mp h
    rcases List.mem_append.mp hy with hy | hy
    · exact plain_qualifiers ho.2.1 h'.1 y hy
    · exact plain_qualifiers ho.2.2 h'.2 y hy

theorem finds_items {s : Schema} {quals quals' : List String} (hsame : quals' = quals)
    (hquals : ∀ y ∈ quals, Text.Plain y ∧ Text.lower y = y ∧ y ≠ "")
    (hascii : ∀ k ∈ s.columns, Text.IsAscii k.name)
    (hmask : List.Forall₂ (fun k b => (∃ r ∈ required, r.meansItem k.name = true) → b = true)
      s.columns mask) (x : Option String) (n : String) (hn : Text.Plain n)
    (hr : ColumnRef.of x n ∈ required) (row : Row) (v : Value)
    (hv : Source.look [⟨row, s, some quals⟩] x n = .ok v) :
    Source.look [⟨sift mask row, ⟨sift mask s.columns⟩, some quals'⟩] x n = .ok v :=
  hsame ▸ look_sift_ok hascii hquals hn (hmask.imp fun _ _ hb hm => hb ⟨_, hr, hm⟩) row hv

theorem keeps_items {s : Schema} (hascii : ∀ k ∈ s.columns, Text.IsAscii k.name)
    (hmask : List.Forall₂ (fun k b => (∃ r ∈ required, r.meansItem k.name = true) → b = true)
      s.columns mask) :
    List.Forall₂ (fun k b => ColumnRef.ofColumnName k.name ∈ required → b = true) s.columns
      mask := by
  have h := (List.forall₂_and_left s.columns mask).mpr ⟨fun k hk => hk, hmask⟩
  exact h.imp fun k b ⟨hk, hb⟩ hr => hb ⟨_, hr, meansItem_ofColumnName (hascii k hk)⟩

section

variable {s : Schema} (hquals : ∀ y ∈ q.qualifiers, Text.Plain y ∧ Text.lower y = y ∧ y ≠ "")
include hquals

theorem Prunes.project {items : List Item} {root : Bool}
    (h : Prunes c (itemRefs (items.filter (keptItems required root items))) mask q q')
    (hs : itemSchema q.schema items = .ok s) (hp : ∀ i ∈ items, i.expr.PlainRefs)
    (hascii : ∀ i ∈ items, Text.IsAscii i.name) :
    Prunes c required (items.map (keptItems required root items)) (.project items s q)
      (.project (items.filter (keptItems required root items))
        ⟨sift (items.map (keptItems required root items)) s.columns⟩ q') := by
  have hnames := forall₂_itemSchema hs
  have hascii' : ∀ k ∈ s.columns, Text.IsAscii k.name := by
    intro k hk
    obtain ⟨i, hi, hname, -⟩ := exists_left_of_forall₂ hnames k hk
    exact hname ▸ hascii i hi
  have hmask : List.Forall₂ (fun k b => (∃ r ∈ required, r.meansItem k.name = true) → b = true)
      s.columns (items.map (keptItems required root items)) := by
    rw [List.forall₂_map_right_iff]
    refine hnames.flip.imp fun k i ⟨hname, _⟩ ⟨r, hr, hm⟩ => ?_
    unfold keptItems
    split
    · rfl
    · exact List.any_eq_true.mpr ⟨r, hr, hname ▸ hm⟩
  have hrefs : ∀ i ∈ items.filter (keptItems required root items), i.expr.PlainRefs ∧
      ∀ r ∈ i.expr.columnRefs, r ∈ itemRefs (items.filter (keptItems required root items)) :=
    fun i hi => ⟨hp i (List.mem_filter.mp hi).1, fun r hr => mem_itemRefs hi hr⟩
  refine ⟨h.qualifiers, ?_, rfl, fun hset => ?_, fun hok => ⟨h.succeeds hok.1, ?_⟩,
    finds_items h.qualifiers hquals hascii' hmask, keeps_items hascii' hmask⟩
  · rw [List.length_map]
    exact (width_itemSchema hs).symm
  · simp only [Query.rows]
    rw [h.rows hset.1, List.map_map, List.map_map]
    refine List.map_congr_left fun row hrow => ?_
    simp only [Function.comp]
    rw [sift_map, sift_marks]
    refine List.map_congr_left fun i hi => ?_
    obtain ⟨v, hv⟩ := isOk_iff_exists.mp (hset.2 row hrow i (List.mem_filter.mp hi).1)
    unfold Item.valueIn
    rw [hv, h.evalWith_ok (hrefs i hi).1 (hrefs i hi).2 hv]
  · rw [h.rows hok.1.settled]
    intro row' hrow' i hi
    obtain ⟨row, hrow, rfl⟩ := List.mem_map.mp hrow'
    exact h.isOk_evalWith (hrefs i hi).1 (hrefs i hi).2
      (hok.2 row hrow i (List.mem_filter.mp hi).1)

theorem Prunes.aggregate {gs : List Expr} {os : List Item} {read : List ColumnRef}
    (h : Prunes c read mask q q') (hs : itemSchema q.schema os = .ok s)
    (hgs : ∀ e ∈ gs, e.PlainRefs ∧ ∀ r ∈ e.columnRefs, r ∈ read)
    (hos : ∀ i ∈ os, i.expr.PlainRefs ∧ ∀ r ∈ i.expr.columnRefs, r ∈ read)
    (hascii : ∀ i ∈ os, Text.IsAscii i.name) (required : List ColumnRef) :
    Prunes c required (s.columns.map fun _ => true) (.aggregate gs os s q)
      (.aggregate gs os s q') := by
  have hnames := forall₂_itemSchema hs
  have hascii' : ∀ k ∈ s.columns, Text.IsAscii k.name := by
    intro k hk
    obtain ⟨i, hi, hname, -⟩ := exists_left_of_forall₂ hnames k hk
    exact hname ▸ hascii i hi
  have hmask : List.Forall₂ (fun k b => (∃ r ∈ required, r.meansItem k.name = true) → b = true)
      s.columns (s.columns.map fun _ => true) := by
    rw [List.forall₂_map_right_iff]
    exact List.forall₂_same.mpr fun _ _ _ => rfl
  have hall : ∀ {α : Type} {xs : List α}, xs.length = s.columns.length →
      sift (s.columns.map fun _ => true) xs = xs := by
    intro α xs hxs
    exact sift_all (by simp) (by simp [hxs])
  have hschema : (⟨sift (s.columns.map fun _ => true) s.columns⟩ : Schema) = s :=
    congrArg Schema.mk (hall rfl)
  have hfinds := finds_items h.qualifiers hquals hascii' hmask
  rw [hschema] at hfinds
  have hanswer : ∀ {out : List Row}, (q.groupingOf gs os).answer (q.rows c) = .ok out →
      (q'.groupingOf gs os).answer ((q.rows c).map (sift mask)) = .ok out := by
    intro out hout
    exact Grouping.answer_of_follows (fun i hi => h.follows (hos i hi).1 (hos i hi).2)
      (fun e he => h.follows (hgs e he).1 (hgs e he).2) h.sift_nulls hout
  refine ⟨h.qualifiers, List.length_map _, hschema.symm, fun hset => ?_,
    fun hok => ⟨h.succeeds hok.1, ?_⟩, ?_, keeps_items hascii' hmask⟩
  · obtain ⟨out, hout⟩ := isOk_iff_exists.mp hset.2
    have hrows : (q.groupingOf gs os).rowsOf (q.rows c) = out := by
      rw [Grouping.rowsOf, hout]
    have hrows' : (q'.groupingOf gs os).rowsOf (q'.rows c) = out := by
      rw [Grouping.rowsOf, h.rows hset.1, hanswer hout]
    simp only [Query.rows]
    rw [hrows', hrows]
    conv_lhs => rw [← List.map_id out]
    refine List.map_congr_left fun row hrow => ?_
    have hwidth := Grouping.length_rowsOf row (hrows.symm ▸ hrow)
    exact (hall (hwidth.trans (width_itemSchema hs).symm)).symm
  · obtain ⟨out, hout⟩ := isOk_iff_exists.mp hok.2
    rw [h.rows hok.1.settled, hanswer hout]
    rfl
  · exact hfinds

end

theorem isReadOnly_prune : ∀ (q : Query) (required : List ColumnRef) (root : Bool),
    (q.prune required root).isReadOnly = q.isReadOnly
  | scan t a s, required, _ => by
    obtain heq | ⟨s', heq⟩ := narrow_cases required t a s
    · rw [prune, heq]
    · rw [prune, heq]
      rfl
  | insert .., _, _ => rfl
  | filter _ q, _, _ => isReadOnly_prune q _ _
  | aggregate _ _ _ q, _, _ => isReadOnly_prune q _ _
  | project items s q, required, root => by
    unfold prune
    simp only
    split
    · exact isReadOnly_prune q _ _
    · exact isReadOnly_prune q _ _
  | join _ _ _ l r, required, _ => by
    simp only [prune, joinOf, isReadOnly]
    rw [isReadOnly_prune l, isReadOnly_prune r]

theorem prunes_project {items : List Item} {s : Schema} {root : Bool}
    (ho : (project items s q).IsOver c) (hn : (project items s q).Neat)
    (ih : ∀ read, ∃ mask, Prunes c read mask q (q.prune read false)) :
    Prunes c required (items.map (keptItems required root items)) (project items s q)
      ((project items s q).prune required root) := by
  obtain ⟨mask, h⟩ := ih (itemRefs (items.filter (keptItems required root items)))
  rw [prune_project items q (width_itemSchema ho.1).symm]
  exact h.project (plain_qualifiers ho.2 hn.2.scanNames) ho.1 (fun i hi => (hn.1 i hi).1)
    fun i hi => (hn.1 i hi).2

/-- Every query is pruned so: the joins by what their conditions and the operators above read, a
projection by what is read of its items. -/
theorem prunes_prune (hc : c.IsRectangular) : ∀ {q : Query} (required : List ColumnRef)
    (root : Bool), q.IsOver c → q.Neat → ∃ mask, Prunes c required mask q (q.prune required root)
  | scan t a s, required, root, ho, hn => by
    have ht : (scan t a s).NeatTree := hn
    obtain ⟨mask, h⟩ := narrows_prune hc required root ht ho
    exact ⟨mask, h.prunes (ht.scoped ho.coherent)⟩
  | join k e s l r, required, root, ho, hn => by
    have ht : (join k e s l r).NeatTree := hn
    obtain ⟨mask, h⟩ := narrows_prune hc required root ht ho
    exact ⟨mask, h.prunes (ht.scoped ho.coherent)⟩
  | filter e q, required, root, ho, hn => by
    by_cases ht : (filter e q).isFilteredTree = true
    · have ht := hn.neatTree ht
      obtain ⟨mask, h⟩ := narrows_prune hc required root ht ho
      exact ⟨mask, h.prunes (ht.scoped ho.coherent)⟩
    · obtain ⟨mask, h⟩ := prunes_prune hc (q := q) (required ++ e.columnRefs) false ho hn.2
      exact ⟨mask, h.filter (by simpa using ht) hn.1⟩
  | project items s q, required, root, ho, hn =>
    ⟨_, prunes_project ho hn fun read => prunes_prune hc (q := q) read false ho.2 hn.2⟩
  | aggregate gs os s q, required, root, ho, ⟨hgs, hos, hn⟩ => by
    obtain ⟨mask, h⟩ := prunes_prune hc (q := q)
      (required ++ gs.flatMap (·.columnRefs) ++ itemRefs os) false ho.2 hn
    have hgroups : ∀ e ∈ gs, ∀ r ∈ e.columnRefs,
        r ∈ required ++ gs.flatMap (·.columnRefs) ++ itemRefs os := fun e he r hr =>
      List.mem_append_left _ (List.mem_append_right _ (List.mem_flatMap.mpr ⟨e, he, hr⟩))
    have houtputs : ∀ i ∈ os, ∀ r ∈ i.expr.columnRefs,
        r ∈ required ++ gs.flatMap (·.columnRefs) ++ itemRefs os := fun i hi r hr =>
      List.mem_append_right _ (mem_itemRefs hi hr)
    exact ⟨_, h.aggregate (plain_qualifiers ho.2 hn.scanNames) ho.1
      (fun e he => ⟨hgs e he, hgroups e he⟩) (fun i hi => ⟨(hos i hi).1, houtputs i hi⟩)
      (fun i hi => (hos i hi).2) required⟩
  | insert .., _, _, ho, _ => ho.elim

/-! ## The whole query -/

theorem forall_mask_rootRefs (h : Prunes c q.rootRefs mask q q')
    (hroot : q.rootRefs = q.schema.columns.map fun k => ColumnRef.ofColumnName k.name) :
    ∀ b ∈ mask, b = true := by
  intro b hb
  have hkeeps := (List.forall₂_and_left _ _).mpr ⟨fun k hk => hk, h.keeps⟩
  obtain ⟨k, -, hk, hkeep⟩ := exists_left_of_forall₂ hkeeps b hb
  refine hkeep ?_
  rw [hroot]
  exact List.mem_map_of_mem hk

theorem prunes_pruneColumns (hc : c.IsRectangular) (ho : q.IsOver c) (hn : q.Neat) :
    ∃ mask, Prunes c q.rootRefs mask q q.pruneColumns ∧ ∀ b ∈ mask, b = true := by
  by_cases hroot : q.rootRefs = q.schema.columns.map fun k => ColumnRef.ofColumnName k.name
  · obtain ⟨mask, h⟩ := prunes_prune hc q.rootRefs true ho hn
    exact ⟨mask, h, forall_mask_rootRefs h hroot⟩
  · cases q with
    | project items s q =>
      refine ⟨_, prunes_project ho hn fun read => prunes_prune hc read false ho.2 hn.2, ?_⟩
      -- the root keeps all its items
      intro b hb
      obtain ⟨i, -, rfl⟩ := List.mem_map.mp hb
      rfl
    | scan | insert | filter | aggregate | join => exact absurd rfl hroot

theorem schema_pruneColumns (hc : c.IsRectangular) (ho : q.IsOver c) (hn : q.Neat) :
    q.pruneColumns.schema = q.schema := by
  obtain ⟨mask, h, hall⟩ := prunes_pruneColumns hc ho hn
  rw [h.schema, sift_all hall (by rw [h.length_mask]; exact Nat.le_refl _)]

theorem rows_pruneColumns (hc : c.IsRectangular) (ho : q.IsOver c) (hn : q.Neat)
    (hset : q.Settled c) : q.pruneColumns.rows c = q.rows c := by
  obtain ⟨mask, h, hall⟩ := prunes_pruneColumns hc ho hn
  rw [h.rows hset]
  conv_rhs => rw [← List.map_id (q.rows c)]
  refine List.map_congr_left fun row hrow => ?_
  refine sift_all hall ?_
  rw [h.length_mask, ho.length_rows hc row hrow]

/-- Where a query answers, the pruned one gives the same answer. -/
theorem pruneColumns_answers {κ : Type} [CostScalar κ] (m : CostModel κ) {c : Catalog}
    (hc : c.Reachable) {q : Query} (hq : q.WellScoped c)
    (hn : ∀ n ∈ q.itemNames, Text.IsAscii n) {rs : List Row} (h : q.runBaseline m c = .ok rs) :
    q.pruneColumns.runBaseline m c = .ok rs ∧ q.pruneColumns.schema = q.schema := by
  obtain ⟨hok, rfl⟩ := (runBaseline_eq_ok hq.isOver.isReadOnly).mp h
  have hread : q.pruneColumns.isReadOnly = true :=
    (isReadOnly_prune q _ _).trans hq.isOver.isReadOnly
  have hneat := hq.neat hn
  obtain ⟨mask, hprunes, -⟩ := prunes_pruneColumns hc.isRectangular hq.isOver hneat
  refine ⟨(runBaseline_eq_ok hread).mpr ⟨hprunes.succeeds hok, ?_⟩,
    schema_pruneColumns hc.isRectangular hq.isOver hneat⟩
  exact (rows_pruneColumns hc.isRectangular hq.isOver hneat hok.settled).symm

/-! ## A join of which one column is read -/

def priced : Catalog :=
  ((Catalog.empty.createWithRows "item" ⟨[⟨"id", .int⟩, ⟨"name", .varchar 8⟩]⟩
    [[.int 1, .string "pen"], [.int 2, .string "ink"]]).2.createWithRows "price"
      ⟨[⟨"item", .int⟩, ⟨"cents", .int⟩, ⟨"year", .int⟩]⟩
      [[.int 2, .int 900, .int 7], [.int 1, .int 250, .int 8]]).2

theorem reachable_priced : priced.Reachable :=
  Catalog.reachable_createFilled (Catalog.reachable_createFilled .empty _ _ _ _) _ _ _ _

def pricedNames : Query :=
  project [⟨.column none "name", "name"⟩] ⟨[⟨"name", .varchar 8⟩]⟩
    (filter (.binary (.compare .lt) (.literal (.int 300)) (.column (some "price") "cents"))
      (joinOf .inner
        (some (.binary (.compare .eq) (.column (some "item") "id") (.column (some "price") "item")))
        (scan "item" none ⟨[⟨"id", .int⟩, ⟨"name", .varchar 8⟩]⟩)
        (scan "price" none ⟨[⟨"item", .int⟩, ⟨"cents", .int⟩, ⟨"year", .int⟩]⟩)))

/-- The year of a price is not read, and the scan of the prices is narrowed. -/
theorem pruneColumns_answers_on_pricedNames :
    priced.Reachable ∧ pricedNames.WellScoped priced ∧
      (∀ n ∈ pricedNames.itemNames, Text.IsAscii n) ∧ pricedNames.pruneColumns ≠ pricedNames ∧
      pricedNames.runBaseline .uninformed priced = .ok [[.string "ink"]] ∧
      pricedNames.pruneColumns.runBaseline .uninformed priced = .ok [[.string "ink"]] ∧
      pricedNames.pruneColumns.schema = pricedNames.schema := by
  have hq : pricedNames.WellScoped priced := by decide +kernel
  have hn : ∀ n ∈ pricedNames.itemNames, Text.IsAscii n := by decide +kernel
  have hrun : pricedNames.runBaseline .uninformed priced = .ok [[.string "ink"]] :=
    (runBaseline_eq_ok hq.isOver.isReadOnly).mpr (by decide +kernel)
  exact ⟨reachable_priced, hq, hn, by decide +kernel, hrun,
    pruneColumns_answers .uninformed reachable_priced hq hn hrun⟩

end Query

end RelQuery
