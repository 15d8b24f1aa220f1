import RelQuery.Proofs.Expr.SiftLook
import RelQuery.Proofs.Query.Neat

/-!
# Narrowing scans under joins

Pruning a tree of scans, filters and joins drops columns of its scans. What is left of every row is
the row sifted by one mask, and the mask keeps all columns that a required reference may mean. So
whatever is asked of the pruned tree has the same answer as before.
-/

namespace RelQuery

/-! ## Masks of kept columns -/

/-- Marks the first column if none is marked. -/
def orFirst : List Bool → List Bool
  | [] => []
  | b :: mask => (b || !mask.any id) :: mask

theorem orFirst_of_any {mask : List Bool} (h : mask.any id = true) : orFirst mask = mask := by
  cases mask with
  | nil => rfl
  | cons b mask =>
    cases b with
    | true => rfl
    | false => simp_all [orFirst]

theorem any_orFirst {mask : List Bool} (h : mask ≠ []) : (orFirst mask).any id = true := by
  cases mask with
  | nil => exact absurd rfl h
  | cons b mask => by_cases hm : true ∈ mask <;> simp [orFirst, hm]

theorem le_orFirst (mask : List Bool) :
    List.Forall₂ (fun b b' => b = true → b' = true) mask (orFirst mask) := by
  cases mask with
  | nil => exact .nil
  | cons b mask => exact .cons (fun h => by simp [h]) (List.forall₂_same.mpr fun _ _ h => h)

namespace Query

variable {α : Type}

theorem length_positions (keep : α → Bool) (xs : List α) :
    (positions keep xs).length = (xs.filter keep).length := by
  have h : xs.filter keep = (xs.zipIdx.filter fun x => keep x.1).map (·.1) := by
    conv_lhs => rw [← List.zipIdx_map_fst 0 xs]
    rw [List.filter_map]
    rfl
  rw [h, List.length_map]
  exact List.length_map _

theorem select_positions {s : Schema} (keep : α → Bool) {xs : List α}
    (h : xs.length = s.columns.length) :
    s.select (positions keep xs) = ⟨sift (xs.map keep) s.columns⟩ := by
  have := filterMap_positions keep [] h
  rw [Schema.select]
  exact congrArg Schema.mk this

end Query

namespace Schema

theorem Tidy.sift {s : Schema} (h : s.Tidy) {mask : List Bool}
    (hne : RelQuery.sift mask s.columns ≠ []) : (⟨RelQuery.sift mask s.columns⟩ : Schema).Tidy where
  nonempty := hne
  plain c hc := h.plain c (mem_of_mem_sift hc)
  distinct := h.distinct.sublist ((sift_sublist mask s.columns).map _)

end Schema

/-! ## What a reference means is bound -/

namespace Query

theorem Scoped.binds_of_means {q : Query} (h : q.Scoped) {r : ColumnRef} {o : Origin}
    (ho : o ∈ q.origins) (hm : r.means o = true) : q.binds r = true := by
  obtain ⟨hplain, hlow⟩ := h.named.plain_column ho
  obtain ⟨x, n⟩ := r
  simp only [ColumnRef.means, Bool.and_eq_true, beq_iff_eq] at hm
  obtain ⟨rfl, hx⟩ := hm
  cases x with
  | none =>
    rw [h.binds_unqualified hplain, hlow]
    exact List.any_eq_true.mpr ⟨o, ho, beq_self_eq_true _⟩
  | some x =>
    simp only [Option.all_some, beq_iff_eq] at hx
    subst hx
    have hmem : o.scan ∈ q.qualifiers := (h.from.mem_quals _).mpr ⟨o, ho, rfl⟩
    have hres := Schema.resolve_qualified h.from.toSpells (h.from.plain _ hmem)
      (h.from.lower_eq _ hmem) (n := o.column) (by rw [hlow]; exact hplain) ⟨o, ho, rfl⟩
    have hfound : (q.origins.findIdx? (· == ⟨o.scan, Text.lower o.column⟩)).isSome := by
      rw [List.findIdx?_isSome, hlow]
      exact List.any_eq_true.mpr ⟨o, ho, beq_self_eq_true _⟩
    simp [binds, ColumnRef.boundBy, Schema.provides, hmem, hres, hfound]

end Query

/-! ## Joins of mapped rows -/

namespace JoinKind

variable {k : JoinKind} {wl wr wl' wr' : Nat} {meets meets' : Row → Row → Bool} {ls rs : List Row}
  {f g h : Row → Row}

theorem map_joinRows (hmeets : ∀ a ∈ ls, ∀ b ∈ rs, meets' (f a) (g b) = meets a b)
    (hrow : ∀ a, a ∈ ls ∨ a = Row.nulls wl → ∀ b, h (a ++ b) = f a ++ g b)
    (hl : f (Row.nulls wl) = Row.nulls wl') (hr : g (Row.nulls wr) = Row.nulls wr') :
    k.joinRows wl' wr' meets' (ls.map f) (rs.map g) = (k.joinRows wl wr meets ls rs).map h := by
  have hpartners : ∀ a ∈ ls, (rs.map g).filter (meets' (f a)) = (rs.filter (meets a)).map g := by
    intro a ha
    rw [List.filter_map]
    exact congrArg _ (List.filter_congr fun b hb => hmeets a ha b hb)
  have hrows : ∀ a ∈ ls, k.rowsOf wr' meets' (rs.map g) (f a) = (k.rowsOf wr meets rs a).map h := by
    intro a ha
    have hany : (rs.map g).any (meets' (f a)) = rs.any (meets a) := by
      rw [List.any_map]
      exact any_congr_of_mem fun b hb => hmeets a ha b hb
    unfold rowsOf
    rw [hpartners a ha, hany, List.map_append, List.map_map, List.map_map]
    congr 1
    · refine List.map_congr_left fun b _ => ?_
      simp [hrow a (.inl ha) b]
    · split
      · simp [hrow a (.inl ha), hr]
      · rfl
  unfold joinRows leftovers
  rw [List.map_append, List.flatMap_map, List.map_flatMap]
  congr 1
  · exact List.flatMap_congr hrows
  · split
    · rw [List.filter_map, List.map_map, List.map_map]
      have hfree : ∀ b ∈ rs, ((fun r => !(ls.map f).any (meets' · r)) ∘ g) b =
          !ls.any (meets · b) := by
        intro b hb
        simp only [Function.comp, List.any_map]
        exact congrArg _ (any_congr_of_mem fun a ha => hmeets a ha b hb)
      rw [List.filter_congr hfree]
      refine List.map_congr_left fun b _ => ?_
      simp [hrow _ (.inr rfl), hl]
    · rfl

end JoinKind

/-! ## Narrowed trees -/

namespace Query

variable {c : Catalog} {required : List ColumnRef} {mask : List Bool} {q q' : Query}

/-- The second query answers with the first one's rows, sifted by a mask that keeps what is
required. -/
structure Narrows (c : Catalog) (required : List ColumnRef) (mask : List Bool) (q q' : Query) :
    Prop where
  covers : Covers required q.origins mask
  isScoped : q'.Scoped
  qualifier : q'.qualifier = q.qualifier
  qualifiers : q'.qualifiers = q.qualifiers
  schema : q'.schema = ⟨sift mask q.schema.columns⟩
  origins : q'.origins = sift mask q.origins
  rows : q'.rows c = (q.rows c).map (sift mask)
  succeeds : q.Succeeds c → q'.Succeeds c

namespace Narrows

theorem any_scan (hq : q.Scoped) (h : Narrows c required mask q q') (x : String) :
    (sift mask q.origins).any (·.scan == x) = q.origins.any (·.scan == x) := by
  rw [← h.origins, ← h.isScoped.named.contains_qualifiers, h.qualifiers,
    hq.named.contains_qualifiers]

theorem length_mask (hq : q.Scoped) (h : Narrows c required mask q q') :
    mask.length = q.schema.width := by
  rw [← h.covers.length_eq, hq.named.length_origins]

theorem lookIn_eq (hq : q.Scoped) (h : Narrows c required mask q q') {x : Option String}
    {n : String} (hn : Text.Plain n) (hr : ColumnRef.of x n ∈ required) (row : Row) :
    q'.lookIn (sift mask row) x n = q.lookIn row x n := by
  rw [h.isScoped.lookIn_eq _ hn, hq.lookIn_eq _ hn, h.origins]
  exact Origin.look_sift h.covers (h.any_scan hq) hr row

theorem lookBoth_eq {l l' r r' : Query} {required' : List ColumnRef} {mask' : List Bool}
    (hl : l.Scoped) (hr : r.Scoped) (h : Narrows c required mask l l')
    (h' : Narrows c required' mask' r r') {x : Option String} {n : String} (hn : Text.Plain n)
    (hx : ColumnRef.of x n ∈ required) (hx' : ColumnRef.of x n ∈ required') (a b : Row) :
    l'.lookBoth r' (sift mask a) (sift mask' b) x n = l.lookBoth r a b x n := by
  rw [h.isScoped.lookBoth_eq h'.isScoped _ _ hn, hl.lookBoth_eq hr _ _ hn, h.origins, h'.origins]
  exact Origin.lookPair_sift h.covers (h.any_scan hl) hx h'.covers (h'.any_scan hr) hx' a b

theorem sift_nulls (hq : q.Scoped) (h : Narrows c required mask q q') :
    sift mask (Row.nulls q.schema.width) = Row.nulls q'.schema.width := by
  unfold Row.nulls
  rw [← h.length_mask hq, sift_replicate, h.schema]
  congr 1
  exact (length_sift mask (h.length_mask hq).symm).symm

end Narrows

/-! ## One scan -/

section

variable {t : String} {a : Option String} {s : Schema}

def keptMask (required : List ColumnRef) (q : Query) : List Bool :=
  orFirst (q.schema.columns.map fun c => required.any (·.meansColumn q.qualifiers c.name))

theorem covers_keptMask : Covers required (scan t a s).origins (keptMask required (scan t a s)) := by
  unfold keptMask origins
  rw [Covers, List.forall₂_map_left_iff]
  have hle := List.forall₂_map_left_iff.mp (le_orFirst
    ((scan t a s).schema.columns.map
      fun c => required.any (·.meansColumn (scan t a s).qualifiers c.name)))
  refine hle.imp fun c b hb ⟨r, hr, hm⟩ => hb (List.any_eq_true.mpr ⟨r, hr, ?_⟩)
  simp only [ColumnRef.means, Bool.and_eq_true, beq_iff_eq] at hm
  obtain ⟨hname, hscan⟩ := hm
  unfold ColumnRef.meansColumn
  simp only [hname, beq_self_eq_true, Bool.true_or, Bool.true_and, Bool.or_eq_true]
  right
  cases hq : r.qualifier with
  | none => rfl
  | some x =>
    rw [hq, Option.all_some, beq_iff_eq] at hscan
    simp [hscan, qualifiers, qualifier]

def keptPositions (keep : Column → Bool) (s : Schema) : List Nat :=
  if (positions keep s.columns).isEmpty then [0] else positions keep s.columns

theorem select_kept (keep : Column → Bool) (h : s.columns ≠ []) :
    s.select (keptPositions keep s) = ⟨sift (orFirst (s.columns.map keep)) s.columns⟩ ∧
      (keptPositions keep s).length = (sift (orFirst (s.columns.map keep)) s.columns).length := by
  have hlen := length_positions keep s.columns
  unfold keptPositions
  by_cases hany : s.columns.any keep = true
  · have hread : (positions keep s.columns).isEmpty = false := by
      obtain ⟨c, hc, hk⟩ := List.any_eq_true.mp hany
      have : 0 < (s.columns.filter keep).length :=
        List.length_pos_of_mem (List.mem_filter.mpr ⟨hc, hk⟩)
      rw [← Bool.not_eq_true, List.isEmpty_iff_length_eq_zero]
      omega
    have hmask : orFirst (s.columns.map keep) = s.columns.map keep :=
      orFirst_of_any (by rw [List.any_map]; exact hany)
    simp only [hread, Bool.false_eq_true, if_false]
    rw [hmask]
    exact ⟨select_positions keep rfl, by rw [hlen, sift_marks]⟩
  · have hnone : s.columns.filter keep = [] := by
      simpa [List.filter_eq_nil_iff] using hany
    have hread : positions keep s.columns = [] := by
      rw [hnone] at hlen
      exact List.eq_nil_of_length_eq_zero hlen
    simp only [hread, List.isEmpty_nil, if_true]
    obtain ⟨c, cs, hs⟩ := List.exists_cons_of_ne_nil h
    rw [hs, List.filter_cons] at hnone
    have hc : keep c = false := by
      by_cases hc : keep c = true
      · simp [hc] at hnone
      · simpa using hc
    have hcs : sift (cs.map keep) cs = [] := by
      rw [sift_marks]
      simpa [hc] using hnone
    have hmask : sift (orFirst (s.columns.map keep)) s.columns = [c] := by
      have hfree : (cs.map keep).any id = false := by
        simpa [hc, List.filter_eq_nil_iff] using hnone
      rw [hs, List.map_cons, orFirst, hc, hfree]
      simp [sift, hcs]
    rw [hmask]
    exact ⟨by simp [Schema.select, hs], rfl⟩

/-- A scan stays as it is, or a projection on some of its columns is put on it. -/
theorem narrow_cases (required : List ColumnRef) (t : String) (a : Option String) (s : Schema) :
    narrow required t a s = scan t a s ∨
      ∃ s' : Schema, narrow required t a s =
        project (s'.columns.map fun c => ⟨.column none c.name, c.name⟩) s' (scan t a s) := by
  unfold narrow
  dsimp only
  generalize (if (positions _ s.columns).isEmpty then [0] else positions _ s.columns) = kept
  split
  · exact .inl rfl
  · exact .inr ⟨_, rfl⟩

theorem narrow_eq (h : s.columns ≠ []) :
    (narrow required t a s = scan t a s ∧ ∀ b ∈ keptMask required (scan t a s), b = true) ∨
    narrow required t a s =
      project ((sift (keptMask required (scan t a s)) s.columns).map
          fun c => ⟨.column none c.name, c.name⟩)
        ⟨sift (keptMask required (scan t a s)) s.columns⟩ (scan t a s) := by
  obtain ⟨hselect, hlen⟩ := select_kept
    (fun c => required.any (·.meansColumn (scan t a s).qualifiers c.name)) h
  have heq : narrow required t a s =
      if s.columns.isEmpty || (keptPositions
          (fun c => required.any (·.meansColumn (scan t a s).qualifiers c.name)) s).length == s.width
        then scan t a s
      else
        let narrowed := s.select (keptPositions
          (fun c => required.any (·.meansColumn (scan t a s).qualifiers c.name)) s)
        project (narrowed.columns.map fun c => ⟨.column none c.name, c.name⟩) narrowed
          (scan t a s) := rfl
  rw [heq, hselect, hlen]
  split
  · rename_i hall
    left
    refine ⟨rfl, ?_⟩
    have hwidth : (keptMask required (scan t a s)).length = s.columns.length := by
      have := (le_orFirst (s.columns.map
        fun c => required.any (·.meansColumn (scan t a s).qualifiers c.name))).length_eq
      rw [List.length_map] at this
      exact this.symm
    have hne : s.columns.isEmpty = false := by simpa using h
    rw [hne, Bool.false_or, beq_iff_eq] at hall
    exact forall_of_length_sift hwidth.symm (hall.trans hwidth.symm)
  · right
    rfl

theorem look_kept (hs : (scan t a s).Scoped) (ho : (scan t a s).IsOver c) (hc : c.IsRectangular)
    {row : Row} (hrow : row ∈ (scan t a s).rows c) (mask : List Bool) :
    List.Forall₂ (fun k v => (scan t a s).lookIn row none k.name = .ok v) (sift mask s.columns)
      (sift mask row) := by
  have hwidth : row.length = s.width := ho.length_rows hc row hrow
  exact forall₂_sift mask (Schema.look_own hs.2.distinct hwidth _)

theorem narrows_narrow (hc : c.IsRectangular) (hs : (scan t a s).Scoped)
    (ho : (scan t a s).IsOver c) (required : List ColumnRef) :
    Narrows c required (keptMask required (scan t a s)) (scan t a s) (narrow required t a s) := by
  have hcovers : Covers required (scan t a s).origins (keptMask required (scan t a s)) :=
    covers_keptMask
  have hlen : (keptMask required (scan t a s)).length = s.columns.length := by
    rw [← hcovers.length_eq]
    exact List.length_map _
  rcases @narrow_eq required t a s hs.2.nonempty with ⟨heq, hall⟩ | heq
  · -- every column is kept
    rw [heq]
    have hsift : ∀ {β : Type} (xs : List β), xs.length = s.columns.length →
        sift (keptMask required (scan t a s)) xs = xs := by
      intro β xs hxs
      exact sift_all hall (by omega)
    refine ⟨hcovers, hs, rfl, rfl, ?_, ?_, ?_, id⟩
    · rw [schema, hsift _ rfl]
    · exact (hsift _ (List.length_map _)).symm
    · conv_lhs => rw [← List.map_id ((scan t a s).rows c)]
      refine List.map_congr_left fun row hrow => ?_
      exact (hsift row (ho.length_rows hc row hrow)).symm
  · rw [heq]
    have hne : sift (keptMask required (scan t a s)) s.columns ≠ [] :=
      sift_ne_nil hlen.symm (any_orFirst (by simpa [schema] using hs.2.nonempty))
    refine ⟨hcovers, ⟨rfl, hs.1, hs.2.sift hne⟩, rfl, rfl, rfl, ?_, ?_, ?_⟩
    · exact (sift_map _ _ _).symm
    · refine List.map_congr_left fun row hrow => ?_
      have hlook := look_kept hs ho hc hrow (keptMask required (scan t a s))
      rw [List.map_map]
      refine List.ext_getElem (by simpa using hlook.length_eq) fun i hi hi' => ?_
      have := hlook.get (by simpa using hi) hi'
      simp only [List.get_eq_getElem] at this
      simp [Item.valueIn, Expr.evalWith, this, orNull]
    · intro h
      refine ⟨h, fun row hrow i hi => ?_⟩
      obtain ⟨k, hk, rfl⟩ := List.mem_map.mp hi
      have hlook := look_kept hs ho hc hrow (keptMask required (scan t a s))
      obtain ⟨j, hj, rfl⟩ := List.getElem_of_mem hk
      have := hlook.get hj (hlook.length_eq ▸ hj)
      simp only [List.get_eq_getElem] at this
      simp [Expr.evalWith, this, Except.isOk, Except.toBool]

end

/-! ## Filters and joins -/

theorem Narrows.filter {e : Expr} (hq : q.Scoped) (he : e.PlainRefs)
    (h : Narrows c (required ++ e.columnRefs) mask q q') :
    Narrows c required mask (.filter e q) (.filter e q') := by
  have heval : ∀ row, e.evalWith (q'.lookIn (sift mask row)) = e.evalWith (q.lookIn row) := by
    intro row
    refine Expr.evalWith_congr fun x n hm => ?_
    exact h.lookIn_eq hq (he _ hm) (List.mem_append_right _ (Expr.of_mem_columnRefs hm)) row
  refine ⟨h.covers.mono fun r hr _ _ _ => List.mem_append_left _ hr, h.isScoped,
    h.qualifier, h.qualifiers, h.schema, h.origins, ?_, fun hok => ⟨h.succeeds hok.1, ?_⟩⟩
  · simp only [Query.rows]
    rw [h.rows, List.filter_map]
    congr 1
    refine List.filter_congr fun row _ => ?_
    simp [Expr.holdsIn, heval]
  · rw [h.rows]
    intro row' hrow'
    obtain ⟨row, hrow, rfl⟩ := List.mem_map.mp hrow'
    rw [heval row]
    exact hok.2 row hrow

section

variable {l l' r r' : Query} {leftRead rightRead : List ColumnRef} {ml mr : List Bool}
  {e : Option Expr} (hl : l.Scoped) (hr : r.Scoped) (he : ∀ f ∈ e, f.PlainRefs)
  (h : Narrows c leftRead ml l l') (h' : Narrows c rightRead mr r r')
  (hleft : ∀ f ∈ e, ∀ x ∈ f.columnRefs, x ∈ leftRead)
  (hright : ∀ f ∈ e, ∀ x ∈ f.columnRefs, x ∈ rightRead)
include hl hr he h h' hleft hright

theorem evalWith_lookBoth {f : Expr} (hf : f ∈ e) (a b : Row) :
    f.evalWith (l'.lookBoth r' (sift ml a) (sift mr b)) = f.evalWith (l.lookBoth r a b) := by
  refine Expr.evalWith_congr fun x n hm => ?_
  have hm' := Expr.of_mem_columnRefs hm
  exact Narrows.lookBoth_eq hl hr h h' (he f hf _ hm) (hleft f hf _ hm') (hright f hf _ hm') a b

theorem Narrows.join (hd : l.qualifiers.Disjoint r.qualifiers) (hol : l.IsOver c)
    (hc : c.IsRectangular) (k : JoinKind)
    (hleft' : ∀ x ∈ required, ∀ o ∈ l.origins, x.means o = true → x ∈ leftRead)
    (hright' : ∀ x ∈ required, ∀ o ∈ r.origins, x.means o = true → x ∈ rightRead) :
    Narrows c required (ml ++ mr) (joinOf k e l r) (joinOf k e l' r') := by
  have heval := fun {f} hf => evalWith_lookBoth hl hr he h h' hleft hright (f := f) hf
  have hsift : ∀ a : Row, a.length = l.schema.width → ∀ b, sift (ml ++ mr) (a ++ b) =
      sift ml a ++ sift mr b := by
    intro a ha b
    exact sift_append ((h.length_mask hl).trans ha.symm) mr b
  refine ⟨(h.covers.mono hleft').append (h'.covers.mono hright'), ⟨rfl, h.isScoped, h'.isScoped, ?_⟩,
    h.qualifier, ?_, ?_, ?_, ?_, ?_⟩
  · rw [h.qualifiers, h'.qualifiers]
    exact hd
  · simp only [joinOf, Query.qualifiers, h.qualifiers, h'.qualifiers]
  · simp only [joinOf, Query.schema, Schema.join]
    rw [h.schema, h'.schema, h'.qualifier, ← sift_map, sift_append (h.length_mask hl)]
  · simp only [joinOf, Query.origins]
    rw [h.origins, h'.origins, sift_append h.covers.length_eq.symm]
  · have hmeets : ∀ a ∈ l.rows c, ∀ b ∈ r.rows c,
        l'.meets e r' (sift ml a) (sift mr b) = l.meets e r a b := by
      intro a _ b _
      unfold meets conditionHolds
      cases e with
      | none => rfl
      | some f => simp [Expr.holdsIn, heval (f := f) rfl]
    simp only [joinOf, Query.rows]
    rw [h.rows, h'.rows]
    refine JoinKind.map_joinRows hmeets (fun a ha b => hsift a ?_ b) (h.sift_nulls hl)
      (h'.sift_nulls hr)
    rcases ha with ha | rfl
    · exact hol.length_rows hc a ha
    · exact List.length_replicate
  · rintro ⟨hokl, hokr, hok⟩
    refine ⟨h.succeeds hokl, h'.succeeds hokr, ?_⟩
    rw [h.rows, h'.rows]
    intro a' ha' b' hb' f hf
    obtain ⟨a, ha, rfl⟩ := List.mem_map.mp ha'
    obtain ⟨b, hb, rfl⟩ := List.mem_map.mp hb'
    rw [heval hf]
    exact hok a ha b hb f hf

end

/-! ## Projections over one scan -/

theorem mem_itemRefs {items : List Item} {i : Item} (hi : i ∈ items) {r : ColumnRef}
    (hr : r ∈ i.expr.columnRefs) : r ∈ itemRefs items :=
  List.mem_flatMap.mpr ⟨i, hi, hr⟩

theorem any_keptItems (required : List ColumnRef) (root : Bool) {items : List Item}
    (h : items ≠ []) : (items.map (keptItems required root items)).any id = true := by
  obtain ⟨i, is, rfl⟩ := List.exists_cons_of_ne_nil h
  unfold keptItems
  simp only
  split
  · simp
  · rename_i hread
    rw [Bool.or_eq_true, not_or, Bool.not_eq_true', Bool.not_eq_false] at hread
    rw [List.any_map]
    exact hread.2

theorem prune_project (items : List Item) {s : Schema} (q : Query)
    (hlen : items.length = s.columns.length) (required : List ColumnRef) (root : Bool) :
    (project items s q).prune required root =
      project (items.filter (keptItems required root items))
        ⟨sift (items.map (keptItems required root items)) s.columns⟩
        (q.prune (itemRefs (items.filter (keptItems required root items))) false) := by
  let keep := keptItems required root items
  by_cases hall : items.all keep = true
  · have hkept : items.filter keep = items :=
      List.filter_eq_self.mpr fun i hi => List.all_eq_true.mp hall i hi
    have hcols : sift (items.map keep) s.columns = s.columns := by
      refine sift_all ?_ (by simp [hlen])
      simpa using hall
    have heq : (project items s q).prune required root =
        project items s (q.prune (itemRefs (items.filter keep)) false) := if_pos hall
    rw [heq, hcols, hkept]
  · have heq : (project items s q).prune required root =
        project (items.filter keep) (s.select (positions keep items))
          (q.prune (itemRefs (items.filter keep)) false) := if_neg hall
    rw [heq, select_positions keep hlen]

theorem origins_project (items : List Item) (s : Schema) (q : Query) :
    (project items s q).origins =
      s.columns.map fun c => ⟨Text.lower q.qualifier, Text.lower c.name⟩ := rfl

theorem isOverOneScan_prune : ∀ {q : Query} (required : List ColumnRef) (root : Bool),
    q.isOverOneScan = true → (q.prune required root).isOverOneScan = true
  | scan t a s, required, _, _ => by
    obtain heq | ⟨s', heq⟩ := narrow_cases required t a s
    · rw [prune, heq]
      rfl
    · rw [prune, heq]
      rfl
  | filter _ q, _, _, h => isOverOneScan_prune (q := q) _ false h
  | project items s q, required, root, h => by
    unfold prune
    simp only
    split
    · exact isOverOneScan_prune (q := q) _ false h
    · exact isOverOneScan_prune (q := q) _ false h

theorem Narrows.project {items : List Item} {s : Schema} {root : Bool} (hq : q.Scoped)
    (hone : q'.isOverOneScan = true) (hitems : itemSchema q.schema items = .ok s) (hs : s.Tidy)
    (hp : ∀ i ∈ items, i.expr.PlainRefs)
    (h : Narrows c (itemRefs (items.filter (keptItems required root items))) mask q q') :
    Narrows c required (items.map (keptItems required root items)) (.project items s q)
      (.project (items.filter (keptItems required root items))
        ⟨sift (items.map (keptItems required root items)) s.columns⟩ q') := by
  have hboth := forall₂_itemSchema hitems
  have hlen : (items.map (keptItems required root items)).length = s.columns.length :=
    (List.length_map _).trans hboth.length_eq
  have hne : items ≠ [] := by
    intro hnil
    rw [hnil, List.length_map] at hlen
    exact hs.nonempty (List.eq_nil_of_length_eq_zero hlen.symm)
  have hvalue : ∀ i ∈ items.filter (keptItems required root items), ∀ row,
      i.expr.evalWith (q'.lookIn (sift mask row)) = i.expr.evalWith (q.lookIn row) := by
    intro i hi row
    have hplain := hp i (List.mem_filter.mp hi).1
    refine Expr.evalWith_congr fun x n hm => ?_
    exact h.lookIn_eq hq (hplain _ hm) (mem_itemRefs hi (Expr.of_mem_columnRefs hm)) row
  refine ⟨?_, ⟨hone, ?_, hs.sift ?_⟩, h.qualifier, h.qualifiers, rfl, ?_, ?_, fun hok => ?_⟩
  · rw [Covers, origins_project, List.forall₂_map_left_iff, List.forall₂_map_right_iff]
    refine hboth.flip.imp fun k i ⟨hname, _⟩ ⟨r, hr, hm⟩ => ?_
    simp only [ColumnRef.means, Bool.and_eq_true, beq_iff_eq] at hm
    unfold keptItems
    split
    · rfl
    · refine List.any_eq_true.mpr ⟨r, hr, ?_⟩
      simp [ColumnRef.meansItem, hm.1, hname]
  · rw [h.qualifier]
    exact scanName_qualifier hq
  · exact sift_ne_nil hlen.symm (any_keptItems required root hne)
  · rw [origins_project, origins_project, sift_map, h.qualifier]
  · simp only [Query.rows]
    rw [h.rows, List.map_map, List.map_map]
    refine List.map_congr_left fun row _ => ?_
    simp only [Function.comp]
    rw [sift_map, sift_marks]
    refine List.map_congr_left fun i hi => ?_
    rw [Item.valueIn, hvalue i hi row, Item.valueIn]
  · refine ⟨h.succeeds hok.1, ?_⟩
    rw [h.rows]
    intro row' hrow' i hi
    obtain ⟨row, hrow, rfl⟩ := List.mem_map.mp hrow'
    rw [hvalue i hi row]
    exact hok.2 row hrow i (List.mem_filter.mp hi).1

/-! ## The whole tree -/

theorem narrows_prune (hc : c.IsRectangular) : ∀ {q : Query} (required : List ColumnRef)
    (root : Bool), q.NeatTree → q.IsOver c → ∃ mask, Narrows c required mask q (q.prune required root)
  | scan t a s, required, _, hn, ho => ⟨_, narrows_narrow hc hn ho required⟩
  | filter e q, required, _, hn, ho => by
    obtain ⟨mask, h⟩ := narrows_prune hc (q := q) (required ++ e.columnRefs) false hn.2 ho
    exact ⟨mask, h.filter (hn.2.scoped ho.coherent) hn.1⟩
  | project items s q, required, root, ⟨hp, hs, hone, hn⟩, ⟨hitems, ho⟩ => by
    obtain ⟨mask, h⟩ := narrows_prune hc (q := q)
      (itemRefs (items.filter (keptItems required root items))) false hn ho
    rw [prune_project items q (width_itemSchema hitems).symm]
    exact ⟨_, h.project (hn.scoped ho.coherent) (isOverOneScan_prune _ false hone) hitems hs hp⟩
  | join k e s l r, required, _, ⟨he, hd, hnl, hnr⟩, ⟨hschema, hol, hor⟩ => by
    subst hschema
    obtain ⟨ml, h⟩ := narrows_prune hc (q := l)
      (required.filter (fun x => l.binds x || !r.binds x) ++ (e.map (·.columnRefs)).getD []) false
      hnl hol
    obtain ⟨mr, h'⟩ := narrows_prune hc (q := r)
      (required.filter (fun x => r.binds x || !l.binds x) ++ (e.map (·.columnRefs)).getD []) false
      hnr hor
    have hl := hnl.scoped hol.coherent
    have hr := hnr.scoped hor.coherent
    have hrefs : ∀ f ∈ e, ∀ x ∈ f.columnRefs, x ∈ (e.map (·.columnRefs)).getD [] := by
      intro f hf x hx
      rw [Option.mem_def.mp hf]
      exact hx
    refine ⟨ml ++ mr, h.join hl hr he h'
      (fun f hf x hx => List.mem_append_right _ (hrefs f hf x hx))
      (fun f hf x hx => List.mem_append_right _ (hrefs f hf x hx)) hd hol hc k
      (fun x hx o ho hm => ?_) (fun x hx o ho hm => ?_)⟩
    -- what the join has to keep is required of the input that provides it
    · exact List.mem_append_left _ (List.mem_filter.mpr ⟨hx, by simp [hl.binds_of_means ho hm]⟩)
    · exact List.mem_append_left _ (List.mem_filter.mpr ⟨hx, by simp [hr.binds_of_means ho hm]⟩)

end Query

end RelQuery
