import Mathlib.Data.List.Perm.Basic
import Mathlib.Data.List.ProdSigma
import RelQuery.Proofs.Data.Keys
import RelQuery.Proofs.Expr.Equality
import RelQuery.Proofs.Plan.Answer

/-!
# Joins on keys against nested loops

A join on keys pairs the rows whose keys are equal, as an inner join by nested loops does whose
condition compares the keys. By hashing, the pairs come in the order of the loops, if the bytes of
keys tell values apart as comparison does. By sort and merge they come in the order of keys, if
that order is transitive.
-/

namespace RelQuery

variable {κ : Type}

/-- Values on which comparison and their keys agree are joined by hashing if they meet. -/
theorem Value.joins_eq {v w : Value} (h : v.KeyedAlike w) : Key.joins v w = v.meets w := by
  rw [Bool.eq_iff_iff, Key.joins_iff, meets_iff]
  refine and_congr_right fun hv => and_congr_right fun hw => ?_
  obtain ⟨o, ho, hkeys⟩ := h hv hw
  rw [← hkeys, ho, Except.ok.injEq]

namespace Plan

/-! ## Pairs -/

/-- The pairs of rows with equal keys, in the order of nested loops. -/
def meeting (lk rk : Row → Value) (ls rs : List Row) : List (Row × Row) :=
  ls.flatMap fun a => (rs.filter fun b => (lk a).meets (rk b)).map (a, ·)

def glued (pairs : List (Row × Row)) : List Row := pairs.map fun p => p.1 ++ p.2

theorem glued_meeting (lk rk : Row → Value) (ls rs : List Row) :
    glued (meeting lk rk ls rs) =
      ls.flatMap fun a => (rs.filter fun b => (lk a).meets (rk b)).map (a ++ ·) := by
  rw [glued, meeting, List.map_flatMap]
  simp only [List.map_map]
  rfl

def joinKeys (lk rk : Row → Value) (ls rs : List Row) : List Value :=
  (ls.map lk ++ rs.map rk).filter (!·.isNull)

theorem mem_joinKeys_left {lk rk : Row → Value} {ls rs : List Row} {a : Row} (ha : a ∈ ls)
    (hk : (lk a).isNull = false) : lk a ∈ joinKeys lk rk ls rs :=
  List.mem_filter.mpr ⟨List.mem_append_left _ (List.mem_map_of_mem ha), by rw [hk]; rfl⟩

theorem mem_joinKeys_right {lk rk : Row → Value} {ls rs : List Row} {b : Row} (hb : b ∈ rs)
    (hk : (rk b).isNull = false) : rk b ∈ joinKeys lk rk ls rs :=
  List.mem_filter.mpr ⟨List.mem_append_right _ (List.mem_map_of_mem hb), by rw [hk]; rfl⟩

/-! ## The same join -/

/-- A join on keys and an inner join by nested loops over the same rows. Every row has a key, and the
condition of the loops asks of each pair of rows whether their keys are equal. -/
structure Equates (c : Catalog) (j : EquiJoin κ) (i : LoopJoin κ) (l r : Plan κ) (ls rs : List Row)
    (lk rk : Row → Value) : Prop where
  leftReadOnly : l.isReadOnly = true
  rightReadOnly : r.isReadOnly = true
  leftRows : l.answer c = .ok ls
  rightRows : r.answer c = .ok rs
  leftKey : ∀ a ∈ ls, j.leftKey.evalBound l.schema j.leftQualifiers a = .ok (lk a)
  rightKey : ∀ b ∈ rs, j.rightKey.evalBound r.schema j.rightQualifiers b = .ok (rk b)
  isInner : i.kind = .inner
  condition : ∃ e, i.condition = some e ∧ ∀ a ∈ ls, ∀ b ∈ rs,
    e.evalPair l.schema i.leftQualifiers r.schema i.rightQualifiers a b =
      (BinaryOp.compare .eq).apply (lk a) (rk b)

namespace Equates

variable {c : Catalog} {j : EquiJoin κ} {i : LoopJoin κ} {l r : Plan κ} {ls rs : List Row}
  {lk rk : Row → Value}

theorem left (h : Equates c j i l r ls rs lk rk) : l.Succeeds c ∧ ls = l.rows c :=
  (yields_answer l ls).mp h.leftRows

theorem right (h : Equates c j i l r ls rs lk rk) : r.Succeeds c ∧ rs = r.rows c :=
  (yields_answer r rs).mp h.rightRows

theorem haveKeys (h : Equates c j i l r ls rs lk rk) : HaveKeys j l r ls rs :=
  .of_ok (fun a ha => ⟨_, h.leftKey a ha⟩) fun b hb => ⟨_, h.rightKey b hb⟩

theorem leftKeyIn_eq (h : Equates c j i l r ls rs lk rk) {a : Row} (ha : a ∈ ls) :
    leftKeyIn j l a = lk a :=
  Except.ok.inj ((h.haveKeys.leftKeyOf_eq a ha).symm.trans (h.leftKey a ha))

theorem rightKeyIn_eq (h : Equates c j i l r ls rs lk rk) {b : Row} (hb : b ∈ rs) :
    rightKeyIn j r b = rk b :=
  Except.ok.inj ((h.haveKeys.rightKeyOf_eq b hb).symm.trans (h.rightKey b hb))

theorem conditionHolds_eq (h : Equates c j i l r ls rs lk rk) {a b : Row} (ha : a ∈ ls)
    (hb : b ∈ rs) (hab : (lk a).Comparable (rk b)) :
    (∀ e ∈ i.condition, (e.evalWith (lookBoth i l r a b)).isOk) ∧
      conditionHolds i.condition (lookBoth i l r a b) = (lk a).meets (rk b) := by
  obtain ⟨e, he, heval⟩ := h.condition
  obtain ⟨x, hx, htrue⟩ := BinaryOp.apply_eq hab
  have hvalue : e.evalWith (lookBoth i l r a b) = .ok x := by
    rw [← hx, ← heval a ha b hb, Expr.evalPair, Expr.eval_eq]
    rfl
  rw [he]
  refine ⟨fun f hf => ?_, ?_⟩
  · cases hf
    rw [hvalue]
    rfl
  · rw [conditionHolds, Option.all_some, Expr.holdsIn, hvalue]
    exact htrue

theorem collect_loopJoin (h : Equates c j i l r ls rs lk rk)
    (hcompare : ∀ a ∈ ls, ∀ b ∈ rs, (lk a).Comparable (rk b)) (op : Operator (.loopJoin i l r)) :
    (op.collect _ c).result = .ok (glued (meeting lk rk ls rs)) := by
  have hruns := (runs (c := c) h.leftReadOnly).loopJoin (runs h.rightReadOnly) i
  rw [hruns.collect op, ← h.left.2, ← h.right.2, h.isInner,
    JoinKind.joinRows_inner, glued_meeting]
  refine ⟨⟨h.left.1, h.right.1, fun a ha b hb => ?_⟩, ?_⟩
  · exact (h.conditionHolds_eq ha hb (hcompare a ha b hb)).1
  · refine List.flatMap_congr fun a ha => congrArg _ (List.filter_congr fun b hb => ?_)
    exact (h.conditionHolds_eq ha hb (hcompare a ha b hb)).2.symm

theorem collect_hashJoin (h : Equates c j i l r ls rs lk rk)
    (halike : ∀ a ∈ ls, ∀ b ∈ rs, (lk a).KeyedAlike (rk b)) (op : Operator (.hashJoin j l r)) :
    (op.collect _ c).result = .ok (glued (meeting lk rk ls rs)) := by
  have hruns := (runs (c := c) h.leftReadOnly).hashJoin (runs h.rightReadOnly) j
  rw [hruns.collect op, ← h.left.2, ← h.right.2, glued_meeting]
  refine ⟨⟨h.left.1, h.right.1, h.haveKeys⟩, ?_⟩
  refine List.flatMap_congr fun a ha => congrArg _ (List.filter_congr fun b hb => ?_)
  rw [sameKeys, h.leftKeyIn_eq ha, h.rightKeyIn_eq hb]
  exact (Value.joins_eq (halike a ha b hb)).symm

end Equates

theorem not_isNull_of_mem_meeting {lk rk : Row → Value} {ls rs : List Row} :
    ∀ p ∈ meeting lk rk ls rs, (lk p.1).isNull = false ∧ (rk p.2).isNull = false := by
  intro p hp
  obtain ⟨a, -, hp⟩ := List.mem_flatMap.mp hp
  obtain ⟨b, hb, rfl⟩ := List.mem_map.mp hp
  obtain ⟨hl, hr, -⟩ := Value.meets_iff.mp (List.mem_filter.mp hb).2
  exact ⟨hl, hr⟩

/-- Values of one kind, none of them a float. -/
def OfOneKind (vs : List Value) : Prop := ∃ rank, ∀ v ∈ vs, v.kindRank = rank ∧ v.isFloat = false

/-- If comparison and the bytes of keys agree on which keys are equal, a join by hashing answers just as
nested loops do, and rows whose key is null are in no pair. They agree on all booleans, on all
integers of whatever width, and on all texts. -/
theorem hashJoin_collects_as_loops {c : Catalog} {j : EquiJoin κ} {i : LoopJoin κ} {l r : Plan κ}
    {ls rs : List Row} {lk rk : Row → Value} (h : Equates c j i l r ls rs lk rk) :
    (OfOneKind (joinKeys lk rk ls rs) → ∀ a ∈ ls, ∀ b ∈ rs, (lk a).KeyedAlike (rk b)) ∧
      ((∀ a ∈ ls, ∀ b ∈ rs, (lk a).KeyedAlike (rk b)) →
        (∀ op : Operator (.hashJoin j l r),
          (op.collect _ c).result = .ok (glued (meeting lk rk ls rs))) ∧
        (∀ op : Operator (.loopJoin i l r),
          (op.collect _ c).result = .ok (glued (meeting lk rk ls rs))) ∧
        ∀ p ∈ meeting lk rk ls rs, (lk p.1).isNull = false ∧ (rk p.2).isNull = false) := by
  constructor
  · rintro ⟨rank, hkeys⟩ a ha b hb hl hr
    obtain ⟨hrank, hfloat⟩ := hkeys _ (mem_joinKeys_left ha hl)
    obtain ⟨hrank', hfloat'⟩ := hkeys _ (mem_joinKeys_right hb hr)
    exact Value.keyedAlike hfloat hfloat' (hrank.trans hrank'.symm) hl hr
  · intro halike
    have hcompare := fun a ha b hb => (halike a ha b hb).comparable
    exact ⟨h.collect_hashJoin halike, h.collect_loopJoin hcompare, not_isNull_of_mem_meeting⟩

/-! ### An example -/

def readerRows : List Row := [[.int 2], [.null], [.int 1], [.int 2]]

def noteRows : List Row :=
  [[.bigint 1, .string "Emma"], [.null, .string "Medea"], [.bigint 2, .string "Ulysses"],
    [.bigint 1, .string "Nana"]]

/-- Readers and notes of what they borrowed, in one of which the reader is missing. -/
def desk : Catalog :=
  ((Catalog.empty.createWithRawRows "reader" ⟨[⟨"id", .int⟩]⟩ readerRows).2.createWithRawRows "note"
    ⟨[⟨"by", .bigint⟩, ⟨"title", .varchar 8⟩]⟩ noteRows).2

def readers : Plan Unit := .scan "reader" none ⟨[⟨"id", .int⟩]⟩ ⟨(), (), ()⟩

def notes : Plan Unit :=
  .scan "note" none ⟨[⟨"by", .bigint⟩, ⟨"title", .varchar 8⟩]⟩ ⟨(), (), ()⟩

def borrowed : Schema := ⟨[⟨"id", .int⟩, ⟨"by", .bigint⟩, ⟨"title", .varchar 8⟩]⟩

def byKey : EquiJoin Unit :=
  ⟨.column none "id", .column none "by", borrowed, ["reader"], ["note"], ⟨(), (), ()⟩⟩

def byLoops : LoopJoin Unit :=
  ⟨.inner, some (.binary (.compare .eq) (.column none "id") (.column none "by")), borrowed,
    ["reader"], ["note"], ⟨(), (), ()⟩⟩

def firstCell (row : Row) : Value := row.headD .null

theorem desk_equates :
    Equates desk byKey byLoops readers notes readerRows noteRows firstCell firstCell where
  leftReadOnly := rfl
  rightReadOnly := rfl
  leftRows := eq_ok_of_toOption (by decide +kernel)
  rightRows := eq_ok_of_toOption (by decide +kernel)
  leftKey a ha := by
    have hid : ∀ a ∈ readerRows,
        (byKey.leftKey.evalBound readers.schema byKey.leftQualifiers a).toOption =
          some (firstCell a) := by decide +kernel
    exact eq_ok_of_toOption (hid a ha)
  rightKey b hb := by
    have hby : ∀ b ∈ noteRows,
        (byKey.rightKey.evalBound notes.schema byKey.rightQualifiers b).toOption =
          some (firstCell b) := by decide +kernel
    exact eq_ok_of_toOption (hby b hb)
  isInner := rfl
  condition := by
    have hid : ∀ a ∈ readerRows, ∀ b ∈ noteRows,
        (byKey.leftKey.evalPair readers.schema ["reader"] notes.schema ["note"] a b).toOption =
          some (firstCell a) := by decide +kernel
    have hby : ∀ a ∈ readerRows, ∀ b ∈ noteRows,
        (byKey.rightKey.evalPair readers.schema ["reader"] notes.schema ["note"] a b).toOption =
          some (firstCell b) := by decide +kernel
    refine ⟨_, rfl, fun a ha b hb => ?_⟩
    have hid := eq_ok_of_toOption (hid a ha b hb)
    have hby := eq_ok_of_toOption (hby a ha b hb)
    unfold Expr.evalPair at hid hby ⊢
    exact congrArg₂ (fun x y => x >>= fun v => y >>= fun w => (BinaryOp.compare .eq).apply v w) hid hby

theorem hashJoin_collects_as_loops_on_desk :
    Equates desk byKey byLoops readers notes readerRows noteRows firstCell firstCell ∧
      OfOneKind (joinKeys firstCell firstCell readerRows noteRows) ∧
      ((Operator.created (.hashJoin byKey readers notes)).collect _ desk).result =
        .ok [[.int 2, .bigint 2, .string "Ulysses"], [.int 1, .bigint 1, .string "Emma"],
          [.int 1, .bigint 1, .string "Nana"], [.int 2, .bigint 2, .string "Ulysses"]] ∧
      ((Operator.created (.loopJoin byLoops readers notes)).collect _ desk).result =
        .ok [[.int 2, .bigint 2, .string "Ulysses"], [.int 1, .bigint 1, .string "Emma"],
          [.int 1, .bigint 1, .string "Nana"], [.int 2, .bigint 2, .string "Ulysses"]] := by
  have hkind : OfOneKind (joinKeys firstCell firstCell readerRows noteRows) := ⟨2, by decide +kernel⟩
  obtain ⟨hsame, hcollect⟩ := hashJoin_collects_as_loops desk_equates
  obtain ⟨hhash, hloops, -⟩ := hcollect (hsame hkind)
  exact ⟨desk_equates, hkind, hhash _, hloops _⟩

/-! ## Sorting and merging -/

def crossings (ls rs : List Keyed) : List (Row × Row) :=
  ls.flatMap fun a => (rs.filter a.joins).map fun b => (a.2, b.2)

theorem glued_crossings (ls rs : List Keyed) :
    glued (crossings ls rs) = ls.flatMap fun a => (rs.filter a.joins).map a.pair := by
  rw [glued, crossings, List.map_flatMap]
  simp only [List.map_map]
  rfl

theorem crossings_keyedRows (lk rk : Row → Value) (ls rs : List Row) :
    crossings (keyedRows lk ls) (keyedRows rk rs) = meeting lk rk ls rs := by
  unfold crossings meeting keyedRows
  rw [List.flatMap_map, flatMap_filter]
  refine List.flatMap_congr fun a _ => ?_
  rw [List.filter_map, List.map_map, List.filter_filter]
  cases hnull : (lk a).isNull with
  | true => simp [Value.meets_eq, hnull]
  | false => simp [Value.meets_eq, hnull, Keyed.joins, Function.comp_def, Bool.and_comm]

theorem crossings_perm {ls ls' rs rs' : List Keyed} (hl : ls.Perm ls') (hr : rs.Perm rs') :
    (crossings ls rs).Perm (crossings ls' rs') :=
  hl.flatMap fun a _ => (hr.filter a.joins).map _

theorem filter_keyedRows (f : Row → Value) (rows : List Row) {v : Value} (hv : v.isNull = false) :
    (keyedRows f rows).filter (·.1.order v == .eq) =
      (rows.filter fun row => (f row).meets v).map fun row => (f row, row) := by
  unfold keyedRows
  rw [List.filter_map, List.filter_filter]
  simp [Value.meets_eq, hv, Bool.and_comm]

theorem crossings_pairwise {lk : Row → Value} {ls : List Keyed} (hls : Ascending ls)
    (hkey : ∀ a ∈ ls, a.1 = lk a.2) (rs : List Keyed) :
    (crossings ls rs).Pairwise fun p q => (lk p.1).AtMost (lk q.1) := by
  refine List.pairwise_flatMap.mpr ⟨fun a _ => ?_, ?_⟩
  · exact List.pairwise_map.mpr (List.pairwise_of_forall fun _ _ => Value.atMost_refl _)
  · refine hls.imp_of_mem fun ha hb hab p hp q hq => ?_
    obtain ⟨_, -, rfl⟩ := List.mem_map.mp hp
    obtain ⟨_, -, rfl⟩ := List.mem_map.mp hq
    rwa [← hkey _ ha, ← hkey _ hb]

theorem filter_crossings {s : Value → Prop} (hs : Value.OrderedOn s) {ls rs : List Keyed}
    (hl : ∀ a ∈ ls, s a.1) (hr : ∀ b ∈ rs, s b.1) {lk : Row → Value}
    (hkey : ∀ a ∈ ls, a.1 = lk a.2 ∧ a.1.isNull = false) {v : Value} (hv : s v)
    (hnull : v.isNull = false) :
    (crossings ls rs).filter (fun p => (lk p.1).meets v) =
      (ls.filter (·.1.order v == .eq)).flatMap fun a =>
        (rs.filter (·.1.order v == .eq)).map fun b => (a.2, b.2) := by
  rw [crossings, List.filter_flatMap, flatMap_filter]
  refine List.flatMap_congr fun a ha => ?_
  have hmeets : ((fun p : Row × Row => (lk p.1).meets v) ∘ fun b : Keyed => (a.2, b.2)) =
      fun _ => a.1.order v == .eq := by
    funext b
    rw [Function.comp_apply, ← (hkey a ha).1, Value.meets_eq, (hkey a ha).2, hnull]
    rfl
  rw [List.filter_map, hmeets]
  cases hav : a.1.order v == .eq with
  | false => simp
  | true =>
    -- to be equal to `a` is to be equal to `v`, as `a` is
    have hav := beq_iff_eq.mp hav
    have hsame : rs.filter a.joins = rs.filter (·.1.order v == .eq) := by
      refine List.filter_congr fun b hb => ?_
      rw [Keyed.joins, Bool.eq_iff_iff, beq_iff_eq, beq_iff_eq]
      constructor
      · intro hab
        exact hs.order_eq_trans (hr b hb) (hl a ha) hv (Value.order_eq_symm hab) hav
      · intro hbv
        exact hs.order_eq_trans (hl a ha) hv (hr b hb) hav (Value.order_eq_symm hbv)
    rw [hsame, List.filter_true, if_pos rfl]

section

variable {c : Catalog} {j : EquiJoin κ} {i : LoopJoin κ} {l r : Plan κ} {ls rs : List Row}
  {lk rk : Row → Value}

theorem mem_joinKeys_of_left {a : Keyed} (ha : a ∈ keyedRows lk ls) :
    a.1 ∈ joinKeys lk rk ls rs := by
  obtain ⟨hrow, hkey, hnull⟩ := of_mem_keyedRows ha
  exact hkey ▸ mem_joinKeys_left hrow (hkey ▸ hnull)

theorem mem_joinKeys_of_right {b : Keyed} (hb : b ∈ keyedRows rk rs) :
    b.1 ∈ joinKeys lk rk ls rs := by
  obtain ⟨hrow, hkey, hnull⟩ := of_mem_keyedRows hb
  exact hkey ▸ mem_joinKeys_right hrow (hkey ▸ hnull)

theorem Equates.collect_mergeJoin (h : Equates c j i l r ls rs lk rk)
    (hs : Value.OrderedOn (· ∈ joinKeys lk rk ls rs)) (op : Operator (.mergeJoin j l r)) :
    (op.collect _ c).result =
      .ok (glued (crossings (sortKeyed (keyedRows lk ls)) (sortKeyed (keyedRows rk rs)))) := by
  have hruns := (runs (c := c) h.leftReadOnly).mergeJoin (runs h.rightReadOnly) j
  rw [hruns.collect op, ← h.left.2, ← h.right.2, glued_crossings,
    keyedRows_congr fun a ha => h.leftKeyIn_eq ha, keyedRows_congr fun b hb => h.rightKeyIn_eq hb]
  refine ⟨⟨h.left.1, h.right.1, h.haveKeys⟩, (mergeRows_eq hs _ _ ?_ ?_ ?_ ?_).symm⟩
  · exact fun a ha => mem_joinKeys_of_left ((sortKeyed_perm _).subset ha)
  · exact fun b hb => mem_joinKeys_of_right ((sortKeyed_perm _).subset hb)
  · exact ascending_sortKeyed hs fun a ha => mem_joinKeys_of_left ha
  · exact ascending_sortKeyed hs fun b hb => mem_joinKeys_of_right hb

/-- If the order of values is transitive on the keys and all of them can be compared, a join by sort
and merge answers with the pairs that nested loops find, in ascending order of keys. The pairs of one
key are the left rows with that key crossed with the right rows, both in their order. Without floats
the order is always transitive. -/
theorem mergeJoin_collects_as_loops (h : Equates c j i l r ls rs lk rk) :
    ((∀ v ∈ joinKeys lk rk ls rs, v.isFloat = false) →
        Value.OrderedOn (· ∈ joinKeys lk rk ls rs)) ∧
      (Value.OrderedOn (· ∈ joinKeys lk rk ls rs) →
        (∀ a ∈ ls, ∀ b ∈ rs, (lk a).Comparable (rk b)) →
        ∃ pairs : List (Row × Row),
          (∀ op : Operator (.mergeJoin j l r), (op.collect _ c).result = .ok (glued pairs)) ∧
          (∀ op : Operator (.loopJoin i l r),
            (op.collect _ c).result = .ok (glued (meeting lk rk ls rs))) ∧
          pairs.Perm (meeting lk rk ls rs) ∧
          pairs.Pairwise (fun p q => (lk p.1).AtMost (lk q.1)) ∧
          ∀ v ∈ joinKeys lk rk ls rs, pairs.filter (fun p => (lk p.1).meets v) =
            (ls.filter fun a => (lk a).meets v).product (rs.filter fun b => (rk b).meets v)) := by
  refine ⟨fun hfloat u v w hu hv hw => Value.atMost_trans (hfloat u hu) (hfloat v hv) (hfloat w hw),
    fun hs hcompare => ⟨_, h.collect_mergeJoin hs, h.collect_loopJoin hcompare, ?_, ?_, ?_⟩⟩
  · rw [← crossings_keyedRows]
    exact crossings_perm (sortKeyed_perm _) (sortKeyed_perm _)
  · refine crossings_pairwise (ascending_sortKeyed hs fun a ha => mem_joinKeys_of_left ha) ?_ _
    exact fun a ha => (of_mem_keyedRows ((sortKeyed_perm _).subset ha)).2.1
  · intro v hv
    have hnull : v.isNull = false := by simpa using (List.mem_filter.mp hv).2
    rw [filter_crossings hs
      (fun a ha => mem_joinKeys_of_left ((sortKeyed_perm _).subset ha))
      (fun b hb => mem_joinKeys_of_right ((sortKeyed_perm _).subset hb))
      (fun a ha => (of_mem_keyedRows ((sortKeyed_perm _).subset ha)).2) hv hnull,
      filter_sortKeyed hs (fun a ha => mem_joinKeys_of_left ha) hv,
      filter_sortKeyed hs (fun b hb => mem_joinKeys_of_right hb) hv,
      filter_keyedRows lk ls hnull, filter_keyedRows rk rs hnull, List.flatMap_map]
    simp only [List.map_map]
    rfl

end

theorem mergeJoin_collects_as_loops_on_desk :
    Equates desk byKey byLoops readers notes readerRows noteRows firstCell firstCell ∧
      (∀ v ∈ joinKeys firstCell firstCell readerRows noteRows, v.isFloat = false) ∧
      (∀ a ∈ readerRows, ∀ b ∈ noteRows, (firstCell a).Comparable (firstCell b)) ∧
      ∃ pairs : List (Row × Row),
        ((Operator.created (.mergeJoin byKey readers notes)).collect _ desk).result =
          .ok (glued pairs) ∧
        ((Operator.created (.loopJoin byLoops readers notes)).collect _ desk).result =
          .ok [[.int 2, .bigint 2, .string "Ulysses"], [.int 1, .bigint 1, .string "Emma"],
            [.int 1, .bigint 1, .string "Nana"], [.int 2, .bigint 2, .string "Ulysses"]] ∧
        pairs.Perm (meeting firstCell firstCell readerRows noteRows) ∧
        pairs.Pairwise (fun p q => (firstCell p.1).AtMost (firstCell q.1)) ∧
        pairs.filter (fun p => (firstCell p.1).meets (.int 1)) =
          [([.int 1], [.bigint 1, .string "Emma"]), ([.int 1], [.bigint 1, .string "Nana"])] := by
  have hfloat : ∀ v ∈ joinKeys firstCell firstCell readerRows noteRows, v.isFloat = false := by
    decide +kernel
  have hcompare : ∀ a ∈ readerRows, ∀ b ∈ noteRows, (firstCell a).isNull = false →
      (firstCell b).isNull = false → ((firstCell a).compare (firstCell b)).isOk = true := by
    decide +kernel
  have hcompare : ∀ a ∈ readerRows, ∀ b ∈ noteRows, (firstCell a).Comparable (firstCell b) :=
    fun a ha b hb hl hr => isOk_iff_exists.mp (hcompare a ha b hb hl hr)
  obtain ⟨hordered, hcollect⟩ := mergeJoin_collects_as_loops desk_equates
  obtain ⟨pairs, hmerge, hloops, hperm, hsorted, hruns⟩ := hcollect (hordered hfloat) hcompare
  refine ⟨desk_equates, hfloat, hcompare, pairs, hmerge _, hloops _, hperm, hsorted, ?_⟩
  exact hruns (.int 1) (by decide +kernel)

end Plan

end RelQuery
