import RelQuery.Proofs.Data.KeyComparison
import RelQuery.Proofs.Plan.Carry
import RelQuery.Proofs.Plan.EquiKeys
import RelQuery.Proofs.Plan.KeyJoins
import RelQuery.Proofs.Query.Reorder

/-!
# Chosen plans answer as their queries

A plan that carries out a query may join on keys where the query compares rows pair by pair. Where the
keys that meet in one join tell what comparison tells, this makes no difference but for the order of
the rows.
-/

namespace RelQuery

/-! ## Keys that tell values apart -/

namespace KeyPart

/-- The kind of the values of which this is a part. -/
def kindRank : KeyPart → Nat
  | null => 0
  | bool _ => 1
  | integer _ | float _ => 2
  | string _ => 3

theorem kindRank_of (v : Value) : (KeyPart.of v).kindRank = v.kindRank := by
  cases v with
  | float x =>
    show (ofFloat x).kindRank = 2
    unfold ofFloat
    cases x.toInteger? <;> rfl
  | null | bool | int | bigint | string => rfl

end KeyPart

namespace Value

theorem keyedAlike_of_not_strays {v w : Value} {o : Ordering} (hc : v.compare w = .ok o)
    (h : ¬ v.Strays w) : v.KeyedAlike w := by
  by_cases hw : w.isFloat = true
  · cases w with
    | float y => exact fun _ _ => ⟨o, hc, (compare_eq_iff_of_float hc).mpr h⟩
    | null | bool | int | bigint | string => cases hw
  by_cases hv : v.isFloat = true
  · cases v with
    | float x =>
      have hturned := (compare_eq_iff_of_float (compare_swap hc)).mpr fun hs => h hs.symm
      rw [Ordering.swap_eq_eq] at hturned
      exact fun _ _ => ⟨o, hc, hturned.trans eq_comm⟩
    | null | bool | int | bigint | string => cases hv
  · rw [Bool.not_eq_true] at hv hw
    exact keyedAlike hv hw (kindRank_eq_of_compare hc)

theorem kindRank_eq_of_forJoin {v w : Value} (hv : v.isNull = false) (hw : w.isNull = false)
    (h : Key.forJoin v = Key.forJoin w) : v.kindRank = w.kindRank := by
  rw [forJoin_eq_iff hv hw] at h
  rw [← KeyPart.kindRank_of v, h, KeyPart.kindRank_of]

theorem exists_compare_of_kindRank_eq {v w : Value} (hv : v.isNull = false)
    (h : v.kindRank = w.kindRank) : ∃ o, v.compare w = .ok o := by
  cases v <;> cases w <;> first | cases hv; done | cases h; done | exact ⟨_, rfl⟩

/-- Values that do not stray are joined by their keys if they meet. -/
theorem joins_eq_meets {v w : Value} (h : ¬ v.Strays w) : Key.joins v w = v.meets w := by
  cases hc : v.compare w with
  | ok o => exact joins_eq (keyedAlike_of_not_strays hc h)
  | error err =>
    -- values that cannot be compared have different keys
    have hmeets : v.meets w = false := by
      rw [meets, hc]
      simp [Except.toOption]
    rw [hmeets, ← Bool.not_eq_true, Key.joins_iff]
    rintro ⟨hv, hw, hkeys⟩
    obtain ⟨o, ho⟩ := exists_compare_of_kindRank_eq hv (kindRank_eq_of_forJoin hv hw hkeys)
    rw [hc] at ho
    cases ho

theorem meets_comm (v w : Value) : v.meets w = w.meets v := by
  rw [meets_eq, meets_eq, order_swap v w, Bool.and_comm (!v.isNull)]
  cases v.order w <;> rfl

theorem eq_float_of_number? {v : Value} {x : Binary64} (h : v.number? = some (.float x)) :
    v = float x := by
  cases v <;> cases h
  rfl

theorem toInt?_of_number? {v : Value} {i : Int} (h : v.number? = some (.integer i)) :
    v.toInt? = some i := by
  cases v <;> cases h <;> rfl

theorem orderedOn_of_not_strays {s : Value → Prop} (h : ∀ v w, s v → s w → ¬ v.Strays w) :
    OrderedOn s := by
  intro u v w hu hv hw huv hvw
  rw [atMost_iff_not_bridges huv hvw]
  rintro ⟨a, b, c, ha, hb, hc, hbridge⟩
  cases hbridge with
  | zero =>
    apply h u w hu hw
    rw [eq_float_of_number? ha, eq_float_of_number? hc]
    exact .zeros (by decide) (by decide) (by decide)
  | last hj hlt =>
    apply h u v hu hv
    rw [eq_float_of_number? hb]
    exact .left (toInt?_of_number? ha) (by omega)

end Value

theorem Expr.holdsIn_equation {look : Look} {a b : Expr} {v w : Value}
    (ha : a.evalWith look = .ok v) (hb : b.evalWith look = .ok w) :
    (Expr.binary (.compare .eq) a b).holdsIn look = v.meets w := by
  have heval : (Expr.binary (.compare .eq) a b).evalWith look = (BinaryOp.compare .eq).apply v w := by
    rw [evalWith, ha, hb]
    rfl
  rw [holdsIn, heval]
  by_cases hc : v.Comparable w
  · obtain ⟨u, hu, htrue⟩ := BinaryOp.apply_eq hc
    rw [hu]
    exact htrue
  · -- neither is null, and the comparison fails
    unfold Value.Comparable at hc
    push Not at hc
    obtain ⟨hv, hw, hfails⟩ := hc
    cases hcompare : v.compare w with
    | ok o => exact absurd hcompare (hfails o)
    | error err =>
      rw [BinaryOp.apply_compare, Value.strictly, hv, hw, hcompare, Value.meets, hcompare]
      simp [bind, Except.bind, Except.toOption]

namespace Query

open Text (IsAscii)

variable {c : Catalog} {l r : Query}

/-! ## Keys over pairs of rows -/

section

variable {x : Option String} {n : String} {a b : Row} {v : Value}

/-- What only the left input provides is found in the pair as in the left row. -/
theorem lookBoth_of_left (hn : IsAscii n) (hb : r.binds (.of x n) = false)
    (h : l.lookIn a x n = .ok v) (b : Row) : l.lookBoth r a b x n = .ok v := by
  unfold lookIn at h
  unfold lookBoth
  cases x with
  | none =>
    rw [Source.look_unqualified] at h
    rw [Source.lookPair_unqualified, ColumnRef.resolve_of_not_boundBy_unqualified hn hb]
    cases hres : l.schema.resolve none n with
    | none =>
      rw [hres] at h
      cases h
    | some i =>
      rw [hres] at h
      exact h
  | some x =>
    rw [Source.look_qualified] at h
    rw [Source.lookPair_qualified]
    split at h
    · rename_i howns
      rw [if_pos howns]
      exact h
    · cases h

/-- What only the right input provides is found there, the left one having no scan of the name. -/
theorem lookBoth_of_right (hapart : l.Apart r) (hn : IsAscii n) (hb : l.binds (.of x n) = false)
    (h : r.lookIn b x n = .ok v) (a : Row) : l.lookBoth r a b x n = .ok v := by
  unfold lookIn at h
  unfold lookBoth
  cases x with
  | none =>
    rw [Source.look_unqualified] at h
    rw [Source.lookPair_unqualified, ColumnRef.resolve_of_not_boundBy_unqualified hn hb]
    exact h
  | some x =>
    rw [Source.look_qualified] at h
    rw [Source.lookPair_qualified]
    split at h
    · rename_i howns
      have hl : (⟨a, l.schema, some l.qualifiers⟩ : Source).owns (Text.lower x) = false := by
        by_contra hl
        have hr := hapart x (Bool.not_eq_false _ ▸ hl)
        exact Bool.false_ne_true (hr.symm.trans howns)
      rw [if_neg (Bool.not_eq_true _ ▸ hl), if_pos howns]
      exact h
    · cases h

end

def keyIn (q : Query) (e : Expr) (row : Row) : Value := orNull (e.evalWith (q.lookIn row))

/-- The values that a join of two queries on the keys of its condition goes by do not stray from one
another. -/
structure ClearJoin (c : Catalog) (f : Expr) (l r : Query) : Prop where
  names : ∀ m ∈ f.mentions, IsAscii m.2
  keys : ∀ a b, equiJoinKeys? f l r = some (a, b) →
    ∀ v ∈ Plan.joinKeys (l.keyIn a) (r.keyIn b) (l.rows c) (r.rows c),
      ∀ w ∈ Plan.joinKeys (l.keyIn a) (r.keyIn b) (l.rows c) (r.rows c), ¬ v.Strays w

/-- No inner join of a query goes by values that stray, and nothing is grouped, in which the order of
rows could show. -/
def ClearJoins (c : Catalog) : Query → Prop
  | scan .. | insert .. => True
  | aggregate .. => False
  | filter _ q | project _ _ q => q.ClearJoins c
  | join k e _ l r =>
    l.ClearJoins c ∧ r.ClearJoins c ∧ (k = .inner → ∀ f ∈ e, ClearJoin c f l r)

theorem meets_of_keys {f lk rk : Expr} (hnames : ∀ m ∈ f.mentions, IsAscii m.2)
    (hkeys : equiJoinKeys? f l r = some (lk, rk)) (hapart : l.Apart r) {a b : Row}
    (ha : (lk.evalWith (l.lookIn a)).isOk) (hb : (rk.evalWith (r.lookIn b)).isOk) :
    l.meets (some f) r a b = (l.keyIn lk a).meets (r.keyIn rk b) := by
  obtain ⟨⟨x, n, rfl, hleft⟩, ⟨y, m, rfl, hright⟩, hcondition⟩ := of_equiJoinKeys? hkeys
  obtain ⟨v, hv⟩ := isOk_iff_exists.mp ha
  obtain ⟨w, hw⟩ := isOk_iff_exists.mp hb
  have hmentions : (x, n) ∈ f.mentions ∧ (y, m) ∈ f.mentions := by
    rcases hcondition with rfl | rfl <;> simp [Expr.mentions]
  have hlook : (Expr.column x n).evalWith (l.lookBoth r a b) = .ok v :=
    lookBoth_of_left (hnames _ hmentions.1) hleft hv b
  have hlook' : (Expr.column y m).evalWith (l.lookBoth r a b) = .ok w :=
    lookBoth_of_right hapart (hnames _ hmentions.2) hright hw a
  rw [keyIn, keyIn, hv, hw, meets, conditionHolds, Option.all_some]
  rcases hcondition with rfl | rfl
  · exact Expr.holdsIn_equation hlook hlook'
  · rw [Expr.holdsIn_equation hlook' hlook]
    exact Value.meets_comm w v

end Query

namespace Plan

variable {κ : Type} {c : Catalog}

/-! ## Plans and queries -/

section

variable {p pl pr : Plan κ} {q l r : Query}

theorem Carries.lookIn_eq (h : p.Carries q) : p.lookIn = q.lookIn := by
  funext row
  rw [Plan.lookIn, h.schema, h.qualifiers, Query.lookIn]

theorem Carries.lookAs_eq (h : p.Carries q) : p.lookAs q.qualifiers = q.lookIn := by
  funext row
  rw [lookAs, h.schema, Query.lookIn]

theorem Carries.keyIn_eq (h : p.Carries q) (e : Expr) : p.keyIn q.qualifiers e = q.keyIn e := by
  funext row
  rw [keyIn, h.lookAs_eq, Query.keyIn]

/-- Two inputs, carried out, whose rows are joined on the keys of a condition. -/
structure JoinsOn (c : Catalog) (pl pr : Plan κ) (l r : Query) (f lk rk : Expr) : Prop where
  left : pl.Carries l
  right : pr.Carries r
  keys : equiJoinKeys? f l r = some (lk, rk)
  apart : l.Apart r
  clear : l.ClearJoin c f r
  leftRows : (pl.rows c).Perm (l.rows c)
  rightRows : (pr.rows c).Perm (r.rows c)

namespace JoinsOn

variable {f lk rk : Expr} (h : JoinsOn c pl pr l r f lk rk)
include h

theorem subset_joinKeys :
    ∀ v ∈ joinKeys (l.keyIn lk) (r.keyIn rk) (pl.rows c) (pr.rows c),
      v ∈ joinKeys (l.keyIn lk) (r.keyIn rk) (l.rows c) (r.rows c) := by
  unfold joinKeys
  exact (((h.leftRows.map _).append (h.rightRows.map _)).filter _).subset

theorem not_strays {v w : Value}
    (hv : v ∈ joinKeys (l.keyIn lk) (r.keyIn rk) (pl.rows c) (pr.rows c))
    (hw : w ∈ joinKeys (l.keyIn lk) (r.keyIn rk) (pl.rows c) (pr.rows c)) : ¬ v.Strays w :=
  h.clear.keys lk rk h.keys v (h.subset_joinKeys v hv) w (h.subset_joinKeys w hw)

theorem joins_keys_eq {a b : Row} (ha : a ∈ pl.rows c) (hb : b ∈ pr.rows c) :
    Key.joins (l.keyIn lk a) (r.keyIn rk b) = (l.keyIn lk a).meets (r.keyIn rk b) := by
  by_cases hnull : (l.keyIn lk a).isNull = true ∨ (r.keyIn rk b).isNull = true
  · rw [Bool.eq_iff_iff, Key.joins_iff, Value.meets_iff]
    rcases hnull with hnull | hnull <;> simp [hnull]
  · rw [not_or, Bool.not_eq_true, Bool.not_eq_true] at hnull
    exact Value.joins_eq_meets
      (h.not_strays (mem_joinKeys_left ha hnull.1) (mem_joinKeys_right hb hnull.2))

variable {s : Schema} {cost : Cost κ}
  (hkeys : HaveKeys ⟨lk, rk, s, l.qualifiers, r.qualifiers, cost⟩ pl pr (pl.rows c) (pr.rows c))
include hkeys

theorem meets_eq {a b : Row} (ha : a ∈ pl.rows c) (hb : b ∈ pr.rows c) :
    l.meets (some f) r a b = (l.keyIn lk a).meets (r.keyIn rk b) := by
  have hleft := hkeys.left a ha
  have hright := hkeys.right b hb
  rw [h.left.lookAs_eq] at hleft
  rw [h.right.lookAs_eq] at hright
  exact Query.meets_of_keys h.clear.names h.keys h.apart hleft hright

/-- The pairs with equal keys, laid side by side, are the rows of the join up to their order. -/
theorem perm_glued_meeting :
    (glued (meeting (l.keyIn lk) (r.keyIn rk) (pl.rows c) (pr.rows c))).Perm
      ((Query.join .inner (some f) s l r).rows c) := by
  have hloops : glued (meeting (l.keyIn lk) (r.keyIn rk) (pl.rows c) (pr.rows c)) =
      JoinKind.inner.joinRows l.schema.width r.schema.width (l.meets (some f) r) (pl.rows c)
        (pr.rows c) := by
    rw [glued_meeting, JoinKind.joinRows_inner]
    refine List.flatMap_congr fun a ha => congrArg _ (List.filter_congr fun b hb => ?_)
    exact (h.meets_eq hkeys ha hb).symm
  rw [hloops]
  exact JoinKind.joinRows_perm h.leftRows h.rightRows

theorem perm_hashJoin :
    ((Plan.hashJoin ⟨lk, rk, s, l.qualifiers, r.qualifiers, cost⟩ pl pr).rows c).Perm
      ((Query.join .inner (some f) s l r).rows c) := by
  refine (List.Perm.of_eq ?_).trans (h.perm_glued_meeting hkeys)
  rw [rows, glued_meeting]
  refine List.flatMap_congr fun a ha => congrArg _ (List.filter_congr fun b hb => ?_)
  rw [sameKeys, leftKeyIn, rightKeyIn, h.left.keyIn_eq, h.right.keyIn_eq]
  exact h.joins_keys_eq ha hb

theorem perm_mergeJoin :
    ((Plan.mergeJoin ⟨lk, rk, s, l.qualifiers, r.qualifiers, cost⟩ pl pr).rows c).Perm
      ((Query.join .inner (some f) s l r).rows c) := by
  have hordered : Value.OrderedOn
      (· ∈ joinKeys (l.keyIn lk) (r.keyIn rk) (pl.rows c) (pr.rows c)) :=
    Value.orderedOn_of_not_strays fun v w hv hw => h.not_strays hv hw
  refine List.Perm.trans ?_ (h.perm_glued_meeting hkeys)
  rw [rows, leftKeyIn, rightKeyIn, h.left.keyIn_eq, h.right.keyIn_eq]
  have hmerged := mergeRows_eq hordered
    (sortKeyed (keyedRows (l.keyIn lk) (pl.rows c))) (sortKeyed (keyedRows (r.keyIn rk) (pr.rows c)))
    (fun a ha => mem_joinKeys_of_left ((sortKeyed_perm _).subset ha))
    (fun b hb => mem_joinKeys_of_right ((sortKeyed_perm _).subset hb))
    (ascending_sortKeyed hordered fun a ha => mem_joinKeys_of_left ha)
    (ascending_sortKeyed hordered fun b hb => mem_joinKeys_of_right hb)
  rw [hmerged, ← glued_crossings, ← crossings_keyedRows]
  exact (crossings_perm (sortKeyed_perm _) (sortKeyed_perm _)).map _

end JoinsOn

/-- A plan that succeeds has the rows of the query that it carries out, in some order. -/
theorem Carries.perm_rows (h : p.Carries q) : p.Succeeds c → q.ApartJoins →
    q.ClearJoins c → (p.rows c).Perm (q.rows c) := by
  induction h with
  | scan t a s k => exact fun _ _ _ => .refl _
  | insert t cs rows s k => exact fun hs => hs.elim
  | filter e k h ih =>
    intro hs hapart hclear
    simp only [rows, Query.rows, h.lookIn_eq]
    exact (ih hs.1 hapart hclear).filter _
  | project is s k h ih =>
    intro hs hapart hclear
    simp only [rows, Query.rows, h.lookIn_eq]
    exact (ih hs.1 hapart hclear).map _
  | aggregate gs os s k h ih => exact fun _ _ hclear => hclear.elim
  | @loopJoin pl pr l r k e s cost hl hr ihl ihr =>
    intro hs hapart hclear
    simp only [rows, Query.rows, hl.schema, hr.schema]
    have hmeets : (fun a b => conditionHolds e
        (lookBoth ⟨k, e, s, l.qualifiers, r.qualifiers, cost⟩ pl pr a b)) = l.meets e r := by
      funext a b
      rw [lookBoth, hl.schema, hr.schema]
      rfl
    rw [hmeets]
    exact JoinKind.joinRows_perm (ihl hs.1 hapart.1 hclear.1)
      (ihr hs.2.1 hapart.2.1 hclear.2.1)
  | @hashJoin pl pr l r f lk rk s cost hkeys hl hr ihl ihr =>
    intro hs hapart hclear
    have hjoins : JoinsOn c pl pr l r f lk rk := ⟨hl, hr, hkeys, hapart.2.2,
      hclear.2.2 rfl f rfl, ihl hs.1 hapart.1 hclear.1, ihr hs.2.1 hapart.2.1 hclear.2.1⟩
    exact hjoins.perm_hashJoin hs.2.2
  | @mergeJoin pl pr l r f lk rk s cost hkeys hl hr ihl ihr =>
    intro hs hapart hclear
    have hjoins : JoinsOn c pl pr l r f lk rk := ⟨hl, hr, hkeys, hapart.2.2,
      hclear.2.2 rfl f rfl, ihl hs.1 hapart.1 hclear.1, ihr hs.2.1 hapart.2.1 hclear.2.1⟩
    exact hjoins.perm_mergeJoin hs.2.2

end

end Plan

end RelQuery
