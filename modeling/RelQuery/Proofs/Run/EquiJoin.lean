import RelQuery.Proofs.Data.Lists
import RelQuery.Proofs.Run.HashJoin
import RelQuery.Proofs.Run.MergeJoin
import RelQuery.Proofs.Run.Operator

/-!
# What joins on keys answer with

A join on a key of each input succeeds when both inputs do and every row has a key. By hashing it
answers with the rows of an inner join on equal keys, in the order of nested loops; by sort and merge
with what is merged out of the two sorted inputs.
-/

namespace RelQuery

variable {κ : Type}

namespace Plan

variable {c : Catalog} {j : EquiJoin κ} {l r : Plan κ} {succeeds succeeds' : Prop}
  {rows rows' : List Row}

/-! ## Keys -/

def lookAs (p : Plan κ) (qualifiers : List String) (row : Row) : Look :=
  Source.look [⟨row, p.schema, some qualifiers⟩]

def keyOf (p : Plan κ) (qualifiers : List String) (e : Expr) (row : Row) : Except QueryError Value :=
  e.evalBound p.schema qualifiers row

def keyIn (p : Plan κ) (qualifiers : List String) (e : Expr) (row : Row) : Value :=
  orNull (e.evalWith (p.lookAs qualifiers row))

theorem keyOf_of_isOk {p : Plan κ} {quals : List String} {e : Expr} {row : Row}
    (h : (e.evalWith (p.lookAs quals row)).isOk) : p.keyOf quals e row = .ok (p.keyIn quals e row) := by
  obtain ⟨v, hv⟩ := isOk_iff_exists.mp h
  unfold keyIn
  rw [hv, keyOf, Expr.evalBound, Expr.eval_eq]
  exact hv

theorem isOk_of_keyOf {p : Plan κ} {quals : List String} {e : Expr} {row : Row} {v : Value}
    (h : p.keyOf quals e row = .ok v) : (e.evalWith (p.lookAs quals row)).isOk := by
  rw [keyOf, Expr.evalBound, Expr.eval_eq] at h
  exact isOk_iff_exists.mpr ⟨v, h⟩

def leftKeyOf (j : EquiJoin κ) (l : Plan κ) : Row → Except QueryError Value :=
  l.keyOf j.leftQualifiers j.leftKey

def rightKeyOf (j : EquiJoin κ) (r : Plan κ) : Row → Except QueryError Value :=
  r.keyOf j.rightQualifiers j.rightKey

def leftKeyIn (j : EquiJoin κ) (l : Plan κ) : Row → Value := l.keyIn j.leftQualifiers j.leftKey

def rightKeyIn (j : EquiJoin κ) (r : Plan κ) : Row → Value := r.keyIn j.rightQualifiers j.rightKey

structure HaveKeys (j : EquiJoin κ) (l r : Plan κ) (ls rs : List Row) : Prop where
  left : ∀ a ∈ ls, (j.leftKey.evalWith (l.lookAs j.leftQualifiers a)).isOk
  right : ∀ b ∈ rs, (j.rightKey.evalWith (r.lookAs j.rightQualifiers b)).isOk

theorem HaveKeys.leftKeyOf_eq {ls rs : List Row} (h : HaveKeys j l r ls rs) :
    ∀ a ∈ ls, leftKeyOf j l a = .ok (leftKeyIn j l a) := fun a ha => keyOf_of_isOk (h.left a ha)

theorem HaveKeys.rightKeyOf_eq {ls rs : List Row} (h : HaveKeys j l r ls rs) :
    ∀ b ∈ rs, rightKeyOf j r b = .ok (rightKeyIn j r b) := fun b hb => keyOf_of_isOk (h.right b hb)

theorem HaveKeys.of_ok {ls rs : List Row} (hl : ∀ a ∈ ls, ∃ v, leftKeyOf j l a = .ok v)
    (hr : ∀ b ∈ rs, ∃ v, rightKeyOf j r b = .ok v) : HaveKeys j l r ls rs where
  left a ha := isOk_of_keyOf (hl a ha).choose_spec
  right b hb := isOk_of_keyOf (hr b hb).choose_spec

/-! ## Joins by hashing -/

theorem hashJoin_supplies {buckets : Buckets} {st : Supply} {left : Operator l}
    {right : Operator r} {life : Lifecycle} (hl : life.phase = .opened)
    (h : Supplies (Operator.next l) (Operator.rowsLeft l) c st left) :
    Supplies (Operator.next (.hashJoin j l r)) (Operator.rowsLeft (.hashJoin j l r)) c
      (HashState.supply (leftKeyOf j l) buckets st)
      (.hashJoin life (.ready buckets) left right) := by
  refine Supplies.of_relation
    (fun out op => ∃ life x, life.phase = .opened ∧ op = .hashJoin life x.1 x.2 right ∧
      HashState.Stands (leftKeyOf j l) (Operator.next l) (Operator.rowsLeft l) c buckets out x)
    ?_ ?_ ⟨life, (.ready buckets, left), hl, rfl, HashState.stands_ready h⟩
  · rintro out _ ⟨life, ⟨st, left⟩, -, rfl, h⟩
    exact h.length_le
  · rintro out _ ⟨life, ⟨st, left⟩, hl, rfl, h⟩
    rw [Operator.next, Operator.request_opened]
    · have hfuel : Operator.rowsLeft l left < Operator.rowsLeft l left + 2 := by omega
      refine (h.answers hfuel).map
        (f := fun result x => Operator.hashJoin (Operator.lived life result) x.1 x.2 right) ?_
      intro row rest x hx
      exact ⟨_, x, Operator.phase_lived hl row, rfl, hx⟩
    · exact hl

def hashed (j : EquiJoin κ) (l r : Plan κ) (x y : Except QueryError Supply) :
    Except QueryError Supply := do
  let left ← x
  let buckets ← (← y).fold (Buckets.take (rightKeyOf j r)) .empty
  return HashState.supply (leftKeyOf j l) buckets left

theorem Starts.hashJoin {x y : Except QueryError Supply} (hl : Starts c l x) (hr : Starts c r y)
    (j : EquiJoin κ) : Starts c (.hashJoin j l r) (hashed j l r x y) := by
  cases x with
  | error err =>
    intro op
    cases op with
    | hashJoin life st left right =>
      obtain ⟨left', e₁⟩ := hl left
      exact ⟨.hashJoin life st left' right, by rw [Operator.start, e₁]⟩
  | ok sl =>
    cases y with
    | error err =>
      intro op
      cases op with
      | hashJoin life st left right =>
        obtain ⟨left', e₁, -⟩ := hl left
        obtain ⟨right', e₂⟩ := hr right
        exact ⟨.hashJoin life st left' right', by rw [Operator.start, e₁]; simp only [e₂]⟩
    | ok sr =>
      cases hfold : sr.fold (Buckets.take (rightKeyOf j r)) .empty with
      | error err =>
        simp only [hashed, bind, Except.bind, hfold]
        intro op
        cases op with
        | hashJoin life st left right =>
          obtain ⟨left', e₁, -⟩ := hl left
          obtain ⟨right', e₂, hs₂⟩ := hr right
          obtain ⟨buckets, right'', e₃⟩ := drain_error hs₂ (Nat.lt_succ_of_le hs₂.length_le) hfold
          refine ⟨.hashJoin life { st with buckets } left' right'', ?_⟩
          rw [Operator.start, e₁]
          unfold rightKeyOf keyOf at e₃
          simp only [e₂, e₃]
      | ok buckets =>
        simp only [hashed, bind, Except.bind, hfold]
        intro op
        cases op with
        | hashJoin life st left right =>
          obtain ⟨left', e₁, hs₁⟩ := hl left
          obtain ⟨right', e₂, hs₂⟩ := hr right
          obtain ⟨right'', e₃⟩ := drain_ok hs₂ (Nat.lt_succ_of_le hs₂.length_le) hfold
          refine ⟨.hashJoin life.start (.ready buckets) left' (Operator.close r right''), ?_,
            hashJoin_supplies rfl hs₁⟩
          rw [Operator.start, e₁]
          unfold rightKeyOf keyOf at e₃
          simp only [e₂, e₃]

def sameKeys (j : EquiJoin κ) (l r : Plan κ) (a b : Row) : Bool :=
  Key.joins (leftKeyIn j l a) (rightKeyIn j r b)

theorem Runs.hashJoin (hl : Runs c l succeeds rows) (hr : Runs c r succeeds' rows')
    (j : EquiJoin κ) :
    Runs c (.hashJoin j l r) (succeeds ∧ succeeds' ∧ HaveKeys j l r rows rows')
      (rows.flatMap fun a => (rows'.filter (sameKeys j l r a)).map (a ++ ·)) := by
  obtain ⟨x, hstart, hx⟩ := hl
  obtain ⟨y, hstart', hy⟩ := hr
  have hrows : ∀ (ls rs : List Row) (b : Buckets), HaveKeys j l r ls rs →
      rs.foldlM (Buckets.take (rightKeyOf j r)) .empty = .ok b →
        HashState.supply (leftKeyOf j l) b (.ofRows ls) =
          .ofRows (ls.flatMap fun a => (rs.filter (sameKeys j l r a)).map (a ++ ·)) := by
    intro ls rs b hkeys hfold
    obtain ⟨b', hb', hget⟩ := Buckets.fold_take rs .empty hkeys.rightKeyOf_eq
    rw [hfold, Except.ok.injEq] at hb'
    subst hb'
    simp only [Buckets.get_empty, List.nil_append] at hget
    rw [HashState.supply_ofRows hkeys.leftKeyOf_eq]
    simp only [HashState.partners_eq hget]
    rfl
  refine ⟨_, hstart.hashJoin hstart' j, fun out => ⟨fun h => ?_, ?_⟩⟩
  · obtain ⟨sl, rfl, h₁⟩ := bind_eq_ok_iff.mp h
    obtain ⟨sr, rfl, h₂⟩ := bind_eq_ok_iff.mp h₁
    obtain ⟨b, hfold, h₃⟩ := bind_eq_ok_iff.mp h₂
    obtain ⟨rs, rfl, hrs⟩ := Supply.fold_eq_ok hfold
    obtain ⟨ls, rfl, hls⟩ := HashState.of_supply (Except.ok.inj h₃)
    obtain ⟨hsucc, rfl⟩ := (hx ls).mp rfl
    obtain ⟨hsucc', rfl⟩ := (hy rs).mp rfl
    have hkeys : HaveKeys j l r ls rs := .of_ok hls (Buckets.isOk_of_fold_take hrs)
    refine ⟨⟨hsucc, hsucc', hkeys⟩, Supply.ofRows_inj ?_⟩
    rw [← hrows ls rs b hkeys hrs]
    exact (Except.ok.inj h₃).symm
  · rintro ⟨⟨hsucc, hsucc', hkeys⟩, rfl⟩
    obtain ⟨b, hb, -⟩ := Buckets.fold_take rows' .empty hkeys.rightKeyOf_eq
    rw [(hx rows).mpr ⟨hsucc, rfl⟩, (hy rows').mpr ⟨hsucc', rfl⟩, hashed]
    simp only [bind, Except.bind, Supply.fold_ofRows, hb]
    exact congrArg _ (hrows rows rows' b hkeys hb)

/-! ## Joins by sort and merge -/

theorem mergeJoin_supplies {st : MergeState} {left : Operator l} {right : Operator r}
    {life : Lifecycle} (hl : life.phase = .opened) (h : st.Sound) :
    Supplies (Operator.next (.mergeJoin j l r)) (Operator.rowsLeft (.mergeJoin j l r)) c
      (.ofRows st.ahead) (.mergeJoin life st left right) := by
  refine Supplies.of_relation
    (fun out op => ∃ life st, life.phase = .opened ∧ op = .mergeJoin life st left right ∧
      st.Sound ∧ out = .ofRows st.ahead)
    ?_ ?_ ⟨life, st, hl, rfl, h, rfl⟩
  · rintro _ _ ⟨life, st, -, rfl, -, rfl⟩
    rw [Supply.length_ofRows]
    exact st.length_ahead_le
  · rintro _ _ ⟨life, st, hl, rfl, hs, rfl⟩
    have hands := MergeState.next_hands hs
    unfold MergeState.Hands at hands
    rw [Operator.next, Operator.request_opened]
    · cases ha : st.ahead with
      | nil =>
        rw [ha] at hands
        simp only at hands ⊢
        rw [hands]
        exact .done _ rfl
      | cons row rest =>
        rw [ha] at hands
        obtain ⟨hrow, hsound, hrest, -⟩ := hands
        simp only
        rw [hrow]
        exact .row row _ _ rfl ⟨_, _, Operator.phase_lived hl row, rfl, hsound, by rw [hrest]⟩
    · exact hl

def merged (j : EquiJoin κ) (l r : Plan κ) (x y : Except QueryError Supply) :
    Except QueryError Supply := do
  let left ← x
  let right ← y
  let ls ← left.fold (takeKeyed (leftKeyOf j l)) []
  let rs ← right.fold (takeKeyed (rightKeyOf j r)) []
  return .ofRows (mergeRows (sortKeyed ls) (sortKeyed rs))

theorem Starts.mergeJoin {x y : Except QueryError Supply} (hl : Starts c l x) (hr : Starts c r y)
    (j : EquiJoin κ) : Starts c (.mergeJoin j l r) (merged j l r x y) := by
  cases x with
  | error err =>
    intro op
    cases op with
    | mergeJoin life st left right =>
      obtain ⟨left', e₁⟩ := hl left
      exact ⟨.mergeJoin life st left' right, by rw [Operator.start, e₁]⟩
  | ok sl =>
    cases y with
    | error err =>
      intro op
      cases op with
      | mergeJoin life st left right =>
        obtain ⟨left', e₁, -⟩ := hl left
        obtain ⟨right', e₂⟩ := hr right
        exact ⟨.mergeJoin life st left' right', by rw [Operator.start, e₁]; simp only [e₂]⟩
    | ok sr =>
      cases hfold : sl.fold (takeKeyed (leftKeyOf j l)) [] with
      | error err =>
        simp only [merged, bind, Except.bind, hfold]
        intro op
        cases op with
        | mergeJoin life st left right =>
          obtain ⟨left', e₁, hs₁⟩ := hl left
          obtain ⟨right', e₂, -⟩ := hr right
          obtain ⟨ls, left'', e₃⟩ := drain_error hs₁ (Nat.lt_succ_of_le hs₁.length_le) hfold
          refine ⟨.mergeJoin life st left'' right', ?_⟩
          rw [Operator.start, e₁]
          unfold leftKeyOf keyOf at e₃
          simp only [e₂, e₃]
      | ok ls =>
        cases hfold' : sr.fold (takeKeyed (rightKeyOf j r)) [] with
        | error err =>
          simp only [merged, bind, Except.bind, hfold, hfold']
          intro op
          cases op with
          | mergeJoin life st left right =>
            obtain ⟨left', e₁, hs₁⟩ := hl left
            obtain ⟨right', e₂, hs₂⟩ := hr right
            obtain ⟨left'', e₃⟩ := drain_ok hs₁ (Nat.lt_succ_of_le hs₁.length_le) hfold
            obtain ⟨rs, right'', e₄⟩ := drain_error hs₂ (Nat.lt_succ_of_le hs₂.length_le) hfold'
            refine ⟨.mergeJoin life { st with leftRows := sortKeyed ls } left'' right'', ?_⟩
            rw [Operator.start, e₁]
            unfold leftKeyOf keyOf at e₃
            unfold rightKeyOf keyOf at e₄
            simp only [e₂, e₃, e₄]
        | ok rs =>
          simp only [merged, bind, Except.bind, hfold, hfold']
          intro op
          cases op with
          | mergeJoin life st left right =>
            obtain ⟨left', e₁, hs₁⟩ := hl left
            obtain ⟨right', e₂, hs₂⟩ := hr right
            obtain ⟨left'', e₃⟩ := drain_ok hs₁ (Nat.lt_succ_of_le hs₁.length_le) hfold
            obtain ⟨right'', e₄⟩ := drain_ok hs₂ (Nat.lt_succ_of_le hs₂.length_le) hfold'
            have hready : (MergeState.ready (sortKeyed ls) (sortKeyed rs)).Sound :=
              fun x hx => by cases hx
            refine ⟨.mergeJoin life.start (.ready (sortKeyed ls) (sortKeyed rs))
              (Operator.close l left'') (Operator.close r right''), ?_, mergeJoin_supplies rfl hready⟩
            rw [Operator.start, e₁]
            unfold leftKeyOf keyOf at e₃
            unfold rightKeyOf keyOf at e₄
            simp only [e₂, e₃, e₄]

theorem Runs.mergeJoin (hl : Runs c l succeeds rows) (hr : Runs c r succeeds' rows')
    (j : EquiJoin κ) :
    Runs c (.mergeJoin j l r) (succeeds ∧ succeeds' ∧ HaveKeys j l r rows rows')
      (mergeRows (sortKeyed (keyedRows (leftKeyIn j l) rows))
        (sortKeyed (keyedRows (rightKeyIn j r) rows'))) := by
  obtain ⟨x, hstart, hx⟩ := hl
  obtain ⟨y, hstart', hy⟩ := hr
  refine ⟨_, hstart.mergeJoin hstart' j, fun out => ⟨fun h => ?_, ?_⟩⟩
  · obtain ⟨sl, rfl, h₁⟩ := bind_eq_ok_iff.mp h
    obtain ⟨sr, rfl, h₂⟩ := bind_eq_ok_iff.mp h₁
    obtain ⟨ks, hfold, h₃⟩ := bind_eq_ok_iff.mp h₂
    obtain ⟨ks', hfold', h₄⟩ := bind_eq_ok_iff.mp h₃
    obtain ⟨ls, rfl, hls⟩ := Supply.fold_eq_ok hfold
    obtain ⟨rs, rfl, hrs⟩ := Supply.fold_eq_ok hfold'
    obtain ⟨hsucc, rfl⟩ := (hx ls).mp rfl
    obtain ⟨hsucc', rfl⟩ := (hy rs).mp rfl
    have hkeys : HaveKeys j l r ls rs :=
      .of_ok (isOk_of_fold_takeKeyed hls) (isOk_of_fold_takeKeyed hrs)
    rw [fold_takeKeyed ls [] hkeys.leftKeyOf_eq, Except.ok.injEq] at hls
    rw [fold_takeKeyed rs [] hkeys.rightKeyOf_eq, Except.ok.injEq] at hrs
    subst hls
    subst hrs
    exact ⟨⟨hsucc, hsucc', hkeys⟩, (Supply.ofRows_inj (Except.ok.inj h₄)).symm⟩
  · rintro ⟨⟨hsucc, hsucc', hkeys⟩, rfl⟩
    rw [(hx rows).mpr ⟨hsucc, rfl⟩, (hy rows').mpr ⟨hsucc', rfl⟩, merged]
    simp only [bind, Except.bind, Supply.fold_ofRows, fold_takeKeyed rows [] hkeys.leftKeyOf_eq,
      fold_takeKeyed rows' [] hkeys.rightKeyOf_eq, List.nil_append]
    rfl

end Plan

end RelQuery
