import RelQuery.Proofs.Run.MergeRows

/-!
# Where a merge stands

Between two requests a merge has some rows of a crossing ahead of it, and behind them what is merged
out of the rest of the two inputs. Every request takes the first of these rows.
-/

namespace RelQuery

/-! ## Crossings -/

theorem drop_take_succ {α : Type} {xs : List α} {i n : Nat} (hi : i < n) (hn : n ≤ xs.length) :
    ∃ x, xs[i]? = some x ∧ (xs.take n).drop i = x :: (xs.take n).drop (i + 1) := by
  have hlt : i < (xs.take n).length := by
    rw [List.length_take]
    omega
  refine ⟨xs[i], List.getElem?_eq_getElem (by omega), ?_⟩
  rw [List.drop_eq_getElem_cons hlt, List.getElem_take]

namespace Crossing

def rows (ls rs : List Keyed) (x : Crossing) : List Row :=
  match (ls.take x.leftEnd).drop x.left with
  | [] => []
  | l :: rest =>
    ((rs.take x.rightEnd).drop x.right).map l.pair ++
      crossed rest ((rs.take x.rightEnd).drop x.rightStart)

structure Within (ls rs : List Keyed) (x : Crossing) : Prop where
  leftEnd : x.leftEnd ≤ ls.length
  rightEnd : x.rightEnd ≤ rs.length
  start : x.rightStart ≤ x.right
  right : x.right < x.rightEnd

variable {ls rs : List Keyed} {x : Crossing}

theorem rows_start (h : x.right = x.rightStart) :
    x.rows ls rs =
      crossed ((ls.take x.leftEnd).drop x.left) ((rs.take x.rightEnd).drop x.rightStart) := by
  unfold rows crossed
  rw [h]
  cases (ls.take x.leftEnd).drop x.left <;> rfl

theorem rows_over (h : ¬ x.left < x.leftEnd) : x.rows ls rs = [] := by
  unfold rows
  rw [List.drop_eq_nil_of_le (by rw [List.length_take]; omega)]

theorem rows_advance (h : x.Within ls rs) (hl : x.left < x.leftEnd) :
    ∃ l r, ls[x.left]? = some l ∧ rs[x.right]? = some r ∧
      x.rows ls rs = l.pair r :: x.advance.rows ls rs ∧ x.advance.Within ls rs := by
  obtain ⟨l, hgetl, hdropl⟩ := drop_take_succ hl h.leftEnd
  obtain ⟨r, hgetr, hdropr⟩ := drop_take_succ h.right h.rightEnd
  refine ⟨l, r, hgetl, hgetr, ?_⟩
  unfold advance
  by_cases hend : x.right + 1 = x.rightEnd
  · rw [if_pos hend]
    refine ⟨?_, h.leftEnd, h.rightEnd, Nat.le_refl _, Nat.lt_of_le_of_lt h.start h.right⟩
    have hnil : (rs.take x.rightEnd).drop (x.right + 1) = [] := by
      rw [List.drop_eq_nil_of_le]
      rw [List.length_take]
      omega
    rw [rows_start (x := { x with right := x.rightStart, left := x.left + 1 }) rfl, rows, hdropl,
      hdropr, hnil]
    rfl
  · rw [if_neg hend]
    have hstart := h.start
    have hright := h.right
    refine ⟨?_, h.leftEnd, h.rightEnd, by simp only; omega, by simp only; omega⟩
    simp only [rows, hdropl, hdropr]
    rfl

theorem length_rows_le (ls rs : List Keyed) (x : Crossing) :
    (x.rows ls rs).length ≤ ls.length * rs.length := by
  have hright : ∀ i, ((rs.take x.rightEnd).drop i).length ≤ rs.length := fun i => by
    simp only [List.length_drop, List.length_take]
    omega
  have hleft : ((ls.take x.leftEnd).drop x.left).length ≤ ls.length := by
    simp only [List.length_drop, List.length_take]
    omega
  unfold rows
  cases hd : (ls.take x.leftEnd).drop x.left with
  | nil => exact Nat.zero_le _
  | cons l rest =>
    rw [hd, List.length_cons] at hleft
    refine Nat.le_trans ?_ (Nat.mul_le_mul_right rs.length hleft)
    have hrest := Nat.mul_le_mul_left rest.length (hright x.rightStart)
    have hfirst := hright x.right
    rw [List.length_append, List.length_map, length_crossed, Nat.succ_mul]
    omega

end Crossing

/-! ## Runs -/

theorem runEnd_eq {ks rest : List Keyed} {k : Keyed} {start : Nat} (h : ks.drop start = k :: rest) :
    runEnd ks start = start + (k :: rest.takeWhile (Keyed.joins · k)).length := by
  have hself : (k.1.order k.1 == .eq) = true := by simp [Value.order_self]
  unfold runEnd
  rw [h]
  simp only [List.takeWhile_cons, hself, if_true]
  rfl

/-- From its start to its end, a run has the values equal to the first. -/
theorem drop_take_runEnd {ks rest : List Keyed} {k : Keyed} {start : Nat}
    (h : ks.drop start = k :: rest) :
    (ks.take (runEnd ks start)).drop start = k :: rest.takeWhile (Keyed.joins · k) := by
  have hsplit : k :: rest = (k :: rest.takeWhile (Keyed.joins · k)) ++
      rest.dropWhile (Keyed.joins · k) := by
    rw [List.cons_append, List.takeWhile_append_dropWhile]
  rw [runEnd_eq h, List.drop_take, Nat.add_sub_cancel_left, h]
  conv_lhs => rw [hsplit]
  exact List.take_left

theorem drop_runEnd {ks rest : List Keyed} {k : Keyed} {start : Nat}
    (h : ks.drop start = k :: rest) :
    ks.drop (runEnd ks start) = rest.dropWhile (Keyed.joins · k) := by
  have hsplit : k :: rest = (k :: rest.takeWhile (Keyed.joins · k)) ++
      rest.dropWhile (Keyed.joins · k) := by
    rw [List.cons_append, List.takeWhile_append_dropWhile]
  rw [runEnd_eq h, ← List.drop_drop, h]
  conv_lhs => rw [hsplit]
  exact List.drop_left

theorem runEnd_le {ks rest : List Keyed} {k : Keyed} {start : Nat}
    (h : ks.drop start = k :: rest) : start < runEnd ks start ∧ runEnd ks start ≤ ks.length := by
  have hlen := congrArg List.length h
  have hrun := (List.takeWhile_sublist (Keyed.joins · k) (l := rest)).length_le
  rw [runEnd_eq h]
  simp only [List.length_drop, List.length_cons] at hlen ⊢
  omega

/-! ## States -/

namespace MergeState

def ahead (st : MergeState) : List Row :=
  (match st.crossing with
    | some x => x.rows st.leftRows st.rightRows
    | none => []) ++
      mergeRows (st.leftRows.drop st.leftPosition) (st.rightRows.drop st.rightPosition)

/-- A crossing stays within the two inputs. -/
def Sound (st : MergeState) : Prop := ∀ x ∈ st.crossing, x.Within st.leftRows st.rightRows

/-- The answer to a request is the first of the rows ahead, and the others are ahead then. -/
def Hands (st : MergeState) (answer : Except QueryError (Option Row) × MergeState) : Prop :=
  match st.ahead with
  | [] => answer.1 = .ok none
  | row :: rest =>
    answer.1 = .ok (some row) ∧ answer.2.Sound ∧ answer.2.ahead = rest ∧
      answer.2.leftRows = st.leftRows ∧ answer.2.rightRows = st.rightRows

variable {st st' : MergeState} {answer : Except QueryError (Option Row) × MergeState}

theorem Hands.of_ahead_eq (h : Hands st' answer) (ha : st'.ahead = st.ahead)
    (hl : st'.leftRows = st.leftRows) (hr : st'.rightRows = st.rightRows) : Hands st answer := by
  unfold Hands at h ⊢
  rwa [ha, hl, hr] at h

theorem ahead_none (h : st.crossing = none) :
    st.ahead = mergeRows (st.leftRows.drop st.leftPosition) (st.rightRows.drop st.rightPosition) := by
  unfold ahead
  rw [h]
  rfl

theorem next_crossing {x : Crossing} (hs : st.Sound) (hx : st.crossing = some x)
    (hl : x.left < x.leftEnd) (fuel : Nat) : Hands st (next (fuel + 1) st) := by
  obtain ⟨l, r, hgetl, hgetr, hrows, hwithin⟩ := x.rows_advance (hs x hx) hl
  have hahead : st.ahead = l.pair r :: ahead { st with crossing := some x.advance } := by
    unfold ahead
    simp only [hx, hrows, List.cons_append]
  unfold Hands
  rw [hahead, next, hx]
  simp only [hl, if_true, hgetl, hgetr]
  refine ⟨rfl, fun y hy => ?_, trivial, trivial, trivial⟩
  cases hy
  exact hwithin

/-- Where two equal values stand first, a crossing of their runs is opened. -/
theorem ahead_opened {l r : Keyed} {ls rs : List Keyed} (hx : st.crossing = none)
    (hl : st.leftRows.drop st.leftPosition = l :: ls)
    (hr : st.rightRows.drop st.rightPosition = r :: rs) (heq : l.1.order r.1 = .eq) :
    ahead
      { st with
        leftPosition := runEnd st.leftRows st.leftPosition
        rightPosition := runEnd st.rightRows st.rightPosition
        crossing := some ⟨st.leftPosition, runEnd st.leftRows st.leftPosition, st.rightPosition,
          st.rightPosition, runEnd st.rightRows st.rightPosition⟩ } = st.ahead := by
  rw [ahead_none hx, hl, hr, mergeRows, heq]
  unfold ahead
  simp only [Crossing.rows_start, drop_take_runEnd hl, drop_take_runEnd hr, drop_runEnd hl,
    drop_runEnd hr]

theorem drop_eq_cons {ks : List Keyed} {k : Keyed} {i : Nat} (h : ks[i]? = some k) :
    ks.drop i = k :: ks.drop (i + 1) := by
  obtain ⟨hi, rfl⟩ := List.getElem?_eq_some_iff.mp h
  exact List.drop_eq_getElem_cons hi

theorem next_none : ∀ {fuel : Nat} {st : MergeState}, st.crossing = none →
    (st.leftRows.length - st.leftPosition) + (st.rightRows.length - st.rightPosition) + 2 ≤ fuel →
      Hands st (next fuel st)
  | 0, st, _, hf => by omega
  | fuel + 1, st, hx, hf => by
    rw [next, hx]
    simp only
    cases hl : st.leftRows[st.leftPosition]? with
    | none =>
      have hnil : st.leftRows.drop st.leftPosition = [] :=
        List.drop_eq_nil_of_le (List.getElem?_eq_none_iff.mp hl)
      unfold Hands
      rw [ahead_none hx, hnil, mergeRows]
    | some l =>
      have hdropl := drop_eq_cons hl
      have hltl := (List.getElem?_eq_some_iff.mp hl).1
      cases hr : st.rightRows[st.rightPosition]? with
      | none =>
        have hnil : st.rightRows.drop st.rightPosition = [] :=
          List.drop_eq_nil_of_le (List.getElem?_eq_none_iff.mp hr)
        unfold Hands
        rw [ahead_none hx, hdropl, hnil, mergeRows]
      | some r =>
        have hdropr := drop_eq_cons hr
        have hltr := (List.getElem?_eq_some_iff.mp hr).1
        simp only
        cases ho : l.1.order r.1 with
        | lt =>
          let after : MergeState :=
            { st with leftPosition := st.leftPosition + 1, crossing := none }
          have hnext : Hands after (next fuel after) := next_none rfl (by simp only [after]; omega)
          refine hnext.of_ahead_eq ?_ rfl rfl
          rw [ahead_none hx, ahead_none rfl, hdropl, hdropr, mergeRows, ho]
        | gt =>
          let after : MergeState :=
            { st with rightPosition := st.rightPosition + 1, crossing := none }
          have hnext : Hands after (next fuel after) := next_none rfl (by simp only [after]; omega)
          refine hnext.of_ahead_eq ?_ rfl rfl
          rw [ahead_none hx, ahead_none rfl, hdropl, hdropr, mergeRows, ho]
        | eq =>
          obtain ⟨fuel, rfl⟩ : ∃ n, fuel = n + 1 := ⟨fuel - 1, by omega⟩
          obtain ⟨hsl, hel⟩ := runEnd_le hdropl
          obtain ⟨hsr, her⟩ := runEnd_le hdropr
          refine (next_crossing (fun y hy => ?_) rfl hsl fuel).of_ahead_eq
            (ahead_opened hx hdropl hdropr ho) rfl rfl
          cases hy
          exact ⟨hel, her, Nat.le_refl _, hsr⟩

theorem next_hands (hs : st.Sound) : Hands st (next st.rounds st) := by
  have hrounds : st.rounds = (2 * (st.leftRows.length + st.rightRows.length) + 3) + 1 := rfl
  rw [hrounds]
  cases hx : st.crossing with
  | none => exact next_none hx (by omega)
  | some x =>
    by_cases hl : x.left < x.leftEnd
    · exact next_crossing hs hx hl _
    · rw [next, hx]
      simp only [hl, if_false]
      let after : MergeState := { st with crossing := none }
      have hnext : Hands after
          (next (2 * (st.leftRows.length + st.rightRows.length) + 3) after) :=
        next_none rfl (by simp only [after]; omega)
      refine hnext.of_ahead_eq ?_ rfl rfl
      rw [ahead_none rfl, ahead, hx]
      simp only [Crossing.rows_over hl, List.nil_append, after]

theorem length_ahead_le (st : MergeState) :
    st.ahead.length ≤ 2 * (st.leftRows.length * st.rightRows.length) := by
  have hmerged : (mergeRows (st.leftRows.drop st.leftPosition)
      (st.rightRows.drop st.rightPosition)).length ≤ st.leftRows.length * st.rightRows.length := by
    refine Nat.le_trans (length_mergeRows_le _ _) (Nat.mul_le_mul ?_ ?_)
    · simp
    · simp
  unfold ahead
  rw [List.length_append]
  cases st.crossing with
  | none =>
    simp only [List.length_nil]
    omega
  | some x =>
    have := Crossing.length_rows_le st.leftRows st.rightRows x
    simp only
    omega

end MergeState

end RelQuery
