import RelQuery.Proofs.Query.Rows
import RelQuery.Proofs.Run.Supply
import RelQuery.Run.LoopJoin

/-!
# Nested loops and their rows

A join by nested loops supplies what `LoopState.supply` makes of its left input's supply and the
right rows. Between two requests it stands at one of three places: between left rows, within one, or
behind the last. Without failures the supply is the list `JoinKind.joinRows`.
-/

namespace RelQuery

namespace LoopState

section

variable (kind : JoinKind) (widths : Widths) (accept : Row → Row → Except QueryError Bool)

/-! ## The supply of a join -/

/-- The right rows that are marked as without partner, from a position on. -/
def unmatched (matched : List Bool) : Nat → List Row → List Row
  | _, [] => []
  | position, r :: rows =>
    if matched[position]? = some true then unmatched matched (position + 1) rows
    else r :: unmatched matched (position + 1) rows

/-- What the left row `l` gives with the right rows from a position on, and what comes `after`. -/
def rowSupply (l : Row) (after : List Bool → Supply) :
    Nat → List Row → List Bool → Bool → Supply
  | _, [], matched, found =>
    if kind.keepsLeft && !found then .row (l ++ Row.nulls widths.right) (after matched)
    else after matched
  | position, r :: rows, matched, found =>
    match accept l r with
    | .error e => .fail e
    | .ok true =>
      .row (l ++ r) (rowSupply l after (position + 1) rows (matched.set position true) true)
    | .ok false => rowSupply l after (position + 1) rows matched found

def endSupply (rights : List Row) (matched : List Bool) (position : Nat) : Supply :=
  .ofRows ((unmatched matched position (rights.drop position)).map (Row.nulls widths.left ++ ·))

def supply (rights : List Row) : Supply → List Bool → Supply
  | .done, matched =>
    endSupply widths rights matched (if kind.keepsRight then 0 else rights.length)
  | .fail e, _ => .fail e
  | .row l rest, matched =>
    rowSupply kind widths accept l (supply rights rest) 0 rights matched false

/-! ## Places where a join stands -/

variable {σ : Type} (pull : Pull σ) (left : σ → Nat) (c : Catalog) (rights : List Row)

inductive Stands : Supply → LoopState × σ → Prop
  | between {st : Supply} {s : σ} {matched : List Bool} {position : Nat} {found : Bool} :
    Supplies pull left c st s → matched.length = rights.length →
    Stands (supply kind widths accept rights st matched)
      (⟨rights, matched, none, position, found, none⟩, s)
  | within {st : Supply} {s : σ} {matched : List Bool} {l : Row} {position : Nat} {found : Bool} :
    Supplies pull left c st s → matched.length = rights.length →
    Stands
      (rowSupply kind widths accept l (supply kind widths accept rights st) position
        (rights.drop position) matched found)
      (⟨rights, matched, some l, position, found, none⟩, s)
  | behind {s : σ} {matched : List Bool} {current : Option Row} {position at_ : Nat}
    {found : Bool} : matched.length = rights.length →
    Stands (endSupply widths rights matched at_)
      (⟨rights, matched, current, position, found, some at_⟩, s)

/-- A step of the join, its own state paired with that of its left input. -/
def paired {α : Type} (x : LoopState × Step σ α) : Step (LoopState × σ) α :=
  ⟨x.2.result, (x.1, x.2.state), x.2.catalog⟩

end

/-! ## One request -/

section

variable {kind : JoinKind} {widths : Widths} {accept : Row → Row → Except QueryError Bool}
  {σ : Type} {pull : Pull σ} {left : σ → Nat} {c : Catalog} {rights : List Row}

theorem findUnmatched_eq {matched : List Bool} : ∀ {position : Nat} {rows : List Row},
    position + rows.length ≤ matched.length →
      (∃ p, findUnmatched matched position rows = (.ok none, p) ∧
        unmatched matched position rows = []) ∨
      ∃ k r, findUnmatched matched position rows = (.ok (some r), position + k + 1) ∧
        unmatched matched position rows =
          r :: unmatched matched (position + k + 1) (rows.drop (k + 1))
  | position, [], _ => .inl ⟨position, rfl, rfl⟩
  | position, r :: rows, h => by
    rw [List.length_cons] at h
    have hlt : position < matched.length := by omega
    rw [findUnmatched, unmatched, List.getElem?_eq_getElem hlt]
    cases matched[position] with
    | false => exact .inr ⟨0, r, rfl, by simp⟩
    | true =>
      simp only [if_true]
      have hrest : position + 1 + rows.length ≤ matched.length := by omega
      rcases findUnmatched_eq hrest with h' | ⟨k, r', h₁, h₂⟩
      · exact .inl h'
      · refine .inr ⟨k + 1, r', ?_, ?_⟩
        · rw [h₁]; congr 1; omega
        · rw [h₂, List.drop_succ_cons]; congr 2; omega

theorem next_behind {s : σ} {matched : List Bool} {current : Option Row}
    {position at_ : Nat} {found : Bool} (hm : matched.length = rights.length) (fuel : Nat) :
    Answers
      (paired (next kind widths accept pull (fuel + 1)
        ⟨rights, matched, current, position, found, some at_⟩ s c)) c
      (Stands kind widths accept pull left c rights) (endSupply widths rights matched at_) := by
  rw [next, endSupply]
  simp only
  by_cases h : at_ ≤ rights.length
  · have hbound : at_ + (rights.drop at_).length ≤ matched.length := by
      rw [List.length_drop]; omega
    rcases findUnmatched_eq hbound with ⟨p, h₁, h₂⟩ | ⟨k, r, h₁, h₂⟩
    · simp only [h₁, h₂]
      exact .done _ rfl
    · simp only [h₁, h₂, List.drop_drop]
      refine .row _ _ _ rfl ?_
      exact Stands.behind hm
  · rw [List.drop_eq_nil_of_le (by omega)]
    exact .done _ rfl

/-- Comparing goes on to the first partner, or to the end of the right rows. -/
theorem rowSupply_findPartner {l : Row} {after : List Bool → Supply} {matched : List Bool}
    {found : Bool} : ∀ {rows : List Row} {position : Nat}, rights.drop position = rows →
      match findPartner (accept l) position rows with
      | (.error e, _) =>
        rowSupply kind widths accept l after position rows matched found = .fail e
      | (.ok (some (i, r)), p) =>
        p = i + 1 ∧ i < rights.length ∧
          rowSupply kind widths accept l after position rows matched found =
            .row (l ++ r) (rowSupply kind widths accept l after p (rights.drop p)
              (matched.set i true) true)
      | (.ok none, _) =>
        rowSupply kind widths accept l after position rows matched found =
          if kind.keepsLeft && !found then .row (l ++ Row.nulls widths.right) (after matched)
          else after matched
  | [], position, h => by simp [findPartner, rowSupply]
  | r :: rows, position, h => by
    have hlt : position < rights.length := by
      have := congrArg List.length h
      rw [List.length_drop, List.length_cons] at this
      omega
    have hrows : rights.drop (position + 1) = rows := by
      rw [← List.drop_drop, h, List.drop_succ_cons, List.drop_zero]
    rw [findPartner]
    simp only [rowSupply]
    cases accept l r with
    | error e => rfl
    | ok b =>
      cases b with
      | true => exact ⟨rfl, hlt, by rw [hrows]⟩
      | false => exact rowSupply_findPartner hrows

/-- Within a left row, where it is known how the join goes on between rows. -/
theorem next_within {st : Supply} {s : σ} {matched : List Bool} {l : Row} {position : Nat}
    {found : Bool} {fuel : Nat} (hs : Supplies pull left c st s)
    (hm : matched.length = rights.length)
    (hgo : ∀ position found, Answers
      (paired (next kind widths accept pull fuel ⟨rights, matched, none, position, found, none⟩ s c))
      c (Stands kind widths accept pull left c rights)
      (supply kind widths accept rights st matched)) :
    Answers
      (paired (next kind widths accept pull (fuel + 1)
        ⟨rights, matched, some l, position, found, none⟩ s c)) c
      (Stands kind widths accept pull left c rights)
      (rowSupply kind widths accept l (supply kind widths accept rights st) position
        (rights.drop position) matched found) := by
  have key := @rowSupply_findPartner kind widths accept rights l
    (supply kind widths accept rights st) matched found _ position rfl
  rw [next]
  simp only
  generalize findPartner (accept l) position (rights.drop position) = x at key ⊢
  rcases x with ⟨e | _ | ⟨i, r⟩, p⟩
  · simp only at key ⊢
    rw [key]
    exact .fail e _ rfl
  · simp only at key ⊢
    rw [key]
    by_cases hk : (kind.keepsLeft && !found) = true
    · rw [if_pos hk, if_pos hk]
      exact .row _ _ _ rfl (Stands.between hs hm)
    · rw [if_neg hk, if_neg hk]
      exact hgo p found
  · obtain ⟨rfl, hi, hrow⟩ := key
    simp only
    rw [hrow, if_pos (hm ▸ hi)]
    exact .row _ _ _ rfl (Stands.within hs (by rw [List.length_set, hm]))

theorem next_between {st : Supply} {s : σ} {matched : List Bool} {position : Nat} {found : Bool}
    {fuel : Nat} (hs : Supplies pull left c st s) (hm : matched.length = rights.length)
    (hf : 2 * st.length + 2 ≤ fuel) :
    Answers
      (paired (next kind widths accept pull fuel
        ⟨rights, matched, none, position, found, none⟩ s c)) c
      (Stands kind widths accept pull left c rights)
      (supply kind widths accept rights st matched) := by
  induction hs generalizing matched position found fuel with
  | done s s' e =>
    obtain ⟨fuel, rfl⟩ : ∃ k, fuel = k + 1 + 1 := ⟨fuel - 2, by omega⟩
    rw [next, supply]
    simp only [e]
    exact next_behind hm fuel
  | fail err s s' e =>
    obtain ⟨fuel, rfl⟩ : ∃ k, fuel = k + 1 := ⟨fuel - 1, by omega⟩
    rw [next, supply]
    simp only [e]
    exact .fail err _ rfl
  | row l rest s s' _ e hrest ih =>
    rw [Supply.length] at hf
    obtain ⟨fuel, rfl⟩ : ∃ k, fuel = k + 1 + 1 := ⟨fuel - 2, by omega⟩
    rw [next, supply]
    simp only [e]
    exact next_within hrest hm fun position found => ih hm (by omega)

theorem Stands.answers {st : Supply} {x : LoopState × σ} {fuel : Nat}
    (h : Stands kind widths accept pull left c rights st x) (hf : 2 * left x.2 + 4 ≤ fuel) :
    Answers (paired (next kind widths accept pull fuel x.1 x.2 c)) c
      (Stands kind widths accept pull left c rights) st := by
  obtain ⟨fuel, rfl⟩ : ∃ k, fuel = k + 1 := ⟨fuel - 1, by omega⟩
  cases h with
  | between hs hm =>
    have := hs.length_le
    simp only at hf
    exact next_between hs hm (by omega)
  | within hs hm =>
    have := hs.length_le
    simp only at hf
    exact next_within hs hm fun position found => next_between hs hm (by omega)
  | behind hm => exact next_behind hm fuel

/-! ## How long a supply is -/

theorem length_unmatched_le (matched : List Bool) :
    ∀ (position : Nat) (rows : List Row), (unmatched matched position rows).length ≤ rows.length
  | _, [] => Nat.le_refl _
  | position, r :: rows => by
    have ih := length_unmatched_le matched (position + 1) rows
    rw [unmatched]
    split <;> simp only [List.length_cons] <;> omega

theorem length_endSupply_le (matched : List Bool) (position : Nat) :
    (endSupply widths rights matched position).length ≤ rights.length := by
  rw [endSupply, Supply.length_ofRows, List.length_map]
  have := length_unmatched_le matched position (rights.drop position)
  rw [List.length_drop] at this
  omega

theorem length_rowSupply_le {l : Row} {after : List Bool → Supply} {k : Nat}
    (h : ∀ matched, (after matched).length ≤ k) :
    ∀ (rows : List Row) (position : Nat) (matched : List Bool) (found : Bool),
      (rowSupply kind widths accept l after position rows matched found).length ≤
        rows.length + 1 + k
  | [], position, matched, found => by
    have := h matched
    rw [rowSupply]
    split <;> simp only [Supply.length, List.length_nil] <;> omega
  | r :: rows, position, matched, found => by
    have ih := length_rowSupply_le (l := l) h rows (position + 1)
    rw [rowSupply]
    split
    · exact Nat.zero_le _
    · have := ih (matched.set position true) true
      simp only [Supply.length, List.length_cons]; omega
    · have := ih matched found
      rw [List.length_cons]; omega

theorem length_supply_le : ∀ (st : Supply) (matched : List Bool),
    (supply kind widths accept rights st matched).length ≤
      st.length * (rights.length + 1) + rights.length
  | .done, matched => by
    rw [supply, Supply.length, Nat.zero_mul, Nat.zero_add]
    exact length_endSupply_le matched _
  | .fail _, _ => Nat.zero_le _
  | .row l rest, matched => by
    rw [supply, Supply.length, Nat.succ_mul]
    refine Nat.le_trans (length_rowSupply_le (length_supply_le rest) rights 0 matched false) ?_
    omega

theorem Stands.length_le {st : Supply} {x : LoopState × σ}
    (h : Stands kind widths accept pull left c rights st x) :
    st.length ≤ (left x.2 + 2) * (x.1.rightRows.length + 1) := by
  have bound : ∀ {n m : Nat}, n ≤ m → n * (rights.length + 1) + 2 * rights.length + 2 ≤
      (m + 2) * (rights.length + 1) := by
    intro n m hnm
    have := Nat.mul_le_mul_right (rights.length + 1) hnm
    rw [Nat.add_mul]
    omega
  cases h with
  | between hs _ =>
    refine Nat.le_trans (length_supply_le _ _) (Nat.le_trans ?_ (bound hs.length_le))
    omega
  | within hs _ =>
    refine Nat.le_trans (length_rowSupply_le (length_supply_le _) _ _ _ _)
      (Nat.le_trans ?_ (bound hs.length_le))
    rw [List.length_drop]
    omega
  | behind _ =>
    refine Nat.le_trans (length_endSupply_le _ _) (Nat.le_trans ?_ (bound (Nat.zero_le _)))
    omega

/-! ## The rows of a join without failures -/

theorem unmatched_map {f : Row → Bool} : ∀ (rows seen : List Row),
    unmatched ((seen ++ rows).map f) seen.length rows = rows.filter (!f ·)
  | [], _ => rfl
  | r :: rows, seen => by
    have ih := unmatched_map (f := f) rows (seen ++ [r])
    rw [List.append_assoc, List.singleton_append, List.length_append, List.length_singleton] at ih
    have hget : ((seen ++ r :: rows).map f)[seen.length]? = some (f r) := by simp
    rw [unmatched, hget, ih, List.filter_cons]
    cases f r <;> rfl

section

variable {meets : Row → Row → Bool}

theorem rowSupply_ofRows {l : Row} {f : Row → Bool} {after : List Bool → Supply}
    {out : List Row} : ∀ (rows seen : List Row) (found : Bool),
      (∀ r ∈ rows, accept l r = .ok (meets l r)) →
      after ((seen ++ rows).map fun r => f r || meets l r) = .ofRows out →
      rowSupply kind widths accept l after seen.length rows
          (seen.map (fun r => f r || meets l r) ++ rows.map f) found =
        .ofRows ((rows.filter (meets l)).map (l ++ ·) ++
          (if kind.keepsLeft && !(found || rows.any (meets l)) then
            [l ++ Row.nulls widths.right] else []) ++ out)
  | [], seen, found, _, hafter => by
    rw [List.append_nil] at hafter
    rw [rowSupply, List.map_nil, List.append_nil, hafter]
    simp only [List.any_nil, Bool.or_false]
    by_cases hk : (kind.keepsLeft && !found) = true
    · rw [if_pos hk, if_pos hk]; rfl
    · rw [if_neg hk, if_neg hk]; rfl
  | r :: rows, seen, found, haccept, hafter => by
    have hafter' : after (((seen ++ [r]) ++ rows).map fun r => f r || meets l r) = .ofRows out := by
      rw [List.append_assoc]; exact hafter
    have ih := fun found => rowSupply_ofRows rows (seen ++ [r]) found
      (fun r' hr' => haccept r' (List.mem_cons_of_mem r hr')) hafter'
    rw [rowSupply, haccept r List.mem_cons_self, List.filter_cons, List.any_cons]
    -- the flag of `r` is what it was, or set, and so the flags up to `r` are as claimed
    rw [List.length_append, List.length_singleton, List.map_append, List.append_assoc] at ih
    cases hm : meets l r with
    | true =>
      have hset : (seen.map (fun r => f r || meets l r) ++ (r :: rows).map f).set seen.length true =
          seen.map (fun r => f r || meets l r) ++
            ([r].map (fun r => f r || meets l r) ++ rows.map f) := by
        rw [List.set_append_right _ _ (by simp)]
        simp [hm]
      simp only [hset, ih true, Bool.true_or, Bool.or_true, if_true]
      rfl
    | false =>
      have hkeep : (r :: rows).map f = [r].map (fun r => f r || meets l r) ++ rows.map f := by
        simp [hm]
      simp only [hkeep, ih found, Bool.false_or, Bool.false_eq_true, if_false]

theorem supply_ofRows : ∀ (ls : List Row) (f : Row → Bool),
    (∀ l ∈ ls, ∀ r ∈ rights, accept l r = .ok (meets l r)) →
      supply kind widths accept rights (.ofRows ls) (rights.map f) =
        .ofRows (ls.flatMap (kind.rowsOf widths.right meets rights) ++
          if kind.keepsRight then
            (rights.filter fun r => !(f r || ls.any (meets · r))).map (Row.nulls widths.left ++ ·)
          else [])
  | [], f, _ => by
    rw [Supply.ofRows, supply, endSupply]
    cases kind.keepsRight with
    | true =>
      have := unmatched_map (f := f) rights []
      simp only [List.nil_append, List.length_nil] at this
      simp [this]
    | false => simp [unmatched]
  | l :: ls, f, h => by
    have ih := supply_ofRows ls (fun r => f r || meets l r)
      fun l' hl' => h l' (List.mem_cons_of_mem l hl')
    rw [Supply.ofRows, supply]
    refine (rowSupply_ofRows rights [] false (h l List.mem_cons_self) ih).trans ?_
    simp only [List.flatMap_cons, List.any_cons, JoinKind.rowsOf, Bool.false_or, Bool.or_assoc,
      List.append_assoc]

theorem of_rowSupply {l : Row} {after : List Bool → Supply} :
    ∀ {rows : List Row} {position : Nat} {matched : List Bool} {found : Bool} {out : List Row},
      rowSupply kind widths accept l after position rows matched found = .ofRows out →
        (∀ r ∈ rows, ∃ b, accept l r = .ok b) ∧ ∃ matched' out', after matched' = .ofRows out'
  | [], position, matched, found, out, h => by
    refine ⟨by simp, matched, ?_⟩
    rw [rowSupply] at h
    split at h
    · cases out with
      | nil => cases h
      | cons _ out => exact ⟨out, (Supply.row.inj h).2⟩
    · exact ⟨out, h⟩
  | r :: rows, position, matched, found, out, h => by
    rw [rowSupply] at h
    split at h
    · cases out <;> cases h
    · rename_i ha
      cases out with
      | nil => cases h
      | cons _ out =>
        obtain ⟨h₁, h₂⟩ := of_rowSupply (Supply.row.inj h).2
        exact ⟨List.forall_mem_cons.mpr ⟨⟨_, ha⟩, h₁⟩, h₂⟩
    · rename_i ha
      obtain ⟨h₁, h₂⟩ := of_rowSupply h
      exact ⟨List.forall_mem_cons.mpr ⟨⟨_, ha⟩, h₁⟩, h₂⟩

/-- A join that does not fail has compared every left row with every right row. -/
theorem of_supply : ∀ {st : Supply} {matched : List Bool} {out : List Row},
    supply kind widths accept rights st matched = .ofRows out →
      ∃ ls, st = .ofRows ls ∧ ∀ l ∈ ls, ∀ r ∈ rights, ∃ b, accept l r = .ok b
  | .done, _, _, _ => ⟨[], rfl, by simp⟩
  | .fail _, _, out, h => by cases out <;> cases h
  | .row l rest, _, _, h => by
    obtain ⟨h₁, matched', out', h₂⟩ := of_rowSupply h
    obtain ⟨ls, rfl, hls⟩ := of_supply h₂
    exact ⟨l :: ls, rfl, List.forall_mem_cons.mpr ⟨h₁, hls⟩⟩

end

end

end LoopState

end RelQuery
