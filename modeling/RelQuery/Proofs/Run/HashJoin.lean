import RelQuery.Proofs.Run.Supply
import RelQuery.Run.HashJoin

/-!
# Hashing and its rows

A bucket holds the right rows of one key in their order. So a join by hashing supplies, for every
left row, the right rows whose key is the same: it filters as nested loops do, by keys instead of a
condition.
-/

namespace RelQuery

/-! ## Buckets -/

/-- Two values that are not null and have one key. -/
def Key.joins (v w : Value) : Bool :=
  match Key.forJoin v with
  | some key => Key.forJoin w == some key
  | none => false

theorem Key.joins_iff {v w : Value} :
    Key.joins v w = true ↔ v.isNull = false ∧ w.isNull = false ∧ forJoin v = forJoin w := by
  unfold joins forJoin
  cases v.isNull with
  | true => simp
  | false => cases w.isNull <;> simp [@eq_comm _ (ofValue w)]

namespace Buckets

theorem lookup_insertInto (key k : List UInt8) (row : Row) :
    ∀ entries : List (List UInt8 × List Row),
      (insertInto key row entries).lookup k =
        if k = key then some (((entries.lookup key).getD []) ++ [row]) else entries.lookup k
  | [] => by
    by_cases hk : k = key
    · simp [insertInto, hk]
    · simp [insertInto, hk]
  | (k', rows) :: entries => by
    have ih := lookup_insertInto key k row entries
    rw [insertInto]
    by_cases h' : k' = key
    · subst h'
      by_cases hk : k = k'
      · simp [hk]
      · simp [hk, List.lookup_cons, beq_false_of_ne hk]
    · rw [if_neg h', List.lookup_cons, List.lookup_cons, List.lookup_cons, ih]
      by_cases hk : k = key
      · have hne : (key == k') = false := beq_false_of_ne (Ne.symm h')
        subst hk
        simp [hne]
      · simp [hk]

theorem get_insert (b : Buckets) (key k : List UInt8) (row : Row) :
    (b.insert key row).get k = if k = key then b.get key ++ [row] else b.get k := by
  unfold get insert
  simp only [lookup_insertInto]
  by_cases hk : k = key
  · simp [hk]
  · simp [hk]

theorem get_empty (k : List UInt8) : empty.get k = [] := rfl

theorem length_get_le (b : Buckets) (k : List UInt8) : (b.get k).length ≤ b.size := by
  unfold get size
  generalize b.entries = entries
  induction entries with
  | nil => simp
  | cons x entries ih =>
    rw [List.lookup_cons, List.map_cons, List.foldr_cons]
    by_cases hk : (k == x.1) = true
    · simp [hk]
    · simp only [hk]
      omega

variable {keyOf : Row → Except QueryError Value} {f : Row → Value}

theorem take_ok (b : Buckets) {row : Row} (h : keyOf row = .ok (f row)) :
    ∃ b', take keyOf b row = .ok b' ∧
      ∀ key, b'.get key =
        b.get key ++ [row].filter fun r => Key.forJoin (f r) == some key := by
  unfold take
  simp only [h, bind, Except.bind]
  cases hk : Key.forJoin (f row) with
  | none => exact ⟨b, rfl, fun key => by simp [hk]⟩
  | some k =>
    refine ⟨b.insert k row, rfl, fun key => ?_⟩
    rw [get_insert]
    by_cases heq : key = k
    · simp [hk, heq]
    · simp [hk, heq, Ne.symm heq]

theorem fold_take : ∀ (rs : List Row) (b : Buckets), (∀ r ∈ rs, keyOf r = .ok (f r)) →
    ∃ b', rs.foldlM (take keyOf) b = .ok b' ∧
      ∀ key, b'.get key = b.get key ++ rs.filter fun r => Key.forJoin (f r) == some key
  | [], b, _ => ⟨b, rfl, fun key => by simp⟩
  | r :: rs, b, h => by
    obtain ⟨b₁, h₁, hget₁⟩ := take_ok b (h r List.mem_cons_self)
    obtain ⟨b₂, h₂, hget₂⟩ := fold_take rs b₁ fun r' hr' => h r' (List.mem_cons_of_mem r hr')
    refine ⟨b₂, ?_, fun key => ?_⟩
    · rw [List.foldlM_cons, h₁]
      exact h₂
    · rw [hget₂, hget₁, List.append_assoc, ← List.filter_append]
      rfl

theorem isOk_of_fold_take : ∀ {rs : List Row} {b b' : Buckets},
    rs.foldlM (take keyOf) b = .ok b' → ∀ r ∈ rs, ∃ v, keyOf r = .ok v
  | [], _, _, _ => by simp
  | r :: rs, b, b', h => by
    rw [List.foldlM_cons] at h
    cases hk : keyOf r with
    | error e =>
      unfold take at h
      simp only [hk] at h
      cases h
    | ok v =>
      have htake : ∃ b₁, take keyOf b r = .ok b₁ := by
        obtain ⟨b₁, h₁, -⟩ := take_ok (f := fun _ => v) b hk
        exact ⟨b₁, h₁⟩
      obtain ⟨b₁, h₁⟩ := htake
      rw [h₁] at h
      exact List.forall_mem_cons.mpr ⟨⟨v, hk⟩, isOk_of_fold_take h⟩

end Buckets

/-! ## The supply of a join -/

namespace HashState

def partners (b : Buckets) (l : Row) (v : Value) : List Row :=
  match Key.forJoin v with
  | some key => (b.get key).map (l ++ ·)
  | none => []

def supply (keyOf : Row → Except QueryError Value) (b : Buckets) : Supply → Supply
  | .done => .done
  | .fail e => .fail e
  | .row l rest =>
    match keyOf l with
    | .error e => .fail e
    | .ok v => (supply keyOf b rest).behind (partners b l v)

def ahead (st : HashState) : List Row :=
  match st.current with
  | some (l, key) => ((st.buckets.get key).drop st.position).map (l ++ ·)
  | none => []

theorem partner?_eq (st : HashState) : st.partner? = st.ahead.head? := by
  unfold partner? ahead
  cases st.current with
  | none => rfl
  | some x => simp

theorem ahead_next (st : HashState) :
    ahead { st with position := st.position + 1 } = st.ahead.tail := by
  unfold ahead
  cases st.current with
  | none => rfl
  | some x => simp

theorem length_ahead_le (st : HashState) : st.ahead.length ≤ st.buckets.size := by
  unfold ahead
  cases st.current with
  | none => exact Nat.zero_le _
  | some x =>
    have := st.buckets.length_get_le x.2
    simp only [List.length_map, List.length_drop]
    omega

theorem ahead_ready (b : Buckets) (l : Row) (v : Value) :
    ahead ⟨b, (Key.forJoin v).map (l, ·), 0⟩ = partners b l v := by
  unfold ahead partners
  cases Key.forJoin v <;> rfl

variable {σ : Type} {keyOf : Row → Except QueryError Value} {pull : Pull σ} {left : σ → Nat}
  {c : Catalog} {b : Buckets}

/-- The supply that a state leads to: the rest for the current row, then the left rows to come. -/
inductive Stands (keyOf : Row → Except QueryError Value) (pull : Pull σ) (left : σ → Nat)
    (c : Catalog) (b : Buckets) : Supply → HashState × σ → Prop
  | mk {st : Supply} {h : HashState} {s : σ} : h.buckets = b → Supplies pull left c st s →
    Stands keyOf pull left c b ((supply keyOf b st).behind h.ahead) (h, s)

theorem stands_ready {st : Supply} {s : σ} (h : Supplies pull left c st s) :
    Stands keyOf pull left c b (supply keyOf b st) (ready b, s) :=
  Stands.mk (h := ready b) rfl h

def paired {α : Type} (x : HashState × Step σ α) : Step (HashState × σ) α :=
  ⟨x.2.result, (x.1, x.2.state), x.2.catalog⟩

theorem next_ahead {st : Supply} {s : σ} (hs : Supplies pull left c st s) {h : HashState}
    (hb : h.buckets = b) {row : Row} {rows : List Row} (ha : h.ahead = row :: rows) (fuel : Nat) :
    Answers (paired (next keyOf pull (fuel + 1) h s c)) c (Stands keyOf pull left c b)
      ((supply keyOf b st).behind h.ahead) := by
  have hrest : Stands keyOf pull left c b _ ({ h with position := h.position + 1 }, s) := .mk hb hs
  rw [ahead_next, ha] at hrest
  rw [next, partner?_eq, ha]
  exact .row _ _ _ rfl hrest

theorem next_answers {st : Supply} {s : σ} (hs : Supplies pull left c st s) {fuel : Nat}
    (hf : st.length < fuel) {h : HashState} (hb : h.buckets = b) :
    Answers (paired (next keyOf pull fuel h s c)) c (Stands keyOf pull left c b)
      ((supply keyOf b st).behind h.ahead) := by
  induction hs generalizing fuel h with
  | done s s' e =>
    obtain ⟨fuel, rfl⟩ := Nat.exists_eq_add_one_of_ne_zero (by omega : fuel ≠ 0)
    cases ha : h.ahead with
    | cons row rows => exact ha ▸ next_ahead (.done s s' e) hb ha fuel
    | nil =>
      rw [next, partner?_eq, ha]
      simp only [List.head?_nil, e]
      exact .done _ rfl
  | fail err s s' e =>
    obtain ⟨fuel, rfl⟩ := Nat.exists_eq_add_one_of_ne_zero (by omega : fuel ≠ 0)
    cases ha : h.ahead with
    | cons row rows => exact ha ▸ next_ahead (.fail err s s' e) hb ha fuel
    | nil =>
      rw [next, partner?_eq, ha]
      simp only [List.head?_nil, e]
      exact .fail err _ rfl
  | row l rest s s' hlt e hrest ih =>
    obtain ⟨fuel, rfl⟩ := Nat.exists_eq_add_one_of_ne_zero (by omega : fuel ≠ 0)
    cases ha : h.ahead with
    | cons row rows => exact ha ▸ next_ahead (.row l rest s s' hlt e hrest) hb ha fuel
    | nil =>
      rw [next, partner?_eq, ha]
      simp only [List.head?_nil, e, supply, Supply.behind]
      cases hk : keyOf l with
      | error err => exact .fail err _ rfl
      | ok v =>
        subst hb
        have hnext := ih (h := { h with current := (Key.forJoin v).map (l, ·), position := 0 })
          (by simpa [Supply.length] using hf) rfl
        have hready := ahead_ready h.buckets l v
        unfold ahead at hnext hready
        simp only at hnext hready ⊢
        rwa [hready] at hnext

theorem Stands.answers {st : Supply} {x : HashState × σ} {fuel : Nat}
    (h : Stands keyOf pull left c b st x) (hf : left x.2 < fuel) :
    Answers (paired (next keyOf pull fuel x.1 x.2 c)) c (Stands keyOf pull left c b) st := by
  cases h with
  | mk hb hs =>
    have := hs.length_le
    simp only at hf
    exact next_answers hs (by omega) hb

/-! ## How long a supply is -/

theorem length_partners_le (b : Buckets) (l : Row) (v : Value) :
    (partners b l v).length ≤ b.size := by
  rw [← ahead_ready]
  exact length_ahead_le _

theorem length_supply_le (keyOf : Row → Except QueryError Value) (b : Buckets) :
    ∀ st : Supply, (supply keyOf b st).length ≤ st.length * b.size
  | .done | .fail _ => Nat.zero_le _
  | .row l rest => by
    have ih := length_supply_le keyOf b rest
    rw [supply, Supply.length, Nat.succ_mul]
    cases keyOf l with
    | error e => exact Nat.zero_le _
    | ok v =>
      have := length_partners_le b l v
      simp only [Supply.length_behind]
      omega

theorem Stands.length_le {st : Supply} {x : HashState × σ}
    (h : Stands keyOf pull left c b st x) : st.length ≤ (left x.2 + 1) * x.1.buckets.size := by
  cases h with
  | mk hb hs =>
    rename_i st h s
    have hahead := h.length_ahead_le
    have hmul := Nat.mul_le_mul_right h.buckets.size hs.length_le
    have hsupply := length_supply_le keyOf b st
    rw [← hb] at hsupply
    simp only [Supply.length_behind, Nat.succ_mul, ← hb]
    omega

/-! ## The rows of a join without failures -/

theorem supply_ofRows {f : Row → Value} : ∀ {ls : List Row}, (∀ l ∈ ls, keyOf l = .ok (f l)) →
    supply keyOf b (.ofRows ls) = .ofRows (ls.flatMap fun l => partners b l (f l))
  | [], _ => rfl
  | l :: ls, h => by
    have ih := supply_ofRows fun l' hl' => h l' (List.mem_cons_of_mem l hl')
    rw [Supply.ofRows, supply, h l List.mem_cons_self]
    simp only
    rw [ih, Supply.behind_ofRows, List.flatMap_cons]

theorem of_supply : ∀ {st : Supply} {out : List Row}, supply keyOf b st = .ofRows out →
    ∃ ls, st = .ofRows ls ∧ ∀ l ∈ ls, ∃ v, keyOf l = .ok v
  | .done, _, _ => ⟨[], rfl, by simp⟩
  | .fail _, out, h => by cases out <;> cases h
  | .row l rest, out, h => by
    rw [supply] at h
    cases hk : keyOf l with
    | error e =>
      rw [hk] at h
      cases out <;> cases h
    | ok v =>
      rw [hk] at h
      obtain ⟨out', h'⟩ := Supply.of_behind h
      obtain ⟨ls, rfl, hls⟩ := of_supply h'
      exact ⟨l :: ls, rfl, List.forall_mem_cons.mpr ⟨⟨v, hk⟩, hls⟩⟩

theorem partners_eq {g : Row → Value} {rs : List Row}
    (h : ∀ key, b.get key = rs.filter fun r => Key.forJoin (g r) == some key) (l : Row) (v : Value) :
    partners b l v = (rs.filter fun r => Key.joins v (g r)).map (l ++ ·) := by
  unfold partners Key.joins
  cases hk : Key.forJoin v with
  | none => simp
  | some key => simp only [h]

end HashState

end RelQuery
