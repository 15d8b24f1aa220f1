import RelQuery.Run.Pull

/-!
# What a source supplies

The rows that a source hands out one by one, with the end or the failure behind them, are its
supply. `Supplies` ties a source in some state to its supply, over tables that it leaves alone, and
the loops over a source are read off its supply: draining folds it, pulling accepted or mapped rows
gives another supply.
-/

namespace RelQuery

inductive Supply
  | done
  | fail (e : QueryError)
  | row (r : Row) (rest : Supply)

namespace Supply

def length : Supply → Nat
  | done | fail _ => 0
  | row _ rest => rest.length + 1

def ofRows : List Row → Supply
  | [] => done
  | r :: rs => row r (ofRows rs)

def behind (st : Supply) : List Row → Supply
  | [] => st
  | r :: rs => row r (st.behind rs)

def rows : Supply → Except QueryError (List Row)
  | done => .ok []
  | fail e => .error e
  | row r rest => do return r :: (← rest.rows)

def fold {β : Type} (take : β → Row → Except QueryError β) : β → Supply → Except QueryError β
  | b, done => .ok b
  | _, fail e => .error e
  | b, row r rest => do rest.fold take (← take b r)

def accepted (accept : Row → Except QueryError Bool) : Supply → Supply
  | done => done
  | fail e => fail e
  | row r rest =>
    match accept r with
    | .error e => fail e
    | .ok true => row r (rest.accepted accept)
    | .ok false => rest.accepted accept

def mapped (f : Row → Except QueryError Row) : Supply → Supply
  | done => done
  | fail e => fail e
  | row r rest =>
    match f r with
    | .error e => fail e
    | .ok r => row r (rest.mapped f)

end Supply

/-! ## Sources and their supplies -/

section

variable {σ β : Type}

/-- One request, after which `remains` is true of the rest of the supply and the new state. -/
inductive Answers (answer : Step σ (Option Row)) (c : Catalog) (remains : Supply → σ → Prop) :
    Supply → Prop
  | done (s : σ) : answer = ⟨.ok none, s, c⟩ → Answers answer c remains .done
  | fail (e : QueryError) (s : σ) : answer = ⟨.error e, s, c⟩ → Answers answer c remains (.fail e)
  | row (r : Row) (rest : Supply) (s : σ) : answer = ⟨.ok (some r), s, c⟩ → remains rest s →
    Answers answer c remains (.row r rest)

/-- A source in a state from which it hands out this supply; `left` bounds what is to come. -/
inductive Supplies (pull : Pull σ) (left : σ → Nat) (c : Catalog) : Supply → σ → Prop
  | done (s s' : σ) : pull s c = ⟨.ok none, s', c⟩ → Supplies pull left c .done s
  | fail (e : QueryError) (s s' : σ) : pull s c = ⟨.error e, s', c⟩ →
    Supplies pull left c (.fail e) s
  | row (r : Row) (rest : Supply) (s s' : σ) : rest.length < left s →
    pull s c = ⟨.ok (some r), s', c⟩ → Supplies pull left c rest s' →
    Supplies pull left c (.row r rest) s

variable {pull : Pull σ} {left : σ → Nat} {c : Catalog}

theorem Supplies.length_le {st : Supply} {s : σ} (h : Supplies pull left c st s) :
    st.length ≤ left s := by
  cases h with
  | done | fail => exact Nat.zero_le _
  | row _ _ _ _ hlt => exact hlt

/-- A relation between supplies and states that every request preserves. -/
theorem Supplies.of_relation (rel : Supply → σ → Prop)
    (hlength : ∀ st s, rel st s → st.length ≤ left s)
    (hstep : ∀ st s, rel st s → Answers (pull s c) c rel st) :
    ∀ {st : Supply} {s : σ}, rel st s → Supplies pull left c st s := by
  intro st
  induction st with
  | done =>
    intro s h
    cases hstep _ _ h with
    | done s' e => exact .done s s' e
  | fail =>
    intro s h
    cases hstep _ _ h with
    | fail _ s' e => exact .fail _ s s' e
  | row r rest ih =>
    intro s h
    have hl := hlength _ _ h
    cases hstep _ _ h with
    | row _ _ s' e h' => exact .row r rest s s' hl e (ih h')

/-! ## Loops over a source -/

theorem drain_ok {take : β → Row → Except QueryError β} {st : Supply} {s : σ}
    (h : Supplies pull left c st s) {fuel : Nat} (hf : st.length < fuel) {b b' : β}
    (hb : st.fold take b = .ok b') : ∃ s', drain pull take fuel b s c = (b', ⟨.ok (), s', c⟩) := by
  induction h generalizing fuel b with
  | done s s' e =>
    obtain ⟨fuel, rfl⟩ := Nat.exists_eq_add_one_of_ne_zero (by omega : fuel ≠ 0)
    cases hb
    exact ⟨s', by rw [drain, e]⟩
  | fail => cases hb
  | row r rest s s' _ e _ ih =>
    obtain ⟨fuel, rfl⟩ := Nat.exists_eq_add_one_of_ne_zero (by omega : fuel ≠ 0)
    rw [Supply.fold] at hb
    cases ht : take b r with
    | error _ => rw [ht] at hb; cases hb
    | ok b₁ =>
      rw [ht] at hb
      obtain ⟨s'', e'⟩ := ih (by simpa [Supply.length] using hf) hb
      exact ⟨s'', by rw [drain, e]; simp only [ht]; exact e'⟩

theorem drain_error {take : β → Row → Except QueryError β} {st : Supply} {s : σ}
    (h : Supplies pull left c st s) {fuel : Nat} (hf : st.length < fuel) {b : β} {err : QueryError}
    (hb : st.fold take b = .error err) :
    ∃ b' s', drain pull take fuel b s c = (b', ⟨.error err, s', c⟩) := by
  induction h generalizing fuel b with
  | done => cases hb
  | fail _ s s' e =>
    obtain ⟨fuel, rfl⟩ := Nat.exists_eq_add_one_of_ne_zero (by omega : fuel ≠ 0)
    cases hb
    exact ⟨b, s', by rw [drain, e]⟩
  | row r rest s s' _ e _ ih =>
    obtain ⟨fuel, rfl⟩ := Nat.exists_eq_add_one_of_ne_zero (by omega : fuel ≠ 0)
    rw [Supply.fold] at hb
    cases ht : take b r with
    | error _ =>
      rw [ht] at hb
      cases hb
      exact ⟨b, s', by rw [drain, e]; simp only [ht]⟩
    | ok b₁ =>
      rw [ht] at hb
      obtain ⟨b', s'', e'⟩ := ih (by simpa [Supply.length] using hf) hb
      exact ⟨b', s'', by rw [drain, e]; simp only [ht]; exact e'⟩

/-- The supply that is left behind a row of `st.accepted accept` comes from a shorter one. -/
theorem pullAccepted_answers {accept : Row → Except QueryError Bool} {st : Supply} {s : σ}
    (h : Supplies pull left c st s) {fuel : Nat} (hf : st.length < fuel) :
    Answers (pullAccepted pull accept fuel s c) c
      (fun rest s' => ∃ st', Supplies pull left c st' s' ∧ rest = st'.accepted accept)
      (st.accepted accept) := by
  induction h generalizing fuel with
  | done s s' e =>
    obtain ⟨fuel, rfl⟩ := Nat.exists_eq_add_one_of_ne_zero (by omega : fuel ≠ 0)
    exact .done s' (by rw [pullAccepted, e])
  | fail err s s' e =>
    obtain ⟨fuel, rfl⟩ := Nat.exists_eq_add_one_of_ne_zero (by omega : fuel ≠ 0)
    exact .fail err s' (by rw [pullAccepted, e])
  | row r rest s s' _ e hrest ih =>
    obtain ⟨fuel, rfl⟩ := Nat.exists_eq_add_one_of_ne_zero (by omega : fuel ≠ 0)
    rw [Supply.accepted, pullAccepted, e]
    cases ha : accept r with
    | error err => exact .fail err s' (by simp only [ha])
    | ok b =>
      cases b with
      | true => exact .row r _ s' (by simp only [ha]) ⟨rest, hrest, rfl⟩
      | false =>
        simp only [ha]
        exact ih (by simpa [Supply.length] using hf)

theorem pullMapped_answers {f : Row → Except QueryError Row} {st : Supply} {s : σ}
    (h : Supplies pull left c st s) :
    Answers (pullMapped pull f s c) c
      (fun rest s' => ∃ st', Supplies pull left c st' s' ∧ rest = st'.mapped f) (st.mapped f) := by
  cases h with
  | done _ s' e => exact .done s' (by rw [pullMapped, e])
  | fail err _ s' e => exact .fail err s' (by rw [pullMapped, e])
  | row r rest _ s' _ e hrest =>
    rw [Supply.mapped, pullMapped, e]
    cases hf : f r with
    | error err => exact .fail err s' (by simp [hf, Except.map])
    | ok r' => exact .row r' _ s' (by simp [hf, Except.map]) ⟨rest, hrest, rfl⟩

end

/-! ## Supplies without failure -/

namespace Supply

theorem rows_eq_ok {st : Supply} : ∀ {rs : List Row}, st.rows = .ok rs ↔ st = ofRows rs := by
  induction st with
  | done => intro rs; cases rs <;> simp [rows, ofRows]
  | fail e => intro rs; cases rs <;> simp [rows, ofRows]
  | row r rest ih =>
    intro rs
    rw [rows]
    cases hr : rest.rows with
    | error e =>
      cases rs with
      | nil => simp [ofRows, bind, Except.bind]
      | cons r' rs =>
        have : rest ≠ ofRows rs := fun e' => by rw [ih.mpr e'] at hr; cases hr
        simp [ofRows, bind, Except.bind, this]
    | ok rs' =>
      have hrest := ih.mp hr
      cases rs with
      | nil => simp [ofRows, bind, Except.bind, pure, Except.pure]
      | cons r' rs =>
        have hrs : rest = ofRows rs ↔ rs' = rs := by rw [← ih, hr, Except.ok.injEq]
        simp [ofRows, bind, Except.bind, pure, Except.pure, hrs]

@[simp] theorem rows_ofRows (rs : List Row) : (ofRows rs).rows = .ok rs := rows_eq_ok.mpr rfl

theorem ofRows_inj {rs rs' : List Row} (h : ofRows rs = ofRows rs') : rs = rs' :=
  Except.ok.inj ((rows_eq_ok.mpr h).symm.trans (rows_ofRows _)) |>.symm

@[simp] theorem length_ofRows : ∀ rs : List Row, (ofRows rs).length = rs.length
  | [] => rfl
  | _ :: rs => congrArg (· + 1) (length_ofRows rs)

theorem fold_ofRows {β : Type} (take : β → Row → Except QueryError β) :
    ∀ (rs : List Row) (b : β), (ofRows rs).fold take b = rs.foldlM take b
  | [], _ => rfl
  | r :: rs, b => by
    rw [ofRows, fold, List.foldlM_cons]
    cases take b r with
    | error _ => rfl
    | ok b' => exact fold_ofRows take rs b'

/-- A fold that succeeds went over a supply without failure. -/
theorem fold_eq_ok {β : Type} {take : β → Row → Except QueryError β} {b' : β} :
    ∀ {st : Supply} {b : β}, st.fold take b = .ok b' →
      ∃ rs, st = ofRows rs ∧ rs.foldlM take b = .ok b'
  | done, _, h => ⟨[], rfl, h⟩
  | fail _, _, h => by cases h
  | row r rest, b, h => by
    rw [fold] at h
    cases ht : take b r with
    | error _ => rw [ht] at h; cases h
    | ok b₁ =>
      rw [ht] at h
      obtain ⟨rs, rfl, hrs⟩ := fold_eq_ok h
      refine ⟨r :: rs, rfl, ?_⟩
      rw [List.foldlM_cons, ht]
      exact hrs

theorem accepted_ofRows {accept : Row → Except QueryError Bool} {p : Row → Bool} :
    ∀ {rs : List Row}, (∀ r ∈ rs, accept r = .ok (p r)) →
      (ofRows rs).accepted accept = ofRows (rs.filter p)
  | [], _ => rfl
  | r :: rs, h => by
    have ih := accepted_ofRows fun r' hr' => h r' (List.mem_cons_of_mem r hr')
    rw [ofRows, accepted, h r List.mem_cons_self, List.filter_cons]
    cases p r with
    | true => exact congrArg _ ih
    | false => exact ih

theorem of_accepted {accept : Row → Except QueryError Bool} :
    ∀ {st : Supply} {out : List Row}, st.accepted accept = ofRows out →
      ∃ rs, st = ofRows rs ∧ ∀ r ∈ rs, ∃ b, accept r = .ok b
  | done, _, _ => ⟨[], rfl, by simp⟩
  | fail _, out, h => by cases out <;> cases h
  | row r rest, out, h => by
    rw [accepted] at h
    cases ha : accept r with
    | error _ => rw [ha] at h; cases out <;> cases h
    | ok b =>
      have hrest : ∃ out', rest.accepted accept = ofRows out' := by
        rw [ha] at h
        cases b with
        | false => exact ⟨out, h⟩
        | true =>
          cases out with
          | nil => cases h
          | cons r' out' => exact ⟨out', (Supply.row.inj h).2⟩
      obtain ⟨out', h'⟩ := hrest
      obtain ⟨rs, rfl, hrs⟩ := of_accepted h'
      exact ⟨r :: rs, rfl, List.forall_mem_cons.mpr ⟨⟨b, ha⟩, hrs⟩⟩

theorem mapped_ofRows {f : Row → Except QueryError Row} {g : Row → Row} :
    ∀ {rs : List Row}, (∀ r ∈ rs, f r = .ok (g r)) → (ofRows rs).mapped f = ofRows (rs.map g)
  | [], _ => rfl
  | r :: rs, h => by
    rw [ofRows, mapped, h r List.mem_cons_self]
    exact congrArg _ (mapped_ofRows fun r' hr' => h r' (List.mem_cons_of_mem r hr'))

theorem of_mapped {f : Row → Except QueryError Row} :
    ∀ {st : Supply} {out : List Row}, st.mapped f = ofRows out →
      ∃ rs, st = ofRows rs ∧ ∀ r ∈ rs, ∃ r', f r = .ok r'
  | done, _, _ => ⟨[], rfl, by simp⟩
  | fail _, out, h => by cases out <;> cases h
  | row r rest, out, h => by
    rw [mapped] at h
    cases hf : f r with
    | error _ => rw [hf] at h; cases out <;> cases h
    | ok r' =>
      rw [hf] at h
      cases out with
      | nil => cases h
      | cons _ out' =>
        obtain ⟨rs, rfl, hrs⟩ := of_mapped (Supply.row.inj h).2
        exact ⟨r :: rs, rfl, List.forall_mem_cons.mpr ⟨⟨r', hf⟩, hrs⟩⟩

theorem length_behind (st : Supply) : ∀ rs : List Row, (st.behind rs).length = rs.length + st.length
  | [] => (Nat.zero_add _).symm
  | r :: rs => by
    rw [behind, length, length_behind st rs, List.length_cons]
    omega

theorem behind_ofRows (out : List Row) : ∀ rs : List Row,
    (ofRows out).behind rs = ofRows (rs ++ out)
  | [] => rfl
  | r :: rs => congrArg (row r) (behind_ofRows out rs)

theorem of_behind {st : Supply} : ∀ {rs out : List Row}, st.behind rs = ofRows out →
    ∃ out', st = ofRows out'
  | [], out, h => ⟨out, h⟩
  | r :: rs, [], h => by cases h
  | r :: rs, _ :: out, h => of_behind (Supply.row.inj h).2

theorem length_accepted_le (accept : Row → Except QueryError Bool) :
    ∀ st : Supply, (st.accepted accept).length ≤ st.length
  | done | fail _ => Nat.le_refl _
  | row r rest => by
    have ih := length_accepted_le accept rest
    rw [accepted]
    split <;> simp only [length] <;> omega

theorem length_mapped_le (f : Row → Except QueryError Row) :
    ∀ st : Supply, (st.mapped f).length ≤ st.length
  | done | fail _ => Nat.le_refl _
  | row r rest => by
    have ih := length_mapped_le f rest
    rw [mapped]
    split <;> simp only [length] <;> omega

end Supply

end RelQuery
