import RelQuery.Proofs.Expr.OriginLook

/-!
# Looking up columns over a pair of rows

A qualified column of a pair of rows belongs to the first input that owns the qualifier. Which input
provides a column is decided more generously, on lower-cased names. Still, where an input owns the
qualifier of a column without providing it, the look-up fails. So a column that one input does not
provide is looked up in the other alone.
-/

namespace RelQuery

open Text (lower IsAscii)

/-! ## Folded names -/

def Expr.AsciiNames (e : Expr) : Prop :=
  ∀ m ∈ e.mentions, (∀ q ∈ m.1, IsAscii q) ∧ IsAscii m.2

instance (e : Expr) : Decidable e.AsciiNames := List.decidableBAll _ e.mentions

namespace Schema

variable {s : Schema} {q : Option String} {n : String}

theorem indexOfBare?_lower (s : Schema) (hn : IsAscii n) :
    s.indexOfBare? (lower n) = s.indexOfBare? n := by
  unfold indexOfBare? Text.eqIgnoringAsciiCase
  rw [Text.asciiFold_lower, hn.lower_eq]

theorem indexOf?_lower (s : Schema) (hn : IsAscii n) : s.indexOf? (lower n) = s.indexOf? n := by
  unfold indexOf?
  rw [hn.lower_lower]

theorem resolve_lower (s : Schema) (hq : ∀ x ∈ q, IsAscii x) (hn : IsAscii n) :
    s.resolve q (lower n) = s.resolve q n := by
  cases q with
  | none => rw [resolve, resolve, s.indexOf?_lower hn, s.indexOfBare?_lower hn]
  | some x =>
    have hdotted : s.indexOf? (x ++ "." ++ lower n) = s.indexOf? (x ++ "." ++ n) := by
      unfold indexOf?
      rw [Text.lower_dotted (hq x rfl) hn.lower.sigma_notMem,
        Text.lower_dotted (hq x rfl) hn.sigma_notMem, hn.lower_lower]
    rw [resolve, resolve, hdotted, s.indexOf?_lower hn]

theorem resolve_lowerQualifier (s : Schema) {x : String} (hx : IsAscii x) (hn : IsAscii n) :
    s.resolve (some (lower x)) n = s.resolve (some x) n := by
  have hdotted : lower (lower x ++ "." ++ n) = lower (x ++ "." ++ n) := by
    rw [Text.lower_dotted hx.lower hn.sigma_notMem, Text.lower_dotted hx hn.sigma_notMem,
      hx.lower_lower]
  have hindex : s.indexOf? (lower x ++ "." ++ n) = s.indexOf? (x ++ "." ++ n) := by
    rw [indexOf?, indexOf?, hdotted]
  have hfold : Text.asciiFold (lower x) = Text.asciiFold x := by
    rw [Text.asciiFold_lower, hx.lower_eq]
  have hqualifier : s.hasQualifier (lower x) = s.hasQualifier x := by
    simp only [hasQualifier, Text.eqIgnoringAsciiCase, hfold]
  rw [resolve, resolve, hindex, hqualifier]

theorem provides_lower (s : Schema) (hq : ∀ x ∈ q, IsAscii x) (hn : IsAscii n) :
    s.provides q (lower n) = s.provides q n := by
  rw [provides, provides, s.resolve_lower hq hn, s.indexOfBare?_lower hn]

end Schema

/-! ## Columns that an input does not provide -/

namespace ColumnRef

variable {s : Schema} {quals : List String} {n : String}

theorem boundBy_unqualified (s : Schema) (quals : List String) (n : String) :
    (of none n).boundBy s quals = s.provides none (lower n) := rfl

theorem boundBy_qualified (s : Schema) (quals : List String) (x n : String) :
    (of (some x) n).boundBy s quals =
      ((s.indexOf? (lower x ++ "." ++ lower n)).isSome ||
        quals.contains (lower x) && s.provides (some (lower x)) (lower n)) := rfl

theorem resolve_of_not_boundBy_unqualified (hn : IsAscii n)
    (h : (of none n).boundBy s quals = false) : s.resolve none n = none := by
  rw [boundBy_unqualified, s.provides_lower (by simp) hn, Schema.provides, Bool.or_eq_false_iff] at h
  simpa using h.1

/-- An input that owns the qualifier of a column without providing it does not find the column. -/
theorem resolve_of_not_boundBy {x : String} (hx : IsAscii x) (hn : IsAscii n)
    (h : (of (some x) n).boundBy s quals = false) {row : Row}
    (howns : (⟨row, s, some quals⟩ : Source).owns (lower x) = true) :
    s.resolve (some (lower x)) n = none := by
  have hx' : ∀ y ∈ some (lower x), IsAscii y := fun y hy => by
    cases hy
    exact hx.lower
  rw [boundBy_qualified, Bool.or_eq_false_iff] at h
  obtain ⟨hfull, hprovides⟩ := h
  rw [← s.resolve_lower hx' hn]
  by_cases hq : s.hasQualifier (lower x) = true
  · rw [Schema.resolve, if_pos hq, Option.or_none]
    simpa using hfull
  · have hquals : quals.contains (lower x) = true := by
      rw [Source.owns, Bool.or_eq_true] at howns
      exact howns.resolve_right hq
    rw [hquals, Bool.true_and, Schema.provides, Bool.or_eq_false_iff] at hprovides
    simpa using hprovides.1

end ColumnRef

namespace Source

variable {s s' : Schema} {quals quals' : List String} {l r : Row} {n : String}

/-! ## Pairs of rows -/

theorem lookPair_qualified (l r : Row) (s s' : Schema) (quals quals' : List String) (x n : String) :
    look [⟨l, s, some quals⟩, ⟨r, s', some quals'⟩] (some x) n =
      if (⟨l, s, some quals⟩ : Source).owns (lower x) then
        cellAt (lower x ++ "." ++ n) l (s.resolve (some (lower x)) n)
      else if (⟨r, s', some quals'⟩ : Source).owns (lower x) then
        cellAt (lower x ++ "." ++ n) r (s'.resolve (some (lower x)) n)
      else .error (.unknownQualifier (lower x)) := by
  rw [look, qualified, owner?_pair]
  by_cases hl : (⟨l, s, some quals⟩ : Source).owns (lower x) = true
  · rw [if_pos hl, if_pos hl]
    simp only
    cases s.resolve (some (lower x)) n <;> rfl
  · rw [if_neg hl, if_neg hl]
    by_cases hr : (⟨r, s', some quals'⟩ : Source).owns (lower x) = true
    · rw [if_pos hr, if_pos hr]
      simp only
      cases s'.resolve (some (lower x)) n <;> rfl
    · rw [if_neg hr, if_neg hr]

theorem lookPair_unqualified (l r : Row) (s s' : Schema) (quals quals' : List String) (n : String) :
    look [⟨l, s, some quals⟩, ⟨r, s', some quals'⟩] none n =
      match s.resolve none n, s'.resolve none n with
      | some _, some _ => .error (.ambiguousColumn n)
      | none, i => cellAt n r i
      | i, none => cellAt n l i := by
  rw [look, unqualified, List.filterMap_cons, List.filterMap_cons]
  cases s.resolve none n <;> cases s'.resolve none n <;> rfl

theorem look_left_of_lookPair {q : Option String} (hq : ∀ x ∈ q, IsAscii x) (hn : IsAscii n)
    (hb : (ColumnRef.of q n).boundBy s' quals' = false) {v : Value}
    (h : look [⟨l, s, some quals⟩, ⟨r, s', some quals'⟩] q n = .ok v) :
    look [⟨l, s, some quals⟩] q n = .ok v := by
  cases q with
  | none =>
    rw [lookPair_unqualified, ColumnRef.resolve_of_not_boundBy_unqualified hn hb] at h
    rw [look_unqualified]
    cases hs : s.resolve none n with
    | none =>
      rw [hs] at h
      cases h
    | some i =>
      rw [hs] at h
      exact h
  | some x =>
    rw [lookPair_qualified] at h
    rw [look_qualified]
    by_cases howns : (⟨l, s, some quals⟩ : Source).owns (lower x) = true
    · rw [if_pos howns] at h ⊢
      exact h
    · -- the right input might own the qualifier, but then the column is not found in it
      rw [if_neg howns] at h
      split at h
      · rename_i howns'
        rw [ColumnRef.resolve_of_not_boundBy (hq x rfl) hn hb howns'] at h
        cases h
      · cases h

theorem look_right_of_lookPair {q : Option String} (hq : ∀ x ∈ q, IsAscii x) (hn : IsAscii n)
    (hb : (ColumnRef.of q n).boundBy s quals = false) {v : Value}
    (h : look [⟨l, s, some quals⟩, ⟨r, s', some quals'⟩] q n = .ok v) :
    look [⟨r, s', some quals'⟩] q n = .ok v := by
  cases q with
  | none =>
    rw [lookPair_unqualified, ColumnRef.resolve_of_not_boundBy_unqualified hn hb] at h
    rw [look_unqualified]
    exact h
  | some x =>
    rw [lookPair_qualified] at h
    rw [look_qualified]
    split at h
    · rename_i howns
      rw [ColumnRef.resolve_of_not_boundBy (hq x rfl) hn hb howns] at h
      cases h
    · split at h
      · rename_i howns'
        rw [if_pos howns']
        exact h
      · cases h

end Source

end RelQuery
