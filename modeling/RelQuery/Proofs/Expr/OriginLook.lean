import RelQuery.Proofs.Data.Origin
import RelQuery.Proofs.Expr.Look

/-!
# Looking up columns by origin

Over rows whose schemas spell origins, the look-up of a column needs no names any more:
`Origin.look` finds it among the origins of one row, `Origin.lookPair` among those of the two rows
that a join combines. The second agrees with the first over the combined row wherever it answers.
-/

namespace RelQuery

def cellAt (name : String) (row : Row) (position : Option Nat) : Except QueryError Value :=
  match position.bind (row[·]?) with
  | some v => .ok v
  | none => .error (.unknownColumn name)

/-- References that are read alike under both ways of folding case. -/
def Readable : Option String → String → Prop
  | some _, n => Text.Plain (Text.lower n)
  | none, n => Text.Plain n

instance : ∀ (x : Option String) (n : String), Decidable (Readable x n)
  | some _, n => inferInstanceAs (Decidable (Text.Plain (Text.lower n)))
  | none, n => inferInstanceAs (Decidable (Text.Plain n))

theorem readable_of_plain {n : String} (h : Text.Plain n) : ∀ q, Readable q n
  | some _ => h.lower
  | none => h

/-! ## Own columns -/

theorem Source.look_unqualified (row : Row) (s : Schema) (quals : Option (List String))
    (n : String) : look [⟨row, s, quals⟩] none n = cellAt n row (s.resolve none n) := by
  rw [look, unqualified, List.filterMap_cons]
  cases s.resolve none n <;> rfl

theorem Source.look_qualified (row : Row) (s : Schema) (quals : List String) (x n : String) :
    look [⟨row, s, some quals⟩] (some x) n =
      if (⟨row, s, some quals⟩ : Source).owns (Text.lower x) then
        cellAt (Text.lower x ++ "." ++ n) row (s.resolve (some (Text.lower x)) n)
      else .error (.unknownQualifier (Text.lower x)) := by
  rw [look, qualified, owner?]
  simp only [List.find?_cons, List.find?_nil, isAnonymous, Option.isNone_some, Bool.false_and,
    Bool.false_eq_true, if_false, Option.or_none]
  cases (⟨row, s, some quals⟩ : Source).owns (Text.lower x) with
  | false => rfl
  | true =>
    simp only [if_true]
    cases s.resolve (some (Text.lower x)) n <;> rfl

theorem Source.eq_of_owner? {s s' : Source} {x : String} (h : owner? [s] x = some s') : s' = s := by
  obtain h | ⟨-, h⟩ := Option.or_eq_some_iff.mp h
  · exact List.mem_singleton.mp (List.mem_of_find?_eq_some h)
  · simp only [Option.ite_none_right_eq_some, Option.some.injEq] at h
    exact h.2.symm

/-- A value that is found stands at the place that the reference resolves to. -/
theorem Source.exists_of_look {row : Row} {s : Schema} {quals : Option (List String)}
    {x : Option String} {n : String} {v : Value} (h : look [⟨row, s, quals⟩] x n = .ok v) :
    ∃ i, s.resolve (x.map Text.lower) n = some i ∧ row[i]? = some v := by
  cases x with
  | none =>
    rw [look_unqualified, cellAt] at h
    cases hp : (s.resolve none n).bind (row[·]?) with
    | none =>
      rw [hp] at h
      cases h
    | some w =>
      rw [hp] at h
      cases h
      exact Option.bind_eq_some_iff.mp hp
  | some x =>
    rw [look, qualified] at h
    split at h
    · cases h
    · rename_i s' howner
      cases eq_of_owner? howner
      split at h
      · cases h
      · rename_i i hi
        refine ⟨i, hi, ?_⟩
        unfold cell at h
        split at h
        · rename_i hcell
          cases h
          exact hcell
        · cases h

theorem Source.owner?_pair (s s' : Source) (x : String) :
    owner? [s, s'] x = if s.owns x then some s else if s'.owns x then some s' else none := by
  unfold owner?
  simp only [List.find?_cons, List.find?_nil]
  cases s.owns x <;> cases s'.owns x <;> rfl

theorem Schema.indexOf?_own {s : Schema} (hs : s.foldedNames.Nodup) {i : Nat}
    (hi : i < s.columns.length) : s.indexOf? s.columns[i].name = some i := by
  unfold indexOf?
  rw [List.findIdx?_eq_some_iff_getElem]
  refine ⟨hi, by simp, fun j hj => ?_⟩
  intro e
  have hlen : s.foldedNames.length = s.columns.length := List.length_map _
  have hj' : j < s.foldedNames.length := by omega
  have hi' : i < s.foldedNames.length := by omega
  have hji : s.foldedNames[j] = s.foldedNames[i] := by simpa [foldedNames] using e
  have := (List.getElem_inj hs).mp hji
  omega

theorem Schema.look_own {s : Schema} (hs : s.foldedNames.Nodup) {row : Row}
    (hrow : row.length = s.width) (quals : Option (List String)) :
    List.Forall₂ (fun c v => Source.look [⟨row, s, quals⟩] none c.name = .ok v) s.columns row := by
  rw [List.forall₂_iff_get]
  refine ⟨hrow.symm, fun i hi hi' => ?_⟩
  have hown := indexOf?_own hs hi
  simp only [List.get_eq_getElem]
  rw [Source.look_unqualified, resolve, hown]
  simp [cellAt, List.getElem?_eq_getElem hi']

namespace Origin

def look (os : List Origin) (row : Row) : Look
  | some q, n =>
    let x := Text.lower q
    if os.any (·.scan == x) then
      cellAt (x ++ "." ++ n) row (os.findIdx? (· == ⟨x, Text.lower n⟩))
    else .error (.unknownQualifier x)
  | none, n => cellAt n row (os.findIdx? (·.column == Text.lower n))

def lookPair (os os' : List Origin) (l r : Row) : Look
  | some q, n => if os.any (·.scan == Text.lower q) then look os l (some q) n else look os' r (some q) n
  | none, n =>
    match os.findIdx? (·.column == Text.lower n), os'.findIdx? (·.column == Text.lower n) with
    | some _, some _ => .error (.ambiguousColumn n)
    | none, _ => look os' r none n
    | _, none => look os l none n

/-! ## One row after the other -/

theorem cellAt_append_left {l r : Row} {i : Option Nat} {name : String}
    (h : ∀ k, i = some k → k < l.length) : cellAt name (l ++ r) i = cellAt name l i := by
  cases i with
  | none => rfl
  | some k => simp [cellAt, List.getElem?_append_left (h k rfl)]

theorem cellAt_append_right {l r : Row} {i : Option Nat} {name : String} :
    cellAt name (l ++ r) (i.map (· + l.length)) = cellAt name r i := by
  cases i with
  | none => rfl
  | some k => simp [cellAt, List.getElem?_append_right]

theorem findIdx?_lt {os : List Origin} {p : Origin → Bool} {k : Nat} (h : os.findIdx? p = some k) :
    k < os.length := (List.findIdx?_eq_some_iff_getElem.mp h).1

section
variable {os os' : List Origin} {l r : Row} (hl : os.length = l.length)
include hl

/-- What a reference means in the left part it means in the whole. -/
theorem look_append_left {q : Option String} {n : String}
    (h : match q with
      | some q => os'.any (·.scan == Text.lower q) = false
      | none => os.any (·.column == Text.lower n)) :
    look (os ++ os') (l ++ r) q n = look os l q n := by
  cases q with
  | some q =>
    have hright : os'.findIdx? (· == ⟨Text.lower q, Text.lower n⟩) = none := by
      rw [List.findIdx?_eq_none_iff]
      intro o ho
      have := List.any_eq_false.mp h o ho
      rw [beq_eq_false_iff_ne]
      rintro rfl
      simp at this
    simp only [look, List.any_append, h, Bool.or_false, List.findIdx?_append, hright,
      Option.map_none, Option.or_none]
    rw [cellAt_append_left fun k hk => hl ▸ findIdx?_lt hk]
  | none =>
    have hsome : (os.findIdx? (·.column == Text.lower n)).isSome := by
      rw [List.findIdx?_isSome]; exact h
    obtain ⟨k, hk⟩ := Option.isSome_iff_exists.mp hsome
    simp only [look, List.findIdx?_append, hk, Option.some_or]
    exact cellAt_append_left fun _ e => hl ▸ findIdx?_lt (e ▸ hk)

/-- What a reference means in the right part it means in the whole, if the left part has nothing of
the kind. -/
theorem look_append_right {q : Option String} {n : String}
    (h : match q with
      | some q => os.any (·.scan == Text.lower q) = false
      | none => os.any (·.column == Text.lower n) = false) :
    look (os ++ os') (l ++ r) q n = look os' r q n := by
  cases q with
  | some q =>
    have hleft : os.findIdx? (· == ⟨Text.lower q, Text.lower n⟩) = none := by
      rw [List.findIdx?_eq_none_iff]
      intro o ho
      have := List.any_eq_false.mp h o ho
      rw [beq_eq_false_iff_ne]
      rintro rfl
      simp at this
    simp only [look, List.any_append, h, Bool.false_or, List.findIdx?_append, hleft, Option.none_or,
      hl, cellAt_append_right]
  | none =>
    have hleft : os.findIdx? (·.column == Text.lower n) = none := by
      rw [List.findIdx?_eq_none_iff]
      intro o ho
      simpa using List.any_eq_false.mp h o ho
    simp only [look, List.findIdx?_append, hleft, Option.none_or, hl, cellAt_append_right]

/-- Where the pair answers, the combined row answers alike. -/
theorem look_of_lookPair (hd : ∀ o ∈ os, ∀ o' ∈ os', o.scan ≠ o'.scan) {q : Option String}
    {n : String} {v : Value} (h : lookPair os os' l r q n = .ok v) :
    look (os ++ os') (l ++ r) q n = .ok v := by
  cases q with
  | some q =>
    rw [lookPair] at h
    split at h
    · rename_i hq
      rw [look_append_left hl, h]
      refine List.any_eq_false.mpr fun o' ho' e => ?_
      obtain ⟨o, ho, e'⟩ := List.any_eq_true.mp hq
      exact hd o ho o' ho' ((beq_iff_eq.mp e').trans (beq_iff_eq.mp e).symm)
    · rename_i hq
      rw [look_append_right hl, h]
      simpa using hq
  | none =>
    rw [lookPair] at h
    split at h
    · cases h
    · rename_i hi
      rw [look_append_right hl, h]
      rw [List.findIdx?_eq_none_iff] at hi
      exact List.any_eq_false.mpr fun o ho => by simpa using hi o ho
    · rename_i hi hne
      rw [look_append_left hl, h]
      show os.any (·.column == Text.lower n) = true
      rw [← List.findIdx?_isSome, Option.isSome_iff_ne_none]
      exact hne

end

/-! ## Origins that attract a reference -/

/-- A qualified reference is looked up among the columns of the scan that it names, an unqualified
one among those of its name. -/
def attracts (x : Option String) (n : String) (o : Origin) : Bool :=
  match x with
  | some x => o.scan == Text.lower x
  | none => o.column == Text.lower n

section

variable {os os' : List Origin} {l r : Row} {x : Option String} {n : String}

theorem findIdx?_of_none_attracts (h : os.any (attracts none n) = false) :
    os.findIdx? (·.column == Text.lower n) = none := by
  have hnone : os.any (·.column == Text.lower n) = false := h
  rw [List.findIdx?_eq_none_iff]
  intro o ho
  simpa using List.any_eq_false.mp hnone o ho

theorem look_of_none_attracts (h : os.any (attracts x n) = false) (row : Row) :
    look os row x n = look [] [] x n := by
  cases x with
  | some x =>
    have hscan : os.any (·.scan == Text.lower x) = false := h
    simp [look, hscan]
  | none =>
    rw [look, findIdx?_of_none_attracts h]
    rfl

theorem look_append_attracted (hl : os.length = l.length) (h : os.any (attracts x n) = true)
    (h' : os'.any (attracts x n) = false) : look (os ++ os') (l ++ r) x n = look os l x n := by
  cases x with
  | some x => exact look_append_left hl h'
  | none => exact look_append_left hl h

theorem look_append_of_none_attracts (hl : os.length = l.length)
    (h : os.any (attracts x n) = false) : look (os ++ os') (l ++ r) x n = look os' r x n := by
  cases x with
  | some x => exact look_append_right hl h
  | none => exact look_append_right hl h

theorem lookPair_attracted (h : os'.any (attracts x n) = false) :
    lookPair os os' l r x n = look os l x n := by
  cases x with
  | some x =>
    rw [lookPair]
    split
    · rfl
    · rename_i hnone
      have hnone : os.any (attracts (some x) n) = false := Bool.not_eq_true _ ▸ hnone
      rw [look_of_none_attracts h, look_of_none_attracts hnone]
  | none =>
    have hnone := findIdx?_of_none_attracts h
    rw [lookPair, hnone]
    cases hi : os.findIdx? (·.column == Text.lower n) with
    | none =>
      simp only [look, hi, hnone]
      rfl
    | some i => rfl

theorem lookPair_of_none_attracts (h : os.any (attracts x n) = false) :
    lookPair os os' l r x n = look os' r x n := by
  cases x with
  | some x =>
    have hscan : os.any (·.scan == Text.lower x) = false := h
    simp [lookPair, hscan]
  | none =>
    rw [lookPair, findIdx?_of_none_attracts h]

theorem attracts_of_look {row : Row} {v : Value} (h : look os row x n = .ok v) :
    os.any (attracts x n) = true := by
  by_contra hnone
  rw [Bool.not_eq_true] at hnone
  rw [look_of_none_attracts hnone] at h
  cases x <;> cases h

theorem attracts_of_lookPair {v : Value} (h : lookPair os os' l r x n = .ok v) :
    os.any (attracts x n) = true ∨ os'.any (attracts x n) = true := by
  by_cases hl : os.any (attracts x n) = true
  · exact .inl hl
  · rw [Bool.not_eq_true] at hl
    rw [lookPair_of_none_attracts hl] at h
    exact .inr (attracts_of_look h)

end

end Origin

/-! ## Sources that spell origins -/

/-- A schema that spells origins, with the names of the scans that they belong to. -/
structure Schema.From (s : Schema) (lead : String) (os : List Origin) (quals : List String) : Prop
    extends Schema.Spells lead os s where
  mem_quals : ∀ x, x ∈ quals ↔ ∃ o ∈ os, o.scan = x
  plain : ∀ x ∈ quals, Text.Plain x
  lower_eq : ∀ x ∈ quals, Text.lower x = x
  lead_mem : lead ∈ quals

namespace Schema.From

variable {s : Schema} {lead : String} {os : List Origin} {quals : List String}

theorem any_scan (h : s.From lead os quals) (x : String) : os.any (·.scan == x) = quals.contains x := by
  rw [Bool.eq_iff_iff, List.any_eq_true, List.contains_iff_mem, h.mem_quals]
  simp

theorem owns_eq (h : s.From lead os quals) (row : Row) (q : String) :
    (⟨row, s, some quals⟩ : Source).owns (Text.lower q) = os.any (·.scan == Text.lower q) := by
  rw [Source.owns, Option.any_some, ← h.any_scan,
    Schema.hasQualifier_eq h.toSpells (Text.asciiFold_lower q), Bool.or_eq_left_iff_imp]
  intro hq
  obtain ⟨o, ho, e⟩ := List.any_eq_true.mp hq
  exact List.any_eq_true.mpr ⟨o, ho, (Bool.and_eq_true _ _ ▸ e).2⟩

theorem owner?_one (h : s.From lead os quals) (row : Row) (q : String) :
    Source.owner? [⟨row, s, some quals⟩] (Text.lower q) =
      if os.any (·.scan == Text.lower q) then some ⟨row, s, some quals⟩ else none := by
  rw [Source.owner?]
  simp only [List.find?_cons, h.owns_eq, List.find?_nil, Source.isAnonymous, Option.isNone_some,
    Bool.false_and, Bool.false_eq_true, if_false, Option.or_none]
  cases os.any (·.scan == Text.lower q) <;> rfl

theorem owner?_two {s' : Schema} {lead' : String} {os' : List Origin} {quals' : List String}
    (h : s.From lead os quals) (h' : s'.From lead' os' quals') (l r : Row) (q : String) :
    Source.owner? [⟨l, s, some quals⟩, ⟨r, s', some quals'⟩] (Text.lower q) =
      if os.any (·.scan == Text.lower q) then some ⟨l, s, some quals⟩
      else if os'.any (·.scan == Text.lower q) then some ⟨r, s', some quals'⟩ else none := by
  rw [Source.owner?_pair, h.owns_eq, h'.owns_eq]

theorem look_owned (h : s.From lead os quals) (row : Row) {q n : String}
    (hm : Text.Plain (Text.lower n)) (hq : os.any (·.scan == Text.lower q) = true) :
    (match s.resolve (some (Text.lower q)) n with
      | none => .error (.unknownColumn (Text.lower q ++ "." ++ n))
      | some i => (⟨row, s, some quals⟩ : Source).cell (Text.lower q ++ "." ++ n) i) =
      Origin.look os row (some q) n := by
  obtain ⟨o, ho, e⟩ := List.any_eq_true.mp hq
  have hmem : Text.lower q ∈ quals := (h.mem_quals _).mpr ⟨o, ho, beq_iff_eq.mp e⟩
  rw [Schema.resolve_qualified h.toSpells (h.plain _ hmem) (h.lower_eq _ hmem) hm
    ((h.mem_quals _).mp hmem), Origin.look]
  simp only [hq, if_true]
  cases os.findIdx? (· == ⟨Text.lower q, Text.lower n⟩) <;> rfl

theorem look_eq (h : s.From lead os quals) (row : Row) {q : Option String} {n : String}
    (hm : Readable q n) : Source.look [⟨row, s, some quals⟩] q n = Origin.look os row q n := by
  cases q with
  | some q =>
    rw [Source.look, Source.qualified, h.owner?_one]
    cases hq : os.any (·.scan == Text.lower q) with
    | false => simp [Origin.look, hq]
    | true => exact h.look_owned row hm hq
  | none =>
    rw [Source.look, Source.unqualified, Origin.look,
      List.filterMap_cons, Schema.resolve_unqualified h.toSpells hm]
    cases os.findIdx? (·.column == Text.lower n) <;> rfl

theorem lookPair_eq {s' : Schema} {lead' : String} {os' : List Origin} {quals' : List String}
    (h : s.From lead os quals) (h' : s'.From lead' os' quals') (l r : Row) {q : Option String}
    {n : String} (hm : Readable q n) :
    Source.look [⟨l, s, some quals⟩, ⟨r, s', some quals'⟩] q n = Origin.lookPair os os' l r q n := by
  cases q with
  | some q =>
    rw [Source.look, Source.qualified, h.owner?_two h', Origin.lookPair]
    cases hq : os.any (·.scan == Text.lower q) with
    | true => exact h.look_owned l hm hq
    | false =>
      cases hq' : os'.any (·.scan == Text.lower q) with
      | true => exact h'.look_owned r hm hq'
      | false => simp [Origin.look, hq']
  | none =>
    rw [Source.look, Source.unqualified, Origin.lookPair, List.filterMap_cons, List.filterMap_cons,
      Schema.resolve_unqualified h.toSpells hm, Schema.resolve_unqualified h'.toSpells hm]
    cases hi : os.findIdx? (·.column == Text.lower n) <;>
      cases hi' : os'.findIdx? (·.column == Text.lower n) <;>
        simp only [Option.map_none, Option.map_some, List.filterMap_nil, Origin.look, hi, hi'] <;> rfl

end Schema.From

end RelQuery
