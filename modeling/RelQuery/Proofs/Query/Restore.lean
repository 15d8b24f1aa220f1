import RelQuery.Proofs.Query.Growth

/-!
# Putting columns back

The grown tree has the inputs' columns in the order in which it joined them. If the names of its
columns are those of the chain as written, the inputs stand in the written order. Otherwise the
projection picks, for each column as written, the cell where it is now.
-/

namespace RelQuery

/-! ## Names tell the order -/

namespace Origin

theorem not_plain_dotted {q n : String} (h : Text.Plain (q ++ "." ++ n)) : False :=
  Text.not_dotFree_dotted q n h.dotFree

theorem eq_of_spells {lead name : String} {o o' : Origin} (h : o.Spells lead name)
    (h' : o'.Spells lead name) : o = o' := by
  unfold Origin.Spells at h h'
  by_cases hl : o.scan = lead
  · rw [if_pos hl] at h
    by_cases hl' : o'.scan = lead
    · rw [if_pos hl'] at h'
      cases o
      cases o'
      simp_all
    · rw [if_neg hl'] at h'
      obtain ⟨q, n, -, -, -, -, -, rfl⟩ := h'
      exact (not_plain_dotted h.1).elim
  · rw [if_neg hl] at h
    obtain ⟨q, n, hq, -, hn, hqo, hno, rfl⟩ := h
    by_cases hl' : o'.scan = lead
    · rw [if_pos hl'] at h'
      exact (not_plain_dotted h'.1).elim
    · rw [if_neg hl'] at h'
      obtain ⟨q', n', hq', -, hn', hqo', hno', hname⟩ := h'
      obtain ⟨rfl, rfl⟩ := Text.dotted_inj hq.dotFree hq'.dotFree hname
      cases o
      cases o'
      simp_all

end Origin

namespace Schema

variable {s s' : Schema} {lead lead' : String} {os os' : List Origin} {quals quals' : List String}

theorem From.origins_ne_nil (h : s.From lead os quals) : os ≠ [] := by
  obtain ⟨o, ho, -⟩ := (h.mem_quals _).mp h.lead_mem
  exact List.ne_nil_of_mem ho

theorem From.spelled (h : s.From lead os quals) :
    List.Forall₂ (fun o name => o.Spells lead name) os s.names :=
  List.forall₂_map_right_iff.mpr h.names

theorem lead_eq (h : s.From lead os quals) (h' : s'.From lead' os' quals')
    (hnames : s.names = s'.names) (hlead : lead' ∈ quals) : lead = lead' := by
  by_cases heq : lead = lead'
  · exact heq
  · obtain ⟨o, ho, hscan⟩ := (h.mem_quals lead').mp hlead
    obtain ⟨name, hname, hspells⟩ := exists_left_of_forall₂ h.spelled.flip o ho
    obtain ⟨o', -, hspells'⟩ := exists_left_of_forall₂ h'.spelled name (hnames ▸ hname)
    have hne : o.scan ≠ lead := fun e => heq (e.symm.trans hscan)
    have hspells : o.Spells lead name := hspells
    unfold Origin.Spells at hspells hspells'
    rw [if_neg hne] at hspells
    obtain ⟨q, n, hq, -, -, hqo, -, rfl⟩ := hspells
    by_cases hl' : o'.scan = lead'
    · rw [if_pos hl'] at hspells'
      exact (Origin.not_plain_dotted hspells'.1).elim
    · rw [if_neg hl'] at hspells'
      obtain ⟨q', n', hq', -, -, hqo', -, hdotted⟩ := hspells'
      obtain ⟨rfl, -⟩ := Text.dotted_inj hq.dotFree hq'.dotFree hdotted
      exact absurd (hqo'.symm.trans (hqo.trans hscan)) hl'

/-- Where the leading scan is the same, so are all origins. -/
theorem origins_eq (h : s.From lead os quals) (h' : s'.From lead os' quals')
    (hnames : s.names = s'.names) : os = os' := by
  have hs := h.spelled
  have hs' := h'.spelled
  rw [← hnames] at hs'
  generalize s.names = names at hs hs'
  clear h h' hnames
  induction hs generalizing os' with
  | nil =>
    cases hs'
    rfl
  | cons hon _ ih =>
    cases hs' with
    | cons hon' hrest => rw [Origin.eq_of_spells hon hon', ih hrest]

theorem columns_eq : ∀ {ks ks' : List Column}, ks.map (·.name) = ks'.map (·.name) →
    ks.map (·.type) = ks'.map (·.type) → ks = ks'
  | [], [], _, _ => rfl
  | [], _ :: _, h, _ | _ :: _, [], h, _ => by cases h
  | k :: ks, k' :: ks', h, h' => by
    rw [List.map_cons, List.map_cons, List.cons.injEq] at h h'
    have hk : k = k' := by
      cases k
      cases k'
      simp_all
    rw [hk, columns_eq h.2 h'.2]

end Schema

namespace Query

variable {c : Catalog} {leaf : Nat → Query} {os : Nat → List Origin} {all : List Nat}

/-- No two orders give the same list, if the pieces are not empty and share nothing. -/
theorem eq_of_flatMap_eq {α : Type} {σ : Nat → List α} (hne : ∀ p ∈ all, σ p ≠ [])
    (hapart : ∀ p ∈ all, ∀ q ∈ all, ∀ o ∈ σ p, o ∈ σ q → p = q) : ∀ {ps qs : List Nat},
      (∀ p ∈ ps, p ∈ all) → (∀ q ∈ qs, q ∈ all) → ps.flatMap σ = qs.flatMap σ → ps = qs
  | [], [], _, _, _ => rfl
  | [], q :: qs, _, hqs, h => by
    rw [List.flatMap_nil, List.flatMap_cons, eq_comm, List.append_eq_nil_iff] at h
    exact absurd h.1 (hne q (hqs q List.mem_cons_self))
  | p :: ps, [], hps, _, h => by
    rw [List.flatMap_nil, List.flatMap_cons, List.append_eq_nil_iff] at h
    exact absurd h.1 (hne p (hps p List.mem_cons_self))
  | p :: ps, q :: qs, hps, hqs, h => by
    have hp := hps p List.mem_cons_self
    have hq := hqs q List.mem_cons_self
    -- the first element belongs to one piece
    have hpq : p = q := by
      obtain ⟨x, xs, hx⟩ := List.exists_cons_of_ne_nil (hne p hp)
      obtain ⟨y, ys, hy⟩ := List.exists_cons_of_ne_nil (hne q hq)
      rw [List.flatMap_cons, List.flatMap_cons, hx, hy, List.cons_append, List.cons_append,
        List.cons.injEq] at h
      exact hapart p hp q hq x (hx ▸ List.mem_cons_self) (by rw [hy, h.1]; exact List.mem_cons_self)
    subst hpq
    rw [List.flatMap_cons, List.flatMap_cons, List.append_cancel_left_eq] at h
    rw [eq_of_flatMap_eq hne hapart (fun x hx => hps x (List.mem_cons_of_mem p hx))
      (fun x hx => hqs x (List.mem_cons_of_mem p hx)) h]

/-- Two trees over the same inputs whose columns have the same names join them in the same order,
and have the same schema. -/
theorem Spans.eq_of_names {ps qs : List Nat} {t t' : Query} (hin : Inputs c leaf os all)
    (h : Spans leaf os all ps t) (h' : Spans leaf os all qs t') (hperm : ps.Perm qs)
    (hnames : t.schema.names = t'.schema.names) : ps = qs ∧ t.schema = t'.schema := by
  have hfrom := h.named.spells
  have hfrom' := h'.named.spells
  have hlead : Text.lower t'.qualifier ∈ t.qualifiers := by
    have hmem := hfrom'.lead_mem
    rw [h'.qualifiers] at hmem
    rw [h.qualifiers]
    exact (hperm.flatMap_right _).mem_iff.mpr hmem
  have hle := Schema.lead_eq hfrom hfrom' hnames hlead
  rw [hle] at hfrom
  have horigins := Schema.origins_eq hfrom hfrom' hnames
  have hspells := fun p hp => (hin.named p hp).spells
  have horder := eq_of_flatMap_eq (fun p hp => (hspells p hp).origins_ne_nil)
    (fun p hp q hq o ho ho' => by
      by_contra hne
      exact hin.apart p hp q hq hne (((hspells p hp).mem_quals _).mpr ⟨o, ho, rfl⟩)
        (((hspells q hq).mem_quals _).mpr ⟨o, ho', rfl⟩)) h.sub h'.sub horigins
  refine ⟨horder, ?_⟩
  have hcolumns := Schema.columns_eq hnames (by rw [h.types, h'.types, horder])
  exact congrArg Schema.mk hcolumns

end Query

/-! ## Where the cells are -/

section

variable {α : Type} {widths order : List Nat} {σ : Nat → List α}

/-- The cells of the input at `place` begin at its offset. -/
theorem getElem?_offsetIn {place : Nat} (hplace : place ∈ order)
    (hwidths : ∀ p ∈ order, widths[p]?.getD 0 = (σ p).length) {k : Nat}
    (hk : k < (σ place).length) :
    (order.flatMap σ)[offsetIn widths order place + k]? = (σ place)[k]? := by
  induction order with
  | nil => cases hplace
  | cons p ps ih =>
    rw [List.flatMap_cons, offsetIn, List.takeWhile_cons]
    by_cases hp : p = place
    · subst hp
      simp only [bne_self_eq_false, Bool.false_eq_true, if_false, List.map_nil, List.foldr_nil,
        Nat.zero_add]
      exact List.getElem?_append_left hk
    · have hne : (p != place) = true := by simpa using hp
      have ih := ih ((List.mem_cons.mp hplace).resolve_left (Ne.symm hp))
        fun q hq => hwidths q (List.mem_cons_of_mem p hq)
      rw [offsetIn] at ih
      simp only [hne, if_true, List.map_cons, List.foldr_cons, hwidths p List.mem_cons_self]
      rw [List.getElem?_append_right (by omega), ← ih]
      congr 1
      omega

theorem map_newPositions {n : Nat} (horder : ∀ p, p < n → p ∈ order)
    (hwidths : widths = (List.range n).map fun p => (σ p).length)
    (hsub : ∀ p ∈ order, p < n) :
    (newPositions widths order).map ((order.flatMap σ)[·]?) =
      ((List.range n).flatMap σ).map some := by
  have hget : ∀ p < n, widths[p]?.getD 0 = (σ p).length := by
    intro p hp
    simp [hwidths, hp]
  have hzip : widths.zipIdx = (List.range n).map fun p => ((σ p).length, p) := by
    rw [hwidths]
    refine List.ext_getElem (by simp) fun i hi hi' => ?_
    simp
  rw [newPositions, hzip, List.flatMap_map, List.map_flatMap, List.map_flatMap]
  refine List.flatMap_congr fun p hp => ?_
  have hp := List.mem_range.mp hp
  rw [List.map_map]
  refine List.ext_getElem (by simp) fun k hk hk' => ?_
  have hk : k < (σ p).length := by simpa using hk
  have := getElem?_offsetIn (horder p hp) (fun q hq => hget q (hsub q hq)) hk
  simp [this, hk]

end

/-! ## The projection -/

namespace Query

variable {wanted : Schema} {widths order : List Nat} {t q : Query}

/-- The items of the projection: every column of the tree can be told by its name. -/
structure Restores (t : Query) (wanted : Schema) (widths order : List Nat) (items : List Item) :
    Prop where
  nodup : t.schema.foldedNames.Nodup
  items : (newPositions widths order).zipIdx.mapM (fun (x : Nat × Nat) => do
    let new ← t.schema.columns[x.1]?
    let old ← wanted.columns[x.2]?
    return (⟨.column none new.name, old.name⟩ : Item)) = some items

/-- Each item is the column at the position from which it puts back a cell. -/
theorem Restores.forall₂ {items : List Item} (h : Restores t wanted widths order items) :
    List.Forall₂ (fun i position => ∃ new, t.schema.columns[position]? = some new ∧
      i.expr = .column none new.name) items (newPositions widths order) := by
  have hzip : newPositions widths order = (newPositions widths order).zipIdx.map (·.1) :=
    (List.zipIdx_map_fst 0 _).symm
  rw [hzip, List.forall₂_map_right_iff]
  refine (forall₂_of_mapM_eq_some h.items).flip.imp fun item x hx => ?_
  cases hnew : t.schema.columns[x.1]? with
  | none => simp [hnew] at hx
  | some new =>
    cases hold : wanted.columns[x.2]? with
    | none => simp [hnew, hold] at hx
    | some old =>
      simp only [hnew, hold, Option.bind_eq_bind, Option.bind_some, Option.pure_def,
        Option.some.injEq] at hx
      exact ⟨new, rfl, by rw [← hx]⟩

theorem Restores.row {items : List Item} (h : Restores t wanted widths order items) {row : Row}
    (hrow : row.length = t.schema.width) :
    (items.map (·.valueIn (t.lookIn row))).map some = (newPositions widths order).map (row[·]?) := by
  have hown := Schema.look_own h.nodup hrow (some t.qualifiers)
  have hpicked := h.forall₂
  clear h
  generalize newPositions widths order = positions at hpicked
  induction hpicked with
  | nil => rfl
  | @cons i position _ _ hi _ ih =>
    obtain ⟨new, hnew, he⟩ := hi
    obtain ⟨hlt, hget⟩ := List.getElem?_eq_some_iff.mp hnew
    have hcell := hown.get hlt (hown.length_eq ▸ hlt)
    simp only [List.get_eq_getElem, hget] at hcell
    have hlt' : position < row.length := hown.length_eq ▸ hlt
    rw [List.map_cons, List.map_cons, List.map_cons, ih]
    simp [Item.valueIn, he, Expr.evalWith, lookIn, hcell, orNull, List.getElem?_eq_getElem hlt']

theorem restoreColumns_cases (h : restoreColumns t wanted widths order = some q) :
    (q = t ∧ t.schema.names = wanted.names) ∨
      ∃ items, q = project items wanted t ∧ Restores t wanted widths order items := by
  unfold restoreColumns at h
  by_cases hnames : t.schema.names = wanted.names
  · simp only [hnames, if_true, Option.some.injEq] at h
    exact .inl ⟨h.symm, hnames⟩
  · by_cases hnodup : t.schema.foldedNames.Nodup
    · simp only [hnames, hnodup, not_true, if_false] at h
      obtain ⟨items, hitems, hq⟩ := Option.bind_eq_some_iff.mp h
      refine .inr ⟨items, ?_, hnodup, hitems⟩
      simpa using hq.symm
    · simp [hnames, hnodup] at h

theorem Restores.map_valueIn {items : List Item} {n : Nat} {σ : Nat → Row}
    (h : Restores t wanted widths order items) (horder : order.Perm (List.range n))
    (hwidths : widths = (List.range n).map fun p => (σ p).length)
    (hrow : (order.flatMap σ).length = t.schema.width) :
    items.map (·.valueIn (t.lookIn (order.flatMap σ))) = (List.range n).flatMap σ := by
  refine List.map_injective_iff.mpr (Option.some_injective _) ?_
  rw [h.row hrow]
  exact map_newPositions (fun p hp => horder.mem_iff.mpr (List.mem_range.mpr hp)) hwidths
    fun p hp => List.mem_range.mp (horder.mem_iff.mp hp)

end Query

end RelQuery
