import RelQuery.Proofs.Data.Choices
import RelQuery.Proofs.Query.Apart

/-!
# Inner joins in any order

A tree of inner joins over some inputs chooses a row of every input. If no reference in its
conditions may mean columns of two inputs, each of them means the same wherever the condition stands.
So the rows of the tree are the choices in which the conjuncts of all conditions hold, laid side by
side in the order of the inputs.
-/

namespace RelQuery

namespace Query

variable {c : Catalog} {leaf : Nat → Query} {os : Nat → List Origin} {all places : List Nat}
  {σ : Nat → Row} {x : Option String} {n : String}

/-! ## The inputs of a tree -/

/-- Inputs by their places, with the origins of their columns, no two with a scan of the same
name. -/
structure Inputs (c : Catalog) (leaf : Nat → Query) (os : Nat → List Origin) (all : List Nat) :
    Prop where
  isReadOnly : ∀ p ∈ all, (leaf p).isReadOnly = true
  widths : ∀ p ∈ all, ∀ row ∈ (leaf p).rows c, row.length = (leaf p).schema.width
  named : ∀ p ∈ all, (leaf p).Named (os p)
  apartJoins : ∀ p ∈ all, (leaf p).ApartJoins
  apart : ∀ p ∈ all, ∀ q ∈ all, p ≠ q → (leaf p).qualifiers.Disjoint (leaf q).qualifiers

def originsAt (os : Nat → List Origin) (places : List Nat) : List Origin := places.flatMap os

def qualifiersAt (leaf : Nat → Query) (places : List Nat) : List String :=
  places.flatMap fun p => (leaf p).qualifiers

def typesAt (leaf : Nat → Query) (places : List Nat) : List DataType :=
  places.flatMap fun p => (leaf p).schema.columns.map (·.type)

/-- What a reference means where every input has a row: the first input that attracts it answers. -/
def leafLook (os : Nat → List Origin) (all : List Nat) (σ : Nat → Row) : Look := fun x n =>
  match all.find? fun p => (os p).any (Origin.attracts x n) with
  | some p => Origin.look (os p) (σ p) x n
  | none => Origin.look [] [] x n

/-- No two inputs attract the reference. -/
structure Pinned (os : Nat → List Origin) (all : List Nat) (x : Option String) (n : String) :
    Prop where
  readable : Readable x n
  sole : ∀ p ∈ all, ∀ q ∈ all, (os p).any (Origin.attracts x n) = true →
    (os q).any (Origin.attracts x n) = true → p = q

instance (os : Nat → List Origin) (all : List Nat) (x : Option String) (n : String) :
    Decidable (Pinned os all x n) :=
  decidable_of_iff
    (Readable x n ∧ ∀ p ∈ all, ∀ q ∈ all, (os p).any (Origin.attracts x n) = true →
      (os q).any (Origin.attracts x n) = true → p = q)
    ⟨fun h => ⟨h.1, h.2⟩, fun h => ⟨h.readable, h.sole⟩⟩

/-- Only inputs at these places attract the reference. -/
def Within (os : Nat → List Origin) (all places : List Nat) (x : Option String) (n : String) :
    Prop := ∀ p ∈ all, (os p).any (Origin.attracts x n) = true → p ∈ places

theorem any_originsAt (p : Origin → Bool) (places : List Nat) :
    (originsAt os places).any p = places.any fun q => (os q).any p := List.any_flatMap

theorem Pinned.within (h : Pinned os all x n) (hsub : ∀ p ∈ places, p ∈ all)
    (hfound : (originsAt os places).any (Origin.attracts x n) = true) :
    Within os all places x n := by
  intro q hq hatt
  rw [any_originsAt, List.any_eq_true] at hfound
  obtain ⟨p, hp, hatt'⟩ := hfound
  exact h.sole p (hsub p hp) q hq hatt' hatt ▸ hp

namespace Inputs

theorem length_eq (h : Inputs c leaf os all) {p : Nat} (hp : p ∈ all)
    {row : Row} (hrow : row ∈ (leaf p).rows c) : (os p).length = row.length := by
  rw [(h.named p hp).length_origins, h.widths p hp row hrow]

theorem length_originsAt (h : Inputs c leaf os all) :
    ∀ {places : List Nat}, (∀ p ∈ places, p ∈ all) → (∀ p ∈ places, σ p ∈ (leaf p).rows c) →
      (originsAt os places).length = (places.flatMap σ).length
  | [], _, _ => rfl
  | p :: ps, hsub, hrows => by
    have ih : (originsAt os ps).length = (ps.flatMap σ).length :=
      length_originsAt h (fun q hq => hsub q (List.mem_cons_of_mem p hq))
        fun q hq => hrows q (List.mem_cons_of_mem p hq)
    have hp := h.length_eq (hsub p List.mem_cons_self) (hrows p List.mem_cons_self)
    unfold originsAt at ih ⊢
    rw [List.flatMap_cons, List.flatMap_cons, List.length_append, List.length_append, hp, ih]

theorem look_originsAt_of_mem (h : Inputs c leaf os all) (hpin : Pinned os all x n) {p : Nat}
    (hatt : (os p).any (Origin.attracts x n) = true) :
    ∀ {places : List Nat}, p ∈ places → (∀ q ∈ places, q ∈ all) → places.Nodup →
      (∀ q ∈ places, σ q ∈ (leaf q).rows c) →
        Origin.look (originsAt os places) (places.flatMap σ) x n = Origin.look (os p) (σ p) x n
  | [], hp, _, _, _ => absurd hp List.not_mem_nil
  | q :: qs, hp, hsub, hnodup, hrows => by
    have hq := hsub q List.mem_cons_self
    have hsub' : ∀ r ∈ qs, r ∈ all := fun r hr => hsub r (List.mem_cons_of_mem q hr)
    have hlen := h.length_eq hq (hrows q List.mem_cons_self)
    unfold originsAt
    rw [List.flatMap_cons, List.flatMap_cons]
    by_cases hqatt : (os q).any (Origin.attracts x n) = true
    · have hpq : p = q := hpin.sole p (hsub p hp) q hq hatt hqatt
      rw [hpq]
      refine Origin.look_append_attracted hlen hqatt (List.any_eq_false.mpr fun o ho hatto => ?_)
      obtain ⟨r, hr, hor⟩ := List.mem_flatMap.mp ho
      have hqr := hpin.sole q hq r (hsub' r hr) hqatt (List.any_eq_true.mpr ⟨o, hor, hatto⟩)
      exact (List.nodup_cons.mp hnodup).1 (hqr ▸ hr)
    · have hp' : p ∈ qs := (List.mem_cons.mp hp).resolve_left fun e => hqatt (e ▸ hatt)
      rw [Origin.look_append_of_none_attracts hlen (Bool.not_eq_true _ ▸ hqatt)]
      exact look_originsAt_of_mem h hpin hatt hp' hsub' hnodup.of_cons
        fun r hr => hrows r (List.mem_cons_of_mem q hr)

/-- Where inputs stand side by side, a reference that is pinned means the same in whatever order they
do. -/
theorem look_originsAt (h : Inputs c leaf os all) (hpin : Pinned os all x n)
    (hwithin : Within os all places x n) (hsub : ∀ p ∈ places, p ∈ all) (hnodup : places.Nodup)
    (hrows : ∀ p ∈ places, σ p ∈ (leaf p).rows c) :
    Origin.look (originsAt os places) (places.flatMap σ) x n = leafLook os all σ x n := by
  unfold leafLook
  cases hfind : all.find? fun p => (os p).any (Origin.attracts x n) with
  | some p =>
    have hatt := List.find?_some (p := fun p => (os p).any (Origin.attracts x n)) hfind
    have hp := hwithin p (List.mem_of_find?_eq_some hfind) hatt
    exact h.look_originsAt_of_mem hpin hatt hp hsub hnodup hrows
  | none =>
    refine Origin.look_of_none_attracts ?_ _
    rw [any_originsAt, List.any_eq_false]
    exact fun p hp => List.find?_eq_none.mp hfind p (hsub p hp)

end Inputs

/-! ## Trees -/

/-- The tree joins the inputs at `places`, in this order. -/
structure Spans (leaf : Nat → Query) (os : Nat → List Origin) (all places : List Nat) (t : Query) :
    Prop where
  sub : ∀ p ∈ places, p ∈ all
  nodup : places.Nodup
  isReadOnly : t.isReadOnly = true
  apartJoins : t.ApartJoins
  named : t.Named (originsAt os places)
  qualifiers : t.qualifiers = qualifiersAt leaf places
  types : t.schema.columns.map (·.type) = typesAt leaf places

/-- Of all choices the tree keeps those that satisfy `sat`, which are those in which the conjuncts
`used` hold. -/
structure Arranges (c : Catalog) (leaf : Nat → Query) (os : Nat → List Origin) (all : List Nat)
    (used : List Expr) (places : List Nat) (sat : (Nat → Row) → Bool) (t : Query) : Prop
    extends Spans leaf os all places t where
  frame : ∀ σ τ, (∀ p ∈ places, σ p = τ p) → sat σ = sat τ
  rows : ∀ σ, (t.rows c : Multiset Row) =
    ((choices (fun p => (leaf p).rows c) places σ).filter (sat · = true)).map (places.flatMap ·)
  holds : ∀ σ, (∀ p ∈ places, σ p ∈ (leaf p).rows c) →
    sat σ = used.all (·.holdsIn (leafLook os all σ))

theorem Inputs.spans (h : Inputs c leaf os all) {p : Nat} (hp : p ∈ all) :
    Spans leaf os all [p] (leaf p) where
  sub q hq := List.mem_singleton.mp hq ▸ hp
  nodup := List.nodup_singleton p
  isReadOnly := h.isReadOnly p hp
  apartJoins := h.apartJoins p hp
  named := by
    have hone : originsAt os [p] = os p := by simp [originsAt]
    exact hone ▸ h.named p hp
  qualifiers := by simp [qualifiersAt]
  types := by simp [typesAt]

theorem Inputs.arranges (h : Inputs c leaf os all) {p : Nat} (hp : p ∈ all) :
    Arranges c leaf os all [] [p] (fun _ => true) (leaf p) where
  toSpans := h.spans hp
  frame _ _ _ := rfl
  rows σ := by
    rw [Multiset.filter_eq_self.mpr fun _ _ => rfl]
    simp only [choices, Multiset.bind_singleton, Multiset.map_map]
    conv_lhs => rw [← Multiset.map_id (((leaf p).rows c : Multiset Row))]
    exact Multiset.map_congr rfl fun a _ => by simp
  holds _ _ := rfl

namespace Arranges

variable {used : List Expr} {sat : (Nat → Row) → Bool} {t : Query}

theorem mem_rows (h : Arranges c leaf os all used places sat t)
    (hrows : ∀ p ∈ places, σ p ∈ (leaf p).rows c) (hsat : sat σ = true) :
    places.flatMap σ ∈ t.rows c := by
  rw [← Multiset.mem_coe, h.rows σ, Multiset.mem_map]
  exact ⟨σ, Multiset.mem_filter.mpr ⟨mem_choices_self hrows, hsat⟩, rfl⟩

theorem exists_of_mem_rows (h : Arranges c leaf os all used places sat t) {row : Row}
    (hrow : row ∈ t.rows c) (σ : Nat → Row) :
    ∃ τ, (∀ p ∈ places, τ p ∈ (leaf p).rows c) ∧ row = places.flatMap τ := by
  rw [← Multiset.mem_coe, h.rows σ, Multiset.mem_map] at hrow
  obtain ⟨τ, hτ, rfl⟩ := hrow
  exact ⟨τ, (of_mem_choices (Multiset.mem_filter.mp hτ).1).1, rfl⟩

theorem lookIn_eq (h : Arranges c leaf os all used places sat t) (hin : Inputs c leaf os all)
    (hrows : ∀ p ∈ places, σ p ∈ (leaf p).rows c) (hpin : Pinned os all x n)
    (hwithin : Within os all places x n) :
    t.lookIn (places.flatMap σ) x n = leafLook os all σ x n := by
  rw [lookIn, h.named.spells.look_eq _ hpin.readable]
  exact hin.look_originsAt hpin hwithin h.sub h.nodup hrows

end Arranges

end Query

/-- No reference may mean columns of two inputs. -/
def Expr.PinnedIn (os : Nat → List Origin) (all : List Nat) (e : Expr) : Prop :=
  ∀ m ∈ e.mentions, Query.Pinned os all m.1 m.2

instance (os : Nat → List Origin) (all : List Nat) (e : Expr) : Decidable (e.PinnedIn os all) :=
  inferInstanceAs (Decidable (∀ m ∈ e.mentions, _))

namespace Query

variable {c : Catalog} {leaf : Nat → Query} {os : Nat → List Origin} {all : List Nat}
  {σ : Nat → Row} {x : Option String} {n : String}

/-! ## Joining two trees -/

theorem types_join (s s' : Schema) (x : String) :
    (s.join s' x).columns.map (·.type) = s.columns.map (·.type) ++ s'.columns.map (·.type) := by
  have htype : ∀ k : Column, (k.qualifiedWith x).type = k.type := by
    intro k
    unfold Column.qualifiedWith
    split <;> rfl
  simp only [Schema.join, List.map_append, List.map_map, Function.comp_def, htype]

theorem Spans.join {ps qs : List Nat} {l r : Query} (hin : Inputs c leaf os all)
    (h : Spans leaf os all ps l) (h' : Spans leaf os all qs r) (hd : ps.Disjoint qs)
    (e : Option Expr) : Spans leaf os all (ps ++ qs) (joinOf .inner e l r) := by
  have hd' : l.qualifiers.Disjoint r.qualifiers := by
    rw [h.qualifiers, h'.qualifiers]
    intro x hx hx'
    obtain ⟨p, hp, hxp⟩ := List.mem_flatMap.mp hx
    obtain ⟨q, hq, hxq⟩ := List.mem_flatMap.mp hx'
    exact hin.apart p (h.sub p hp) q (h'.sub q hq) (fun e => hd hp (e ▸ hq)) hxp hxq
  refine ⟨List.forall_mem_append.mpr ⟨h.sub, h'.sub⟩, List.nodup_append'.mpr ⟨h.nodup, h'.nodup, hd⟩,
    ?_, ?_, ?_, ?_, ?_⟩
  · simp only [joinOf, Query.isReadOnly]
    rw [h.isReadOnly, h'.isReadOnly]
    rfl
  · exact ⟨h.apartJoins, h'.apartJoins, h.named.apart h'.named hd'⟩
  · have happend : originsAt os (ps ++ qs) = originsAt os ps ++ originsAt os qs :=
      List.flatMap_append
    exact happend ▸ h.named.join h'.named hd' .inner e
  · simp only [joinOf, Query.qualifiers, qualifiersAt, List.flatMap_append]
    rw [h.qualifiers, h'.qualifiers]
    rfl
  · rw [joinOf, schema, types_join, h.types, h'.types]
    exact List.flatMap_append.symm

section

variable {ps qs : List Nat} {used used' : List Expr} {sat sat' : (Nat → Row) → Bool}
  {l r : Query} {e : Option Expr} (hin : Inputs c leaf os all)
  (h : Arranges c leaf os all used ps sat l) (h' : Arranges c leaf os all used' qs sat' r)
include hin h h'

theorem Arranges.lookBoth_eq (hd : ps.Disjoint qs) (hrows : ∀ p ∈ ps ++ qs, σ p ∈ (leaf p).rows c)
    (hpin : Pinned os all x n) (hwithin : Within os all (ps ++ qs) x n) :
    l.lookBoth r (ps.flatMap σ) (qs.flatMap σ) x n = leafLook os all σ x n := by
  have hrows' := List.forall_mem_append.mp hrows
  rw [lookBoth, h.named.spells.lookPair_eq h'.named.spells _ _ hpin.readable]
  by_cases hl : (originsAt os ps).any (Origin.attracts x n) = true
  · have hps : Within os all ps x n := hpin.within h.sub hl
    have hr : (originsAt os qs).any (Origin.attracts x n) = false := by
      rw [any_originsAt, List.any_eq_false]
      intro q hq hatt
      exact hd (hps q (h'.sub q hq) hatt) hq
    rw [Origin.lookPair_attracted hr]
    exact hin.look_originsAt hpin hps h.sub h.nodup hrows'.1
  · rw [Bool.not_eq_true] at hl
    have hqs : Within os all qs x n := by
      intro q hq hatt
      rw [any_originsAt, List.any_eq_false] at hl
      exact (List.mem_append.mp (hwithin q hq hatt)).resolve_left fun hp => hl q hp hatt
    rw [Origin.lookPair_of_none_attracts hl]
    exact hin.look_originsAt hpin hqs h'.sub h'.nodup hrows'.2

/-- A condition whose references are pinned to the two inputs says of two rows what its conjuncts say
of the choice. -/
theorem Arranges.meets_eq (hd : ps.Disjoint qs) (hrows : ∀ p ∈ ps ++ qs, σ p ∈ (leaf p).rows c)
    (he : ∀ f ∈ e, f.PinnedIn os all)
    (hwithin : ∀ f ∈ e, ∀ m ∈ f.mentions, Within os all (ps ++ qs) m.1 m.2) :
    l.meets e r (ps.flatMap σ) (qs.flatMap σ) =
      ((e.map Expr.conjuncts).getD []).all (·.holdsIn (leafLook os all σ)) := by
  unfold meets conditionHolds
  cases e with
  | none => rfl
  | some f =>
    simp only [Option.all_some, Option.map_some, Option.getD_some]
    rw [Expr.holdsIn_conjuncts]
    refine Expr.holdsIn_congr fun x n hm => ?_
    exact Arranges.lookBoth_eq hin h h' hd hrows (he f rfl _ hm) (hwithin f rfl _ hm)

theorem Arranges.join (hd : ps.Disjoint qs) (he : ∀ f ∈ e, f.PinnedIn os all)
    (hwithin : ∀ a ∈ l.rows c, ∀ b ∈ r.rows c, ∀ f ∈ e, ∀ m ∈ f.mentions,
      Within os all (ps ++ qs) m.1 m.2) :
    Arranges c leaf os all (used ++ used' ++ (e.map Expr.conjuncts).getD []) (ps ++ qs)
      (fun σ => sat σ && sat' σ && l.meets e r (ps.flatMap σ) (qs.flatMap σ))
      (joinOf .inner e l r) := by
  refine ⟨h.toSpans.join hin h'.toSpans hd e, ?_, ?_, ?_⟩
  · intro σ τ heq
    have heq' := List.forall_mem_append.mp heq
    rw [h.frame σ τ heq'.1, h'.frame σ τ heq'.2, List.flatMap_congr heq'.1,
      List.flatMap_congr heq'.2]
  · intro σ
    have hjoined : (joinOf .inner e l r).rows c =
        (l.rows c).flatMap fun a => ((r.rows c).filter (l.meets e r a)).map (a ++ ·) :=
      JoinKind.joinRows_inner _ _ _ _ _
    rw [hjoined, ← Multiset.coe_bind, h.rows σ, Multiset.bind_map, Multiset.bind_filter,
      choices_append, Multiset.filter_bind, Multiset.map_bind]
    refine Multiset.bind_congr fun τ _ => ?_
    -- the choices for the right inputs leave those for the left ones as they are
    have hleft : ∀ υ ∈ choices (fun p => (leaf p).rows c) qs τ, ∀ p ∈ ps, υ p = τ p :=
      fun υ hυ p hp => (of_mem_choices hυ).2 p fun hq => hd hp hq
    by_cases hs : sat τ = true
    · rw [if_pos hs, ← Multiset.map_coe, coe_filter, h'.rows τ, Multiset.filter_map,
        Multiset.map_map, Multiset.filter_filter]
      have hsat : ∀ υ ∈ choices (fun p => (leaf p).rows c) qs τ,
          (((l.meets e r (ps.flatMap τ) · = true) ∘ (qs.flatMap ·)) υ ∧ sat' υ = true ↔
            (sat υ && sat' υ && l.meets e r (ps.flatMap υ) (qs.flatMap υ)) = true) := by
        intro υ hυ
        rw [h.frame υ τ (hleft υ hυ), hs, List.flatMap_congr (hleft υ hυ)]
        simp [and_comm]
      rw [Multiset.filter_congr hsat]
      refine Multiset.map_congr rfl fun υ hυ => ?_
      have hυ' := (Multiset.mem_filter.mp hυ).1
      simp only [Function.comp, List.flatMap_append]
      rw [List.flatMap_congr (hleft υ hυ')]
    · rw [if_neg hs, Multiset.filter_eq_nil.mpr, Multiset.map_zero]
      intro υ hυ hsat
      rw [h.frame υ τ (hleft υ hυ)] at hsat
      simp [hs] at hsat
  · intro σ hrows
    have hrows' := List.forall_mem_append.mp hrows
    rw [List.all_append, List.all_append, ← h.holds σ hrows'.1, ← h'.holds σ hrows'.2]
    -- the condition is evaluated only where both inputs keep their rows
    cases hs : sat σ with
    | false => rfl
    | true =>
      cases hs' : sat' σ with
      | false => rfl
      | true =>
        rw [Arranges.meets_eq hin h h' hd hrows he
          (hwithin _ (h.mem_rows hrows'.1 hs) _ (h'.mem_rows hrows'.2 hs'))]

end

/-! ## The tree as written -/

/-- The inputs of a tree of inner joins, in the order in which they are written. -/
def joinInputs : Query → List Query
  | join .inner _ _ l r => l.joinInputs ++ r.joinInputs
  | q => [q]

def joinConditions : Query → List Expr
  | join .inner e _ l r => l.joinConditions ++ r.joinConditions ++ e.toList
  | _ => []

/-- Inner joins over filters and projections over one scan each. -/
def isInnerTree : Query → Bool
  | join .inner _ _ l r => l.isInnerTree && r.isInnerTree
  | q => q.isOverOneScan

def IsBuilt : Query → Prop
  | join .inner _ s l r => s = l.schema.join r.schema r.qualifier ∧ l.IsBuilt ∧ r.IsBuilt
  | _ => True

/-- The conditions of the tree have values on all pairs of rows. -/
def TreeAnswers (c : Catalog) : Query → Prop
  | join .inner e _ l r =>
    l.TreeAnswers c ∧ r.TreeAnswers c ∧
      ∀ a ∈ l.rows c, ∀ b ∈ r.rows c, ∀ f ∈ e, (f.evalWith (l.lookBoth r a b)).isOk
  | _ => True

/-- The conditions of all joins have values on all pairs of rows. -/
def ConditionsAnswer (c : Catalog) : Query → Prop
  | scan .. => True
  | insert .. => False
  | filter _ q | project _ _ q | aggregate _ _ _ q => q.ConditionsAnswer c
  | join _ e _ l r =>
    l.ConditionsAnswer c ∧ r.ConditionsAnswer c ∧
      ∀ a ∈ l.rows c, ∀ b ∈ r.rows c, ∀ f ∈ e, (f.evalWith (l.lookBoth r a b)).isOk

theorem Succeeds.conditionsAnswer : ∀ {q : Query}, q.Succeeds c → q.ConditionsAnswer c
  | scan .., _ => trivial
  | filter _ q, h | project _ _ q, h | aggregate _ _ _ q, h =>
    Succeeds.conditionsAnswer (q := q) h.1
  | join _ _ _ _ _, h => ⟨h.1.conditionsAnswer, h.2.1.conditionsAnswer, h.2.2⟩

/-- A pair of rows answers to a reference only if one of the two inputs attracts it. -/
theorem within_of_lookBoth {ps qs : List Nat} {l r : Query} (hl : Spans leaf os all ps l)
    (hr : Spans leaf os all qs r) (hpin : Pinned os all x n) {a b : Row} {v : Value}
    (h : l.lookBoth r a b x n = .ok v) : Within os all (ps ++ qs) x n := by
  rw [lookBoth, hl.named.spells.lookPair_eq hr.named.spells _ _ hpin.readable] at h
  refine hpin.within (List.forall_mem_append.mpr ⟨hl.sub, hr.sub⟩) ?_
  rw [originsAt, List.flatMap_append, List.any_append, Bool.or_eq_true]
  exact Origin.attracts_of_lookPair h

theorem spans_tree (hin : Inputs c leaf os all) : ∀ {t : Query} {places : List Nat}, t.IsBuilt →
    (∀ p ∈ places, p ∈ all) → places.Nodup → t.joinInputs = places.map leaf →
      Spans leaf os all places t
  | join k e s l r, places, hb, hsub, hnodup, hplaces => by
    cases k with
    | inner =>
      obtain ⟨rfl, hbl, hbr⟩ := hb
      obtain ⟨ps, qs, rfl, hps, hqs⟩ := List.map_eq_append_iff.mp hplaces.symm
      have hsub' := List.forall_mem_append.mp hsub
      have hnodup' := List.nodup_append'.mp hnodup
      exact (spans_tree hin hbl hsub'.1 hnodup'.1 hps.symm).join hin
        (spans_tree hin hbr hsub'.2 hnodup'.2.1 hqs.symm) hnodup'.2.2 e
    | left | right | full =>
      obtain ⟨p, rfl, hp⟩ := List.map_eq_singleton_iff.mp hplaces.symm
      exact hp ▸ hin.spans (hsub p (List.mem_singleton_self p))
  | scan .., places, _, hsub, _, hplaces | insert .., places, _, hsub, _, hplaces
  | filter .., places, _, hsub, _, hplaces | project .., places, _, hsub, _, hplaces
  | aggregate .., places, _, hsub, _, hplaces => by
    obtain ⟨p, rfl, hp⟩ := List.map_eq_singleton_iff.mp hplaces.symm
    exact hp ▸ hin.spans (hsub p (List.mem_singleton_self p))

theorem arranges_tree (hin : Inputs c leaf os all) :
    ∀ {t : Query} {places : List Nat}, t.IsBuilt → t.TreeAnswers c →
      (∀ e ∈ t.joinConditions, e.PinnedIn os all) → (∀ p ∈ places, p ∈ all) →
        places.Nodup → t.joinInputs = places.map leaf →
          ∃ sat, Arranges c leaf os all (t.joinConditions.flatMap Expr.conjuncts) places sat t
  | join k e s l r, places, hb, ha, hq, hsub, hnodup, hplaces => by
    cases k with
    | inner =>
      obtain ⟨rfl, hbl, hbr⟩ := hb
      obtain ⟨hal, har, ha⟩ := ha
      obtain ⟨ps, qs, rfl, hps, hqs⟩ := List.map_eq_append_iff.mp hplaces.symm
      have hsub' := List.forall_mem_append.mp hsub
      have hnodup' := List.nodup_append'.mp hnodup
      have hq' := List.forall_mem_append.mp hq
      have hq'' := List.forall_mem_append.mp hq'.1
      obtain ⟨sat, h⟩ := arranges_tree hin hbl hal hq''.1 hsub'.1 hnodup'.1 hps.symm
      obtain ⟨sat', h'⟩ := arranges_tree hin hbr har hq''.2 hsub'.2 hnodup'.2.1 hqs.symm
      have hpin : ∀ f ∈ e, f.PinnedIn os all := fun f hf => hq'.2 f (by simpa using hf)
      have hjoin := h.join hin h' hnodup'.2.2 hpin fun a hra b hrb f hf m hm => by
        obtain ⟨v, hv⟩ := isOk_iff_exists.mp (Expr.isOk_look (ha a hra b hrb f hf) m hm)
        exact within_of_lookBoth h.toSpans h'.toSpans (hpin f hf m hm) hv
      have hused : (join .inner e (l.schema.join r.schema r.qualifier) l r).joinConditions.flatMap
          Expr.conjuncts = l.joinConditions.flatMap Expr.conjuncts ++
            r.joinConditions.flatMap Expr.conjuncts ++ (e.map Expr.conjuncts).getD [] := by
        cases e <;> simp [joinConditions]
      exact ⟨_, hused ▸ hjoin⟩
    | left | right | full =>
      obtain ⟨p, rfl, hp⟩ := List.map_eq_singleton_iff.mp hplaces.symm
      exact ⟨_, hp ▸ hin.arranges (hsub p (List.mem_singleton_self p))⟩
  | scan .., places, _, _, _, hsub, _, hplaces | insert .., places, _, _, _, hsub, _, hplaces
  | filter .., places, _, _, _, hsub, _, hplaces | project .., places, _, _, _, hsub, _, hplaces
  | aggregate .., places, _, _, _, hsub, _, hplaces => by
    obtain ⟨p, rfl, hp⟩ := List.map_eq_singleton_iff.mp hplaces.symm
    exact ⟨_, hp ▸ hin.arranges (hsub p (List.mem_singleton_self p))⟩

end Query

end RelQuery
