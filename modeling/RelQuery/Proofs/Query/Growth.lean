import Mathlib.Data.List.Perm.Basic
import RelQuery.Proofs.Query.Arrange
import RelQuery.Query.JoinOrder

/-!
# Growing a tree of joins

Whatever the costs are, every step of the greedy search joins one more input, and on a conjunct only
if the two sides provide its references. So the grown tree arranges its inputs, and the conjuncts it
used and those it left are together all of them.
-/

namespace RelQuery

theorem perm_eraseIdx {α : Type} {xs : List α} {i : Nat} {x : α} (h : xs[i]? = some x) :
    (x :: xs.eraseIdx i).Perm xs := by
  obtain ⟨hi, rfl⟩ := List.getElem?_eq_some_iff.mp h
  exact List.getElem_cons_eraseIdx_perm hi

namespace Query

variable {c : Catalog} {leaf : Nat → Query} {os : Nat → List Origin} {all : List Nat}
  {x : Option String} {n : String}

/-! ## Conjuncts that equate two inputs -/

theorem Inputs.plain_scan (hin : Inputs c leaf os all) {p : Nat} (hp : p ∈ all) {o : Origin}
    (ho : o ∈ os p) : Text.Plain o.scan ∧ Text.lower o.scan = o.scan := by
  have hfrom := (hin.named p hp).spells
  have hmem := (hfrom.mem_quals o.scan).mpr ⟨o, ho, rfl⟩
  exact ⟨hfrom.plain _ hmem, hfrom.lower_eq _ hmem⟩

/-- A reference that a tree provides is not attracted from outside the tree. -/
theorem within_of_binds (hin : Inputs c leaf os all) {q : Query} {ps : List Nat}
    (hq : q.Named (originsAt os ps)) (hsub : ∀ p ∈ ps, p ∈ all) (hpin : Pinned os all x n)
    (hb : q.binds (.of x n) = true) : Within os all ps x n := by
  intro p hp hatt
  refine hpin.within hsub ?_ p hp hatt
  cases x with
  | none =>
    have hn : Text.Plain n := hpin.readable
    have hbound := hq.spells.binds_unqualified hn.lower
    rw [hn.lower_lower] at hbound
    exact hbound ▸ hb
  | some x =>
    -- an input attracts the reference, so its qualifier is a plain name
    obtain ⟨o, ho, hscan⟩ := List.any_eq_true.mp hatt
    have hplain := hin.plain_scan hp ho
    rw [beq_iff_eq.mp hscan] at hplain
    have hmem := hq.mem_of_binds hplain.1 hplain.2 hpin.readable hb
    obtain ⟨o', ho', hscan'⟩ := (hq.spells.mem_quals _).mp hmem
    exact List.any_eq_true.mpr ⟨o', ho', beq_iff_eq.mpr hscan'⟩

theorem conjuncts_of_equates {l r : Query} {e : Expr} (h : equates l r e = true) :
    e.conjuncts = [e] := by
  unfold equates at h
  split at h
  · rfl
  · cases h

/-- A condition that equates two inputs is its only conjunct. -/
theorem conjuncts_condition {l r : Query} {e : Option Expr}
    (h : ∀ f ∈ e, equates l r f = true) : (e.map Expr.conjuncts).getD [] = e.toList := by
  cases e with
  | none => rfl
  | some f => exact conjuncts_of_equates (h f rfl)

/-- Nor is a reference of a condition that equates two trees attracted from outside of both. -/
theorem within_of_equates (hin : Inputs c leaf os all) {ps qs : List Nat} {l r : Query}
    (hl : Spans leaf os all ps l) (hr : Spans leaf os all qs r) {e : Expr}
    (he : e.PinnedIn os all) (h : equates l r e = true) :
    ∀ m ∈ e.mentions, Within os all (ps ++ qs) m.1 m.2 := by
  unfold equates at h
  split at h
  · rename_i a b
    simp only [Bool.and_eq_true, Bool.or_eq_true] at h
    obtain ⟨ha, hb⟩ : a.PinnedIn os all ∧ b.PinnedIn os all := List.forall_mem_append.mp he
    have hleft : ∀ f : Expr, f.PinnedIn os all → l.bindsAll f = true →
        ∀ m ∈ f.mentions, Within os all (ps ++ qs) m.1 m.2 := by
      intro f hf hbinds m hm p hp hatt
      apply List.mem_append_left
      exact within_of_binds hin hl.named hl.sub (hf m hm) (binds_of_bindsAll hbinds hm) p hp hatt
    have hright : ∀ f : Expr, f.PinnedIn os all → r.bindsAll f = true →
        ∀ m ∈ f.mentions, Within os all (ps ++ qs) m.1 m.2 := by
      intro f hf hbinds m hm p hp hatt
      apply List.mem_append_right
      exact within_of_binds hin hr.named hr.sub (hf m hm) (binds_of_bindsAll hbinds hm) p hp hatt
    intro m hm
    rw [Expr.mentions, List.mem_append] at hm
    rcases h.2 with ⟨hla, hrb⟩ | ⟨hlb, hra⟩
    · rcases hm with hm | hm
      · exact hleft a ha hla m hm
      · exact hright b hb hrb m hm
    · rcases hm with hm | hm
      · exact hright a ha hra m hm
      · exact hleft b hb hlb m hm
  · cases h

end Query

/-! ## The search -/

namespace Growth

open Query

variable {κ : Type} [CostScalar κ] {c : Catalog} {leaf : Nat → Query} {os : Nat → List Origin}
  {all : List Nat} {conjuncts : List Expr} {m : CostModel κ} {g : Growth κ}

/-- No input is lost: those joined so far and those that remain are all. -/
structure Tracks (leaf : Nat → Query) (all : List Nat) (g : Growth κ) : Prop where
  places : (g.order ++ g.remaining.map (·.place)).Perm all
  queries : ∀ i ∈ g.remaining, i.query = leaf i.place

/-- The tree arranges the inputs joined so far, and no conjunct is lost. -/
structure Sound (c : Catalog) (leaf : Nat → Query) (os : Nat → List Origin) (all : List Nat)
    (conjuncts : List Expr) (g : Growth κ) : Prop extends Tracks leaf all g where
  arranges : ∃ used sat, Arranges c leaf os all used g.order sat g.tree ∧
    (used ++ g.conjuncts).Perm conjuncts

theorem join_offer {position : Nat} {i : ChainInput κ} (hi : g.remaining[position]? = some i) :
    g.join (g.offer m position i) =
      { tree := joinOf .inner ((g.conjuncts.findIdx? (equates g.tree i.query)).bind
          (g.conjuncts[·]?)) g.tree i.query
        rows := (Cost.of (g.offer m position i).estimate.rows 0.0 0.0).rows
        order := g.order ++ [i.place]
        conjuncts := ((g.conjuncts.findIdx? (equates g.tree i.query)).map
          g.conjuncts.eraseIdx).getD g.conjuncts
        remaining := g.remaining.eraseIdx position } := by
  have hi' : g.remaining[(g.offer m position i).position]? = some i := hi
  rw [Growth.join, hi']
  rfl

theorem Tracks.join (h : Tracks leaf all g) {position : Nat} {i : ChainInput κ}
    (hi : g.remaining[position]? = some i) : Tracks leaf all (g.join (g.offer m position i)) := by
  rw [join_offer hi]
  refine ⟨?_, fun j hj => h.queries j (List.mem_of_mem_eraseIdx hj)⟩
  have hrest := (perm_eraseIdx hi).map (·.place)
  rw [List.append_assoc]
  exact (hrest.append_left g.order).trans h.places

theorem perm_takeOut {α : Type} (p : α → Bool) (xs : List α) :
    (((xs.findIdx? p).bind (xs[·]?)).toList ++
        ((xs.findIdx? p).map xs.eraseIdx).getD xs).Perm xs ∧
      ∀ x ∈ (xs.findIdx? p).bind (xs[·]?), p x = true ∧ x ∈ xs := by
  cases hk : xs.findIdx? p with
  | none => simp
  | some k =>
    obtain ⟨hlt, hpk, -⟩ := List.findIdx?_eq_some_iff_getElem.mp hk
    have hget : xs[k]? = some xs[k] := List.getElem?_eq_getElem hlt
    simp only [Option.bind_some, hget, Option.toList_some, Option.map_some, Option.getD_some,
      List.singleton_append]
    refine ⟨perm_eraseIdx hget, fun x hx => ?_⟩
    rw [← Option.mem_some_iff.mp hx]
    exact ⟨hpk, List.getElem_mem hlt⟩

/-- Any input that remains may be joined next, on a conjunct that equates it with the tree. -/
theorem Sound.join (hin : Inputs c leaf os all) (hall : all.Nodup)
    (hq : ∀ e ∈ conjuncts, e.PinnedIn os all) (h : Sound c leaf os all conjuncts g)
    {position : Nat} {i : ChainInput κ} (hi : g.remaining[position]? = some i) :
    Sound c leaf os all conjuncts (g.join (g.offer m position i)) := by
  obtain ⟨used, sat, harr, hused⟩ := h.arranges
  have htracks := h.toTracks.join (m := m) hi
  have hmem : i ∈ g.remaining := List.mem_of_getElem? hi
  have hquery := h.queries i hmem
  have hplace : i.place ∈ all :=
    h.places.subset (List.mem_append_right _ (List.mem_map_of_mem hmem))
  have hfresh : g.order.Disjoint [i.place] := by
    have hnodup := List.nodup_append'.mp (h.places.nodup_iff.mpr hall)
    exact fun p hp hp' => hnodup.2.2 hp (List.mem_singleton.mp hp' ▸ List.mem_map_of_mem hmem)
  have hright := hin.arranges hplace
  rw [← hquery] at hright
  obtain ⟨htaken, hequates⟩ := perm_takeOut (equates g.tree i.query) g.conjuncts
  have hconjunct : ∀ e ∈ g.conjuncts, e ∈ conjuncts :=
    fun e he => hused.subset (List.mem_append_right _ he)
  rw [join_offer hi] at htracks ⊢
  have hpin := fun f hf => hq f (hconjunct f (hequates f hf).2)
  refine ⟨htracks, _, _, harr.join hin hright hfresh hpin fun _ _ _ _ f hf => ?_, ?_⟩
  · exact within_of_equates hin harr.toSpans hright.toSpans (hpin f hf) (hequates f hf).1
  · rw [conjuncts_condition fun f hf => (hequates f hf).1, List.append_nil, List.append_assoc]
    exact (htaken.append_left used).trans hused

theorem mem_cheapest? {offers : List (NextInput κ)} {n : NextInput κ}
    (h : cheapest? offers = some n) : n ∈ offers := by
  cases offers with
  | nil => cases h
  | cons o offers =>
    rw [cheapest?, Option.some.injEq] at h
    rw [← h]
    exact mem_foldl_best (fun o best => o.estimate.isLess best.estimate) o offers

/-- The search is over, or it takes one of the inputs that remain. -/
theorem grow_succ (m : CostModel κ) (steps : Nat) (g : Growth κ) :
    (g.remaining = [] ∧ grow m (steps + 1) g = g) ∨
      ∃ position i, g.remaining[position]? = some i ∧
        grow m (steps + 1) g = grow m steps (g.join (g.offer m position i)) := by
  rw [Growth.grow]
  split
  · rename_i hnone
    refine .inl ⟨?_, rfl⟩
    cases hr : g.remaining with
    | nil => rfl
    | cons i rest => simp [hr, cheapest?] at hnone
  · rename_i n hn
    obtain ⟨⟨i, position⟩, hmem, rfl⟩ := List.mem_map.mp (mem_cheapest? hn)
    exact .inr ⟨position, i, List.mem_zipIdx_iff_getElem?.mp hmem, rfl⟩

/-- What joining any input preserves, the whole search preserves. -/
theorem grow_induction {P : Growth κ → Prop}
    (hjoin : ∀ (g : Growth κ) (position : Nat) (i : ChainInput κ), P g →
      g.remaining[position]? = some i → P (g.join (g.offer m position i))) :
    ∀ (steps : Nat) {g : Growth κ}, P g → P (grow m steps g)
  | 0, _, h => h
  | steps + 1, g, h => by
    obtain ⟨-, e⟩ | ⟨position, i, hi, e⟩ := grow_succ m steps g
    · rw [e]
      exact h
    · rw [e]
      exact grow_induction hjoin steps (hjoin g position i h hi)

theorem remaining_grow : ∀ (steps : Nat) {g : Growth κ}, g.remaining.length ≤ steps →
    (grow m steps g).remaining = []
  | 0, _, hsteps => List.eq_nil_of_length_eq_zero (Nat.le_zero.mp hsteps)
  | steps + 1, g, hsteps => by
    obtain ⟨hnil, e⟩ | ⟨position, i, hi, e⟩ := grow_succ m steps g
    · rw [e, hnil]
    · rw [e]
      refine remaining_grow steps ?_
      have hlt := (List.getElem?_eq_some_iff.mp hi).1
      rw [join_offer hi, List.length_eraseIdx_of_lt hlt]
      omega

theorem Sound.grow (hin : Inputs c leaf os all) (hall : all.Nodup)
    (hq : ∀ e ∈ conjuncts, e.PinnedIn os all) (steps : Nat)
    (h : Sound c leaf os all conjuncts g) (hsteps : g.remaining.length ≤ steps) :
    Sound c leaf os all conjuncts (grow m steps g) ∧ (grow m steps g).remaining = [] :=
  ⟨grow_induction (fun _ _ _ h hi => h.join hin hall hq hi) steps h, remaining_grow steps hsteps⟩

section

variable {inputs : List (ChainInput κ)} (hplaces : inputs.map (·.place) = all)
  (hget : ∀ i ∈ inputs, inputs[i.place]? = some i) (hqueries : ∀ i ∈ inputs, i.query = leaf i.place)
include hplaces hget hqueries

theorem tracks_start (h : start? inputs conjuncts = some g) :
    Tracks leaf all g ∧ g.remaining.length ≤ inputs.length ∧ g.conjuncts = conjuncts ∧
      ∃ p ∈ all, g.tree = leaf p ∧ g.order = [p] := by
  cases inputs with
  | nil => cases h
  | cons i rest =>
    have hmem := mem_foldl_best (fun i best => CostScalar.less i.rows best.rows) i rest
    rw [start?, Option.some.injEq] at h
    subst h
    generalize rest.foldl (fun best i => if CostScalar.less i.rows best.rows then i else best) i =
      first at hmem ⊢
    refine ⟨⟨?_, fun j hj => hqueries j (List.mem_of_mem_eraseIdx hj)⟩,
      (List.eraseIdx_sublist _ _).length_le, rfl, first.place,
      hplaces ▸ List.mem_map_of_mem hmem, hqueries first hmem, rfl⟩
    have hperm := (perm_eraseIdx (hget first hmem)).map ChainInput.place
    rw [hplaces] at hperm
    exact hperm

theorem sound_start (hin : Inputs c leaf os all) (h : start? inputs conjuncts = some g) :
    Sound c leaf os all conjuncts g ∧ g.remaining.length ≤ inputs.length := by
  obtain ⟨htracks, hlen, hconjuncts, p, hp, htree, horder⟩ :=
    tracks_start hplaces hget hqueries h
  refine ⟨⟨htracks, [], fun _ => true, ?_, ?_⟩, hlen⟩
  · rw [htree, horder]
    exact hin.arranges hp
  · rw [hconjuncts]
    exact List.Perm.refl _

end

end Growth

end RelQuery
