import Mathlib.Data.List.Nodup
import Mathlib.Data.List.TakeWhile
import RelQuery.Proofs.Data.Order
import RelQuery.Proofs.Run.Supply
import RelQuery.Run.MergeJoin

/-!
# Merging and its rows

A join by sort and merge hands out `mergeRows` of its two sorted inputs. Where the order is
transitive on the join values, these are the rows of nested loops over the sorted inputs, since what
is equal to a value stands together in both of them.
-/

namespace RelQuery

/-! ## Sorting -/

section

variable {α : Type} {less : α → α → Bool}

theorem insertDescending_perm (x : α) : ∀ ys : List α,
    (insertDescending less x ys).Perm (x :: ys)
  | [] => .refl _
  | y :: ys => by
    rw [insertDescending]
    split
    · exact ((insertDescending_perm x ys).cons y).trans (.swap x y ys)
    · exact .refl _

theorem forall_mem_insertDescending {s : α → Prop} {x : α} {ys : List α} (hx : s x)
    (hys : ∀ y ∈ ys, s y) : ∀ y ∈ insertDescending less x ys, s y := fun y hy => by
  rcases List.mem_cons.mp ((insertDescending_perm x ys).subset hy) with rfl | hy
  · exact hx
  · exact hys y hy

theorem foldl_insertDescending_perm : ∀ xs sorted : List α,
    (xs.foldl (fun sorted x => insertDescending less x sorted) sorted).Perm (xs ++ sorted)
  | [], _ => .refl _
  | x :: xs, sorted => by
    rw [List.foldl_cons]
    refine (foldl_insertDescending_perm xs _).trans ?_
    exact ((insertDescending_perm x sorted).append_left xs).trans List.perm_middle

theorem insertionSort_perm (xs : List α) : (insertionSort less xs).Perm xs := by
  unfold insertionSort
  refine (List.reverse_perm _).trans ?_
  have h := @foldl_insertDescending_perm α less xs []
  simpa using h

/-- Where `r` is a total preorder and `less` its strict part. -/
theorem pairwise_insertDescending {r : α → α → Prop} {s : α → Prop}
    (htotal : ∀ a b, r a b ∨ r b a) (hless : ∀ a b, less a b = true ↔ ¬ r b a)
    (htrans : ∀ a b d, s a → s b → s d → r a b → r b d → r a d) {x : α} (hx : s x) :
    ∀ {ys : List α}, (∀ y ∈ ys, s y) → ys.Pairwise (fun a b => r b a) →
      (insertDescending less x ys).Pairwise fun a b => r b a
  | [], _, _ => List.pairwise_singleton _ _
  | y :: ys, hys, h => by
    rw [List.pairwise_cons] at h
    have hys' := List.forall_mem_cons.mp hys
    rw [insertDescending]
    by_cases hlt : less x y = true
    · rw [if_pos hlt]
      refine List.pairwise_cons.mpr ⟨fun z hz => ?_, pairwise_insertDescending htotal hless htrans
        hx hys'.2 h.2⟩
      rcases List.mem_cons.mp ((insertDescending_perm x ys).subset hz) with rfl | hz
      · exact (htotal z y).resolve_right ((hless z y).mp hlt)
      · exact h.1 z hz
    · have hle : r y x := by
        rw [hless] at hlt
        exact Classical.not_not.mp hlt
      rw [if_neg hlt]
      refine List.pairwise_cons.mpr ⟨fun z hz => ?_, List.pairwise_cons.mpr h⟩
      rcases List.mem_cons.mp hz with rfl | hz
      · exact hle
      · exact htrans z y x (hys'.2 z hz) hys'.1 hx (h.1 z hz) hle

theorem pairwise_foldl_insertDescending {r : α → α → Prop} {s : α → Prop}
    (htotal : ∀ a b, r a b ∨ r b a) (hless : ∀ a b, less a b = true ↔ ¬ r b a)
    (htrans : ∀ a b d, s a → s b → s d → r a b → r b d → r a d) :
    ∀ {xs sorted : List α}, (∀ x ∈ xs ++ sorted, s x) → sorted.Pairwise (fun a b => r b a) →
      (xs.foldl (fun sorted x => insertDescending less x sorted) sorted).Pairwise
        fun a b => r b a
  | [], _, _, h => h
  | x :: xs, sorted, hs, h => by
    rw [List.cons_append, List.forall_mem_cons, List.forall_mem_append] at hs
    rw [List.foldl_cons]
    exact pairwise_foldl_insertDescending htotal hless htrans
      (List.forall_mem_append.mpr ⟨hs.2.1, forall_mem_insertDescending hs.1 hs.2.2⟩)
      (pairwise_insertDescending htotal hless htrans hs.1 hs.2.2 h)

/-- Elements of which none is less than another keep their order. -/
theorem filter_insertDescending {p : α → Bool} {s : α → Prop}
    (hless : ∀ a b, s a → s b → p a = true → p b = true → less a b = false) {x : α} (hx : s x) :
    ∀ {ys : List α}, (∀ y ∈ ys, s y) →
      (insertDescending less x ys).filter p = (x :: ys).filter p
  | [], _ => rfl
  | y :: ys, hys => by
    obtain ⟨hy, hys⟩ := List.forall_mem_cons.mp hys
    rw [insertDescending]
    by_cases hlt : less x y = true
    · rw [if_pos hlt, List.filter_cons, filter_insertDescending hless hx hys]
      cases hpx : p x with
      | false => simp [hpx, List.filter_cons]
      | true =>
        have hpy : p y = false := by
          rw [← Bool.not_eq_true]
          intro hpy
          rw [hless x y hx hy hpx hpy] at hlt
          cases hlt
        simp [hpx, hpy]
    · rw [if_neg hlt]

theorem filter_foldl_insertDescending {p : α → Bool} {s : α → Prop}
    (hless : ∀ a b, s a → s b → p a = true → p b = true → less a b = false) :
    ∀ {xs sorted : List α}, (∀ x ∈ xs ++ sorted, s x) →
      (xs.foldl (fun sorted x => insertDescending less x sorted) sorted).filter p =
        (xs.reverse ++ sorted).filter p
  | [], _, _ => rfl
  | x :: xs, sorted, hs => by
    rw [List.cons_append, List.forall_mem_cons, List.forall_mem_append] at hs
    have hinserted : ∀ y ∈ insertDescending less x sorted, s y :=
      forall_mem_insertDescending hs.1 hs.2.2
    rw [List.foldl_cons, filter_foldl_insertDescending hless
      (List.forall_mem_append.mpr ⟨hs.2.1, hinserted⟩), List.filter_append,
      filter_insertDescending hless hs.1 hs.2.2, ← List.filter_append, List.reverse_cons,
      List.append_assoc]
    rfl

theorem filter_insertionSort {p : α → Bool} {s : α → Prop}
    (hless : ∀ a b, s a → s b → p a = true → p b = true → less a b = false) {xs : List α}
    (hs : ∀ x ∈ xs, s x) : (insertionSort less xs).filter p = xs.filter p := by
  rw [insertionSort, List.filter_reverse, filter_foldl_insertDescending hless (by simpa using hs),
    List.append_nil, ← List.filter_reverse, List.reverse_reverse]

end

/-- The order is transitive on these values. -/
def Value.OrderedOn (s : Value → Prop) : Prop :=
  ∀ u v w, s u → s v → s w → u.AtMost v → v.AtMost w → u.AtMost w

theorem Value.OrderedOn.order_eq_trans {s : Value → Prop} (hs : Value.OrderedOn s) {u v w : Value}
    (hu : s u) (hv : s v) (hw : s w) (huv : u.order v = .eq) (hvw : v.order w = .eq) :
    u.order w = .eq := by
  rw [Value.order_eq_iff_atMost] at huv hvw ⊢
  exact ⟨hs u v w hu hv hw huv.1 hvw.1, hs w v u hw hv hu hvw.2 huv.2⟩

def Ascending (ks : List Keyed) : Prop := ks.Pairwise fun a b => a.1.AtMost b.1

theorem sortKeyed_perm (ks : List Keyed) : (sortKeyed ks).Perm ks := insertionSort_perm ks

theorem ascending_sortKeyed {s : Value → Prop} (hs : Value.OrderedOn s) {ks : List Keyed}
    (h : ∀ k ∈ ks, s k.1) : Ascending (sortKeyed ks) := by
  unfold Ascending sortKeyed insertionSort
  rw [List.pairwise_reverse]
  refine pairwise_foldl_insertDescending (r := fun a b : Keyed => a.1.AtMost b.1)
    (s := fun k => s k.1) (fun a b => Value.atMost_total a.1 b.1) (fun a b => ?_)
    (fun a b d ha hb hd => hs a.1 b.1 d.1 ha hb hd) (by simpa using h) List.Pairwise.nil
  rw [beq_iff_eq, Value.order_lt_iff]

/-- Sorting is stable: what is equal to a value keeps its order. -/
theorem filter_sortKeyed {s : Value → Prop} (hs : Value.OrderedOn s) {ks : List Keyed}
    (h : ∀ k ∈ ks, s k.1) {v : Value} (hv : s v) :
    (sortKeyed ks).filter (·.1.order v == .eq) = ks.filter (·.1.order v == .eq) := by
  refine filter_insertionSort (s := fun k : Keyed => s k.1) (fun a b ha hb hav hbv => ?_) h
  obtain ⟨-, hva⟩ := Value.order_eq_iff_atMost.mp (beq_iff_eq.mp hav)
  obtain ⟨hbv, -⟩ := Value.order_eq_iff_atMost.mp (beq_iff_eq.mp hbv)
  rw [beq_eq_false_iff_ne, Ne, Value.order_lt_iff, Classical.not_not]
  exact hs b.1 v a.1 hb hv ha hbv hva

/-! ## Rows with their values -/

def keyedRows (f : Row → Value) (rs : List Row) : List Keyed :=
  (rs.filter fun r => !(f r).isNull).map fun r => (f r, r)

theorem keyedRows_congr {f g : Row → Value} {rs : List Row} (h : ∀ r ∈ rs, f r = g r) :
    keyedRows f rs = keyedRows g rs := by
  unfold keyedRows
  rw [List.filter_congr fun r hr => by rw [h r hr]]
  exact List.map_congr_left fun r hr => by rw [h r (List.mem_of_mem_filter hr)]

theorem of_mem_keyedRows {f : Row → Value} {rs : List Row} {k : Keyed} (hk : k ∈ keyedRows f rs) :
    k.2 ∈ rs ∧ k.1 = f k.2 ∧ k.1.isNull = false := by
  obtain ⟨r, hr, rfl⟩ := List.mem_map.mp hk
  obtain ⟨hr, hnull⟩ := List.mem_filter.mp hr
  exact ⟨hr, rfl, by simpa using hnull⟩

section

variable {keyOf : Row → Except QueryError Value} {f : Row → Value}

theorem fold_takeKeyed : ∀ (rs : List Row) (seen : List Keyed), (∀ r ∈ rs, keyOf r = .ok (f r)) →
    rs.foldlM (takeKeyed keyOf) seen = .ok (seen ++ keyedRows f rs)
  | [], seen, _ => by simp [keyedRows, pure, Except.pure]
  | r :: rs, seen, h => by
    have ih := fun seen => fold_takeKeyed rs seen fun r' hr' => h r' (List.mem_cons_of_mem r hr')
    have htake : takeKeyed keyOf seen r = .ok (seen ++ keyedRows f [r]) := by
      unfold takeKeyed keyedRows
      simp only [h r List.mem_cons_self, bind, Except.bind]
      cases hv : (f r).isNull <;> simp [hv]
    rw [List.foldlM_cons, htake]
    refine (ih _).trans ?_
    rw [List.append_assoc]
    unfold keyedRows
    rw [← List.map_append, ← List.filter_append]
    rfl

theorem isOk_of_fold_takeKeyed : ∀ {rs : List Row} {seen ks : List Keyed},
    rs.foldlM (takeKeyed keyOf) seen = .ok ks → ∀ r ∈ rs, ∃ v, keyOf r = .ok v
  | [], _, _, _ => by simp
  | r :: rs, seen, ks, h => by
    rw [List.foldlM_cons] at h
    unfold takeKeyed at h
    cases hk : keyOf r with
    | error e =>
      simp only [hk] at h
      cases h
    | ok v =>
      simp only [hk] at h
      exact List.forall_mem_cons.mpr ⟨⟨v, hk⟩, isOk_of_fold_takeKeyed h⟩

end

/-! ## Merging -/

def Keyed.joins (a b : Keyed) : Bool := a.1.order b.1 == .eq

def Keyed.pair (a b : Keyed) : Row := a.2 ++ b.2

def crossed (ls rs : List Keyed) : List Row := ls.flatMap fun a => rs.map a.pair

/-- What is merged out of the rest of the two inputs. -/
def mergeRows : List Keyed → List Keyed → List Row
  | [], _ => []
  | _ :: _, [] => []
  | l :: ls, r :: rs =>
    match l.1.order r.1 with
    | .lt => mergeRows ls (r :: rs)
    | .gt => mergeRows (l :: ls) rs
    | .eq =>
      crossed (l :: ls.takeWhile (Keyed.joins · l)) (r :: rs.takeWhile (Keyed.joins · r)) ++
        mergeRows (ls.dropWhile (Keyed.joins · l)) (rs.dropWhile (Keyed.joins · r))
termination_by ls rs => ls.length + rs.length
decreasing_by
  · simp
  · simp
  · have hl := (List.dropWhile_sublist (Keyed.joins · l) (l := ls)).length_le
    have hr := (List.dropWhile_sublist (Keyed.joins · r) (l := rs)).length_le
    simp only [List.length_cons]
    omega

theorem length_crossed (ls rs : List Keyed) : (crossed ls rs).length = ls.length * rs.length := by
  unfold crossed
  simp [List.length_flatMap, List.map_const']

theorem mul_add_mul_le (a b d e : Nat) : a * b + d * e ≤ (a + d) * (b + e) := by
  rw [Nat.add_mul, Nat.mul_add, Nat.mul_add]
  omega

theorem length_mergeRows_le (ls rs : List Keyed) :
    (mergeRows ls rs).length ≤ ls.length * rs.length := by
  fun_induction mergeRows ls rs with
  | case1 => exact Nat.zero_le _
  | case2 => exact Nat.zero_le _
  | case3 l ls r rs _ ih =>
    refine Nat.le_trans ih (Nat.mul_le_mul_right _ ?_)
    simp
  | case4 l ls r rs _ ih =>
    refine Nat.le_trans ih (Nat.mul_le_mul_left _ ?_)
    simp
  | case5 l ls r rs _ ih =>
    have hl := congrArg List.length (List.takeWhile_append_dropWhile (p := (Keyed.joins · l)) (l := ls))
    have hr := congrArg List.length (List.takeWhile_append_dropWhile (p := (Keyed.joins · r)) (l := rs))
    rw [List.length_append] at hl hr
    rw [List.length_append, length_crossed]
    refine Nat.le_trans (Nat.add_le_add_left ih _) (Nat.le_trans (mul_add_mul_le _ _ _ _) ?_)
    simp only [List.length_cons]
    exact Nat.le_of_eq (by congr 1 <;> omega)

/-! ## Merging sorted inputs -/

section

variable {s : Value → Prop}

/-- In an ascending list, behind the run of values equal to the first come greater ones. -/
theorem not_atMost_of_mem_dropWhile {l : Keyed} {ls : List Keyed} (hs : Value.OrderedOn s)
    (hin : ∀ k ∈ l :: ls, s k.1) (h : Ascending (l :: ls)) :
    ∀ k ∈ ls.dropWhile (Keyed.joins · l), ¬ k.1.AtMost l.1 := by
  have hsub := List.dropWhile_sublist (Keyed.joins · l) (l := ls)
  have hasc := (List.pairwise_cons.mp h).2.sublist hsub
  have hfirst := (List.pairwise_cons.mp h).1
  cases hd : ls.dropWhile (Keyed.joins · l) with
  | nil => simp
  | cons d ds =>
    rw [hd] at hasc hsub
    have hne : d.joins l = false := by
      have := List.head?_dropWhile_not (Keyed.joins · l) ls
      rw [hd] at this
      simpa using this
    have hmem : ∀ k ∈ d :: ds, k ∈ ls := fun k hk => hsub.subset hk
    have hdl : ¬ d.1.AtMost l.1 := by
      intro hle
      have heq := Value.order_eq_iff_atMost.mpr ⟨hle, hfirst d (hmem d List.mem_cons_self)⟩
      unfold Keyed.joins at hne
      rw [heq] at hne
      cases hne
    refine List.forall_mem_cons.mpr ⟨hdl, fun k hk hle => hdl ?_⟩
    have hmem' := fun k hk => List.mem_cons_of_mem l (hmem k hk)
    exact hs d.1 k.1 l.1 (hin d (hmem' d List.mem_cons_self))
      (hin k (hmem' k (List.mem_cons_of_mem d hk))) (hin l List.mem_cons_self)
      ((List.pairwise_cons.mp hasc).1 k hk) hle

theorem of_mem_takeWhile {l k : Keyed} {ls : List Keyed}
    (hk : k ∈ l :: ls.takeWhile (Keyed.joins · l)) : k.1.AtMost l.1 ∧ l.1.AtMost k.1 := by
  rw [← Value.order_eq_iff_atMost]
  rcases List.mem_cons.mp hk with rfl | hk
  · exact Value.order_self k.1
  · have := List.mem_takeWhile_imp hk
    simpa [Keyed.joins] using this

theorem joins_iff {a b : Keyed} : a.joins b = true ↔ a.1.AtMost b.1 ∧ b.1.AtMost a.1 := by
  unfold Keyed.joins
  rw [beq_iff_eq, Value.order_eq_iff_atMost]

theorem head_atMost {k : Keyed} {ks : List Keyed} (h : Ascending (k :: ks)) :
    ∀ b ∈ k :: ks, k.1.AtMost b.1 :=
  List.forall_mem_cons.mpr
    ⟨(Value.order_eq_iff_atMost.mp (Value.order_self k.1)).1, (List.pairwise_cons.mp h).1⟩

/-- The runs of two equal values meet, and no other rows of the two inputs meet theirs. -/
theorem filter_of_order_eq {l r : Keyed} {ls rs : List Keyed} (hs : Value.OrderedOn s)
    (hl : ∀ k ∈ l :: ls, s k.1) (hr : ∀ k ∈ r :: rs, s k.1) (hls : Ascending (l :: ls))
    (hrs : Ascending (r :: rs)) (heq : l.1.order r.1 = .eq) :
    (∀ a ∈ l :: ls.takeWhile (Keyed.joins · l),
      (r :: rs).filter a.joins = r :: rs.takeWhile (Keyed.joins · r)) ∧
    ∀ a ∈ ls.dropWhile (Keyed.joins · l),
      (r :: rs).filter a.joins = (rs.dropWhile (Keyed.joins · r)).filter a.joins := by
  obtain ⟨hlr, hrl⟩ := Value.order_eq_iff_atMost.mp heq
  have hsplit : r :: rs = (r :: rs.takeWhile (Keyed.joins · r)) ++ rs.dropWhile (Keyed.joins · r) := by
    rw [List.cons_append, List.takeWhile_append_dropWhile]
  have hsl := hl l List.mem_cons_self
  have hsr := hr r List.mem_cons_self
  have hrun : ∀ b ∈ r :: rs.takeWhile (Keyed.joins · r), b ∈ r :: rs := fun b hb => by
    rw [hsplit]
    exact List.mem_append_left _ hb
  have hrest : ∀ b ∈ rs.dropWhile (Keyed.joins · r), b ∈ r :: rs := fun b hb => by
    rw [hsplit]
    exact List.mem_append_right _ hb
  have hmem : ∀ a ∈ l :: ls.takeWhile (Keyed.joins · l), a ∈ l :: ls := fun a ha => by
    rcases List.mem_cons.mp ha with rfl | ha
    · exact List.mem_cons_self
    · exact List.mem_cons_of_mem l ((List.takeWhile_sublist _).subset ha)
  constructor
  · intro a ha
    have hsa := hl a (hmem a ha)
    obtain ⟨hal, hla⟩ := of_mem_takeWhile ha
    have har := hs _ _ _ hsa hsl hsr hal hlr
    have hra := hs _ _ _ hsr hsl hsa hrl hla
    have hall : (r :: rs.takeWhile (Keyed.joins · r)).filter a.joins =
        r :: rs.takeWhile (Keyed.joins · r) := by
      refine List.filter_eq_self.mpr fun b hb => joins_iff.mpr ?_
      obtain ⟨hbr, hrb⟩ := of_mem_takeWhile hb
      have hsb := hr b (hrun b hb)
      exact ⟨hs _ _ _ hsa hsr hsb har hrb, hs _ _ _ hsb hsr hsa hbr hra⟩
    have hnone : (rs.dropWhile (Keyed.joins · r)).filter a.joins = [] := by
      refine List.filter_eq_nil_iff.mpr fun b hb hj => ?_
      have hsb := hr b (hrest b hb)
      exact not_atMost_of_mem_dropWhile hs hr hrs b hb
        (hs _ _ _ hsb hsa hsr (joins_iff.mp hj).2 har)
    rw [hsplit, List.filter_append, hall, hnone, List.append_nil]
  · intro a ha
    have hal := List.mem_cons_of_mem l ((List.dropWhile_sublist _).subset ha)
    have hsa := hl a hal
    have hnone : (r :: rs.takeWhile (Keyed.joins · r)).filter a.joins = [] := by
      refine List.filter_eq_nil_iff.mpr fun b hb hj => ?_
      have hsb := hr b (hrun b hb)
      have har := hs _ _ _ hsa hsb hsr (joins_iff.mp hj).1 (of_mem_takeWhile hb).1
      exact not_atMost_of_mem_dropWhile hs hl hls a ha (hs _ _ _ hsa hsr hsl har hrl)
    rw [hsplit, List.filter_append, hnone, List.nil_append]

/-- What is merged are the rows of nested loops over the sorted inputs. -/
theorem mergeRows_eq (hs : Value.OrderedOn s) (ls rs : List Keyed) (hl : ∀ k ∈ ls, s k.1)
    (hr : ∀ k ∈ rs, s k.1) (hls : Ascending ls) (hrs : Ascending rs) :
    mergeRows ls rs = ls.flatMap fun a => (rs.filter a.joins).map a.pair := by
  fun_induction mergeRows ls rs with
  | case1 => rfl
  | case2 l ls => simp
  | case3 l ls r rs hlt ih =>
    have hlt := Value.order_lt_iff.mp hlt
    have hnone : (r :: rs).filter l.joins = [] := by
      refine List.filter_eq_nil_iff.mpr fun b hb hj => hlt ?_
      exact hs _ _ _ (hr r List.mem_cons_self) (hr b hb) (hl l List.mem_cons_self)
        (head_atMost hrs b hb) (joins_iff.mp hj).2
    rw [ih (fun k hk => hl k (List.mem_cons_of_mem l hk)) hr (List.pairwise_cons.mp hls).2 hrs,
      List.flatMap_cons, hnone]
    rfl
  | case4 l ls r rs hgt ih =>
    have hgt := Value.order_gt_iff.mp hgt
    rw [ih hl (fun k hk => hr k (List.mem_cons_of_mem r hk)) hls (List.pairwise_cons.mp hrs).2]
    refine List.flatMap_congr fun a ha => ?_
    have hne : a.joins r = false := by
      rw [← Bool.not_eq_true]
      intro hj
      exact hgt (hs _ _ _ (hl l List.mem_cons_self) (hl a ha) (hr r List.mem_cons_self)
        (head_atMost hls a ha) (joins_iff.mp hj).1)
    rw [List.filter_cons, hne]
    rfl
  | case5 l ls r rs heq ih =>
    obtain ⟨hrun, hrest⟩ := filter_of_order_eq hs hl hr hls hrs heq
    have hsubl := List.dropWhile_sublist (Keyed.joins · l) (l := ls)
    have hsubr := List.dropWhile_sublist (Keyed.joins · r) (l := rs)
    rw [ih (fun k hk => hl k (List.mem_cons_of_mem l (hsubl.subset hk)))
      (fun k hk => hr k (List.mem_cons_of_mem r (hsubr.subset hk)))
      ((List.pairwise_cons.mp hls).2.sublist hsubl) ((List.pairwise_cons.mp hrs).2.sublist hsubr)]
    have hsplit : l :: ls =
        (l :: ls.takeWhile (Keyed.joins · l)) ++ ls.dropWhile (Keyed.joins · l) := by
      rw [List.cons_append, List.takeWhile_append_dropWhile]
    conv_rhs => rw [hsplit, List.flatMap_append]
    congr 1
    · exact List.flatMap_congr fun a ha => by rw [hrun a ha]
    · exact List.flatMap_congr fun a ha => by rw [hrest a ha]

end

end RelQuery
