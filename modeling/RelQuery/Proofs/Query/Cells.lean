import RelQuery.Proofs.Query.LeftDeep
import RelQuery.Proofs.Query.Over

/-!
# Cells behind columns

What the columns of some queries hold is given as a list of cells for each. From there a filter
passes the cells on, a join lays those of its inputs side by side, and a projection on columns
picks those that its references mean. In every row of such a query the values stand in the order of
the cells.
-/

namespace RelQuery

namespace Query

variable {α : Type}

/-- The item is a column that, under this schema, shows the cell `y`. -/
def Picks (s : Schema) (xs : List α) (i : Item) (y : α) : Prop :=
  ∃ n position, i.expr = .column none n ∧ s.resolve none n = some position ∧
    xs[position]? = some y

/-- The columns of a query show these cells, in their order. -/
inductive Shows (base : Query → List α → Prop) : Query → List α → Prop
  | base {q : Query} {xs : List α} (h : base q xs) : Shows base q xs
  | filter {q : Query} {xs : List α} (e : Expr) (h : Shows base q xs) :
    Shows base (.filter e q) xs
  | join {l r : Query} {xs ys : List α} (k : JoinKind) (e : Option Expr) (s : Schema)
    (h : Shows base l xs) (h' : Shows base r ys) : Shows base (.join k e s l r) (xs ++ ys)
  | project {q : Query} {xs ys : List α} {is : List Item} (s : Schema) (h : Shows base q xs)
    (hi : List.Forall₂ (Picks q.schema xs) is ys) : Shows base (.project is s q) ys

variable {base : Query → List α → Prop} {c : Catalog}

/-! ## Values travel with the cells -/

/-- The cells of a query with the values of one of its rows, or with nulls where an outer join found
no row. -/
def BaseRow (c : Catalog) (base : Query → List α → Prop) (q : Query) (zs : List (α × Value)) :
    Prop :=
  base q (zs.map (·.1)) ∧
    (zs.map (·.2) ∈ q.rows c ∨ zs.map (·.2) = Row.nulls q.schema.width)

theorem exists_zip {β : Type} (xs : List α) (ys : List β) (h : xs.length = ys.length) :
    ∃ zs : List (α × β), zs.map (·.1) = xs ∧ zs.map (·.2) = ys :=
  ⟨xs.zip ys, List.map_fst_zip (Nat.le_of_eq h), List.map_snd_zip (Nat.le_of_eq h.symm)⟩

theorem Shows.length_eq (hbase : ∀ q xs, base q xs → xs.length = q.schema.width) {q : Query}
    {xs : List α} (h : Shows base q xs) (hr : q.IsRectangular c) : xs.length = q.schema.width := by
  induction h with
  | base h => exact hbase _ _ h
  | filter e _ ih => exact ih hr
  | join k e s _ _ ih ih' =>
    rw [List.length_append, ih hr.2.1, ih' hr.2.2, schema]
    exact hr.1.symm
  | project s _ hi _ => rw [← hi.length_eq, schema, hr.1]

theorem exists_picked {is : List Item} {xs ys : List α} {zs : List (α × Value)} {s : Schema}
    (hzs : zs.map (·.1) = xs) (hi : List.Forall₂ (Picks s xs) is ys) (names : List String) :
    ∃ ws : List (α × Value), ws.map (·.1) = ys ∧
      ws.map (·.2) = is.map (·.valueIn (Source.look [⟨zs.map (·.2), s, some names⟩])) ∧
      (∀ w ∈ ws, w ∈ zs) ∧ List.Forall₂ (Picks s zs) is ws := by
  induction hi with
  | nil => exact ⟨[], rfl, rfl, fun _ h => absurd h List.not_mem_nil, .nil⟩
  | @cons i y _ _ h _ ih =>
    obtain ⟨n, position, he, hres, hget⟩ := h
    obtain ⟨ws, hfst, hsnd, hmem, hall⟩ := ih
    rw [← hzs, List.getElem?_map] at hget
    obtain ⟨w, hw, rfl⟩ := Option.map_eq_some_iff.mp hget
    have hvalue : i.valueIn (Source.look [⟨zs.map (·.2), s, some names⟩]) = w.2 := by
      simp [Item.valueIn, he, Expr.evalWith, Source.look_unqualified, cellAt, hres, hw, orNull]
    refine ⟨w :: ws, by rw [List.map_cons, hfst], ?_, ?_, .cons ⟨n, position, he, hres, hw⟩ hall⟩
    · rw [List.map_cons, List.map_cons, hsnd, hvalue]
    · exact List.forall_mem_cons.mpr ⟨List.mem_of_getElem? hw, hmem⟩

section

variable (hbase : ∀ q xs, base q xs → xs.length = q.schema.width)
include hbase

theorem Shows.nulls {q : Query} {xs : List α} (h : Shows base q xs) (hr : q.IsRectangular c) :
    ∃ zs, zs.map (·.1) = xs ∧ zs.map (·.2) = Row.nulls q.schema.width ∧
      Shows (BaseRow c base) q zs := by
  induction h with
  | @base q xs h =>
    obtain ⟨zs, hfst, hsnd⟩ := exists_zip xs (Row.nulls q.schema.width)
      (by rw [hbase q xs h, Row.nulls, List.length_replicate])
    exact ⟨zs, hfst, hsnd, .base ⟨hfst.symm ▸ h, .inr hsnd⟩⟩
  | filter e _ ih =>
    obtain ⟨zs, hfst, hsnd, h⟩ := ih hr
    exact ⟨zs, hfst, hsnd, h.filter e⟩
  | join k e s _ _ ih ih' =>
    obtain ⟨zs, hfst, hsnd, h⟩ := ih hr.2.1
    obtain ⟨zs', hfst', hsnd', h'⟩ := ih' hr.2.2
    refine ⟨zs ++ zs', by rw [List.map_append, hfst, hfst'], ?_, h.join k e s h'⟩
    rw [List.map_append, hsnd, hsnd', schema, hr.1, Row.nulls, Row.nulls, Row.nulls,
      List.replicate_append_replicate]
  | @project q xs ys is s _ hi ih =>
    obtain ⟨zs, hfst, hsnd, h⟩ := ih hr.2
    obtain ⟨ws, hws, -, hmem, hall⟩ := exists_picked hfst hi []
    refine ⟨ws, hws, ?_, h.project s hall⟩
    have hlen : ws.length = s.width := by rw [← hall.length_eq, hr.1]
    rw [schema, Row.nulls, List.eq_replicate_iff, List.length_map]
    refine ⟨hlen, fun v hv => ?_⟩
    obtain ⟨w, hw, rfl⟩ := List.mem_map.mp hv
    have hnull := List.mem_map_of_mem (f := (·.2)) (hmem w hw)
    rw [hsnd] at hnull
    exact List.eq_of_mem_replicate hnull

/-- The values of a row stand in the order of the cells that the columns show. -/
theorem Shows.rows (hc : c.IsRectangular) {q : Query} {xs : List α} (h : Shows base q xs)
    (hr : q.IsRectangular c) {row : Row} (hrow : row ∈ q.rows c) :
    ∃ zs, zs.map (·.1) = xs ∧ zs.map (·.2) = row ∧ Shows (BaseRow c base) q zs := by
  induction h generalizing row with
  | @base q xs h =>
    obtain ⟨zs, hfst, hsnd⟩ := exists_zip xs row
      (by rw [hbase q xs h, hr.length_rows hc row hrow])
    exact ⟨zs, hfst, hsnd, .base ⟨hfst.symm ▸ h, .inl (hsnd.symm ▸ hrow)⟩⟩
  | filter e _ ih =>
    obtain ⟨zs, hfst, hsnd, h⟩ := ih hr (List.mem_filter.mp hrow).1
    exact ⟨zs, hfst, hsnd, h.filter e⟩
  | @join l r xs ys k e s hl hr' ih ih' =>
    obtain ⟨a, b, rfl, hab⟩ := JoinKind.mem_joinRows hrow
    have hboth : (∃ zs, zs.map (·.1) = xs ∧ zs.map (·.2) = a ∧ Shows (BaseRow c base) l zs) ∧
        ∃ zs, zs.map (·.1) = ys ∧ zs.map (·.2) = b ∧ Shows (BaseRow c base) r zs := by
      obtain ⟨ha, hb⟩ | ⟨ha, rfl, -⟩ | ⟨rfl, hb, -⟩ := hab
      · exact ⟨ih hr.2.1 ha, ih' hr.2.2 hb⟩
      · exact ⟨ih hr.2.1 ha, hr'.nulls hbase hr.2.2⟩
      · exact ⟨hl.nulls hbase hr.2.1, ih' hr.2.2 hb⟩
    obtain ⟨⟨zs, hfst, hsnd, h⟩, zs', hfst', hsnd', h'⟩ := hboth
    exact ⟨zs ++ zs', by rw [List.map_append, hfst, hfst'], by rw [List.map_append, hsnd, hsnd'],
      h.join k e s h'⟩
  | @project q xs ys is s _ hi ih =>
    obtain ⟨r, hmem, rfl⟩ := List.mem_map.mp hrow
    obtain ⟨zs, hfst, rfl, h⟩ := ih hr.2 hmem
    obtain ⟨ws, hws, hvalues, -, hall⟩ := exists_picked hfst hi q.qualifiers
    exact ⟨ws, hws, hvalues, h.project s hall⟩

end

/-! ## Chains -/

theorem Assembles.shows {leaf : Nat → Query} {σ : Nat → List α} {t : Query} {ps : List Nat}
    (h : Assembles leaf t ps) (hleaf : ∀ p ∈ ps, Shows base (leaf p) (σ p)) :
    Shows base t (ps.flatMap σ) := by
  induction h with
  | single p =>
    rw [List.flatMap_singleton]
    exact hleaf p (List.mem_singleton_self p)
  | filter e _ ih => exact (ih hleaf).filter e
  | join e s _ _ ih ih' =>
    have hleaf' := List.forall_mem_append.mp hleaf
    rw [List.flatMap_append]
    exact (ih hleaf'.1).join .inner e s (ih' hleaf'.2)

theorem forall₂_picked {β γ : Type} {R : β → Nat → Prop} {f : Nat → Option γ} {bs : List β}
    {positions : List Nat} (h : List.Forall₂ R bs positions) : ∀ {ys : List γ},
    positions.map f = ys.map some →
      List.Forall₂ (fun b y => ∃ position, R b position ∧ f position = some y) bs ys := by
  induction h with
  | nil =>
    intro ys hys
    rw [List.map_nil, eq_comm, List.map_eq_nil_iff] at hys
    exact hys ▸ .nil
  | @cons b position _ _ hb _ ih =>
    intro ys hys
    cases ys with
    | nil => cases hys
    | cons y ys =>
      rw [List.map_cons, List.map_cons, List.cons.injEq] at hys
      exact .cons ⟨position, hb, hys.1⟩ (ih hys.2)

/-- The items that put columns back pick the cells of the inputs in their written order. -/
theorem Restores.cells {t : Query} {wanted : Schema} {widths order : List Nat}
    {items : List Item} {n : Nat} {σ : Nat → List α} (h : Restores t wanted widths order items)
    (horder : order.Perm (List.range n))
    (hwidths : widths = (List.range n).map fun p => (σ p).length) :
    List.Forall₂ (Picks t.schema (order.flatMap σ)) items ((List.range n).flatMap σ) := by
  have hmap := map_newPositions
    (fun p hp => horder.mem_iff.mpr (List.mem_range.mpr hp)) hwidths
    fun p hp => List.mem_range.mp (horder.mem_iff.mp hp)
  refine (forall₂_picked h.forall₂ hmap).imp fun i y hiy => ?_
  obtain ⟨position, ⟨new, hnew, he⟩, hy⟩ := hiy
  obtain ⟨hlt, rfl⟩ := List.getElem?_eq_some_iff.mp hnew
  -- no two columns share a name, so each item means its own
  have hown : t.schema.resolve none t.schema.columns[position].name = some position := by
    rw [Schema.resolve, Schema.indexOf?_own h.nodup hlt, Option.some_or]
  exact ⟨_, position, he, hown, hy⟩

end Query

end RelQuery
