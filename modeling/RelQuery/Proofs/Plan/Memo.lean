import RelQuery.Plan.Memo

/-!
# The memo changes nothing

Every node of a query has a path of its own, so a search that starts with nothing recorded under its
path finds nothing on its way. It returns what the search without a memo returns, and records only
under its path: one group for each node, which holds the plan that the search finds for the node. A
second search for the same query takes the root's plan from there.
-/

namespace RelQuery

namespace Memo

variable {κ : Type} {m : Memo κ} {path : Path}

/-- Nothing is recorded for the node at this path or any below it. -/
def Fresh (path : Path) (m : Memo κ) : Prop := ∀ x ∈ m.index, ¬ path <+: x.1

theorem fresh_empty (path : Path) : Fresh path (empty : Memo κ) := fun _ hx => by cases hx

theorem Fresh.below (h : Fresh path m) (i : Nat) : Fresh (path ++ [i]) m :=
  fun x hx hp => h x hx ((List.prefix_append path [i]).trans hp)

/-- What the second memo has in addition is recorded under the path. -/
def Extends (path : Path) (m m' : Memo κ) : Prop := ∀ x ∈ m'.index, x ∈ m.index ∨ path <+: x.1

theorem Extends.refl (path : Path) (m : Memo κ) : Extends path m m := fun _ hx => .inl hx

theorem Extends.trans {m' m'' : Memo κ} (h : Extends path m m') (h' : Extends path m' m'') :
    Extends path m m'' := by
  intro x hx
  rcases h' x hx with hx | hx
  · exact h x hx
  · exact .inr hx

theorem Extends.below {m' : Memo κ} {i : Nat} (h : Extends (path ++ [i]) m m') :
    Extends path m m' :=
  fun x hx => (h x hx).imp_right fun hp => (List.prefix_append path [i]).trans hp

theorem Fresh.other {m' : Memo κ} (h : Fresh path m) {i j : Nat} (hij : i ≠ j)
    (he : Extends (path ++ [i]) m m') : Fresh (path ++ [j]) m' := by
  intro x hx hp
  rcases he x hx with hx | hi
  · exact h.below j x hx hp
  · rcases List.prefix_or_prefix_of_prefix hi hp with h' | h'
    · have := h'.eq_of_length (by simp)
      simp_all
    · have := h'.eq_of_length (by simp)
      simp_all

theorem lookup_fresh (h : Fresh path m) : m.lookup path = (none, m) := by
  unfold lookup
  have hnone : m.index.lookup path = none := by
    apply List.lookup_eq_none_iff.mpr
    intro x hx
    apply bne_iff_ne.mpr
    rintro rfl
    exact h x hx (List.prefix_refl _)
  rw [hnone]

theorem orElse_fresh {compute : Memo κ → Except QueryError (Plan κ) × Memo κ} (h : Fresh path m)
    (hc : Extends path m (compute m).2) :
    (orElse path compute m).1 = (compute m).1 ∧ Extends path m (orElse path compute m).2 := by
  unfold orElse
  rw [lookup_fresh h]
  simp only
  cases hr : (compute m).1 with
  | error e =>
    have heq : compute m = (.error e, (compute m).2) := by rw [← hr]
    rw [heq]
    exact ⟨rfl, hc⟩
  | ok p =>
    have heq : compute m = (.ok p, (compute m).2) := by rw [← hr]
    rw [heq]
    refine ⟨rfl, fun x hx => ?_⟩
    rcases List.mem_cons.mp hx with rfl | hx
    · exact .inr (List.prefix_refl _)
    · exact hc x hx

theorem orElse_unary {inner : Memo κ → Except QueryError (Plan κ) × Memo κ}
    {found : Except QueryError (Plan κ)} (f : Plan κ → Except QueryError (Plan κ))
    (h : Fresh path m) (hsame : (inner m).1 = found) (hext : Extends path m (inner m).2) :
    let step := fun m : Memo κ =>
      match inner m with
      | (.ok p, m) => (f p, m)
      | (.error e, m) => (.error e, m)
    (orElse path step m).1 = found.bind f ∧ Extends path m (orElse path step m).2 := by
  intro step
  have hstep : (step m).1 = found.bind f ∧ (step m).2 = (inner m).2 := by
    rw [← hsame]
    simp only [step]
    rcases inner m with ⟨e | p, m'⟩
    · exact ⟨rfl, rfl⟩
    · exact ⟨rfl, rfl⟩
  rw [← hstep.1]
  exact orElse_fresh h (hstep.2 ▸ hext)

theorem orElse_binary {left right : Memo κ → Except QueryError (Plan κ) × Memo κ}
    {found found' : Except QueryError (Plan κ)} (f : Plan κ → Plan κ → Except QueryError (Plan κ))
    (h : Fresh path m) (hsame : (left m).1 = found) (hext : Extends path m (left m).2)
    (hsame' : (right (left m).2).1 = found')
    (hext' : Extends path (left m).2 (right (left m).2).2) :
    let step := fun m : Memo κ =>
      match left m with
      | (.error e, m) => (.error e, m)
      | (.ok pl, m) =>
        match right m with
        | (.error e, m) => (.error e, m)
        | (.ok pr, m) => (f pl pr, m)
    (orElse path step m).1 = found.bind (fun pl => found'.bind (f pl)) ∧
      Extends path m (orElse path step m).2 := by
  intro step
  have hstep : (step m).1 = found.bind (fun pl => found'.bind (f pl)) ∧
      Extends path m (step m).2 := by
    rw [← hsame, ← hsame']
    simp only [step]
    generalize left m = x at hext hext' ⊢
    rcases x with ⟨e | pl, m₁⟩
    · exact ⟨rfl, hext⟩
    · have hboth := hext.trans hext'
      simp only at hboth ⊢
      generalize right m₁ = y at hboth ⊢
      rcases y with ⟨e | pr, m₂⟩
      · exact ⟨rfl, hboth⟩
      · exact ⟨rfl, hboth⟩
  rw [← hstep.1]
  exact orElse_fresh h hstep.2

end Memo

variable {κ : Type} [CostScalar κ] {rules : List (Rule κ)} {model : CostModel κ}

open Memo

theorem searchMemo_fresh : ∀ {q : Query} {path : Path} {m : Memo κ}, Fresh path m →
    (searchMemo rules model q path m).1 = search rules model q ∧
      Extends path m (searchMemo rules model q path m).2
  | .scan .., path, m, h | .insert .., path, m, h => orElse_fresh h (.refl path m)
  | .filter e q, path, m, h => by
    obtain ⟨hsame, hext⟩ := searchMemo_fresh (q := q) (h.below 0)
    exact orElse_unary (fun p => choose rules model (.filter e q) [p]) h hsame hext.below
  | .project is s q, path, m, h => by
    obtain ⟨hsame, hext⟩ := searchMemo_fresh (q := q) (h.below 0)
    exact orElse_unary (fun p => choose rules model (.project is s q) [p]) h hsame hext.below
  | .aggregate gs os s q, path, m, h => by
    obtain ⟨hsame, hext⟩ := searchMemo_fresh (q := q) (h.below 0)
    exact orElse_unary (fun p => choose rules model (.aggregate gs os s q) [p]) h hsame hext.below
  | .join k e s l r, path, m, h => by
    obtain ⟨hsame, hext⟩ := searchMemo_fresh (q := l) (h.below 0)
    obtain ⟨hsame', hext'⟩ := searchMemo_fresh (q := r) (h.other (by decide : 0 ≠ 1) hext)
    exact orElse_binary (fun pl pr => choose rules model (.join k e s l r) [pl, pr]) h hsame
      hext.below hsame' hext'.below

/-- Searching with an empty memo finds what searching without one finds. -/
theorem searchMemo_empty (q : Query) :
    (searchMemo rules model q [] .empty).1 = search rules model q :=
  (searchMemo_fresh (fresh_empty [])).1

/-! ## What a search records -/

omit [CostScalar κ] in
theorem Query.at?_cons (q : Query) (i : Nat) (way : Path) :
    q.at? (i :: way) = q.children[i]?.bind (·.at? way) := by
  cases q with
  | scan | insert => simp [at?, children]
  | filter _ input | project _ _ input | aggregate _ _ _ input =>
    cases i with
    | zero => rw [at?]; rfl
    | succ i => simp [at?, children]
  | join _ _ _ l r =>
    match i with
    | 0 | 1 => rw [at?]; rfl
    | i + 2 => simp [at?, children]

namespace Memo

section

omit [CostScalar κ]

variable {m m' m'' : Memo κ} {path way : Path} {p : Plan κ} {n n' : Nat}

/-- The latest group of the node at this path holds this plan. -/
def Holds (m : Memo κ) (path : Path) (p : Plan κ) : Prop :=
  ∃ id, m.index.lookup path = some id ∧ m.group? id = some p

theorem Holds.lookup_eq (h : m.Holds path p) :
    m.lookup path = (some p, { m with hits := m.hits + 1 }) := by
  obtain ⟨id, hid, hp⟩ := h
  rw [lookup, hid]
  simp only [hp]

theorem holds_insert (m : Memo κ) (path : Path) (p : Plan κ) : (m.insert path p).Holds path p :=
  ⟨m.groups.length, List.lookup_cons_self, by rw [group?, insert, List.getElem?_concat_length]⟩

/-- The second memo has `count` groups more than the first, all of them recorded under the path, and
no record was found on the way. -/
structure Grows (path : Path) (count : Nat) (m m' : Memo κ) : Prop where
  index : ∃ records, m'.index = records ++ m.index ∧ ∀ x ∈ records, path <+: x.1
  groups : ∃ plans, m'.groups = m.groups ++ plans ∧ plans.length = count
  hits : m'.hits = m.hits

theorem Grows.refl (path : Path) (m : Memo κ) : Grows path 0 m m :=
  ⟨⟨[], rfl, by simp⟩, ⟨[], by simp, rfl⟩, rfl⟩

theorem Grows.trans (h : Grows path n m m') (h' : Grows path n' m' m'') :
    Grows path (n + n') m m'' := by
  obtain ⟨⟨records, hindex, hpath⟩, ⟨plans, hgroups, hn⟩, hhits⟩ := h
  obtain ⟨⟨records', hindex', hpath'⟩, ⟨plans', hgroups', hn'⟩, hhits'⟩ := h'
  refine ⟨⟨records' ++ records, ?_, ?_⟩, ⟨plans ++ plans', ?_, ?_⟩, hhits'.trans hhits⟩
  · rw [hindex', hindex, List.append_assoc]
  · intro x hx
    rcases List.mem_append.mp hx with hx | hx
    · exact hpath' x hx
    · exact hpath x hx
  · rw [hgroups', hgroups, List.append_assoc]
  · rw [List.length_append, hn, hn']

theorem Grows.below {i : Nat} (h : Grows (path ++ [i]) n m m') : Grows path n m m' := by
  obtain ⟨⟨records, hindex, hpath⟩, hgroups, hhits⟩ := h
  exact ⟨⟨records, hindex, fun x hx => (List.prefix_append path [i]).trans (hpath x hx)⟩, hgroups,
    hhits⟩

theorem grows_insert (m : Memo κ) (path : Path) (p : Plan κ) :
    Grows path 1 m (m.insert path p) :=
  ⟨⟨[(path, m.groups.length)], rfl, by simp⟩, ⟨[p], rfl, rfl⟩, rfl⟩

/-- Records under other paths hide no record. -/
theorem Holds.behind (h : m.Holds way p) {records : List (Path × Nat)} {plans : List (Plan κ)}
    (hindex : m'.index = records ++ m.index) (hgroups : m'.groups = m.groups ++ plans)
    (hway : ∀ x ∈ records, x.1 ≠ way) : m'.Holds way p := by
  obtain ⟨id, hid, hp⟩ := h
  refine ⟨id, ?_, ?_⟩
  · have hnone : records.lookup way = none :=
      List.lookup_eq_none_iff.mpr fun x hx => bne_iff_ne.mpr (hway x hx).symm
    rw [hindex, List.lookup_append, hnone, hid]
    rfl
  · rw [group?] at hp ⊢
    rw [hgroups, List.getElem?_append_left (List.getElem?_eq_some_iff.mp hp).1, hp]

theorem Holds.grows (h : m.Holds way p) (hg : Grows path n m m') (hway : ¬ path <+: way) :
    m'.Holds way p := by
  obtain ⟨⟨records, hindex, hpath⟩, ⟨plans, hgroups, -⟩, -⟩ := hg
  refine h.behind hindex hgroups fun x hx e => hway ?_
  rw [← e]
  exact hpath x hx

theorem Holds.insert (h : m.Holds way p) (hne : path ≠ way) (p' : Plan κ) :
    (m.insert path p').Holds way p := by
  have hother : ∀ x ∈ [(path, m.groups.length)], x.1 ≠ way := by simpa using hne
  exact h.behind rfl rfl hother

theorem of_orElse_fresh {compute : Memo κ → Except QueryError (Plan κ) × Memo κ}
    (h : Fresh path m) (hfound : orElse path compute m = (.ok p, m')) :
    ∃ m₁, compute m = (.ok p, m₁) ∧ m' = m₁.insert path p := by
  rw [orElse, lookup_fresh h] at hfound
  simp only at hfound
  rcases hc : compute m with ⟨e | p₁, m₁⟩
  · rw [hc] at hfound
    cases hfound
  · rw [hc] at hfound
    cases hfound
    exact ⟨m₁, rfl, rfl⟩

end

/-- Between the two memos each node of the query at this path was planned and recorded. -/
structure Records (rules : List (Rule κ)) (model : CostModel κ) (path : Path) (q : Query)
    (m m' : Memo κ) : Prop where
  grows : Grows path q.nodeCount m m'
  holds : ∀ way q', q.at? way = some q' →
    ∃ p, search rules model q' = .ok p ∧ m'.Holds (path ++ way) p

variable {m m₁ m₂ : Memo κ} {path : Path} {p : Plan κ} {q l r : Query} {n : Nat}

/-- A node is recorded behind the nodes below it. -/
theorem Records.node (hg : Grows path n m m₁)
    (hbelow : ∀ i child, q.children[i]? = some child → ∀ way q', child.at? way = some q' →
      ∃ p, search rules model q' = .ok p ∧ m₁.Holds (path ++ i :: way) p)
    (hcount : q.nodeCount = n + 1) (hq : search rules model q = .ok p) :
    Records rules model path q m (m₁.insert path p) := by
  refine ⟨hcount ▸ hg.trans (grows_insert m₁ path p), fun way q' h => ?_⟩
  cases way with
  | nil =>
    rw [Query.at?, Option.some.injEq] at h
    subst h
    exact ⟨p, hq, by rw [List.append_nil]; exact holds_insert m₁ path p⟩
  | cons i way =>
    rw [Query.at?_cons] at h
    obtain ⟨child, hchild, hat⟩ := Option.bind_eq_some_iff.mp h
    obtain ⟨p', hp', hholds⟩ := hbelow i child hchild way q' hat
    exact ⟨p', hp', hholds.insert (by simp) p⟩

theorem Records.leaf (hleaf : q.children = []) (hcount : q.nodeCount = 1)
    (hq : search rules model q = .ok p) : Records rules model path q m (m.insert path p) :=
  .node (.refl path m) (fun i child h => by rw [hleaf] at h; cases h) hcount hq

theorem Records.unary (h : Records rules model (path ++ [0]) l m m₁) (hchildren : q.children = [l])
    (hcount : q.nodeCount = l.nodeCount + 1) (hq : search rules model q = .ok p) :
    Records rules model path q m (m₁.insert path p) := by
  refine .node h.grows.below (fun i child hchild way q' hat => ?_) hcount hq
  rw [hchildren, List.getElem?_singleton] at hchild
  split at hchild
  · rename_i hi
    cases hchild
    rw [hi, List.append_cons]
    exact h.holds way q' hat
  · cases hchild

theorem Records.binary (hl : Records rules model (path ++ [0]) l m m₁)
    (hr : Records rules model (path ++ [1]) r m₁ m₂) (hchildren : q.children = [l, r])
    (hcount : q.nodeCount = l.nodeCount + r.nodeCount + 1) (hq : search rules model q = .ok p) :
    Records rules model path q m (m₂.insert path p) := by
  refine .node (hl.grows.below.trans hr.grows.below) (fun i child hchild way q' hat => ?_) hcount hq
  rw [hchildren] at hchild
  match i, hchild with
  | 0, hchild =>
    cases hchild
    obtain ⟨p', hp', hholds⟩ := hl.holds way q' hat
    rw [List.append_assoc] at hholds
    refine ⟨p', hp', hholds.grows hr.grows fun hprefix => ?_⟩
    rw [List.prefix_append_right_inj, List.singleton_append, List.cons_prefix_cons] at hprefix
    exact absurd hprefix.1 (by decide)
  | 1, hchild =>
    cases hchild
    rw [List.append_cons]
    exact hr.holds way q' hat
  | i + 2, hchild => cases hchild

end Memo

open Memo

theorem searchMemo_of_holds {q : Query} {path : Path} {m : Memo κ} {p : Plan κ}
    (h : m.Holds path p) :
    searchMemo rules model q path m = (.ok p, { m with hits := m.hits + 1 }) := by
  cases q <;> rw [searchMemo, orElse, h.lookup_eq]

/-- A search that succeeds has planned and recorded every node. -/
theorem records_of_searchMemo : ∀ {q : Query} {path : Path} {m m' : Memo κ} {p : Plan κ},
    Fresh path m → searchMemo rules model q path m = (.ok p, m') →
      Records rules model path q m m'
  | .scan .., path, m, m', p, hm, h | .insert .., path, m, m', p, hm, h => by
    obtain ⟨m₁, hc, rfl⟩ := of_orElse_fresh hm h
    obtain ⟨hq, rfl⟩ := Prod.mk.inj hc
    exact .leaf rfl rfl hq
  | .filter _ q, path, m, m', p, hm, h | .project _ _ q, path, m, m', p, hm, h
  | .aggregate _ _ _ q, path, m, m', p, hm, h => by
    have hq := (searchMemo_fresh hm).1.symm.trans (congrArg Prod.fst h)
    obtain ⟨m₁, hc, rfl⟩ := of_orElse_fresh hm h
    rcases hin : searchMemo rules model q (path ++ [0]) m with ⟨e | input, m₂⟩
    · rw [hin] at hc
      cases hc
    · rw [hin] at hc
      obtain ⟨-, rfl⟩ := Prod.mk.inj hc
      exact .unary (records_of_searchMemo (hm.below 0) hin) rfl rfl hq
  | .join _ _ _ l r, path, m, m', p, hm, h => by
    have hq := (searchMemo_fresh hm).1.symm.trans (congrArg Prod.fst h)
    obtain ⟨m₁, hc, rfl⟩ := of_orElse_fresh hm h
    have hext : Extends (path ++ [0]) m (searchMemo rules model l (path ++ [0]) m).2 :=
      (searchMemo_fresh (hm.below 0)).2
    rcases hl : searchMemo rules model l (path ++ [0]) m with ⟨e | pl, m₂⟩
    · rw [hl] at hc
      cases hc
    rw [hl] at hc hext
    simp only at hc
    rcases hr : searchMemo rules model r (path ++ [1]) m₂ with ⟨e | pr, m₃⟩
    · rw [hr] at hc
      cases hc
    rw [hr] at hc
    obtain ⟨-, rfl⟩ := Prod.mk.inj hc
    exact .binary (records_of_searchMemo (hm.below 0) hl)
      (records_of_searchMemo (hm.other (by decide) hext) hr) rfl rfl hq

/-- A search with an empty memo finds what the search without one finds. Where that is a plan, the
memo holds one group for each node and was hit nowhere, each node's group is the plan that the search
finds for the node alone, and a second search finds the same plan by one hit and records nothing. -/
theorem searchMemo_records_search (rules : List (Rule κ)) (model : CostModel κ) (q : Query) :
    let first := searchMemo rules model q [] .empty
    first.1 = search rules model q ∧
      ∀ p, first.1 = .ok p →
        first.2.groups.length = q.nodeCount ∧ first.2.hits = 0 ∧
          (∀ path q', q.at? path = some q' →
            ∃ p', search rules model q' = .ok p' ∧ (first.2.lookup path).1 = some p') ∧
          searchMemo rules model q [] first.2 =
            (.ok p, { first.2 with hits := first.2.hits + 1 }) := by
  intro first
  have hsame : first.1 = search rules model q := searchMemo_empty q
  refine ⟨hsame, fun p hp => ?_⟩
  have hrecords := records_of_searchMemo (fresh_empty []) (Prod.ext hp rfl : first = (.ok p, first.2))
  obtain ⟨plans, hgroups, hcount⟩ := hrecords.grows.groups
  refine ⟨?_, hrecords.grows.hits, fun path q' hat => ?_, ?_⟩
  · rw [hgroups, empty, List.nil_append, hcount]
  · obtain ⟨p', hp', hholds⟩ := hrecords.holds path q' hat
    rw [List.nil_append] at hholds
    exact ⟨p', hp', congrArg Prod.fst hholds.lookup_eq⟩
  · obtain ⟨p', hp', hholds⟩ := hrecords.holds [] q (by rw [Query.at?])
    have hroot : p' = p := Except.ok.inj (hp'.symm.trans (hsame.symm.trans hp))
    rw [List.nil_append, hroot] at hholds
    exact searchMemo_of_holds hholds

/-- All pairs of guests. The two scans are equal, and two nodes. -/
def guestPairs : Query :=
  .join .inner none ⟨[⟨"no", .int⟩, ⟨"guest.no", .int⟩]⟩ (.scan "guest" none ⟨[⟨"no", .int⟩]⟩)
    (.scan "guest" none ⟨[⟨"no", .int⟩]⟩)

theorem searchMemo_records_search_of_guestPairs :
    let model : CostModel Float := ⟨.default, none⟩
    let first := searchMemo Rule.baseline model guestPairs [] .empty
    (∃ p, first.1 = .ok p ∧
      searchMemo Rule.baseline model guestPairs [] first.2 = (.ok p, { first.2 with hits := 1 })) ∧
      first.2.groups.length = 3 ∧
      ∃ p, search Rule.baseline model (.scan "guest" none ⟨[⟨"no", .int⟩]⟩) = .ok p ∧
        (first.2.lookup [0]).1 = some p ∧ (first.2.lookup [1]).1 = some p := by
  intro model first
  obtain ⟨hsame, hfound⟩ := searchMemo_records_search Rule.baseline model guestPairs
  obtain ⟨p, hp⟩ : ∃ p, search Rule.baseline model guestPairs = .ok p := ⟨_, rfl⟩
  obtain ⟨hgroups, hhits, hnodes, hagain⟩ := hfound p (hsame.trans hp)
  obtain ⟨pl, hl, hleft⟩ := hnodes [0] _ rfl
  obtain ⟨pr, hr, hright⟩ := hnodes [1] _ rfl
  cases hl.symm.trans hr
  rw [hhits] at hagain
  exact ⟨⟨p, hsame.trans hp, hagain⟩, hgroups, pl, hl, hleft, hright⟩

end RelQuery
