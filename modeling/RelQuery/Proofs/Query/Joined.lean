import RelQuery.Proofs.Data.Yields
import RelQuery.Proofs.Query.WellScoped

/-!
# Pairs of rows and joined rows

A join condition is evaluated over a pair of rows, an expression above the join over the two rows in
one. The pair looks a column up in the input that owns its qualifier, or in the one that has the name;
the joined row looks it up in one list of columns, of which the right ones have got a qualifier. Over
inputs of distinct scans what the pair finds is found at the same place of the joined row.
-/

namespace RelQuery.Query

variable {l r : Query} {a b : Row}

/-- Columns of two inputs that share no scan have different origins. -/
theorem Scoped.scan_ne (hl : l.Scoped) (hr : r.Scoped) (hd : l.qualifiers.Disjoint r.qualifiers) :
    ∀ o ∈ l.origins, ∀ o' ∈ r.origins, o.scan ≠ o'.scan := by
  intro o ho o' ho' hsame
  have hleft : o.scan ∈ l.qualifiers := (hl.from.mem_quals _).mpr ⟨o, ho, rfl⟩
  have hright : o.scan ∈ r.qualifiers := (hr.from.mem_quals _).mpr ⟨o', ho', hsame.symm⟩
  exact hd hleft hright

/-- What the pair finds, the joined row finds. -/
theorem lookIn_joinOf (hl : l.Scoped) (hr : r.Scoped) (hd : l.qualifiers.Disjoint r.qualifiers)
    (k : JoinKind) (condition : Option Expr) (ha : a.length = l.schema.width) {x : Option String}
    {n : String} (hn : Text.Plain n) {v : Value} (h : l.lookBoth r a b x n = .ok v) :
    (joinOf k condition l r).lookIn (a ++ b) x n = .ok v := by
  have hjoin : (joinOf k condition l r).Scoped := ⟨rfl, hl, hr, hd⟩
  rw [hl.lookBoth_eq hr a b hn] at h
  rw [hjoin.lookIn_eq _ hn]
  exact Origin.look_of_lookPair (hl.named.length_origins.trans ha.symm) (hl.scan_ne hr hd) h

/-- What has a value over a pair of rows has it over the joined row, however the inputs are joined. -/
theorem evalBound_of_evalPair (hl : l.isJoinTree = true) (hr : r.isJoinTree = true)
    (hlc : l.Coherent) (hrc : r.Coherent) (hd : (l.qualifiers ++ r.qualifiers).Nodup)
    (hn : ∀ x ∈ l.scans ++ r.scans, ScanName x.1) (ht : ∀ x ∈ l.scans ++ r.scans, x.2.Tidy)
    {e : Expr} (he : e.PlainRefs) (ha : a.length = l.schema.width) {v : Value}
    (h : e.evalPair l.schema l.qualifiers r.schema r.qualifiers a b = .ok v) (k : JoinKind)
    (condition : Option Expr) :
    e.evalBound (joinOf k condition l r).schema (joinOf k condition l r).qualifiers (a ++ b) =
      .ok v := by
  rw [List.nodup_append'] at hd
  rw [List.forall_mem_append] at hn ht
  have hls := scoped_of_isJoinTree hl hlc hd.1 hn.1 ht.1
  have hrs := scoped_of_isJoinTree hr hrc hd.2.1 hn.2 ht.2
  rw [Expr.evalPair, Expr.eval_eq] at h
  rw [Expr.evalBound, Expr.eval_eq]
  apply Expr.evalWith_mono _ h
  intro x n hm w hw
  exact lookIn_joinOf hls hrs hd.2.2 k condition ha (he (x, n) hm) hw

def authorsAndBooks : Query :=
  joinOf .left (some (.binary (.compare .eq) (.column (some "author") "id") (.column none "by")))
    (scan "author" none ⟨[⟨"id", .int⟩, ⟨"name", .string⟩]⟩)
    (filter (.literal (.bool true)) (scan "Book" none ⟨[⟨"id", .int⟩, ⟨"by", .int⟩]⟩))

def shops : Query := scan "shop" (some "Seller") ⟨[⟨"id", .int⟩, ⟨"city", .string⟩]⟩

def soldIn : Expr :=
  .and (.binary (.compare .lt) (.column (some "BOOK") "id") (.column (some "seller") "ID"))
    (.binary (.compare .eq) (.column none "city") (.column none "name"))

theorem evalBound_of_evalPair_on_shops :
    authorsAndBooks.isJoinTree = true ∧ shops.isJoinTree = true ∧
      (authorsAndBooks.qualifiers ++ shops.qualifiers).Nodup ∧ soldIn.PlainRefs ∧
      soldIn.evalPair authorsAndBooks.schema authorsAndBooks.qualifiers shops.schema
        shops.qualifiers [.int 1, .string "Oslo", .int 7, .int 1] [.int 8, .string "Oslo"] =
          .ok (.bool true) ∧
      soldIn.evalBound (joinOf .full none authorsAndBooks shops).schema
        (joinOf .full none authorsAndBooks shops).qualifiers
        [.int 1, .string "Oslo", .int 7, .int 1, .int 8, .string "Oslo"] = .ok (.bool true) := by
  have hpair : soldIn.evalPair authorsAndBooks.schema authorsAndBooks.qualifiers shops.schema
      shops.qualifiers [.int 1, .string "Oslo", .int 7, .int 1] [.int 8, .string "Oslo"] =
        .ok (.bool true) := eq_ok_of_toOption (by decide +kernel)
  have hd : (authorsAndBooks.qualifiers ++ shops.qualifiers).Nodup := by decide +kernel
  have hrefs : soldIn.PlainRefs := by decide +kernel
  refine ⟨rfl, rfl, hd, hrefs, hpair, ?_⟩
  exact evalBound_of_evalPair rfl rfl (by decide) (by decide) hd (by decide +kernel)
    (by decide +kernel) hrefs rfl hpair .full none

end RelQuery.Query
