import RelQuery.Store.Catalog

/-!
# Pulling rows

A source of rows is a function on its state and the tables: it answers with a row, with `none` at
the end, or with an error, and leaves a new state and new tables in every case. Loops over a source
take the number of rounds as fuel.
-/

namespace RelQuery

/-- The result of a step, and what the step leaves behind also when it fails. -/
structure Step (σ α : Type) where
  result : Except QueryError α
  state : σ
  catalog : Catalog

abbrev Pull (σ : Type) := σ → Catalog → Step σ (Option Row)

variable {σ β : Type}

def drain (pull : Pull σ) (take : β → Row → Except QueryError β) :
    Nat → β → σ → Catalog → β × Step σ Unit
  | 0, b, s, c => (b, ⟨.ok (), s, c⟩)
  | fuel + 1, b, s, c =>
    match pull s c with
    | ⟨.error e, s, c⟩ => (b, ⟨.error e, s, c⟩)
    | ⟨.ok none, s, c⟩ => (b, ⟨.ok (), s, c⟩)
    | ⟨.ok (some row), s, c⟩ =>
      match take b row with
      | .error e => (b, ⟨.error e, s, c⟩)
      | .ok b => drain pull take fuel b s c

def pullAccepted (pull : Pull σ) (accept : Row → Except QueryError Bool) : Nat → Pull σ
  | 0, s, c => ⟨.ok none, s, c⟩
  | fuel + 1, s, c =>
    match pull s c with
    | ⟨.error e, s, c⟩ => ⟨.error e, s, c⟩
    | ⟨.ok none, s, c⟩ => ⟨.ok none, s, c⟩
    | ⟨.ok (some row), s, c⟩ =>
      match accept row with
      | .error e => ⟨.error e, s, c⟩
      | .ok true => ⟨.ok (some row), s, c⟩
      | .ok false => pullAccepted pull accept fuel s c

def pullMapped (pull : Pull σ) (f : Row → Except QueryError Row) : Pull σ := fun s c =>
  match pull s c with
  | ⟨.error e, s, c⟩ => ⟨.error e, s, c⟩
  | ⟨.ok none, s, c⟩ => ⟨.ok none, s, c⟩
  | ⟨.ok (some row), s, c⟩ => ⟨(f row).map some, s, c⟩

end RelQuery
