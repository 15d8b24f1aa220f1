import RelQuery.Data.Key
import RelQuery.Run.Pull

/-!
# Joining by hashing

The right rows are put into buckets by the key of their join value; each left row is then joined
with the bucket of its own. Rows whose join value is null are in no bucket and match none.
-/

namespace RelQuery

/-- Rows by key, those of one key in the order in which they were put in. -/
structure Buckets where
  entries : List (List UInt8 × List Row)

namespace Buckets

def empty : Buckets := ⟨[]⟩

def get (b : Buckets) (key : List UInt8) : List Row := (b.entries.lookup key).getD []

def insertInto (key : List UInt8) (row : Row) :
    List (List UInt8 × List Row) → List (List UInt8 × List Row)
  | [] => [(key, [row])]
  | (k, rows) :: entries =>
    if k = key then (k, rows ++ [row]) :: entries else (k, rows) :: insertInto key row entries

def insert (b : Buckets) (key : List UInt8) (row : Row) : Buckets :=
  ⟨insertInto key row b.entries⟩

def size (b : Buckets) : Nat := (b.entries.map (·.2.length)).foldr (· + ·) 0

def take (keyOf : Row → Except QueryError Value) (b : Buckets) (row : Row) :
    Except QueryError Buckets := do
  match Key.forJoin (← keyOf row) with
  | some key => .ok (b.insert key row)
  | none => .ok b

end Buckets

structure HashState where
  buckets : Buckets
  current : Option (Row × List UInt8)
  position : Nat

namespace HashState

def empty : HashState := ⟨.empty, none, 0⟩

def ready (buckets : Buckets) : HashState := ⟨buckets, none, 0⟩

def clear (st : HashState) : HashState := { st with buckets := .empty, current := none }

def partner? (st : HashState) : Option Row :=
  st.current.bind fun (l, key) => ((st.buckets.get key)[st.position]?).map (l ++ ·)

variable {σ : Type}

def next (keyOf : Row → Except QueryError Value) (pull : Pull σ) :
    Nat → HashState → σ → Catalog → HashState × Step σ (Option Row)
  | 0, st, s, c => (st, ⟨.ok none, s, c⟩)
  | fuel + 1, st, s, c =>
    match st.partner? with
    | some row => ({ st with position := st.position + 1 }, ⟨.ok (some row), s, c⟩)
    | none =>
      match pull s c with
      | ⟨.error e, s, c⟩ => (st, ⟨.error e, s, c⟩)
      | ⟨.ok none, s, c⟩ => ({ st with current := none }, ⟨.ok none, s, c⟩)
      | ⟨.ok (some l), s, c⟩ =>
        match keyOf l with
        | .error e => (st, ⟨.error e, s, c⟩)
        | .ok v =>
          next keyOf pull fuel
            { st with current := (Key.forJoin v).map (l, ·), position := 0 } s c

end HashState

end RelQuery
