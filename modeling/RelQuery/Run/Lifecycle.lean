import RelQuery.Error

/-!
# Life of an operator

An operator is created, opened, asked for rows until it has no more, and closed. It can be opened
again at any time. Outside these bounds a request for a row is an error.
-/

namespace RelQuery

inductive Phase
  | created
  | opened
  | finished
  | closed
deriving DecidableEq, Repr

structure Lifecycle where
  phase : Phase
  produced : Nat
deriving DecidableEq, Repr

namespace Lifecycle

def created : Lifecycle := ⟨.created, 0⟩

def start (_ : Lifecycle) : Lifecycle := ⟨.opened, 0⟩

def finish (l : Lifecycle) : Lifecycle := { l with phase := .finished }

def close (l : Lifecycle) : Lifecycle := { l with phase := .closed }

def count (l : Lifecycle) : Lifecycle := { l with produced := l.produced + 1 }

def mayAnswer (l : Lifecycle) (operator : String) : Except QueryError Bool :=
  match l.phase with
  | .opened => .ok true
  | .finished => .ok false
  | .created => .error (.invalidState (.notOpened operator))
  | .closed => .error (.invalidState (.closed operator))

def after (l : Lifecycle) (answer : Option Row) : Lifecycle :=
  match answer with
  | some _ => l.count
  | none => l.finish

end Lifecycle

end RelQuery
