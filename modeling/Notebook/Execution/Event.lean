import Notebook.Execution.Record

namespace Notebook.Execution

/-- What is told about a request while it runs. -/
inductive Event where
  | started (order cell : Nat)
  | completed (order cell : Nat)
  | failed (order cell : Nat)
  deriving DecidableEq, Repr

namespace Event

def name : Event → String
  | started .. => "started"
  | completed .. => "completed"
  | failed .. => "failed"

def order : Event → Nat
  | started n _ | completed n _ | failed n _ => n

def cell : Event → Nat
  | started _ i | completed _ i | failed _ i => i

def ofName? (s : String) (order cell : Nat) : Option Event :=
  [started order cell, completed order cell, failed order cell].find? (·.name = s)

end Event

end Notebook.Execution
