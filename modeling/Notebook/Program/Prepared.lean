import Notebook.Document.Basic
import Notebook.Program.Key
import Notebook.Program.Shape

namespace Notebook.Program

/-- All that a run of a cell needs to know of its notebook. -/
structure Prepared where
  source : List Char
  key : Key
  program : List Char
  deriving DecidableEq, Repr

/-- The code up to the cell at `i`, its key, and the program made of it. -/
def prepare (shape : Shape) (m : Manifest) (d : Document) (i : Nat) : Except Failure Prepared := do
  let c ← d.cell i
  if !c.isCode then .error (.notExecutable i)
  let cells ← d.sources i
  let source := Text.joinLines cells
  .ok ⟨source, .derive source m, ofCells shape cells⟩

end Notebook.Program
