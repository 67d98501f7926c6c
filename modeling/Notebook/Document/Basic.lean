import Notebook.Document.Cell
import Notebook.Execution.Output
import Notebook.Failure
import Notebook.Text.Blank

/-!
A notebook is a list of cells. A code cell sees the code of the cells above it.
-/

namespace Notebook

structure Document where
  cells : List Cell
  deriving DecidableEq, Repr

namespace Document

def cell (d : Document) (i : Nat) : Except Failure Cell :=
  match d.cells[i]? with
  | some c => .ok c
  | none => .error (.cellNotFound i)

/-- The places of the code cells. -/
def codeIndices (d : Document) : List Nat :=
  (d.cells.zipIdx.filter (·.1.isCode)).map (·.2)

/-- The code of the cells up to and including the one at `i`. -/
def sources (d : Document) (i : Nat) : Except Failure (List (List Char)) :=
  if i < d.cells.length then .ok ((d.cells.take (i + 1)).filterMap Cell.source?)
  else .error (.cellNotFound i)

/-- The code up to `i` as one text. -/
def cumulativeSource (d : Document) (i : Nat) : Except Failure (List Char) :=
  (d.sources i).map Text.joinLines

/-- What a cell keeps of a run: what it printed and what was reported, or the failure. -/
def evaluation (source : List Char) : Except Failure Execution.Output → Cell
  | .ok o => .evaluated source o.stdout o.stderr
  | .error f => .evaluated source "error".toList f.message

/-- Keeps the outcome of a run in its cell. -/
def record (d : Document) (i : Nat) (outcome : Except Failure Execution.Output) :
    Except Failure Document := do
  let c ← d.cell i
  match c.source? with
  | none => .error (.notExecutable i)
  | some s => .ok ⟨d.cells.set i (evaluation s outcome)⟩

end Document

end Notebook
