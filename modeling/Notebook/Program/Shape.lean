import Notebook.Syntax.Statement

/-!
The program text made of the cells up to the one that runs. The cells' own text is kept; what is
added is the wrapper around it, a semicolon after a bare expression that closes a cell, and the
binding that shows the value of the last one.
-/

namespace Notebook.Program

inductive Shape where
  | verbatim
  | wrap
  | evaluate
  deriving DecidableEq, Repr

namespace Shape

def name : Shape → String
  | verbatim => "verbatim"
  | wrap => "wrap"
  | evaluate => "evaluate"

def all : List Shape := [verbatim, wrap, evaluate]

def ofName? (s : String) : Option Shape := all.find? (·.name = s)

theorem ofName?_name (s : Shape) : ofName? s.name = some s := by
  cases s <;> decide

def unknownMessage (s : String) : String :=
  "unknown source shape `" ++ s ++ "` (expected verbatim, wrap or evaluate)"

end Shape

/-- A file that declares a function `main` at its top level. -/
def declaresMain (s : List Char) : Bool :=
  match Syntax.file? s with
  | some items => items.any fun
    | .function n _ => n = "main"
    | .other => false
  | none => false

/-- Whether the form of an expression counts as one with a value. Compound assignments do, and so do
conditionals with a branch `else if`. -/
def hasValue : Syntax.ExprForm → Bool
  | .forLoop | .whileLoop | .assign => false
  | .conditional elseIfs final => elseIfs > 0 || final
  | .tuple n => n ≠ 0
  | _ => true

/-- The bare expression that closes a cell, by the number of characters of the cell before its
first and after its last. -/
structure Tail where
  start : Nat
  stop : Nat
  hasValue : Bool
  deriving DecidableEq, Repr

namespace Tail

/-- A cell as the block that it is read as. -/
def asBlock (cell : List Char) : List Char := "\x7b\n".toList ++ cell ++ "\n\x7d".toList

/-- Where a place in the block lies in the cell. -/
def offset? (cell : List Char) (p : Syntax.Position) : Option Nat :=
  if p.line < 2 then none else Syntax.offsetOf? cell (p.line - 2) p.column

def ofStmt? (cell : List Char) (s : Syntax.Stmt) : Option Tail := do
  let e ← s.bare?
  let trees := if e.leadsVerbatim then s.body else s.attributes ++ s.body
  let first ← trees.head?
  let last ← s.body.getLast?
  return ⟨← offset? cell first.span.first, ← offset? cell last.span.last, Program.hasValue e.form⟩

def of? (cell : List Char) : Option Tail := do
  ofStmt? cell (← (← Syntax.block? (asBlock cell)).getLast?)

end Tail

/-- A cell whose closing expression is ended, so that more can follow. -/
def terminated (cell : List Char) : List Char :=
  match Tail.of? cell with
  | some t => cell.take t.stop ++ ';' :: cell.drop t.stop
  | none => cell

/-- The text around a program and around its last value. -/
def opening : List Char := "fn main() \x7b\n".toList

def closing : List Char := "\n\x7d\n".toList

def binding : List Char := "\nlet __rmnb_value = \x7b\n".toList

def display : List Char := "\n\x7d;\nprintln!(\"\x7b:#?\x7d\", __rmnb_value);\n\x7d\n".toList

def wrapped (body : List Char) : List Char := opening ++ body ++ closing

/-- A program that ends by showing the value of `value`. -/
def showing (body value : List Char) : List Char := opening ++ body ++ binding ++ value ++ display

/-- The program of the cells, the last of which is the one that runs. -/
def ofCells (shape : Shape) (cells : List (List Char)) : List Char :=
  let joined := Text.joinLines cells
  if shape = .verbatim || declaresMain joined then joined
  else
    match cells.getLast? with
    | none => wrapped []
    | some last =>
      let earlier := cells.dropLast.map terminated
      match Tail.of? last with
      | some tail =>
        if shape = .evaluate && tail.hasValue then
          showing (Text.joinLines (earlier ++ [last.take tail.start])) (last.drop tail.start)
        else wrapped (Text.joinLines (earlier ++ [terminated last]))
      | none => wrapped (Text.joinLines (earlier ++ [terminated last]))

end Notebook.Program
