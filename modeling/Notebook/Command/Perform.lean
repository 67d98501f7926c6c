import Notebook.Command.Line
import Notebook.Command.Report
import Notebook.Document.Format

/-!
Carrying out commands.
-/

namespace Notebook.Command

open Execution (Counter Finished Kernel Machine Schedule Settings)
open Files (Path Place Tree)
open Printed (errorLine line nothing)
open Program (Manifest Toolchain)
open Style (bold green styled yellow)

/-- What a command works in: a machine, files, the directory where paths start and the one for
temporary files, the order in which pipelines go on, and the milliseconds that a whole evaluation
takes. -/
structure World where
  machine : Machine
  tree : Tree
  here : Place
  temporary : Path
  schedule : Schedule
  elapsed : Nat

/-- What a command leaves behind. -/
structure Report where
  exit : Nat
  printed : Printed
  tree : Tree

/-- Why a command fails. -/
inductive Refused where
  | failure (f : Failure)
  | notebook (f : NotebookFault)
  | unable (message : String)

namespace Refused

/-- Every further line of a cause is indented like the first. -/
def indented (s : List Char) : List Char :=
  (Text.splitLines s).flatMap fun l => "\n    ".toList ++ l

def message : Refused → List Char
  | failure f => f.withHint
  | notebook f =>
    match f with
    | .encoding e => f.message ++ "\n\nCaused by:".toList ++ indented e.message.toList
    | .json p => f.message ++ "\n\nCaused by:".toList ++ indented p.message
    | f => f.message
  | unable m => m.toList

end Refused

def succeed (t : Tree) (p : Printed) : Report := ⟨0, p, t⟩

/-- Ends with a message about what went wrong. -/
def refuse (t : Tree) (p : Printed) (r : Refused) : Report :=
  ⟨1, p ++ errorLine ("Error: ".toList ++ r.message), t⟩

/-! ### Settings -/

def scratchName : Path := ⟨"rmnb-scratch".toList⟩

def manifestOf (w : World) (v : Invocation) : Except Failure Manifest :=
  match v.manifest with
  | some p => Manifest.load w.tree w.here p
  | none => .ok .standard

def settings (w : World) (v : Invocation) : Except Failure Settings := do
  return {
    toolchain := .ofProgram v.toolchain
    manifest := ← manifestOf w v
    scratch := v.scratch.getD (w.temporary.join scratchName)
    shape := v.shape
    here := w.here }

/-! ### Commands -/

def cells (w : World) (v : Invocation) : Report :=
  match Document.load w.tree w.here v.notebook with
  | .error f => refuse w.tree nothing (.notebook f)
  | .ok d => succeed w.tree (line d.toJson)

/-- What would be built for a cell. -/
def source (w : World) (v : Invocation) (s : Settings) (cell : Nat) : Report :=
  match Document.load w.tree w.here v.notebook with
  | .error f => refuse w.tree nothing (.notebook f)
  | .ok d =>
    match Program.prepare s.shape s.manifest d cell with
    | .error f => refuse w.tree nothing (.failure f)
    | .ok p =>
      let root := (Execution.Workspace.ofKey s.scratch p.key).root
      let program : Printed :=
        if p.program = p.source then nothing
        else line (styled bold ("program (".toList ++ s.shape.name.toList ++ "):".toList)) ++
          ⟨p.program, []⟩
      succeed w.tree
        (line (styled bold "key:".toList ++ ' ' :: p.key.digits) ++
          line (styled bold "workspace:".toList ++ ' ' :: root.text) ++
          line (styled bold "source:".toList) ++ line p.source ++ program)

/-- The files after requests for cells, what was told about them meanwhile, and how they ended. -/
structure Ran where
  tree : Tree
  progress : Printed
  finished : List Finished

/-- Runs cells, if the schedule lets all of them end. -/
def runCells (w : World) (s : Settings) (d : Document) (cells : List Nat) : Option Ran := do
  let k := (Kernel.start w.tree Counter.fresh).submitAll d cells
  let k := k.run w.machine s (w.schedule cells.length)
  let finished ← k.finished? 0
  let outcome (n : Nat) := (finished.find? (·.record.order = n)).map (·.outcome)
  let progress := k.events.foldl (fun p e => p ++ progress (outcome e.order) e) nothing
  return ⟨k.tree, progress, finished⟩

/-- Runs one cell. -/
def run (w : World) (v : Invocation) (s : Settings) (cell : Nat) : Option Report := do
  match Document.load w.tree w.here v.notebook with
  | .error f => return refuse w.tree nothing (.notebook f)
  | .ok d =>
    let ran ← runCells w s d [cell]
    let e ← ran.finished.head?
    let printed := header "Running" v.notebook.text v.toolchain v.shape ++ ran.progress ++
      execution e
    match e.outcome with
    | .ok _ => return succeed ran.tree printed
    | .error _ =>
      return refuse ran.tree printed (.unable s!"cell {e.record.cellIndex} could not be executed")

/-- Keeps the outcomes of requests in their cells, one after the other. -/
def recordAll (d : Document) : List Finished → Except Failure Document
  | [] => .ok d
  | e :: es => do recordAll (← d.record e.record.cellIndex e.outcome) es

/-- Whether a request came to nothing for reasons other than the notebook. -/
def isLost (e : Finished) : Bool :=
  match e.outcome with
  | .ok _ => false
  | .error f => f.isInfrastructure

/-- What comes after all outputs: the notebook is written where it is to go, and the requests are
counted. -/
def conclude (w : World) (ran : Ran) (target : Option Path) (d : Document) (printed : Printed) :
    Report :=
  let summary (t : Tree) (printed : Printed) : Report :=
    let count := ran.finished.length
    let lost := (ran.finished.filter isLost).length
    let printed := printed ++ line ('\n' :: rule) ++
      line (styled green "Completed".toList ++ s!" {count} cells in ".toList ++
        seconds w.elapsed ++ ['s'])
    if lost > 0 then refuse t printed (.unable s!"{lost} of {count} cells could not be executed")
    else succeed t printed
  match target with
  | none => summary ran.tree printed
  | some p =>
    match d.save ran.tree w.here p with
    | .error f => refuse ran.tree printed (.notebook f)
    | .ok t => summary t (printed ++ line ("\nWrote ".toList ++ p.text))

/-- Runs all code cells and writes the notebook with their results, if it is to be written. -/
def eval (w : World) (v : Invocation) (s : Settings) (target : Option Path) : Option Report := do
  match Document.load w.tree w.here v.notebook with
  | .error f => return refuse w.tree nothing (.notebook f)
  | .ok d =>
    let head := header "Evaluating" v.notebook.text v.toolchain v.shape
    if d.codeIndices.isEmpty then
      return succeed w.tree
        (head ++ line ('\n' :: styled yellow "No code cells found in notebook.".toList) ++
          line "Code cells are fenced ```rust blocks".toList)
    else
      let ran ← runCells w s d d.codeIndices
      let printed := head ++ ran.progress ++ line ('\n' :: styled bold "Outputs:".toList) ++
        line rule
      let printed := ran.finished.foldl (fun p e => p ++ execution e) printed
      match recordAll d ran.finished with
      | .error f => return refuse ran.tree printed (.failure f)
      | .ok d => return conclude w ran target d printed

/-- Carries out a command. There is no report if the schedule does not let it end. -/
def perform (w : World) (v : Invocation) : Option Report :=
  let withSettings (f : Settings → Option Report) : Option Report :=
    match settings w v with
    | .ok s => f s
    | .error e => some (refuse w.tree nothing (.failure e))
  match v.task with
  | .cells => some (cells w v)
  | .source cell => withSettings fun s => some (source w v s cell)
  | .run cell => withSettings fun s => run w v s cell
  | .eval target => withSettings fun s => eval w v s target

/-- Reads the arguments and does what they say. -/
def respond (w : World) (args : List Argument) : Option Report :=
  match invocation args with
  | .ok v => perform w v
  | .error (.help l) => some (succeed w.tree ⟨l.helpText.toList, []⟩)
  | .error .version => some (succeed w.tree ⟨versionText, []⟩)
  | .error (.silence l) => some ⟨2, ⟨[], l.helpText.toList⟩, w.tree⟩
  | .error (.mistake m) => some ⟨2, ⟨[], m.text⟩, w.tree⟩

end Notebook.Command
