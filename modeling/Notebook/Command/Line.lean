import Notebook.Command.Arguments
import Notebook.Files.Path
import Notebook.Program.Shape
import Notebook.Program.Toolchain

/-!
The commands of the program.
-/

namespace Notebook.Command

open Files (Path)
open Program (Shape)

/-! ### Values -/

def anyText (_ : List Char) : Option Refusal := none

def pathText : List Char → Option Refusal
  | [] => some .missing
  | _ => none

def shapeText (s : List Char) : Option Refusal :=
  match Shape.ofName? (String.ofList s) with
  | some _ => none
  | none => some (.invalid (Shape.unknownMessage (String.ofList s)).toList)

/-- The greatest index of a cell. -/
def maxIndex : Nat := 18_446_744_073_709_551_615

/-- Reads digits after those of a number. -/
def indexAfter (n : Nat) : List Char → Except String Nat
  | [] => .ok n
  | c :: cs =>
    if !c.isDigit then .error "invalid digit found in string"
    else if n * 10 + (c.toNat - '0'.toNat) > maxIndex then
      .error "number too large to fit in target type"
    else indexAfter (n * 10 + (c.toNat - '0'.toNat)) cs

/-- Reads an index: digits, with a plus sign before them or not. -/
def index (s : List Char) : Except String Nat :=
  match s with
  | [] => .error "cannot parse integer from empty string"
  | '+' :: c :: cs => indexAfter 0 (c :: cs)
  | s => indexAfter 0 s

def indexText (s : List Char) : Option Refusal :=
  match index s with
  | .ok _ => none
  | .error e => some (.invalid e.toList)

/-! ### Flags -/

def helpFlag : Flag := ⟨"help", some 'h', .help, false, none, "Print help"⟩

def versionFlag : Flag := ⟨"version", some 'V', .version, false, none, "Print version"⟩

/-- The flags of all commands. -/
def commonFlags : List Flag :=
  [⟨"verbose", some 'v', .switch, false, none, "Enable verbose logging"⟩,
   ⟨"toolchain", none, .value "TOOLCHAIN" anyText, false, some "cargo",
    "Toolchain program invoked as `<program> run` in the scratch workspace"⟩,
   ⟨"manifest", none, .value "MANIFEST" pathText, false, none,
    "Cargo.toml to use instead of the built-in manifest"⟩,
   ⟨"scratch-dir", none, .value "SCRATCH_DIR" pathText, false, none,
    "Directory holding scratch workspaces (default: <temp>/rmnb-scratch)"⟩,
   ⟨"shape", none, .value "SHAPE" shapeText, false, some "evaluate",
    "How cumulative source becomes src/main.rs: verbatim, wrap or evaluate"⟩]

def cellFlag : Flag :=
  ⟨"cell", none, .value "CELL" indexText, true, none,
    "Index of the cell (0-based, as listed by `cells`)"⟩

def writeFlag : Flag :=
  ⟨"write", some 'w', .switch, false, none, "Write the evaluated notebook back to its file"⟩

def outputFlag : Flag :=
  ⟨"output", some 'o', .value "OUTPUT" pathText, false, none,
    "Write the evaluated notebook to this path instead"⟩

def notebookOperand : Operand := ⟨"NOTEBOOK", true, false, "Path to the notebook (.md or .json)"⟩

/-! ### Commands -/

def level (name about : String) (flags : List Flag) : String × Level :=
  (name, ⟨"rmnb " ++ name, about, flags ++ commonFlags ++ [helpFlag], [notebookOperand], []⟩)

def helpLevel : String × Level :=
  ("help", ⟨"rmnb help", "Print this message or the help of the given subcommand(s)", [],
    [⟨"COMMAND", false, true, "Print help for the subcommand(s)"⟩], []⟩)

def levels : List (String × Level) :=
  [level "cells" "Print the cells of a notebook as JSON" [],
   level "source" "Show the cumulative source and cache key of a cell" [cellFlag],
   level "run" "Execute a single cell" [cellFlag],
   level "eval" "Execute every code cell and record the results" [writeFlag, outputFlag],
   helpLevel]

def program : Level :=
  ⟨"rmnb", "Notebooks whose Rust cells build on each other",
    commonFlags ++ [helpFlag, versionFlag], [], levels.map fun (n, l) => (n, l.about)⟩

def versionText : List Char := "rmnb 0.1.0\n".toList

/-- What to do with a notebook. -/
inductive Task where
  | cells
  | source (cell : Nat)
  | run (cell : Nat)
  | eval (target : Option Path)
  deriving DecidableEq, Repr

/-- A command with all that it depends on. -/
structure Invocation where
  notebook : Path
  task : Task
  toolchain : List Char
  manifest : Option Path
  scratch : Option Path
  shape : Shape
  deriving DecidableEq, Repr

namespace Parsed

/-- The value of a flag after the command or, if there is none, before it. -/
def value? (p : Parsed) (name : String) : Option Argument :=
  match p.after.value? name with
  | some v => v
  | none => (p.before.value? name).join

def cell (p : Parsed) : Nat :=
  match index ((p.value? "cell").getD []) with
  | .ok n => n
  | .error _ => 0

def notebook (p : Parsed) : Path := ⟨p.after.operands.headD []⟩

/-- Where the notebook is written to: a path of its own goes before the one it came from. -/
def target? (p : Parsed) : Option Path :=
  match p.value? "output" with
  | some o => some ⟨o⟩
  | none => if (p.after.value? "write").isSome then some p.notebook else none

def task (p : Parsed) : Task :=
  match p.command with
  | "source" => .source p.cell
  | "run" => .run p.cell
  | "eval" => .eval p.target?
  | _ => .cells

def invocation (p : Parsed) : Invocation where
  notebook := p.notebook
  task := p.task
  toolchain := (p.value? "toolchain").getD Program.Toolchain.standard.program
  manifest := (p.value? "manifest").map Files.Path.mk
  scratch := (p.value? "scratch-dir").map Files.Path.mk
  shape := ((p.value? "shape").bind fun s => Shape.ofName? (String.ofList s)).getD .evaluate

end Parsed

/-- Reads the arguments of the program. -/
def invocation (args : List Argument) : Except Stop Invocation :=
  (parse program levels args).map Parsed.invocation

end Notebook.Command
