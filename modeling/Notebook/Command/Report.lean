import Notebook.Command.Style
import Notebook.Execution.Kernel

/-!
What is printed about requests.
-/

namespace Notebook.Command

open Execution (Event Finished Outcome Output)
open Style (bold cyan dim green red reset styled yellow)

/-- What has been printed on the two streams. -/
structure Printed where
  out : List Char
  err : List Char
  deriving DecidableEq, Repr

namespace Printed

def nothing : Printed := ⟨[], []⟩

def append (a b : Printed) : Printed := ⟨a.out ++ b.out, a.err ++ b.err⟩

instance : Append Printed := ⟨append⟩

def line (s : List Char) : Printed := ⟨s ++ ['\n'], []⟩

def errorLine (s : List Char) : Printed := ⟨[], s ++ ['\n']⟩

end Printed

open Printed (line errorLine nothing)

def natText (n : Nat) : List Char := (toString n).toList

/-- The line before requests. -/
def header (action : String) (notebook toolchain : List Char) (shape : Program.Shape) : Printed :=
  line (styled bold action.toList ++ ' ' :: notebook ++ ' ' ::
    styled dim ("(toolchain: ".toList ++ toolchain ++ ", shape: ".toList ++ shape.name.toList ++
      [')']))

/-- The cell and the number of a request. -/
def cellText (cell order : Nat) : List Char :=
  " cell ".toList ++ natText cell ++ " [".toList ++ natText order ++ [']']

/-- The line about an event. -/
def progress (outcome : Option Outcome) (e : Event) : Printed :=
  match e with
  | .started order cell =>
    line (styled cyan "  ▶ Running".toList ++ " cell ".toList ++ natText cell ++ ' ' ::
      styled dim ('[' :: natText order ++ [']']))
  | .completed order cell =>
    let mark := match outcome with
      | some (.ok o) =>
        if o.succeeded then styled green ['✓']
        else styled yellow ['✓'] ++ " (program failed)".toList
      | _ => styled green ['✓']
    line ("  ".toList ++ mark ++ cellText cell order)
  | .failed order cell => line ("  ".toList ++ styled red ['✗'] ++ cellText cell order)

def statusText : Option Int → List Char
  | some 0 => styled green "exit 0".toList
  | some n => styled yellow ("exit ".toList ++ (toString n).toList)
  | none => styled yellow "no exit code".toList

/-- What a program has written; its lines end also if it has not ended the last one. -/
def output (o : Output) : Printed :=
  let out := if o.stdout.isEmpty then []
    else if o.stdout.getLast? = some '\n' then o.stdout else o.stdout ++ ['\n']
  line ("  ".toList ++ statusText o.exitCode) ++ ⟨out, []⟩ ++
    if o.stderr.isEmpty then nothing else errorLine (styled dim (Text.trimEnd o.stderr))

/-- A request that has ended. -/
def execution (e : Finished) : Printed :=
  let timing := match e.record.milliseconds? with
    | some ms => " in ".toList ++ seconds ms ++ ['s']
    | none => []
  line ('\n' :: styled cyan ('[' :: natText e.record.order ++ "] cell ".toList ++
    natText e.record.cellIndex) ++ styled dim timing) ++
  match e.outcome with
  | .ok o => output o
  | .error f => errorLine (styled red "  Error:".toList ++ ' ' :: f.withHint)

def rule : List Char := List.replicate 50 '─'

end Notebook.Command
