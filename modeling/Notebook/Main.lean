import Notebook.Command.Perform
import Notebook.Shell.Interpreter

/-!
The program. It works on a tree that holds the files named on the command line, and programs are
those of the shell.
-/

namespace Notebook

open Files (Path Place Tree)

/-- The directory in the tree where paths start. -/
def workplace : Place := ["work".toList]

/-- The file that a command writes, if it does. -/
def Command.Invocation.target? (v : Command.Invocation) : Option Path :=
  match v.task with
  | .eval target => target
  | _ => none

/-- The files that a command line names. -/
def namedFiles (args : List Command.Argument) : List Path :=
  match Command.invocation args with
  | .ok v => v.notebook :: v.manifest.toList ++ v.target?.toList
  | .error _ => []

/-- Takes a file over into the tree, if there is one. -/
def takeIn (t : Tree) (p : Path) : IO Tree := do
  match ← (IO.FS.readBinFile (String.ofList p.text)).toBaseIO with
  | .ok bytes =>
    match t.deposit workplace p bytes.toList false with
    | .ok t => return t
    | .error _ => return t
  | .error _ => return t

/-- Writes a file of the tree that was not there before or has changed. -/
def takeOut (before after : Tree) (p : Path) : IO Unit := do
  match after.read workplace p with
  | .ok bytes =>
    if (before.read workplace p).toOption ≠ some bytes then
      IO.FS.writeBinFile (String.ofList p.text) ⟨bytes.toArray⟩
  | .error _ => return

end Notebook

open Notebook in
def main (args : List String) : IO UInt32 := do
  let args := args.map String.toList
  let files := namedFiles args
  let tree ← files.foldlM takeIn (Shell.system.put workplace .directory)
  let temporary := (← IO.getEnv "TMPDIR").getD "/tmp"
  let world : Command.World :=
    ⟨Shell.machine, tree, workplace, ⟨temporary.toList⟩, Execution.Schedule.fair .epoch, 0⟩
  match Command.respond world args with
  | some r =>
    files.forM (takeOut tree r.tree)
    IO.print (String.ofList r.printed.out)
    IO.eprint (String.ofList r.printed.err)
    return r.exit.toUInt32
  | none => return 1
