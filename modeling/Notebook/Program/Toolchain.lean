import Notebook.Failure
import Notebook.Files.Tree

namespace Notebook.Program

open Files (Name Path Place Tree Fault)

/-- The program that builds and runs a workspace, and its arguments. -/
structure Toolchain where
  program : List Char
  arguments : List (List Char)
  deriving DecidableEq, Repr

namespace Toolchain

def ofProgram (p : List Char) : Toolchain := ⟨p, ["run".toList]⟩

def standard : Toolchain := ofProgram "cargo".toList

/-- Where programs without a directory in their name are looked for. -/
def directories : List Place := [["usr".toList, "bin".toList], ["bin".toList]]

def isProgram : Files.Entry → Bool
  | .tool _ => true
  | .file _ executable => executable
  | _ => false

def isProgramAt (t : Tree) (here : Place) (p : Path) : Bool :=
  match t.lookup here p with
  | .ok (_, e) => isProgram e
  | .error _ => false

def notFound (program : List Char) : Failure :=
  .spawn program (.reason .notFound "cannot find binary path".toList)

/-- Looks the program up: where its path leads if it has a directory, else in the directories of
programs. -/
def locate (tc : Toolchain) (t : Tree) (here : Place) : Except Failure Path :=
  let path : Path := ⟨tc.program⟩
  if path.hasDirectory then
    if isProgramAt t here path then .ok path else .error (notFound tc.program)
  else
    match directories.find? fun d => !tc.program.isEmpty && isProgramAt t d path with
    | some d => .ok ((⟨'/' :: List.intercalate ['/'] d⟩ : Path).join path)
    | none => .error (notFound tc.program)

def isAvailable (tc : Toolchain) (t : Tree) (here : Place) : Bool := (tc.locate t here).isOk

end Toolchain

end Notebook.Program
