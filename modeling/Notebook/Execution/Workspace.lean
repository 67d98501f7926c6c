import Notebook.Failure
import Notebook.Files.Tree
import Notebook.Program.Key
import Notebook.Text.Utf8

/-!
Directories to build in. A workspace is named by its key and holds the manifest and the program.
-/

namespace Notebook.Execution

open Files (Path Place Tree Fault)
open Program (Key Manifest)

structure Workspace where
  key : Key
  root : Path
  deriving DecidableEq, Repr

namespace Workspace

/-- The workspace of a key below the scratch directory. -/
def ofKey (scratch : Path) (k : Key) : Workspace := ⟨k, scratch.join ⟨k.digits⟩⟩

def manifestPath (w : Workspace) : Path := w.root.join ⟨"Cargo.toml".toList⟩

def sourceDirectory (w : Workspace) : Path := w.root.join ⟨"src".toList⟩

def sourcePath (w : Workspace) : Path := w.sourceDirectory.join ⟨"main.rs".toList⟩

/-- Removes the directory with all in it. What cannot be removed stays. -/
def remove (w : Workspace) (t : Tree) (here : Place) : Tree :=
  match t.removeDirectory here w.root with
  | .ok t => t
  | .error _ => t

/-- Writes a file of the workspace, or says why that is not possible. -/
def writeFile (t : Tree) (here : Place) (p : Path) (content : List Char) : Except Failure Tree :=
  match t.write here p (Text.Utf8.encode content) with
  | .ok t => .ok t
  | .error f => .error (.workspace p f)

/-- The manifest and the program. -/
def populate (w : Workspace) (t : Tree) (here : Place) (m : Manifest) (program : List Char) :
    Except (Tree × Failure) Tree :=
  match writeFile t here w.manifestPath m.text with
  | .error f => .error (t, f)
  | .ok t =>
    match writeFile t here w.sourcePath program with
    | .error f => .error (t, f)
    | .ok t => .ok t

/-- Makes the workspace of a key. Once its directories are there, it is populated or removed. -/
def acquire (t : Tree) (here : Place) (scratch : Path) (k : Key) (m : Manifest)
    (program : List Char) : Tree × Except Failure Workspace :=
  let w := ofKey scratch k
  match t.makePath here w.sourceDirectory with
  | (t, some f) => (t, .error (.workspace w.sourceDirectory f))
  | (t, none) =>
    match w.populate t here m program with
    | .ok t => (t, .ok w)
    | .error (t, f) => (w.remove t here, .error f)

end Workspace

end Notebook.Execution
