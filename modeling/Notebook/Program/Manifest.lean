import Notebook.Failure
import Notebook.Files.Tree
import Notebook.Text.Utf8

namespace Notebook.Program

/-- What a manifest says about the package. -/
structure Package where
  name : List Char
  version : List Char
  edition : Option (List Char)
  deriving DecidableEq, Repr

def Package.standard : Package := ⟨"tmp".toList, "0.1.0".toList, some "2021".toList⟩

/-- The build manifest, word for word. -/
structure Manifest where
  text : List Char
  deriving DecidableEq, Repr

namespace Manifest

def setting (key : String) (value : List Char) : List Char :=
  key.toList ++ " = \"".toList ++ value ++ "\"\n".toList

def ofPackage (p : Package) : Manifest :=
  ⟨"[package]\n".toList ++ setting "name" p.name ++ setting "version" p.version ++
    match p.edition with
    | some e => setting "edition" e
    | none => []⟩

def standard : Manifest := ofPackage .standard

/-- Reads a manifest from a file. -/
def load (t : Files.Tree) (here : Files.Place) (p : Files.Path) : Except Failure Manifest :=
  match t.read here p with
  | .error f => .error (.manifest p f)
  | .ok bytes =>
    match Text.Utf8.decode bytes with
    | .ok text => .ok ⟨text⟩
    | .error _ => .error (.manifest p .notUtf8)

end Manifest

end Notebook.Program
