import Notebook.Document.Json
import Notebook.Document.Markdown
import Notebook.Files.Tree
import Notebook.Text.Utf8

/-!
Notebooks in files. The name of a file tells its format.
-/

namespace Notebook

inductive Format where
  | markdown
  | json
  deriving DecidableEq, Repr

/-- Why a notebook cannot be read or written. -/
inductive NotebookFault where
  | unreadable (path : Files.Path) (cause : Files.Fault)
  | unwritable (path : Files.Path) (cause : Files.Fault)
  | encoding (fault : Text.Utf8.Fault)
  | unterminated (line : Nat)
  | json (problem : Json.Problem)
  deriving DecidableEq, Repr

namespace NotebookFault

def message : NotebookFault → List Char
  | unreadable p c => "Failed to read file ".toList ++ p.text ++ ": ".toList ++ c.message
  | unwritable p c => "Failed to write file ".toList ++ p.text ++ ": ".toList ++ c.message
  | encoding f => "Notebook is not valid UTF-8: ".toList ++ f.message.toList
  | unterminated n => s!"Unterminated rust code block starting on line {n}".toList
  | json p => "JSON error: ".toList ++ p.message

end NotebookFault

namespace Format

def name : Format → String
  | markdown => "markdown"
  | json => "json"

/-- A name that ends in `.json`, in letters of any case, is one of JSON. -/
def ofPath (p : Files.Path) : Format :=
  match p.extension? with
  | some e => if e.map Char.toLower = "json".toList then .json else .markdown
  | none => .markdown

def read (f : Format) (text : List Char) : Except NotebookFault Document :=
  match f with
  | markdown =>
    match Document.ofMarkdown text with
    | .ok d => .ok d
    | .error u => .error (.unterminated u.line)
  | json =>
    match Document.ofJson text with
    | .ok d => .ok d
    | .error p => .error (.json p)

def write (f : Format) (d : Document) : List Char :=
  match f with
  | markdown => d.toMarkdown
  | json => d.toJson ++ ['\n']

def decode (f : Format) (bytes : List UInt8) : Except NotebookFault Document :=
  match Text.Utf8.decode bytes with
  | .ok text => f.read text
  | .error e => .error (.encoding e)

def encode (f : Format) (d : Document) : List UInt8 := Text.Utf8.encode (f.write d)

end Format

namespace Document

open Files (Path Place Tree)

/-- Reads a notebook from a file. -/
def load (t : Tree) (here : Place) (p : Path) : Except NotebookFault Document :=
  match t.read here p with
  | .ok bytes => (Format.ofPath p).decode bytes
  | .error f => .error (.unreadable p f)

/-- Writes a notebook to a file. -/
def save (d : Document) (t : Tree) (here : Place) (p : Path) : Except NotebookFault Tree :=
  match t.write here p ((Format.ofPath p).encode d) with
  | .ok t => .ok t
  | .error f => .error (.unwritable p f)

end Document

end Notebook
