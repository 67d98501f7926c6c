import Notebook.Files.Fault
import Notebook.Text.Blank

namespace Notebook.Files

/-- The name of a file in its directory. -/
abbrev Name := List Char

/-- The pieces of a text between the occurrences of a character. -/
def piecesBetween (sep : Char) : List Char → List (List Char)
  | [] => [[]]
  | c :: s =>
    if c = sep then [] :: piecesBetween sep s
    else
      match piecesBetween sep s with
      | [] => [[c]]
      | p :: ps => (c :: p) :: ps

/-- A path as it is written. -/
structure Path where
  text : List Char
  deriving DecidableEq, Repr

namespace Path

def isAbsolute (p : Path) : Bool := p.text.head? = some '/'

/-- The path of `q` from `p` on; one that starts at the root stays as it is. -/
def join (p q : Path) : Path :=
  if q.isAbsolute || p.text.isEmpty then q
  else if p.text.getLast? = some '/' then ⟨p.text ++ q.text⟩
  else ⟨p.text ++ '/' :: q.text⟩

/-- The steps of a path, without those that stay where they are. -/
def steps (p : Path) : List Name :=
  (piecesBetween '/' p.text).filter fun s => s ≠ [] && s ≠ ['.']

/-- A path that ends with a slash or a dot leads to a directory or nowhere. -/
def wantsDirectory (p : Path) : Bool :=
  match (piecesBetween '/' p.text).getLast? with
  | some s => s = [] || s = ['.']
  | none => false

def parent : Name := ['.', '.']

/-- The last step, unless it leads upwards. -/
def fileName? (p : Path) : Option Name :=
  match p.steps.getLast? with
  | some s => if s = parent then none else some s
  | none => none

/-- What follows the last dot of a name that has more before it. -/
def extension? (p : Path) : Option (List Char) :=
  match p.fileName? with
  | none => none
  | some s =>
    match Text.splitLast? ['.'] s with
    | some ([], _) | none => none
    | some (_, e) => some e

/-- Whether a path has more than one part, the root and a leading dot counting as parts. -/
def hasDirectory (p : Path) : Bool :=
  let leading := if p.isAbsolute || (piecesBetween '/' p.text).head? = some ['.'] then 1 else 0
  leading + p.steps.length > 1

end Path

end Notebook.Files
