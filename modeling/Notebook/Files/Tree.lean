import Notebook.Files.Path
import Notebook.Text.Utf8

/-!
A tree of files, and what the system does with paths in it. An operation that is refused leaves
the tree alone; only making several directories may stop half way.
-/

namespace Notebook.Files

/-- Where an entry stands: the names that lead to it from the root. -/
abbrev Place := List Name

inductive Entry where
  | directory
  | file (content : List UInt8) (executable : Bool)
  /-- A program of the system's own, known by its name. -/
  | tool (name : Name)
  /-- A file that stays empty whatever is written to it. -/
  | sink
  deriving DecidableEq, Repr

structure Tree where
  entries : List (Place × Entry)
  deriving Repr

namespace Tree

def empty : Tree := ⟨[]⟩

def get? (t : Tree) (p : Place) : Option Entry :=
  if p = [] then some .directory else (t.entries.find? fun e => e.1 = p).map (·.2)

def put (t : Tree) (p : Place) (e : Entry) : Tree :=
  ⟨(p, e) :: t.entries.filter fun e => e.1 ≠ p⟩

/-- The tree without `p` and all that stands below it. -/
def erase (t : Tree) (p : Place) : Tree :=
  ⟨t.entries.filter fun e => !Text.hasPrefix p e.1⟩

/-- The names in a directory. -/
def names (t : Tree) (p : Place) : List Name :=
  t.entries.filterMap fun e =>
    match Text.dropPrefix? p e.1 with
    | some [n] => some n
    | _ => none

/-- The entries below a place, by the way from there to them. -/
def below (t : Tree) (p : Place) : List (Place × Entry) :=
  t.entries.filterMap fun e =>
    match Text.dropPrefix? p e.1 with
    | some (n :: ns) => some (n :: ns, e.2)
    | _ => none

@[simp] theorem get?_nil (t : Tree) : t.get? [] = some .directory := by simp [get?]

theorem get?_put_self {t : Tree} {p : Place} {e : Entry} (h : p ≠ []) :
    (t.put p e).get? p = some e := by
  simp [get?, put, h]

theorem get?_put_of_ne {t : Tree} {p q : Place} {e : Entry} (h : q ≠ p) :
    (t.put p e).get? q = t.get? q := by
  by_cases hq : q = []
  · simp [get?, hq]
  · have hp : ¬ p = q := fun h' => h h'.symm
    simp only [get?, put, hq, if_false, List.find?_cons, hp, decide_false]
    congr 1
    rw [List.find?_filter]
    congr 1
    funext a
    by_cases ha : a.1 = q <;> simp [ha, h]

theorem get?_erase {t : Tree} {p q : Place} (hq : q ≠ []) :
    (t.erase p).get? q = if Text.hasPrefix p q then none else t.get? q := by
  simp only [get?, erase, hq, if_false, List.find?_filter]
  split
  · rename_i h
    rw [Option.map_eq_none_iff, List.find?_eq_none]
    intro a _
    by_cases ha : a.1 = q <;> simp [ha, h]
  · rename_i h
    congr 2
    funext a
    by_cases ha : a.1 = q <;> simp [ha, h]

/-- Where steps lead from a place. All on the way must be directories; what they lead to need not
exist. -/
def walk (t : Tree) (here : Place) : List Name → Except Errno Place
  | [] => .ok here
  | s :: steps =>
    match t.get? here with
    | none => .error .noEntry
    | some .directory =>
      if s = Path.parent then walk t here.dropLast steps
      else if Text.Utf8.size s > 255 then .error .nameTooLong
      else walk t (here ++ [s]) steps
    | some _ => .error .notDirectory

/-- Where a path leads from a place, whatever stands there. -/
def resolve (t : Tree) (here : Place) (p : Path) : Except Fault Place :=
  if p.text.contains '\x00' then .error .nulInPath
  else if p.text.isEmpty then .error (.system .noEntry)
  else if Text.Utf8.size p.text > 4095 then .error (.system .nameTooLong)
  else
    match t.walk (if p.isAbsolute then [] else here) p.steps with
    | .error e => .error (.system e)
    | .ok place => .ok place

/-- The entry that a path leads to. -/
def lookup (t : Tree) (here : Place) (p : Path) : Except Fault (Place × Entry) := do
  let place ← t.resolve here p
  match t.get? place with
  | some .directory => .ok (place, .directory)
  | some e => if p.wantsDirectory then .error (.system .notDirectory) else .ok (place, e)
  | none => .error (.system .noEntry)

def isDirectory (t : Tree) (here : Place) (p : Path) : Bool :=
  match t.lookup here p with
  | .ok (_, .directory) => true
  | _ => false

def read (t : Tree) (here : Place) (p : Path) : Except Fault (List UInt8) := do
  match ← t.lookup here p with
  | (_, .directory) => .error (.system .isDirectory)
  | (_, .file content _) => .ok content
  | _ => .ok []

/-- Writes a file, which is made if it does not exist and keeps its mode if it does. -/
def write (t : Tree) (here : Place) (p : Path) (content : List UInt8) : Except Fault Tree := do
  let place ← t.resolve here p
  if p.wantsDirectory then .error (.system .isDirectory)
  else
    match t.get? place with
    | some .directory => .error (.system .isDirectory)
    | some (.file _ x) => .ok (t.put place (.file content x))
    | some (.tool _) => .error (.system .denied)
    | some .sink => .ok t
    | none => .ok (t.put place (.file content false))

/-- Makes one directory at the end of steps. -/
def makeDirectory (t : Tree) (here : Place) (steps : List Name) : Except Errno Tree :=
  match t.walk here steps with
  | .error e => .error e
  | .ok place =>
    match t.get? place with
    | some _ => .error .exists_
    | none => .ok (t.put place .directory)

def leadsToDirectory (t : Tree) (here : Place) (steps : List Name) : Bool :=
  match t.walk here steps with
  | .ok place => t.get? place = some .directory
  | .error _ => false

/-- Makes a directory and those missing on the way to it. The steps are given last first. -/
def makeDirectories (t : Tree) (here : Place) : List Name → Tree × Option Errno
  | [] => (t, none)
  | s :: steps =>
    match t.makeDirectory here (s :: steps).reverse with
    | .ok t => (t, none)
    | .error e =>
      if e = .noEntry then
        match t.makeDirectories here steps with
        | (t, some e) => (t, some e)
        | (t, none) =>
          match t.makeDirectory here (s :: steps).reverse with
          | .ok t => (t, none)
          | .error e =>
            if t.leadsToDirectory here (s :: steps).reverse then (t, none) else (t, some e)
      else if e = .exists_ && t.leadsToDirectory here (s :: steps).reverse then (t, none)
      else (t, some e)

/-- Makes a directory and those missing on the way to it. -/
def makePath (t : Tree) (here : Place) (p : Path) : Tree × Option Fault :=
  if p.text.isEmpty then (t, none)
  else if p.text.contains '\x00' then (t, some .nulInPath)
  else if Text.Utf8.size p.text > 4095 then (t, some (.system .nameTooLong))
  else
    let (t, e) := t.makeDirectories (if p.isAbsolute then [] else here) p.steps.reverse
    (t, e.map .system)

/-- The tree with a file, and with the directories on the way to it. -/
def deposit (t : Tree) (here : Place) (p : Path) (content : List UInt8) (executable : Bool) :
    Except Fault Tree := do
  let (t, e) := t.makeDirectories (if p.isAbsolute then [] else here) p.steps.dropLast.reverse
  match e with
  | some e => .error (.system e)
  | none => do
    let t ← t.write here p content
    let place ← t.resolve here p
    return t.put place (.file content executable)

/-- Removes a directory and all below it. -/
def removeDirectory (t : Tree) (here : Place) (p : Path) : Except Fault Tree := do
  match ← t.lookup here p with
  | (place, .directory) => .ok (t.erase place)
  | _ => .error (.system .notDirectory)

end Tree

end Notebook.Files
