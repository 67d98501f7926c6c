import Notebook.Document.Basic
import Notebook.Json.Structure
import Notebook.Json.Writer

/-!
Notebooks as JSON. A cell is an object of its kind and its content, in either order, or the list of
the two.
-/

namespace Notebook.Cell

open Json (Reader Issue Value)

def toValue (c : Cell) : Value :=
  let content : Value :=
    match c with
    | .markup t => .string t
    | .code s => .string s
    | .evaluated s o r =>
      .object
        [("source".toList, .string s), ("output".toList, .string o),
         ("compiler_message".toList, .string r)]
  .object [("kind".toList, .string c.kind.name.toList), ("cell".toList, content)]

/-! ### Contents -/

/-- The fields of an evaluated cell that have been read. -/
structure Draft where
  source : Option (List Char) := none
  output : Option (List Char) := none
  report : Option (List Char) := none

def Draft.finish (d : Draft) : Except String Cell :=
  match d.source, d.output, d.report with
  | none, _, _ => .error "source"
  | _, none, _ => .error "output"
  | _, _, none => .error "compiler_message"
  | some s, some o, some r => .ok (.evaluated s o r)

def evaluatedForm : Json.Structure Draft Cell where
  expected := "struct EvaluatedCode"
  start := {}
  fields :=
    [⟨"source", (·.source.isSome), fun d => do return { d with source := ← Reader.string }⟩,
     ⟨"output", (·.output.isSome), fun d => do return { d with output := ← Reader.string }⟩,
     ⟨"compiler_message", (·.report.isSome), fun d => do
        return { d with report := ← Reader.string }⟩]
  finish := Draft.finish

/-- The content of a cell of a kind that is known. -/
def content : Kind → Reader Cell
  | .markup => do return .markup (← Reader.string)
  | .code => do return .code (← Reader.string)
  | .evaluated => .structured evaluatedForm

/-! ### Contents that were read before the kind -/

def textOf : Value → Except Issue (List Char)
  | .string s => .ok s
  | v => .error (.invalidType v.found "a string")

def draftOfList (length : Nat) : List Value → Except Issue Draft
  | [] => .error (.invalidLength 0 evaluatedForm.expectedLength)
  | s :: vs => do
    let s ← textOf s
    match vs with
    | [] => .error (.invalidLength 1 evaluatedForm.expectedLength)
    | o :: vs =>
      let o ← textOf o
      match vs with
      | [] => .error (.invalidLength 2 evaluatedForm.expectedLength)
      | r :: vs =>
        let r ← textOf r
        if vs.isEmpty then return ⟨s, o, r⟩
        else .error (.invalidLength length "3 elements in sequence")

def draftOfFields : Draft → List (List Char × Value) → Except Issue Draft
  | d, [] => .ok d
  | d, (k, v) :: fs => do
    match String.ofList k with
    | "source" =>
      if d.source.isSome then .error (.duplicateField "source")
      draftOfFields { d with source := ← textOf v } fs
    | "output" =>
      if d.output.isSome then .error (.duplicateField "output")
      draftOfFields { d with output := ← textOf v } fs
    | "compiler_message" =>
      if d.report.isSome then .error (.duplicateField "compiler_message")
      draftOfFields { d with report := ← textOf v } fs
    | _ => draftOfFields d fs

def ofContent (k : Kind) (v : Value) : Except Issue Cell :=
  let finish (d : Draft) : Except Issue Cell :=
    match d.finish with
    | .ok c => .ok c
    | .error name => .error (.missingField name)
  match k, v with
  | .markup, v => (textOf v).map .markup
  | .code, v => (textOf v).map .code
  | .evaluated, .list vs => do finish (← draftOfList vs.length vs)
  | .evaluated, .object fs => do finish (← draftOfFields {} fs)
  | .evaluated, v => .error (.invalidType v.found evaluatedForm.expected)

/-! ### Cells -/

def expected : String := "adjacently tagged enum Cell"

def kinds : List (String × Kind) := Kind.all.map fun k => (k.name, k)

/-- The fields of a cell that matter. -/
inductive Key where
  | kind
  | cell
  deriving DecidableEq, Repr

def Key.name : Key → String
  | kind => "kind"
  | cell => "cell"

/-- The next field that matters, its colon not read yet. -/
def nextKey (first : Bool) : Reader (Option Key) :=
  Reader.iterate (fun first => do
    if ← Reader.objectGoesOn first then
      Reader.advance 1
      let name ← Reader.stringTail
      match String.ofList name with
      | "kind" => return .inr (some .kind)
      | "cell" => return .inr (some .cell)
      | _ => Reader.colon; Reader.skipValue; return .inl false
    else return .inr none) first

/-- How deep lists and objects may stand inside each other in a content that is kept. -/
def contentDepth : Nat := 125

def ofObject : Reader Cell := do
  match ← nextKey true with
  | none => Reader.failInObject (.missingField "kind")
  | some .kind =>
    Reader.colon
    let k ← Reader.variant kinds
    match ← nextKey false with
    | none => Reader.failInObject (.missingField "cell")
    | some .kind => Reader.failInObject (.duplicateField "kind")
    | some .cell =>
      Reader.colon
      let c ← content k
      rest c
  | some .cell =>
    Reader.colon
    let v ← Reader.value contentDepth
    match ← nextKey false with
    | none => Reader.failInObject (.missingField "kind")
    | some .cell => Reader.failInObject (.duplicateField "cell")
    | some .kind =>
      Reader.colon
      let k ← Reader.variant kinds
      match ofContent k v with
      | .ok c => rest c
      | .error i => Reader.failInObject i
where
  rest (c : Cell) : Reader Cell := do
    match ← nextKey false with
    | none => Reader.objectEnd; return c
    | some k => Reader.failInObject (.duplicateField k.name)

def read : Reader Cell := do
  match ← Reader.peekToken with
  | some '[' =>
    Reader.advance 1
    if !(← Reader.listGoesOn true) then Reader.failInList (.invalidLength 0 expected)
    let k ← Reader.variantName kinds
    if !(← Reader.listGoesOn false) then Reader.failInList (.invalidLength 1 expected)
    let c ← content k
    Reader.listEnd
    return c
  | some '{' => Reader.advance 1; ofObject
  | _ => Reader.mismatch expected

end Notebook.Cell

namespace Notebook.Document

open Json (Reader Value)

def toValue (d : Document) : Value := .object [("cells".toList, .list (d.cells.map Cell.toValue))]

def form : Json.Structure (Option (List Cell)) Document where
  expected := "struct Document"
  start := none
  fields := [⟨"cells", (·.isSome), fun _ => do return some (← Reader.list Cell.read)⟩]
  finish
    | some cells => .ok ⟨cells⟩
    | none => .error "cells"

/-- A notebook as a text with a line for each element. -/
def toJson (d : Document) : List Char := d.toValue.pretty 0

def ofJson (s : List Char) : Except Json.Problem Document := Reader.run (.structured form) s

end Notebook.Document
