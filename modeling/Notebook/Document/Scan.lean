import Notebook.Document.Markdown
import Notebook.Markdown.Event

/-!
Cells from what is told of a text, event by event. Only the depth, the place up to which the text
has become cells, and the block that is open are kept.
-/

namespace Notebook.Document

open Markdown (Element Event Extent Notice)

/-- Why a text has no cells: a part of it was asked for that it does not have, or a block of Rust is
not closed. -/
inductive ScanFault where
  | outOfRange
  | unterminated (u : Unterminated)
  deriving DecidableEq, Repr

/-- A part of a text, if it has one there. -/
def slice (text : List Char) (e : Extent) : Except ScanFault (List Char) :=
  if e.first ≤ e.stop ∧ e.stop ≤ text.length then .ok ((text.take e.stop).drop e.first)
  else .error .outOfRange

structure Scan where
  cells : List Cell
  cursor : Nat
  depth : Nat
  block : Option (Extent × List Char)

namespace Scan

def start : Scan := ⟨[], 0, 0, none⟩

/-- A block of Rust opens outside of all elements: the text before it is markup. -/
def openBlock (text : List Char) (st : Scan) (e : Extent) : Except ScanFault Scan := do
  let before ← slice text ⟨st.cursor, e.first⟩
  .ok { st with cells := st.cells ++ (markup? before).toList, block := some (e, []) }

/-- The block that was open has ended. -/
def closeBlock (text : List Char) (st : Scan) (e : Extent) (code : List Char) :
    Except ScanFault Scan := do
  let raw ← slice text e
  if isClosed ⟨raw, [], [], code⟩ then
    .ok { st with cells := st.cells ++ [Cell.ofBlock code], cursor := e.stop, block := none }
  else
    let before ← slice text ⟨0, e.first⟩
    .error (.unterminated ⟨before.count '\n' + 1⟩)

def next (text : List Char) (st : Scan) (n : Notice) : Except ScanFault Scan :=
  match n.event with
  | .start tag => do
    let st ← if st.depth = 0 && tag.isRust then st.openBlock text n.extent else .ok st
    .ok { st with depth := st.depth + 1 }
  | .finish =>
    let st := { st with depth := st.depth - 1 }
    match st.block with
    | some (e, code) => if st.depth = 0 then st.closeBlock text e code else .ok st
    | none => .ok st
  | .text s => .ok { st with block := st.block.map fun (e, code) => (e, code ++ s) }
  | .other => .ok st

/-- The text after the last block is markup. -/
def finish (text : List Char) (st : Scan) : Except ScanFault (List Cell) := do
  let last ← slice text ⟨st.cursor, text.length⟩
  .ok (st.cells ++ (markup? last).toList)

end Scan

/-- The cells of a text of which all this is told. -/
def scan (text : List Char) (ns : List Notice) : Except ScanFault Document := do
  let st ← ns.foldlM (Scan.next text) .start
  return ⟨← st.finish text⟩

end Notebook.Document
