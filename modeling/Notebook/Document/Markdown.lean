import Notebook.Document.Basic
import Notebook.Markdown.Block
import Notebook.Markdown.Info

/-!
Notebooks as Markdown. Fenced blocks of Rust outside of all containers are code cells; what stands
between them is markup. An evaluated cell keeps its result in comments after its code.
-/

namespace Notebook

namespace Cell

/-- What stands before a result, between it and its report, and after that. -/
def resultMark : List Char := "\n\n/* rmnb:result\n".toList

def reportMark : List Char := "\n*/\n/* rmnb:stderr\n".toList

def endMark : List Char := "\n*/".toList

/-- The comments' end is not part of the last text, if it is there. -/
def withoutEnd (s : List Char) : List Char := (Text.dropSuffix? endMark s).getD s

/-- The cell of a block of code, by the first mark of a result and the last of a report. -/
def ofBlock (code : List Char) : Cell :=
  let code := (Text.dropSuffix? ['\n'] code).getD code
  match Text.splitFirst? resultMark code with
  | none => .code code
  | some (source, rest) =>
    match Text.splitLast? reportMark rest with
    | some (output, report) => .evaluated source output (withoutEnd report)
    | none => .evaluated source (withoutEnd rest) []

/-- The length of the longest run of backticks. -/
def longestRun (s : List Char) : Nat :=
  (s.foldl (fun (run, longest) c =>
    if c = '`' then (run + 1, max longest (run + 1)) else (0, longest)) (0, 0)).2

/-- A block with a fence that is longer than any run of backticks in it. -/
def fenced (body : List Char) : List Char :=
  let fence := List.replicate (max (longestRun body) 2 + 1) '`'
  fence ++ "rust\n".toList ++ body ++ '\n' :: fence

def toMarkdown : Cell → List Char
  | .markup t => t
  | .code s => fenced s
  | .evaluated s o r => fenced (s ++ resultMark ++ o ++ reportMark ++ r ++ endMark)

end Cell

namespace Document

open Markdown (FencedBlock)

def isRust (b : FencedBlock) : Bool := Markdown.language b.info = "rust".toList

/-- The part of a text before what is left of it. -/
def partBefore (s rest : List Char) : List Char := s.take (s.length - rest.length)

/-- Markup without the line ends around it; blanks alone are none. -/
def markup? (s : List Char) : Option Cell :=
  let s := Text.trimWhile (fun c => c = '\n' || c = '\r') s
  if Text.allBlank s then none else some (.markup s)

/-- Whether a block ends with a line that closes its opening fence. -/
def isClosed (b : FencedBlock) : Bool :=
  let raw := Text.trimEnd (partBefore b.opening b.closing)
  match raw.dropWhile Text.isBlank with
  | [] => false
  | c :: opening =>
    let width := ((c :: opening).takeWhile (· = c)).length
    match Text.splitLines raw with
    | _ :: l :: ls =>
      let last := Text.trim ((l :: ls).getLast (by simp))
      last.all (· = c) && width ≤ last.length
    | _ => false

/-- A block of Rust is never closed; it starts on this line. -/
structure Unterminated where
  line : Nat
  deriving DecidableEq, Repr

/-- The cells of a text from `s` on, in which the blocks are those given. -/
def cellsOf (text s : List Char) : List FencedBlock → Except Unterminated (List Cell)
  | [] => .ok (markup? s).toList
  | b :: bs =>
    if isClosed b then do
      let cells ← cellsOf text b.closing bs
      .ok ((markup? (partBefore s b.opening)).toList ++ Cell.ofBlock b.code :: cells)
    else .error ⟨(partBefore text b.opening).count '\n' + 1⟩

def ofMarkdown (text : List Char) : Except Unterminated Document :=
  (cellsOf text text ((Markdown.blocks text).filter isRust)).map Document.mk

/-- The cells with an empty line between. -/
def toMarkdown (d : Document) : List Char :=
  List.intercalate ['\n', '\n'] (d.cells.map Cell.toMarkdown) ++ ['\n']

end Document

end Notebook
