import Notebook.Syntax.Position

namespace Notebook.Syntax

inductive Delimiter where
  | paren
  | bracket
  | brace
  deriving DecidableEq, Repr

def Delimiter.ofOpening? : Char → Option Delimiter
  | '(' => some .paren
  | '[' => some .bracket
  | '{' => some .brace
  | _ => none

def Delimiter.ofClosing? : Char → Option Delimiter
  | ')' => some .paren
  | ']' => some .bracket
  | '}' => some .brace
  | _ => none

/-- A token, or a bracketed group of tokens. A mark is one character of punctuation; it is
joint if the next character is punctuation too. -/
inductive Tree where
  | word (text : String) (span : Span)
  | mark (char : Char) (joint : Bool) (span : Span)
  | literal (text : List Char) (span : Span)
  | group (delimiter : Delimiter) (inner : List Tree) (span : Span)
  deriving Repr

namespace Tree

def span : Tree → Span
  | word _ s | mark _ _ s | literal _ s | group _ _ s => s

/-- A tree without its places, for comparing texts that stand at different places. -/
inductive Shape where
  | word (text : String)
  | mark (char : Char) (joint : Bool)
  | literal (text : List Char)
  | group (delimiter : Delimiter) (inner : List Shape)

def shape : Tree → Shape
  | word t _ => .word t
  | mark c j _ => .mark c j
  | literal t _ => .literal t
  | group d inner _ => .group d (shapes inner)
where
  shapes : List Tree → List Shape
    | [] => []
    | t :: ts => t.shape :: shapes ts

/-- The number of tokens and groups in a tree. -/
def size : Tree → Nat
  | word .. | mark .. | literal .. => 1
  | group _ inner _ => sizes inner + 1
where
  sizes : List Tree → Nat
    | [] => 0
    | t :: ts => t.size + sizes ts

end Tree

/-- The part of `before` that was read when `after` is left. -/
def readPart (before after : List Tree) : List Tree :=
  before.take (before.length - after.length)

theorem readPart_append (s t : List Tree) : readPart (s ++ t) t = s := by
  simp [readPart]

end Notebook.Syntax
