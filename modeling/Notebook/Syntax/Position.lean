namespace Notebook.Syntax

/-- A place in a text. Lines count from one, columns are characters and count from zero. -/
structure Position where
  line : Nat
  column : Nat
  deriving DecidableEq, Repr

namespace Position

def start : Position := ⟨1, 0⟩

def next (p : Position) (c : Char) : Position :=
  if c = '\n' then ⟨p.line + 1, 0⟩ else ⟨p.line, p.column + 1⟩

/-- The place reached from `p` by reading `s`. -/
def after (p : Position) (s : List Char) : Position := s.foldl next p

@[simp] theorem after_nil (p : Position) : p.after [] = p := rfl

@[simp] theorem after_cons (p : Position) (c : Char) (s : List Char) :
    p.after (c :: s) = (p.next c).after s := rfl

@[simp] theorem after_append (p : Position) (s t : List Char) :
    p.after (s ++ t) = (p.after s).after t := by
  simp [after, List.foldl_append]

end Position

/-- The number of characters of `text` before the given line, counted from zero, and column.
A column past the end of the line stands for that end. -/
def offsetOf? : List Char → Nat → Nat → Option Nat
  | text, 0, column => some (min column (text.takeWhile (· ≠ '\n')).length)
  | [], _ + 1, _ => none
  | c :: text, line + 1, column =>
    (if c = '\n' then offsetOf? text line column else offsetOf? text (line + 1) column).map
      (· + 1)

/-- The text between two places. -/
structure Span where
  first : Position
  last : Position
  deriving DecidableEq, Repr

end Notebook.Syntax
