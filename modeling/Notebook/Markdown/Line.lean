import Notebook.Text.Blank

/-!
Lines, and the containers that a line stands in. A container is told by what a line starts with: a
quote by its mark, an item of a list by its indentation.
-/

namespace Notebook.Markdown

/-- Blanks that do not end a line. -/
def isInlineBlank (c : Char) : Bool := c = ' ' || c = '\t' || c = '\x0B' || c = '\x0C'

def isAsciiBlank (c : Char) : Bool := isInlineBlank c || c = '\n' || c = '\r'

def isPunctuation (c : Char) : Bool :=
  c.toNat < 127 && 32 < c.toNat && !c.isAlphanum

/-- What is left after the end of a line, if it is here. The end of the text is one too. -/
def lineEnd? : List Char → Option (List Char)
  | [] => some []
  | '\n' :: s => some s
  | '\r' :: '\n' :: s => some s
  | '\r' :: s => some s
  | _ => none

/-- What is left after a line that is blank from here on. -/
def blankLine? (s : List Char) : Option (List Char) := lineEnd? (s.dropWhile isInlineBlank)

/-- What is left after the next line feed. -/
def afterLine : List Char → List Char
  | [] => []
  | c :: s => if c = '\n' then s else afterLine s

/-- The line up to and with its line feed. -/
def lineWithEnd : List Char → List Char
  | [] => []
  | c :: s => if c = '\n' then [c] else c :: lineWithEnd s

theorem lineWithEnd_append_afterLine (s : List Char) : lineWithEnd s ++ afterLine s = s := by
  induction s with
  | nil => rfl
  | cons c s ih => by_cases h : c = '\n' <;> simp [lineWithEnd, afterLine, h, ih]

def isLineBreak (c : Char) : Bool := c = '\n' || c = '\r'

/-- What is left after the end of the line, a lone carriage return being one. -/
def afterBreak (s : List Char) : List Char :=
  (lineEnd? (s.dropWhile fun c => !isLineBreak c)).getD []

/-! ### Indentation -/

/-- A place at the start of a line: what is left, how many characters were read, where tab stops
are counted from, and how many blanks of a tab are not used yet. -/
structure LineStart where
  rest : List Char
  read : Nat
  tabBase : Nat
  spare : Nat

namespace LineStart

def of (s : List Char) : LineStart := ⟨s, 0, 0, 0⟩

def blanksFrom : Nat → List Char → (read tabBase spare : Nat) → Nat × LineStart
  | 0, s, read, base, spare => (0, ⟨s, read, base, spare⟩)
  | n + 1, ' ' :: s, read, base, spare => blanksFrom n s (read + 1) base spare
  | n + 1, '\t' :: s, read, base, _ =>
    let width := 4 - (read - base) % 4
    blanksFrom (n + 1 - width) s (read + 1) (read + 1) (width - (n + 1))
  | n + 1, s, read, base, spare => (n + 1, ⟨s, read, base, spare⟩)

/-- Reads up to `n` blanks, a tab counting as those up to its stop: how many are missing, and
where that leads. -/
def blanks (n : Nat) (l : LineStart) : Nat × LineStart :=
  blanksFrom (n - l.spare) l.rest l.read l.tabBase (l.spare - n)

def atEnd (l : LineStart) : Bool :=
  match l.rest with
  | [] => true
  | c :: _ => isLineBreak c

def char? (c : Char) (l : LineStart) : Option LineStart :=
  match l.rest with
  | d :: s => if c = d then some { l with rest := s, read := l.read + 1 } else none
  | [] => none

/-- Reads `n` characters that are not blanks. -/
def skip (n : Nat) (l : LineStart) : LineStart :=
  { l with rest := l.rest.drop n, read := l.read + n }

/-- Reads the mark of a quote and a blank after it, if there is one. -/
def quote? (l : LineStart) : Option LineStart := (l.char? '>').map fun l => (l.blanks 1).2

end LineStart

inductive Container where
  | quote
  | item (indent : Nat)
  deriving DecidableEq, Repr

namespace Container

/-- What a line starts with if it stands in a container. A line without text needs no
indentation. -/
def enter? (c : Container) (l : LineStart) : Option LineStart :=
  match c with
  | quote => ((l.blanks 3).2).quote?
  | item n =>
    match l.blanks n with
    | (0, l) => some l
    | (_, l) => if l.atEnd then some l else none

/-- The containers that a line stands in, of those around it from the outermost on, and where its
own text starts. -/
def enterAll : List Container → LineStart → List Container × LineStart
  | [], l => ([], l)
  | c :: cs, l =>
    match c.enter? l with
    | some l =>
      let (entered, l) := enterAll cs l
      (c :: entered, l)
    | none => ([], l)

end Container

/-! ### What a line may be -/

/-- What is left after a line of three or more equal marks. -/
def rule? (s : List Char) : Option (List Char) :=
  match s with
  | c :: _ =>
    let line := s.takeWhile fun c => !isLineBreak c
    if (c = '*' || c = '-' || c = '_') &&
        line.all (fun d => d = c || d = ' ' || d = '\t') && 3 ≤ line.count c then
      lineEnd? (s.drop line.length)
    else none
  | [] => none

/-- What is left after the marks of a heading. -/
def heading? (s : List Char) : Option (List Char) :=
  let n := (s.takeWhile (· = '#')).length
  if 1 ≤ n && n ≤ 6 && ((s.drop n).head?.all isAsciiBlank) then some (s.drop n) else none

/-- What is left after a line that makes the text above it a heading. -/
def underline? (s : List Char) : Option (List Char) :=
  match s with
  | c :: _ => if c = '=' || c = '-' then blankLine? (s.dropWhile (· = c)) else none
  | [] => none

/-- The mark of a code fence and how often it stands there. -/
def fence? (s : List Char) : Option (Char × Nat) :=
  match s with
  | c :: _ =>
    let n := (s.takeWhile (· = c)).length
    if (c = '`' || c = '~') && 3 ≤ n && !(c = '`' && (lineWithEnd (s.drop n)).contains '`') then
      some (c, n)
    else none
  | [] => none

/-- The mark of an item: its number if it has one, and how long it is. -/
def itemMark? (s : List Char) : Option (Option Nat × Nat) :=
  match s with
  | c :: _ =>
    if c = '-' || c = '+' || c = '*' then some (none, 1)
    else
      let ds := (s.take 9).takeWhile Char.isDigit
      match ds, s.drop ds.length with
      | _ :: _, e :: _ =>
        if e = '.' || e = ')' then
          some (some (ds.foldl (fun n d => 10 * n + (d.toNat - '0'.toNat)) 0), ds.length + 1)
        else none
      | _, _ => none
  | [] => none

/-- Two blank lines follow. -/
def blankTwice (s : List Char) : Bool := ((blankLine? s).bind blankLine?).isSome

/-- An item that may stand right after a paragraph that it is not part of; one that would go on in
the same container has to be the first of its list and must not be empty. -/
def itemInterrupts (sameContainer : Bool) (s : List Char) : Bool :=
  match itemMark? s with
  | some (number, n) =>
    let after := s.drop n
    ((lineEnd? after).isSome || after.head? = some ' ' || after.head? = some '\t') &&
      (!sameContainer || ((number = none || number = some 1) && !blankTwice after))
  | none => false

end Notebook.Markdown
