import Notebook.Markdown.Reference

/-!
The blocks of a text, of which only fenced code blocks outside of all containers are kept. Each
function gives what is left of the text after its block.
-/

namespace Notebook.Markdown

/-- A fenced code block: the text from its opening fence on and what is left after its closing
one, its info string as written, and the code. -/
structure FencedBlock where
  opening : List Char
  closing : List Char
  info : List Char
  code : List Char
  deriving DecidableEq, Repr

/-! ### Lines of a block -/

/-- What a line does to the block above it: it ends the block, or it adds something to it. Both
come with what is left of the text. -/
inductive Next where
  | stop (rest : List Char)
  | go (line rest : List Char)

/-- Reads lines up to the end of a block: what they add, and what is left. -/
def readOn (next : List Char → Next) (s : List Char) : List Char × List Char :=
  match next s with
  | .stop r => ([], r)
  | .go line r =>
    if r.length < s.length then
      let (lines, r) := readOn next r
      (line ++ lines, r)
    else (line, r)
termination_by s.length

/-! ### Code -/

/-- A line of code with a line feed for its line end. -/
def plainEnd (line : List Char) : List Char :=
  match line.reverse with
  | c :: '\r' :: s => if c.utf8Size = 1 then (c :: s).reverse else line
  | _ => line

/-- What is left after a closing fence and blanks after it. -/
def closingFence? (c : Char) (n : Nat) (s : List Char) : Option (List Char) :=
  if s.isEmpty then some []
  else
    let m := (s.takeWhile (· = c)).length
    let s := (s.drop m).dropWhile (· = ' ')
    if n ≤ m && (lineEnd? s).isSome then some s else none

/-- What is left after a closing fence that is indented by less than four. -/
def closing? (indent : Nat) (c : Char) (n : Nat) (l : LineStart) : Option (List Char) :=
  match l.blanks (4 - indent) with
  | (0, _) => none
  | (_, l) => closingFence? c n l.rest

/-- A line of fenced code. The block ends with its closing fence, or with the containers around
it. -/
def codeLine (stack : List Container) (indent : Nat) (c : Char) (n : Nat) (s : List Char) : Next :=
  let (entered, l) := Container.enterAll stack (.of s)
  if entered ≠ stack then .stop s
  else
    let l := (l.blanks indent).2
    match closing? indent c n l with
    | some r => .stop r
    | none =>
      .go (List.replicate l.spare ' ' ++ plainEnd (lineWithEnd l.rest)) (afterLine l.rest)

/-- The code up to the end of a fenced block, and what is left after the block. -/
def fencedCode (stack : List Container) (indent : Nat) (c : Char) (n : Nat) :
    List Char → List Char × List Char :=
  readOn (codeLine stack indent c n)

/-- The block after an opening fence, which is indented by `indent`. -/
def fencedBlock (stack : List Container) (indent : Nat) (c : Char) (n : Nat) (s : List Char) :
    FencedBlock :=
  let s' := (s.drop n).dropWhile isInlineBlank
  let (code, closing) := fencedCode stack indent c n (afterLine s')
  ⟨s, closing, Text.dropEndWhile isAsciiBlank (lineWithEnd s'), code⟩

/-- Indented code, up to its last line that is not blank. -/
def indentedCode (stack : List Container) (blank : Bool) (done s : List Char) : List Char :=
  let next := afterLine s
  let done := if blank then done else next
  let (entered, l) := Container.enterAll stack (.of next)
  if entered ≠ stack then done
  else
    match l.blanks 4 with
    | (missing, l) =>
      if missing ≠ 0 && !l.atEnd then done
      else if l.rest.isEmpty then done
      else if l.rest.length < s.length then
        indentedCode stack (blankLine? l.rest).isSome done l.rest
      else done
termination_by s.length

/-! ### HTML -/

/-- Whether a line up to its line feed has a mark in it. -/
def lineHas (mark : String) (s : List Char) : Bool :=
  (Text.splitFirst? mark.toList (lineWithEnd s)).isSome

/-- A line of a block that goes on up to an end mark. -/
def markedLine (stack : List Container) (mark : String) (s : List Char) : Next :=
  let next := afterLine s
  let (entered, l) := Container.enterAll stack (.of next)
  if entered ≠ stack || lineHas mark s then .stop next
  else if l.rest.isEmpty then .stop l.rest
  else .go [] l.rest

/-- A line of a block that goes on up to a blank line. -/
def plainLine (stack : List Container) (s : List Char) : Next :=
  let next := afterLine s
  let (entered, l) := Container.enterAll stack (.of next)
  if entered ≠ stack || l.atEnd then .stop next
  else if (blankLine? l.rest).isSome then .stop l.rest
  else .go [] l.rest

/-- What is left after a block of HTML that starts here. -/
def html? (stack : List Container) (s : List Char) : Option (List Char) :=
  match s with
  | '<' :: t =>
    match endMark? t with
    | some mark => some (readOn (markedLine stack mark) s).2
    | none =>
      if startsBlockElement t || isTagLine t then some (readOn (plainLine stack) s).2 else none
  | _ => none

/-! ### Paragraphs -/

/-- What a line does to the paragraph above it: it may underline it as a heading, or start something
else, unless it is indented like code. The text of the line starts at `s`. -/
def paragraphText (narrow sameContainer : Bool) (next s : List Char) : Next :=
  match if narrow && sameContainer then underline? s else none with
  | some r => .stop r
  | none =>
    if narrow && interrupts sameContainer s then .stop next
    else
      let text := s.dropWhile fun c => c = ' ' || c = '\t'
      if (lineEnd? text).isSome then .stop next else .go [] text

/-- What the line from `next` on does to a paragraph. It may stand outside of the containers. -/
def paragraphNext (stack : List Container) (next : List Char) : Next :=
  let (entered, l) := Container.enterAll stack (.of next)
  let (missing, l) := l.blanks 4
  paragraphText (missing ≠ 0) (entered = stack) next l.rest

def paragraphLine (stack : List Container) (s : List Char) : Next :=
  paragraphNext stack (afterBreak s)

def paragraph (stack : List Container) (s : List Char) : List Char :=
  (readOn (paragraphLine stack) s).2

/-- What is left after a blank line, if there is one. -/
def pastBlank (s : List Char) : List Char := (blankLine? s).getD s

/-- What is left after the definition of a reference or a paragraph. -/
def prose (stack : List Container) (s : List Char) : List Char :=
  match definition? stack s with
  | some r => pastBlank r
  | none => paragraph stack s

/-! ### Blocks -/

/-- How far the text of an item is indented, which is by at least `indent`, and where it starts. The
mark was read. -/
def itemText? (indent : Nat) (l : LineStart) : Option (Nat × LineStart) :=
  let (missing, l) := l.blanks 1
  if missing ≠ 0 && !l.atEnd then none
  else if (blankLine? l.rest).isSome then some (indent, l)
  else
    match l.blanks 4 with
    | (0, _) => some (indent, l)
    | (missing, l) => some (indent + (4 - missing), l)

/-- The text of an item with its mark at the start of a line that is indented by `outer`. -/
def itemStart? (outer : Nat) (l : LineStart) : Option (Nat × LineStart) :=
  match itemMark? l.rest with
  | none => none
  | some (number, width) =>
    if number = none && (rule? l.rest).isSome then none
    else itemText? (outer + width + 1) (l.skip width)

/-- What a line opens before its own text: more containers, or an item without text. -/
inductive Opening where
  | text (stack : List Container) (start : LineStart)
  | emptyItem (stack : List Container) (rest : List Char)

/-- The containers that start on a line, of which there are at most `n`. -/
def openContainers : Nat → List Container → LineStart → Opening
  | 0, stack, l => .text stack l
  | n + 1, stack, l =>
    match l.blanks 4 with
    | (0, _) => .text stack l
    | (missing, inner) =>
      match itemStart? (4 - missing) inner with
      | some (indent, inner) =>
        match blankLine? inner.rest with
        | some r => .emptyItem (stack ++ [.item indent]) r
        | none => openContainers n (stack ++ [.item indent]) inner
      | none =>
        match inner.quote? with
        | some inner => openContainers n (stack ++ [.quote]) inner
        | none => .text stack l

/-- What a block leaves behind: the containers that are open, whether the innermost is an item that
has no text yet, the block if it is fenced, and the rest of the text. -/
structure Step where
  stack : List Container
  emptyItem : Bool
  fenced : Option FencedBlock
  rest : List Char

/-- What is left after the text of a block that starts here, indented by less than four. -/
def leaf (stack : List Container) (indent : Nat) (s : List Char) : Step :=
  let done (r : List Char) : Step := ⟨stack, false, none, r⟩
  match html? stack s with
  | some r => done r
  | none =>
    match rule? s with
    | some r => done r
    | none =>
      match heading? s with
      | some r => done (afterBreak r)
      | none =>
        match fence? s with
        | some (c, n) =>
          let block := fencedBlock stack indent c n s
          ⟨stack, false, some block, pastBlank block.closing⟩
        | none => done (prose stack s)

/-- Reads one block. -/
def step (stack : List Container) (emptyItem : Bool) (s : List Char) : Step :=
  let (stack, l) := Container.enterAll stack (.of s)
  match openContainers s.length stack l with
  | .emptyItem stack r => ⟨stack, true, none, r⟩
  | .text stack l =>
    match blankLine? l.rest with
    | some r =>
      match emptyItem, stack.getLast? with
      | true, some (.item _) => ⟨stack.dropLast, false, none, r⟩
      | _, _ => ⟨stack, emptyItem, none, r⟩
    | none =>
      match l.blanks 4 with
      | (0, l) => ⟨stack, false, none, indentedCode stack false [] l.rest⟩
      | (missing, l) => leaf stack (4 - missing) l.rest

/-- The fenced code blocks outside of all containers. -/
def blocksFrom (stack : List Container) (emptyItem : Bool) (s : List Char) : List FencedBlock :=
  if s.isEmpty then []
  else
    let r := step stack emptyItem s
    let found := if r.stack.isEmpty then r.fenced.toList else []
    if r.rest.length < s.length then found ++ blocksFrom r.stack r.emptyItem r.rest else found
termination_by s.length

def blocks (s : List Char) : List FencedBlock := blocksFrom [] false s

end Notebook.Markdown
