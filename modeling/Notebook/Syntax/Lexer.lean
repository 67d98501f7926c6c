import Notebook.Syntax.Literal
import Notebook.Syntax.Token

namespace Notebook.Syntax.Lexer

open Notebook.Text

/-- The blanks between tokens: White_Space and the two direction marks. -/
def isSpace (c : Char) : Bool :=
  isBlank c || c.toNat == 0x200E || c.toNat == 0x200F

/-- The length of a block comment whose opening has been read `depth` times. -/
def blockRest? (depth n : Nat) : List Char → Option Nat
  | '/' :: '*' :: s => blockRest? (depth + 1) (n + 2) s
  | '*' :: '/' :: s => if depth ≤ 1 then some (n + 2) else blockRest? (depth - 1) (n + 2) s
  | _ :: s => blockRest? depth (n + 1) s
  | [] => none

/-- The length of a block comment; comments nest. -/
def blockComment? : List Char → Option Nat
  | '/' :: '*' :: s => blockRest? 1 2 s
  | _ => none

/-- The characters before the next line feed. -/
def lineLength (s : List Char) : Nat := (s.takeWhile (· ≠ '\n')).length

/-- Comments that are no documentation. -/
def plainComment? (s : List Char) : Option Nat :=
  match s with
  | '/' :: '/' :: '/' :: '/' :: _ => some (lineLength s)
  | '/' :: '/' :: '/' :: _ => none
  | '/' :: '/' :: '!' :: _ => none
  | '/' :: '/' :: _ => some (lineLength s)
  | '/' :: '*' :: '*' :: '/' :: _ => some 4
  | '/' :: '*' :: '*' :: '*' :: _ => blockComment? s
  | '/' :: '*' :: '*' :: _ => none
  | '/' :: '*' :: '!' :: _ => none
  | '/' :: '*' :: _ => blockComment? s
  | _ => none

/-- What is left after the blanks and plain comments at the front. -/
def dropSpace : List Char → List Char
  | [] => []
  | c :: s =>
    match plainComment? (c :: s) with
    | some n => dropSpace (s.drop (n - 1))
    | none => if isSpace c then dropSpace s else c :: s
termination_by s => s.length
decreasing_by all_goals simp only [List.length_drop, List.length_cons]; omega

/-- A carriage return that no line feed follows. -/
def hasBareReturn : List Char → Bool
  | '\r' :: '\n' :: s => hasBareReturn s
  | '\r' :: _ => true
  | _ :: s => hasBareReturn s
  | [] => false

/-- A documentation comment to the end of its line, after `marker` characters. A carriage return
before the line feed belongs to the line end. -/
def docLine? (marker : Nat) (s : List Char) : Option Nat :=
  let line := s.takeWhile (· ≠ '\n')
  let text := (line.drop marker)
  let ended := (s.drop line.length).isEmpty
  let text := if ended then text else (dropSuffix? ['\r'] text).getD text
  if hasBareReturn text then none else some line.length

def docBlock? (s : List Char) : Option Nat :=
  (blockComment? s).bind fun n =>
    if hasBareReturn ((s.take (n - 2)).drop 3) then none else some n

/-- A documentation comment: its length and whether it speaks of what encloses it. -/
def docComment? (s : List Char) : Option (Nat × Bool) :=
  match s with
  | '/' :: '/' :: '!' :: _ => (docLine? 3 s).map (·, true)
  | '/' :: '*' :: '!' :: _ => (docBlock? s).map (·, true)
  | '/' :: '/' :: '/' :: '/' :: _ => none
  | '/' :: '/' :: '/' :: _ => (docLine? 3 s).map (·, false)
  | '/' :: '*' :: '*' :: '*' :: _ => none
  | '/' :: '*' :: '*' :: _ => (docBlock? s).map (·, false)
  | _ => none

/-- A documentation comment stands for an attribute. -/
def docTrees (inner : Bool) (span : Span) : List Tree :=
  let note := Tree.group .bracket
    [.word "doc" span, .mark '=' false span, .literal ['"', '"'] span] span
  if inner then [.mark '#' false span, .mark '!' false span, note]
  else [.mark '#' false span, note]

def isMark (c : Char) : Bool := "~!@#$%^&*-=+|;:,<.>/?'".toList.contains c

/-- The punctuation character at the front of `s`; a comment is none. -/
def markChar? : List Char → Option Char
  | '/' :: '/' :: _ => none
  | '/' :: '*' :: _ => none
  | c :: _ => if isMark c then some c else none
  | [] => none

/-- The words that no raw identifier may be. -/
def neverRaw : List String := ["_", "super", "self", "Self", "crate"]

/-- The length of an identifier, which may be raw. -/
def identLength? : List Char → Option Nat
  | 'r' :: '#' :: s =>
    (Literal.plainIdentLength? s).bind fun n =>
      if neverRaw.contains (String.ofList (s.take n)) then none else some (n + 2)
  | s => Literal.plainIdentLength? s

/-- An identifier does not start like a quoted or raw text. -/
def startsText (s : List Char) : Bool :=
  ["r\"", "r#\"", "r##", "b\"", "b'", "br\"", "br#", "c\"", "cr\"", "cr#"].any
    fun p => hasPrefix p.toList s

/-- The placeholder that a failed expansion leaves. -/
def errorText : List Char := "(/*ERROR*/)".toList

/-- A token that is no group. -/
inductive Leaf where
  | word (text : String)
  | mark (char : Char) (joint : Bool)
  | literal (text : List Char)

/-- A quote is a mark only in front of the name of a lifetime. -/
def quoteMark? (s : List Char) : Option (Leaf × Nat) :=
  (identLength? s).bind fun n =>
    match s.drop n with
    | '\'' :: _ => none
    | '#' :: _ => if hasPrefix ['r', '#'] s then some (.mark '\'' true, 1) else none
    | _ => some (.mark '\'' true, 1)

/-- The token at the front of `s` with its length. -/
def leaf? (s : List Char) : Option (Leaf × Nat) :=
  match Literal.length? s with
  | some n => some (.literal (s.take n), n)
  | none =>
    let other : Option (Leaf × Nat) :=
      if startsText s then none
      else match identLength? s with
        | some n => some (.word (String.ofList (s.take n)), n)
        | none =>
          if hasPrefix errorText s then some (.literal errorText, errorText.length) else none
    match markChar? s with
    | some '\'' => (quoteMark? (s.drop 1)).or other
    | some c => some (.mark c (markChar? (s.drop 1)).isSome, 1)
    | none => other

def Leaf.tree (span : Span) : Leaf → Tree
  | .word t => .word t span
  | .mark c j => .mark c j span
  | .literal t => .literal t span

/-- A group that is open: how it opened, where, and the trees before it, last first. -/
structure Frame where
  delimiter : Delimiter
  position : Position
  before : List Tree

/-- What stands at the front of a text. -/
inductive Item where
  | space (length : Nat)
  | doc (inner : Bool) (length : Nat)
  | opening (delimiter : Delimiter)
  | closing (delimiter : Delimiter)
  | leaf (leaf : Leaf) (length : Nat)

def Item.length : Item → Nat
  | .space n | .doc _ n | .leaf _ n => n
  | .opening _ | .closing _ => 1

def item? (c : Char) (s : List Char) : Option Item :=
  match plainComment? (c :: s) with
  | some n => some (.space n)
  | none =>
    if isSpace c then some (.space 1)
    else match docComment? (c :: s) with
      | some (n, inner) => some (.doc inner n)
      | none =>
        match Delimiter.ofOpening? c, Delimiter.ofClosing? c with
        | some d, _ =>
          if hasPrefix errorText (c :: s) then (leaf? (c :: s)).map fun (l, n) => .leaf l n
          else some (.opening d)
        | none, some d => some (.closing d)
        | none, none => (leaf? (c :: s)).map fun (l, n) => .leaf l n

/-- Reads `s` from the place `at`, inside the groups `stack`, after the trees `before`. -/
def read (here : Position) (stack : List Frame) (before : List Tree) :
    List Char → Option (List Tree)
  | [] => if stack.isEmpty then some before.reverse else none
  | c :: s =>
    (item? c s).bind fun item =>
      let stop := here.after ((c :: s).take item.length)
      let rest := s.drop (item.length - 1)
      match item with
      | .space _ => read stop stack before rest
      | .doc inner _ => read stop stack ((docTrees inner ⟨here, stop⟩).reverse ++ before) rest
      | .opening d => read stop (⟨d, here, before⟩ :: stack) [] rest
      | .closing d =>
        match stack with
        | [] => none
        | f :: stack =>
          if f.delimiter = d then
            read stop stack (.group d before.reverse ⟨f.position, stop⟩ :: f.before) rest
          else none
      | .leaf l _ => read stop stack (l.tree ⟨here, stop⟩ :: before) rest
termination_by s => s.length
decreasing_by all_goals simp only [List.length_drop, List.length_cons]; omega

/-- The trees of a text, if its brackets match and it is made of tokens. A byte order mark at
its start is skipped. -/
def trees? (s : List Char) : Option (List Tree) :=
  read .start [] [] ((dropPrefix? ['\uFEFF'] s).getD s)

end Notebook.Syntax.Lexer
