import Notebook.Syntax.Item
import Notebook.Syntax.Lexer

namespace Notebook.Syntax

/-- The last tree is a group in braces. -/
def endsWithBrace (ts : List Tree) : Bool :=
  match ts.getLast? with
  | some (.group .brace _ _) => true
  | _ => false

namespace Parser

open Ahead (second third)

/-- What a path with an exclamation mark starts: an item with a name of its own, a statement in
braces, or neither. -/
inductive MacroStart where
  | item
  | statement
  | neither
  deriving DecidableEq

def macroStart (ts : List Tree) : MacroStart :=
  match plainPath.run ts with
  | some (_, rest) =>
    if Ahead.mark "!" rest then
      if second Ahead.ident rest || second (Ahead.word "try") rest then .item
      else if second Ahead.brace rest &&
          !((third (Ahead.mark ".") rest && !third (Ahead.mark "..") rest) ||
            third (Ahead.mark "?") rest) then .statement
      else .neither
    else .neither
  | none => .neither

def startsItem (ts : List Tree) : Bool :=
  Ahead.word "pub" ts || (Ahead.word "crate" ts && !second (Ahead.mark "::") ts) ||
  Ahead.word "extern" ts || Ahead.word "use" ts ||
  (Ahead.word "static" ts &&
    (second (Ahead.word "mut") ts ||
     (second Ahead.ident ts &&
      !(second (Ahead.word "async") ts &&
        (third (Ahead.word "move") ts || third (Ahead.mark "|") ts))))) ||
  (Ahead.word "const" ts &&
    !(second Ahead.brace ts || second (Ahead.word "static") ts ||
      (second (Ahead.word "async") ts &&
        !(third (Ahead.word "unsafe") ts || third (Ahead.word "extern") ts ||
          third (Ahead.word "fn") ts)) ||
      second (Ahead.word "move") ts || second (Ahead.mark "|") ts)) ||
  (Ahead.word "unsafe" ts && !second Ahead.brace ts) ||
  (Ahead.word "async" ts &&
    (second (Ahead.word "unsafe") ts || second (Ahead.word "extern") ts ||
     second (Ahead.word "fn") ts)) ||
  Ahead.word "fn" ts || Ahead.word "mod" ts || Ahead.word "type" ts || Ahead.word "struct" ts ||
  Ahead.word "enum" ts || (Ahead.word "union" ts && second Ahead.ident ts) ||
  (Ahead.word "auto" ts && second (Ahead.word "trait") ts) || Ahead.word "trait" ts ||
  (Ahead.word "default" ts &&
    (second (Ahead.word "unsafe") ts || second (Ahead.word "impl") ts)) ||
  Ahead.word "impl" ts || Ahead.word "macro" ts

/-- A binding. Its `else` does not follow a value that ends with a brace. -/
def binding (g : Grammar) : Parser Unit := do
  word "let"
  let _ ← g.pattern
  if ← tryMark ":" then
    let _ ← g.type true
  if ← tryMark "=" then
    let (_, value) ← reading (g.expression true)
    if !endsWithBrace value && (← ahead (Ahead.word "else")) then
      word "else"
      let _ ← block g
  mark ";"

def macroStatement : Parser StmtForm := do
  plainPath
  mark "!"
  let d ← anyGroup
  return .macroCall d (← tryMark ";")

def expressionStatement (g : Grammar) : Parser StmtForm := do
  let e ← bounded g
  let semicolon ← tryMark ";"
  match e.form with
  | .macroCall d =>
    if semicolon || d = .brace then return .macroCall d semicolon
    else return .expression e false
  | _ => return .expression e semicolon

def statementForm (g : Grammar) : Parser StmtForm := do
  let ts ← get
  let start := macroStart ts
  if start = .statement then macroStatement
  else if Ahead.word "let" ts then
    binding g
    return .binding
  else if startsItem ts || start = .item then
    let _ ← plainItem g
    return .item
  else expressionStatement g

def statement (g : Grammar) : Parser Stmt := do
  let (_, attributes) ← reading (outerAttributes g)
  let (form, body) ← reading (statementForm g)
  return ⟨form, attributes, body⟩

def StmtForm.needsSemicolon : StmtForm → Bool
  | .expression e false => e.form.needsSemicolon
  | .macroCall d semicolon => !semicolon && d ≠ .brace
  | _ => false

/-- The statements up to the end. Only the last may lack a semicolon that it needs. -/
def statements (g : Grammar) : Parser (List Stmt) :=
  iterate (fun read => do
    match ← get with
    | [] => return .inr read.reverse
    | t :: ts =>
      if Ahead.mark ";" (t :: ts) then
        set ts
        return .inl (⟨.empty, [], [t]⟩ :: read)
      else
        let s ← statement g
        if StmtForm.needsSemicolon s.form && !(← isDone) then failure
        return .inl (s :: read)) []

end Parser

/-! ### Tying the knot -/

def Grammar.next (g : Grammar) : Grammar where
  type := Parser.type g
  bound := Parser.bound g
  pattern := Parser.pattern g
  expression := Parser.expression g
  bounded := Parser.bounded g
  operand := Parser.operand g
  climb := Parser.climb g
  statements := Parser.statements g
  item := Parser.item g
  useTree := Parser.useTree g
  namedFields := Parser.namedFields g

/-- The grammar of texts whose productions nest at most `n` deep. -/
def Grammar.depth : Nat → Grammar
  | 0 => .none
  | n + 1 => (depth n).next

/-- A depth that suffices for `ts`: every production inside another comes after a tree that was
read. -/
def enoughDepth (ts : List Tree) : Nat := 2 * Tree.size.sizes ts + 4

/-- The statements of a text that is one block. -/
def block? (s : List Char) : Option (List Stmt) :=
  (Lexer.trees? s).bind fun ts =>
    match (Parser.block (.depth (enoughDepth ts))).run ts with
    | some (stmts, []) => some stmts
    | _ => none

/-- The items of a text that is a file without a first line for a shell. -/
def items? (s : List Char) : Option (List Item) :=
  (Lexer.trees? s).bind fun ts =>
    let g := Grammar.depth (enoughDepth ts)
    let file : Parser (List Item) := do
      Parser.innerAttributes g
      Parser.manyToEnd g.item
    match file.run ts with
    | some (items, []) => some items
    | _ => none

/-- The text after a first line that names an interpreter. A line that starts like an inner
attribute is none. -/
def dropShebang (s : List Char) : List Char :=
  match s with
  | '#' :: '!' :: t =>
    match Lexer.dropSpace t with
    | '[' :: _ => s
    | _ => s.dropWhile (· ≠ '\n')
  | _ => s

/-- The items of a file. -/
def file? (s : List Char) : Option (List Item) :=
  items? (dropShebang ((Text.dropPrefix? ['\uFEFF'] s).getD s))

end Notebook.Syntax
