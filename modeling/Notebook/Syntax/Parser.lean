import Notebook.Syntax.Token

/-!
Parsers read trees from the front of a list. What a production does next is decided by looking
at the trees ahead and never by trying another production, so a production fails or succeeds and
none is taken back.
-/

namespace Notebook.Syntax

abbrev Parser := StateT (List Tree) Option

/-! ### Looking ahead -/

namespace Ahead

def word (w : String) : List Tree → Bool
  | .word t _ :: _ => t == w
  | _ => false

def anyWord : List Tree → Bool
  | .word .. :: _ => true
  | _ => false

/-- The words that are no identifiers. -/
def keywords : List String :=
  ["_", "abstract", "as", "async", "await", "become", "box", "break", "const", "continue", "crate",
   "do", "dyn", "else", "enum", "extern", "false", "final", "fn", "for", "if", "impl", "in", "let",
   "loop", "macro", "match", "mod", "move", "mut", "override", "priv", "pub", "ref", "return",
   "Self", "self", "static", "struct", "super", "trait", "true", "try", "type", "typeof", "unsafe",
   "unsized", "use", "virtual", "where", "while", "yield"]

/-- An identifier that is no keyword. -/
def ident : List Tree → Bool
  | .word t _ :: _ => !keywords.contains t
  | _ => false

/-- Punctuation of one or more marks; all but the last have to be joint. -/
def markChars : List Char → List Tree → Bool
  | [], _ => true
  | [c], .mark d _ _ :: _ => c == d
  | c :: cs, .mark d joint _ :: ts => c == d && joint && markChars cs ts
  | _, _ => false

/-- A single quote is no punctuation of its own, it belongs to a lifetime. -/
def mark (m : String) (ts : List Tree) : Bool :=
  m != "'" && markChars m.toList ts

def group (d : Delimiter) : List Tree → Bool
  | .group e _ _ :: _ => d == e
  | _ => false

def paren : List Tree → Bool := group .paren

def bracket : List Tree → Bool := group .bracket

def brace : List Tree → Bool := group .brace

def anyGroup : List Tree → Bool
  | .group .. :: _ => true
  | _ => false

def lifetime : List Tree → Bool
  | .mark '\'' true _ :: .word .. :: _ => true
  | _ => false

def underscore (ts : List Tree) : Bool := word "_" ts

/-- A literal, a truth value, or a negative number. -/
def literal : List Tree → Bool
  | .literal .. :: _ => true
  | .word t _ :: _ => t == "true" || t == "false"
  | .mark '-' _ _ :: .literal (c :: _) _ :: _ => c.isDigit
  | _ => false

/-- What is left after one tree; a lifetime counts as one. -/
def skip : List Tree → List Tree
  | .mark '\'' true _ :: .word .. :: ts => ts
  | _ :: ts => ts
  | [] => []

/-- Looks past one tree. -/
def second (p : List Tree → Bool) (ts : List Tree) : Bool := p (skip ts)

/-- Looks past two trees. -/
def third (p : List Tree → Bool) (ts : List Tree) : Bool := p (skip (skip ts))

/-- A word that a path may start with or go on with. -/
def pathWord (ts : List Tree) : Bool :=
  ident ts || word "super" ts || word "self" ts || word "Self" ts || word "crate" ts

end Ahead

/-! ### Parsers -/

namespace Parser

def ahead (p : List Tree → Bool) : Parser Bool := do return p (← get)

def require (p : List Tree → Bool) : Parser Unit := do
  if p (← get) then pure () else failure

/-- Reads one tree. -/
def tree : Parser Tree := do
  match ← get with
  | t :: ts => set ts; return t
  | [] => failure

def dropTrees (n : Nat) : Parser Unit := modify (List.drop n)

def word (w : String) : Parser Unit := do
  require (Ahead.word w); dropTrees 1

def anyWord : Parser String := do
  match ← get with
  | .word t _ :: ts => set ts; return t
  | _ => failure

def ident : Parser String := do
  require Ahead.ident; anyWord

def mark (m : String) : Parser Unit := do
  require (Ahead.mark m); dropTrees m.length

def lifetime : Parser Unit := do
  require Ahead.lifetime; dropTrees 2

/-- Reads a word if it is there, and says whether it was. -/
def tryWord (w : String) : Parser Bool := do
  if ← ahead (Ahead.word w) then dropTrees 1; return true else return false

def tryMark (m : String) : Parser Bool := do
  if ← ahead (Ahead.mark m) then dropTrees m.length; return true else return false

def tryLifetime : Parser Bool := do
  if ← ahead Ahead.lifetime then dropTrees 2; return true else return false

def isDone : Parser Bool := ahead List.isEmpty

def literal : Parser Unit := do
  match ← get with
  | .literal .. :: ts => set ts
  | .word t _ :: ts => if t == "true" || t == "false" then set ts else failure
  | .mark '-' _ _ :: .literal (c :: _) _ :: ts => if c.isDigit then set ts else failure
  | _ => failure

/-- Reads a group and all of what is inside. -/
def within {α : Type} (d : Delimiter) (p : Parser α) : Parser α := do
  match ← get with
  | .group e inner _ :: ts =>
    if d = e then
      match p.run inner with
      | some (a, []) => set ts; return a
      | _ => failure
    else failure
  | _ => failure

/-- Reads a group whose contents are not looked at. -/
def anyGroup : Parser Delimiter := do
  match ← get with
  | .group d _ _ :: ts => set ts; return d
  | _ => failure

/-- Goes on as long as a step gives a new state. -/
def iterateFrom {α β : Type} (step : α → Parser (α ⊕ β)) : Nat → α → Parser β
  | 0, _ => failure
  | n + 1, a => do
    match ← step a with
    | .inl a => iterateFrom step n a
    | .inr b => return b

/-- Goes on as long as a step gives a new state; every step has to read a tree. -/
def iterate {α β : Type} (step : α → Parser (α ⊕ β)) (a : α) : Parser β := do
  iterateFrom step ((← get).length + 1) a

/-- Reads `p` as long as `more` holds of what is ahead. -/
def manyWhile {α : Type} (more : List Tree → Bool) (p : Parser α) : Parser (List α) :=
  iterate (fun read => do
    if ← ahead more then return .inl ((← p) :: read) else return .inr read.reverse) []

/-- Reads `p` up to the end. -/
def manyToEnd {α : Type} (p : Parser α) : Parser (List α) :=
  manyWhile (fun ts => !ts.isEmpty) p

/-- Reads `p` up to `stop`, with commas between and possibly one at the end: the results, and
whether there is a comma at the end. -/
def commaUntil {α : Type} (stop : List Tree → Bool) (p : Parser α) : Parser (List α × Bool) :=
  iterate (fun read => do
    if ← ahead stop then return .inr (read.reverse, !read.isEmpty)
    else
      let a ← p
      if ← ahead stop then return .inr ((a :: read).reverse, false)
      else mark ","; return .inl (a :: read)) []

/-- Reads `p` up to the end, with commas between. -/
def commaToEnd {α : Type} (p : Parser α) : Parser (List α × Bool) :=
  commaUntil List.isEmpty p

/-- Reads `p` with the trees that it reads. -/
def reading {α : Type} (p : Parser α) : Parser (α × List Tree) := do
  let before ← get
  let a ← p
  return (a, readPart before (← get))

end Parser

end Notebook.Syntax
