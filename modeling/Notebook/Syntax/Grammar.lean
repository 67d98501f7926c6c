import Notebook.Syntax.Literal
import Notebook.Syntax.Parser

/-!
What the productions tell of what they read, and the productions that may stand inside each
other. A production is written over a `Grammar` for what stands inside it; `Program` ties the
knot.
-/

namespace Notebook.Syntax

inductive Operator where
  | addAssign
  | subAssign
  | mulAssign
  | divAssign
  | remAssign
  | bitXorAssign
  | bitAndAssign
  | bitOrAssign
  | shlAssign
  | shrAssign
  | and
  | or
  | shl
  | shr
  | eq
  | le
  | ne
  | ge
  | add
  | sub
  | mul
  | div
  | rem
  | bitXor
  | bitAnd
  | bitOr
  | lt
  | gt
  deriving DecidableEq, Repr

/-- What may stand on both sides of an operator; a later one binds tighter. -/
inductive Precedence where
  | jump
  | assign
  | range
  | or
  | and
  | binding
  | compare
  | bitOr
  | bitXor
  | bitAnd
  | shift
  | sum
  | product
  | cast
  deriving DecidableEq, Repr

def Precedence.rank : Precedence → Nat
  | .jump => 0
  | .assign => 1
  | .range => 2
  | .or => 3
  | .and => 4
  | .binding => 5
  | .compare => 6
  | .bitOr => 7
  | .bitXor => 8
  | .bitAnd => 9
  | .shift => 10
  | .sum => 11
  | .product => 12
  | .cast => 13

namespace Operator

/-- The spellings; a longer one stands before those it starts with. -/
def spellings : List (String × Operator) :=
  [("+=", addAssign), ("-=", subAssign), ("*=", mulAssign), ("/=", divAssign), ("%=", remAssign),
   ("^=", bitXorAssign), ("&=", bitAndAssign), ("|=", bitOrAssign), ("<<=", shlAssign),
   (">>=", shrAssign), ("&&", and), ("||", or), ("<<", shl), (">>", shr), ("==", eq), ("<=", le),
   ("!=", ne), (">=", ge), ("+", add), ("-", sub), ("*", mul), ("/", div), ("%", rem),
   ("^", bitXor), ("&", bitAnd), ("|", bitOr), ("<", lt), (">", gt)]

/-- The operator ahead with its spelling. -/
def ahead? (ts : List Tree) : Option (String × Operator) :=
  spellings.find? fun (m, _) => Ahead.mark m ts

/-- Whether an operator stores its result in its left operand. -/
def isAssign : Operator → Bool
  | addAssign | subAssign | mulAssign | divAssign | remAssign | bitXorAssign | bitAndAssign
  | bitOrAssign | shlAssign | shrAssign => true
  | _ => false

def precedence : Operator → Precedence
  | add | sub => .sum
  | mul | div | rem => .product
  | and => .and
  | or => .or
  | bitXor => .bitXor
  | bitAnd => .bitAnd
  | bitOr => .bitOr
  | shl | shr => .shift
  | eq | lt | le | ne | ge | gt => .compare
  | _ => .assign

end Operator

inductive PathArguments where
  | none
  | angle
  | paren
  deriving DecidableEq, Repr

/-- A path: whether it starts with a type in angle brackets, whether with a double colon, how
many segments it has, the arguments of the last, and whether no segment has any. -/
structure PathForm where
  qualified : Bool
  rooted : Bool
  segments : Nat
  last : PathArguments
  plain : Bool
  deriving DecidableEq, Repr

inductive TypeForm where
  | path (form : PathForm)
  | bounds (marked : Bool) (count : Nat) (trailing : Bool)
  | paren
  | other
  deriving DecidableEq, Repr

inductive PatternForm where
  | rest
  | openRange
  | other
  deriving DecidableEq, Repr

/-- The kinds of expressions. A conditional counts its branches `else if` and has a `final` one if
it ends with `else`. -/
inductive ExprForm where
  | array
  | assign
  | async
  | await
  | binary (operator : Operator)
  | block
  | breakJump
  | call
  | cast
  | closure
  | conditional (elseIfs : Nat) (final : Bool)
  | constBlock
  | continueJump
  | field
  | fieldValues
  | forLoop
  | index
  | infer
  | letBinding
  | literal
  | loop
  | macroCall (delimiter : Delimiter)
  | matching
  | methodCall
  | paren
  | path
  | range
  | rawAddress
  | reference
  | repetition
  | returnJump
  | try
  | tryBlock
  | tuple (size : Nat)
  | unary
  | unsafeBlock
  | verbatim
  | whileLoop
  | yield
  deriving DecidableEq, Repr

/-- An expression. Attributes in front of it are not kept if what it `leads` with is kept word for
word. -/
structure Expr where
  form : ExprForm
  leadsVerbatim : Bool
  deriving DecidableEq, Repr

def Expr.of (form : ExprForm) : Expr := ⟨form, false⟩

/-- Expressions that end with their own brace, so that a statement needs no semicolon after
them. -/
def ExprForm.isBlockLike : ExprForm → Bool
  | .conditional .. | .matching | .block | .unsafeBlock | .whileLoop | .loop | .forLoop
  | .tryBlock | .constBlock => true
  | _ => false

def ExprForm.needsSemicolon : ExprForm → Bool
  | .macroCall d => d ≠ .brace
  | f => !f.isBlockLike

inductive StmtForm where
  | empty
  | binding
  | item
  | macroCall (delimiter : Delimiter) (semicolon : Bool)
  | expression (expr : Expr) (semicolon : Bool)
  deriving DecidableEq, Repr

/-- A statement: its attributes and the rest of its trees. -/
structure Stmt where
  form : StmtForm
  attributes : List Tree
  body : List Tree

/-- A bare expression ends the block that it stands in, if it stands last. -/
def Stmt.bare? (s : Stmt) : Option Expr :=
  match s.form with
  | .expression e false => some e
  | _ => none

inductive Bound where
  | lifetime
  | capture
  | trait
  deriving DecidableEq, Repr

inductive Item where
  | function (name : String) (body : List Stmt)
  | other

structure Grammar where
  type : (plus : Bool) → Parser TypeForm
  bound : (capture const : Bool) → Parser Bound
  pattern : Parser PatternForm
  expression : (structs : Bool) → Parser Expr
  bounded : Parser Expr
  operand : (structs : Bool) → Parser Expr
  climb : Expr → (structs : Bool) → Precedence → Parser Expr
  statements : Parser (List Stmt)
  item : Parser Item
  useTree : (root : Bool) → Parser Unit
  namedFields : Parser Unit

/-- Nothing stands inside anything. -/
def Grammar.none : Grammar where
  type _ := failure
  bound _ _ := failure
  pattern := failure
  expression _ := failure
  bounded := failure
  operand _ := failure
  climb _ _ _ := failure
  statements := failure
  item := failure
  useTree _ := failure
  namedFields := failure

/-! ### Literals ahead -/

namespace Ahead

def literalKind? : List Tree → Option Literal.Kind
  | .literal t _ :: _ => some (Literal.kind t)
  | _ => none

def string (ts : List Tree) : Bool := literalKind? ts == some .string

def integer (ts : List Tree) : Bool :=
  match literalKind? ts with
  | some (.integer ..) => true
  | _ => false

def float (ts : List Tree) : Bool := literalKind? ts == some .float

end Ahead

/-! ### Attributes and paths without arguments -/

namespace Parser

/-- A path of words only. -/
def plainPath : Parser Unit := do
  let _ ← tryMark "::"
  iterate (fun _ : Unit => do
    require Ahead.pathWord
    let _ ← anyWord
    if ← tryMark "::" then return .inl () else return .inr ()) ()

def metaItem (g : Grammar) : Parser Unit := do
  if ← ahead (Ahead.word "unsafe") then dropTrees 1 else plainPath
  let ts ← get
  if Ahead.anyGroup ts then
    let _ ← anyGroup
  else if Ahead.mark "=" ts && !Ahead.mark "==" ts && !Ahead.mark "=>" ts then
    mark "="
    let ts ← get
    match literal.run ts with
    | some (_, []) => set ([] : List Tree)
    | _ =>
      if Ahead.mark "#" ts && Ahead.second Ahead.bracket ts then failure
      let _ ← g.expression true

def outerAttributes (g : Grammar) : Parser Unit := do
  let _ ← manyWhile (Ahead.mark "#") do
    mark "#"; within .bracket (metaItem g)

def innerAttributes (g : Grammar) : Parser Unit := do
  let _ ← manyWhile (fun ts => Ahead.mark "#" ts && Ahead.second (Ahead.mark "!") ts) do
    mark "#"; mark "!"; within .bracket (metaItem g)

/-- A block. -/
def block (g : Grammar) : Parser (List Stmt) := within .brace g.statements

/-- A block that may start with attributes. -/
def attributedBlock (g : Grammar) : Parser (List Stmt) :=
  within .brace do innerAttributes g; g.statements

def label : Parser Unit := do lifetime; mark ":"

def tryLabel : Parser Unit := do
  if ← ahead Ahead.lifetime then label

end Parser

end Notebook.Syntax
