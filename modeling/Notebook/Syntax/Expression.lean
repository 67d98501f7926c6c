import Notebook.Syntax.Pattern

namespace Notebook.Syntax.Parser

open Ahead (second third)

/-- Whether an expression may start here. -/
def startsExpression (ts : List Tree) : Bool :=
  (Ahead.anyWord ts && !Ahead.word "as" ts) || Ahead.anyGroup ts || Ahead.literal ts ||
  (Ahead.mark "!" ts && !Ahead.mark "!=" ts) ||
  (Ahead.mark "-" ts && !Ahead.mark "-=" ts && !Ahead.mark "->" ts) ||
  (Ahead.mark "*" ts && !Ahead.mark "*=" ts) || (Ahead.mark "|" ts && !Ahead.mark "|=" ts) ||
  (Ahead.mark "&" ts && !Ahead.mark "&=" ts) || Ahead.mark ".." ts ||
  (Ahead.mark "<" ts && !Ahead.mark "<=" ts && !Ahead.mark "<<=" ts) || Ahead.mark "::" ts ||
  Ahead.lifetime ts || Ahead.mark "#" ts

def tryExpression (g : Grammar) : Parser Unit := do
  if ← ahead startsExpression then
    let _ ← g.expression true

/-- The words of a binder are generic parameters, not a path that starts with a type. -/
def bindsAhead (ts : List Tree) : Bool :=
  Ahead.word "for" ts && genericsAhead (Ahead.skip ts)

/-! ### Control flow -/

def conditional (g : Grammar) : Parser ExprForm :=
  iterate (fun elseIfs => do
    word "if"
    let _ ← g.expression false
    let _ ← block g
    if ← tryWord "else" then
      if ← ahead (Ahead.word "if") then return .inl (elseIfs + 1)
      else
        let _ ← block g
        return .inr (.conditional elseIfs true)
    else return .inr (.conditional elseIfs false)) 0

def whileLoop (g : Grammar) : Parser ExprForm := do
  word "while"
  let _ ← g.expression false
  let _ ← attributedBlock g
  return .whileLoop

def forLoop (g : Grammar) : Parser ExprForm := do
  word "for"
  let _ ← patterns g
  word "in"
  let _ ← g.expression false
  let _ ← attributedBlock g
  return .forLoop

def endlessLoop (g : Grammar) : Parser ExprForm := do
  word "loop"
  let _ ← attributedBlock g
  return .loop

def labelled (g : Grammar) : Parser ExprForm := do
  label
  let ts ← get
  if Ahead.word "while" ts then whileLoop g
  else if Ahead.word "for" ts then forLoop g
  else if Ahead.word "loop" ts then endlessLoop g
  else
    let _ ← attributedBlock g
    return .block

/-! ### Operators -/

/-- The precedence of the operator ahead. -/
def precedenceAhead (ts : List Tree) : Precedence :=
  match Operator.ahead? ts with
  | some (_, o) => o.precedence
  | none =>
    if Ahead.mark "=" ts && !Ahead.mark "=>" ts then .assign
    else if Ahead.mark ".." ts then .range
    else if Ahead.word "as" ts then .cast
    else .jump

/-- The right side of an operator takes all that binds tighter. -/
def rightSide (g : Grammar) (structs : Bool) (p : Precedence) : Parser Unit := do
  let first ← g.operand structs
  iterate (fun e => do
    let before ← get
    let next := precedenceAhead before
    if p.rank < next.rank || (next == p && p == .assign) then
      let e ← g.climb e structs next
      if (← get).length = before.length then return .inr () else return .inl e
    else return .inr ()) first

/-- What cannot be the end of a range that has none. -/
def isRangeEnd (structs : Bool) (ts : List Tree) : Bool :=
  ts.isEmpty || Ahead.mark "," ts || Ahead.mark ";" ts ||
  (Ahead.mark "." ts && !Ahead.mark ".." ts) || Ahead.mark "?" ts || Ahead.mark "=>" ts ||
  (!structs && Ahead.brace ts) || Ahead.mark "=" ts || Ahead.mark "+" ts || Ahead.mark "/" ts ||
  Ahead.mark "%" ts || Ahead.mark "^" ts || Ahead.mark ">" ts || Ahead.mark "<=" ts ||
  Ahead.mark "!=" ts || Ahead.mark "-=" ts || Ahead.mark "*=" ts || Ahead.mark "&=" ts ||
  Ahead.mark "|=" ts || Ahead.mark "<<=" ts || Ahead.word "as" ts

def rangeRest (g : Grammar) (structs : Bool) : Parser Unit := do
  let closed ← rangeLimits false
  if !closed && isRangeEnd structs (← get) then pure () else rightSide g structs .range

/-- A cast is followed by nothing that binds tighter. -/
def isAfterCast (ts : List Tree) : Bool :=
  !((Ahead.mark "." ts && !Ahead.mark ".." ts) || Ahead.mark "?" ts || Ahead.bracket ts ||
    Ahead.paren ts)

def Operator.chains (o : Operator) (left : ExprForm) : Bool :=
  match left with
  | .binary p => o.precedence == .compare && p.precedence == .compare
  | _ => false

/-- Goes on from a left side with operators that bind at least as tight as `base`. A range is no
left side. -/
def climb (g : Grammar) (left : Expr) (structs : Bool) (base : Precedence) : Parser Expr :=
  iterate (fun left => do
    let ts ← get
    if left.form == .range then return .inr left
    else match Operator.ahead? ts with
      | some (m, o) =>
        if o.precedence.rank < base.rank then return .inr left
        else if Operator.chains o left.form then failure
        else
          mark m
          rightSide g structs o.precedence
          return .inl ⟨.binary o, left.leadsVerbatim⟩
      | none =>
        if base.rank ≤ Precedence.assign.rank && Ahead.mark "=" ts && !Ahead.mark "=>" ts then
          mark "="
          rightSide g structs .assign
          return .inl ⟨.assign, left.leadsVerbatim⟩
        else if base.rank ≤ Precedence.range.rank && Ahead.mark ".." ts then
          rangeRest g structs
          return .inl (.of .range)
        else if base.rank ≤ Precedence.cast.rank && Ahead.word "as" ts then
          word "as"
          let _ ← g.type false
          require isAfterCast
          return .inl ⟨.cast, left.leadsVerbatim⟩
        else return .inr left) left

/-! ### Atoms -/

def closureArgument (g : Grammar) : Parser Unit := do
  outerAttributes g
  let _ ← g.pattern
  if ← tryMark ":" then
    let _ ← g.type true

def closure (g : Grammar) (structs : Bool) : Parser ExprForm := do
  let _ ← tryBinder g
  let _ ← tryWord "const"
  let _ ← tryWord "static"
  let _ ← tryWord "async"
  let _ ← tryWord "move"
  mark "|"
  let _ ← commaUntil (Ahead.mark "|") (closureArgument g)
  mark "|"
  if ← tryMark "->" then
    let _ ← g.type true
    let _ ← block g
  else
    let _ ← g.expression structs
  return .closure

def structField (g : Grammar) : Parser Unit := do
  outerAttributes g
  if ← ahead Ahead.ident then
    dropTrees 1
    if ← tryMark ":" then
      let _ ← g.expression true
  else
    require Ahead.integer
    dropTrees 1
    mark ":"
    let _ ← g.expression true

def structFields (g : Grammar) : Parser Unit :=
  iterate (fun _ : Unit => do
    if ← isDone then return .inr ()
    else if ← tryMark ".." then
      if ← isDone then return .inr ()
      else
        let _ ← g.expression true
        return .inr ()
    else
      structField g
      if ← isDone then return .inr ()
      else
        mark ","
        return .inl ()) ()

def pathExpression (g : Grammar) (structs : Bool) : Parser ExprForm := do
  let p ← qualifiedPath g true
  let ts ← get
  if !p.qualified && Ahead.mark "!" ts && !Ahead.mark "!=" ts && p.plain then
    mark "!"
    return .macroCall (← anyGroup)
  else if structs && Ahead.brace ts then
    within .brace (structFields g)
    return .fieldValues
  else return .path

def parenOrTuple (g : Grammar) : Parser ExprForm := do
  let (elements, trailing) ← within .paren (commaToEnd (g.expression true))
  match elements with
  | [_] => return if trailing then .tuple 1 else .paren
  | es => return .tuple es.length

def arrayOrRepetition (g : Grammar) : Parser ExprForm :=
  within .bracket do
    if ← isDone then return .array
    else
      let _ ← g.expression true
      if ← tryMark ";" then
        let _ ← g.expression true
        return .repetition
      else if ← isDone then return .array
      else
        mark ","
        let _ ← commaToEnd (g.expression true)
        return .array

def breakJump (g : Grammar) (structs : Bool) : Parser ExprForm := do
  word "break"
  if (← tryLifetime) && (← ahead (Ahead.mark ":")) then failure
  let ts ← get
  if startsExpression ts && (structs || !Ahead.brace ts) then
    let _ ← g.expression structs
  return .breakJump

/-- An arm ends with a comma unless its body ends with its own brace or it is the last. -/
def matchArm (g : Grammar) : Parser Unit := do
  outerAttributes g
  let _ ← patterns g
  if ← tryWord "if" then
    let _ ← g.expression true
  mark "=>"
  let e ← g.bounded
  if !e.form.isBlockLike && !(← isDone) then mark ","
  else
    let _ ← tryMark ","

def matching (g : Grammar) : Parser ExprForm := do
  word "match"
  let _ ← g.expression false
  within .brace do
    innerAttributes g
    let _ ← manyToEnd (matchArm g)
  return .matching

def letBinding (g : Grammar) (structs : Bool) : Parser ExprForm := do
  word "let"
  let _ ← patterns g
  mark "="
  let e ← g.operand structs
  let _ ← g.climb e structs .compare
  return .letBinding

/-- A form of the compiler's own. -/
def builtin : Parser ExprForm := do
  word "builtin"
  mark "#"
  let _ ← ident
  require Ahead.paren
  dropTrees 1
  return .verbatim

def isClosureAhead (ts : List Tree) : Bool :=
  Ahead.mark "|" ts || Ahead.word "move" ts || bindsAhead ts ||
  (Ahead.word "const" ts && !second Ahead.brace ts) || Ahead.word "static" ts ||
  (Ahead.word "async" ts && (second (Ahead.mark "|") ts || second (Ahead.word "move") ts))

def atom (g : Grammar) (structs : Bool) : Parser ExprForm := do
  let ts ← get
  if Ahead.literal ts then
    literal
    return .literal
  else if Ahead.word "async" ts &&
      (second Ahead.brace ts || (second (Ahead.word "move") ts && third Ahead.brace ts)) then
    dropTrees 1
    let _ ← tryWord "move"
    let _ ← block g
    return .async
  else if Ahead.word "try" ts && second Ahead.brace ts then
    dropTrees 1
    let _ ← block g
    return .tryBlock
  else if isClosureAhead ts then closure g structs
  else if Ahead.word "builtin" ts && second (Ahead.mark "#") ts then builtin
  else if isPathAhead ts ||
      (Ahead.word "try" ts && (second (Ahead.mark "!") ts || second (Ahead.mark "::") ts)) then
    pathExpression g structs
  else if Ahead.paren ts then parenOrTuple g
  else if Ahead.word "break" ts then breakJump g structs
  else if Ahead.word "continue" ts then
    dropTrees 1
    let _ ← tryLifetime
    return .continueJump
  else if Ahead.word "return" ts then
    dropTrees 1
    tryExpression g
    return .returnJump
  else if Ahead.word "become" ts then
    dropTrees 1
    let _ ← g.expression true
    return .verbatim
  else if Ahead.bracket ts then arrayOrRepetition g
  else if Ahead.word "let" ts then letBinding g structs
  else if Ahead.word "if" ts then conditional g
  else if Ahead.word "while" ts then whileLoop g
  else if Ahead.word "for" ts then forLoop g
  else if Ahead.word "loop" ts then endlessLoop g
  else if Ahead.word "match" ts then matching g
  else if Ahead.word "yield" ts then
    dropTrees 1
    tryExpression g
    return .yield
  else if Ahead.word "unsafe" ts then
    dropTrees 1
    let _ ← attributedBlock g
    return .unsafeBlock
  else if Ahead.word "const" ts then
    dropTrees 1
    let _ ← attributedBlock g
    return .constBlock
  else if Ahead.brace ts then
    let _ ← attributedBlock g
    return .block
  else if Ahead.mark ".." ts then
    rangeRest g structs
    return .range
  else if Ahead.underscore ts then
    dropTrees 1
    return .infer
  else if Ahead.lifetime ts then labelled g
  else failure

/-! ### Calls, fields and the like -/

/-- The number of a field of a tuple. -/
def isFieldNumber (s : List Char) : Bool :=
  match Literal.integer? s with
  | some (v, []) => v < 4_294_967_296
  | _ => false

/-- The parts of a text between points. -/
def splitPoints : List Char → List (List Char)
  | [] => [[]]
  | '.' :: s => [] :: splitPoints s
  | c :: s =>
    match splitPoints s with
    | p :: ps => (c :: p) :: ps
    | [] => [[c]]

/-- A float after a point is two field numbers, or one and a point: whether a member follows. -/
def floatField : Parser Bool := do
  match ← get with
  | .literal t _ :: ts =>
    let trailing := t.getLast? == some '.'
    let parts := splitPoints (if trailing then t.dropLast else t)
    if parts.all isFieldNumber then
      set ts
      return trailing
    else failure
  | _ => failure

def callArguments (g : Grammar) : Parser Unit := do
  let _ ← within .paren (commaToEnd (g.expression true))

/-- A field, a method with its arguments, or a wait, after the point. -/
def member (g : Grammar) : Parser ExprForm := do
  if ← tryWord "await" then return .await
  else
    let ts ← get
    if Ahead.ident ts then
      dropTrees 1
      let turbofish ← ahead (Ahead.mark "::")
      if turbofish then
        mark "::"
        angleArguments g
      if turbofish || (← ahead Ahead.paren) then
        callArguments g
        return .methodCall
      else return .field
    else match Ahead.literalKind? ts with
      | some (.integer v []) =>
        if v < 4_294_967_296 then
          dropTrees 1
          return .field
        else failure
      | _ => failure

/-- What follows an atom and binds tighter than any operator. -/
def trailers (g : Grammar) (e : Expr) : Parser Expr :=
  iterate (fun e => do
    let ts ← get
    if Ahead.paren ts then
      callArguments g
      return .inl (.of .call)
    else if Ahead.mark "." ts && !Ahead.mark ".." ts && e.form != .range then
      mark "."
      let more ← if ← ahead Ahead.float then floatField else pure true
      if more then return .inl (.of (← member g)) else return .inl (.of .field)
    else if Ahead.bracket ts then
      within .bracket do
        let _ ← g.expression true
      return .inl (.of .index)
    else if Ahead.mark "?" ts && e.form != .range then
      mark "?"
      return .inl (.of .try)
    else return .inr e) e

def Expr.ofAtom (f : ExprForm) : Expr := ⟨f, f == .verbatim⟩

/-- An operand of an operator. Attributes do not stand in front of a range that has no start. -/
def operand (g : Grammar) (structs : Bool) : Parser Expr := do
  let attributed ← ahead (Ahead.mark "#")
  outerAttributes g
  let ts ← get
  if Ahead.mark "&" ts then
    mark "&"
    let ts ← get
    let raw := Ahead.word "raw" ts &&
      (second (Ahead.word "mut") ts || second (Ahead.word "const") ts)
    if raw then dropTrees 1
    let mutable ← tryWord "mut"
    if raw && !mutable then word "const"
    let _ ← g.operand structs
    return .of (if raw then .rawAddress else .reference)
  else if Ahead.mark "*" ts || Ahead.mark "!" ts || Ahead.mark "-" ts then
    dropTrees 1
    let _ ← g.operand structs
    return .of .unary
  else
    let e ← trailers g (Expr.ofAtom (← atom g structs))
    if attributed && e.form == .range then failure
    else return { e with leadsVerbatim := e.leadsVerbatim && !attributed }

/-! ### Expressions as statements and bodies of arms -/

/-- An expression that starts with a block-like one ends there, unless a point or a question mark
follows. -/
def bounded (g : Grammar) : Parser Expr := do
  outerAttributes g
  let ts ← get
  let blockLike : Option (Parser ExprForm) :=
    if Ahead.word "if" ts then some (conditional g)
    else if Ahead.word "while" ts then some (whileLoop g)
    else if Ahead.word "for" ts && !bindsAhead ts then some (forLoop g)
    else if Ahead.word "loop" ts then some (endlessLoop g)
    else if Ahead.word "match" ts then some (matching g)
    else if (Ahead.word "try" ts && second Ahead.brace ts) || Ahead.word "unsafe" ts ||
        (Ahead.word "const" ts && second Ahead.brace ts) || Ahead.brace ts then
      some (atom g true)
    else if Ahead.lifetime ts then some (labelled g)
    else none
  match blockLike with
  | none => g.climb (← operand g true) true .jump
  | some p =>
    let e := Expr.of (← p)
    let ts ← get
    if (Ahead.mark "." ts && !Ahead.mark ".." ts) || Ahead.mark "?" ts then
      g.climb (← trailers g e) true .jump
    else return e

def expression (g : Grammar) (structs : Bool) : Parser Expr := do
  g.climb (← operand g structs) structs .jump

end Notebook.Syntax.Parser
