import Notebook.Syntax.Grammar

namespace Notebook.Syntax.Parser

open Ahead (second third)

/-! ### Generic arguments and paths -/

/-- A value as a generic argument. -/
def constArgument (g : Grammar) : Parser Unit := do
  let ts ← get
  if Ahead.literal ts then literal
  else if Ahead.ident ts then dropTrees 1
  else
    let _ ← attributedBlock g

/-- Whether what follows are generic parameters and not a path that starts with a type. -/
def genericsAhead (ts : List Tree) : Bool :=
  Ahead.mark "<" ts &&
  (second (Ahead.mark ">") ts || second (Ahead.mark "#") ts || second (Ahead.word "const") ts ||
   ((second Ahead.lifetime ts || second Ahead.ident ts) &&
    (third (Ahead.mark ">") ts || third (Ahead.mark ",") ts || third (Ahead.mark "=") ts ||
     (third (Ahead.mark ":") ts && !third (Ahead.mark "::") ts))))

/-- Bounds that `+` separates, up to `stop`. -/
def boundsUntil (stop : List Tree → Bool) (bound : Parser Bound) : Parser Unit :=
  iterate (fun _ : Unit => do
    if ← ahead stop then return .inr ()
    else
      let _ ← bound
      if ← tryMark "+" then return .inl () else return .inr ()) ()

def lifetimeBoundsUntil (stop : List Tree → Bool) : Parser Unit :=
  boundsUntil stop do lifetime; return .lifetime

def returnType (g : Grammar) (plus : Bool) : Parser (Option TypeForm) := do
  if ← tryMark "->" then return some (← g.type plus) else return none

/-- Types in parentheses as the arguments of a path, with a result. -/
def parenArguments (g : Grammar) : Parser (Option TypeForm) := do
  let _ ← within .paren (commaToEnd (g.type true))
  returnType g false

/-- Whether parenthesized arguments are ahead, possibly after a double colon. -/
def parenArgumentsAhead (ts : List Tree) : Bool :=
  Ahead.paren ts || (Ahead.mark "::" ts && third Ahead.paren ts)

section

variable (g : Grammar)

def genericArgument : Parser Unit := do
  let ts ← get
  if Ahead.lifetime ts && !second (Ahead.mark "+") ts then lifetime
  else if Ahead.literal ts || Ahead.brace ts then constArgument g
  else match ← g.type true with
    | .path p =>
      if !p.qualified && !p.rooted && p.segments == 1 && p.last != .paren then
        if ← tryMark "=" then
          let ts ← get
          if Ahead.literal ts || Ahead.brace ts then constArgument g
          else
            let _ ← g.type true
        else if ← tryMark ":" then
          boundsUntil (fun ts => Ahead.mark "," ts || Ahead.mark ">" ts) (g.bound false true)
    | _ => pure ()

def angleArguments : Parser Unit := do
  mark "<"
  let _ ← commaUntil (Ahead.mark ">") (genericArgument g)
  mark ">"

def pathSegment (expr : Bool) : Parser PathArguments := do
  let ts ← get
  if Ahead.word "super" ts || Ahead.word "self" ts || Ahead.word "crate" ts ||
      Ahead.word "try" ts then
    dropTrees 1
    return .none
  if Ahead.word "Self" ts then dropTrees 1 else let _ ← ident
  let ts ← get
  if (!expr && Ahead.mark "<" ts && !Ahead.mark "<=" ts && !Ahead.mark "<<=" ts) ||
      (Ahead.mark "::" ts && third (Ahead.mark "<") ts) then
    let _ ← tryMark "::"
    angleArguments g
    return .angle
  else return .none

def PathForm.add (p : PathForm) (a : PathArguments) : PathForm :=
  { p with segments := p.segments + 1, last := a, plain := p.plain && a == .none }

def pathRest (expr : Bool) (p : PathForm) : Parser PathForm :=
  iterate (fun p => do
    let ts ← get
    if Ahead.mark "::" ts && !third Ahead.paren ts then
      mark "::"
      return .inl (PathForm.add p (← pathSegment g expr))
    else return .inr p) p

def path (expr : Bool) : Parser PathForm := do
  let rooted ← tryMark "::"
  let p := PathForm.add ⟨false, rooted, 0, .none, true⟩ (← pathSegment g expr)
  pathRest g expr p

/-- A path that may start with a type in angle brackets. -/
def qualifiedPath (expr : Bool) : Parser PathForm := do
  if ← ahead (Ahead.mark "<") then
    mark "<"
    let _ ← g.type true
    if ← tryWord "as" then
      let _ ← path g false
    mark ">"
    mark "::"
    iterate (fun p => do
      let p := PathForm.add p (← pathSegment g expr)
      if ← tryMark "::" then return .inl p else return .inr p) ⟨true, false, 0, .none, true⟩
  else path g expr

/-! ### Generic parameters -/

def lifetimeParameter : Parser Unit := do
  lifetime
  if ← tryMark ":" then
    lifetimeBoundsUntil fun ts => Ahead.mark "," ts || Ahead.mark ">" ts

def typeParameter : Parser Unit := do
  let _ ← ident
  if ← tryMark ":" then
    boundsUntil (fun ts => Ahead.mark "," ts || Ahead.mark ">" ts || Ahead.mark "=" ts)
      (g.bound false true)
  if ← tryMark "=" then
    let _ ← g.type true

def constParameter : Parser Unit := do
  word "const"
  let _ ← ident
  mark ":"
  let _ ← g.type true
  if ← tryMark "=" then constArgument g

def genericParameter (wild : Bool) : Parser Unit := do
  outerAttributes g
  let ts ← get
  if Ahead.lifetime ts then lifetimeParameter
  else if Ahead.ident ts then typeParameter g
  else if Ahead.word "const" ts then constParameter g
  else if wild && Ahead.underscore ts then dropTrees 1
  else failure

/-- Generic parameters in angle brackets, if there are any. -/
def generics : Parser Unit := do
  if ← tryMark "<" then
    let _ ← commaUntil (Ahead.mark ">") (genericParameter g true)
    mark ">"

/-- The parameters that a type or a closure is universal in. -/
def binder : Parser Unit := do
  word "for"
  mark "<"
  let _ ← commaUntil (Ahead.mark ">") (genericParameter g false)
  mark ">"

def tryBinder : Parser Bool := do
  if ← ahead (Ahead.word "for") then binder g; return true else return false

end

/-! ### Bounds -/

def captureParameter : Parser Unit := do
  let ts ← get
  if Ahead.lifetime ts then lifetime
  else if Ahead.ident ts || Ahead.word "Self" ts then dropTrees 1
  else failure

/-- A bound on a type that is no lifetime and names no captured parameters. -/
def traitBound (g : Grammar) (const : Bool) : Parser Bound := do
  let bindsFirst ← tryBinder g
  let ts ← get
  if Ahead.bracket ts then
    within .bracket (word "const")
    if !const then failure
  else if Ahead.word "const" ts then
    dropTrees 1
    if !const then failure
  let maybe ← tryMark "?"
  if maybe && (bindsFirst || (← ahead (Ahead.word "for"))) then failure
  let p ← path g false
  if p.last == .none then
    if ← ahead parenArgumentsAhead then
      let _ ← tryMark "::"
      let _ ← parenArguments g
  return .trait

/-- A bound on a type. -/
def bound (g : Grammar) (capture const : Bool) : Parser Bound := do
  let ts ← get
  if Ahead.lifetime ts then
    lifetime
    return .lifetime
  else if Ahead.word "use" ts then
    dropTrees 1
    mark "<"
    let _ ← commaUntil (Ahead.mark ">") captureParameter
    mark ">"
    if capture then return .capture else failure
  else if Ahead.paren ts then within .paren (traitBound g const)
  else traitBound g const

/-- Bounds of a type: how many there are, whether one is a trait, and whether a `+` stands at the
end. -/
def bounds (g : Grammar) (plus capture const : Bool) : Parser (Nat × Bool × Bool) :=
  iterate (fun (count, trait) => do
    let b ← bound g capture const
    let count := count + 1
    let trait := trait || b == .trait
    let ts ← get
    if plus && Ahead.mark "+" ts then
      mark "+"
      let ts ← get
      if Ahead.anyWord ts || Ahead.mark "::" ts || Ahead.mark "?" ts || Ahead.lifetime ts ||
          Ahead.paren ts || (const && (Ahead.bracket ts || Ahead.word "const" ts)) then
        return .inl (count, trait)
      else return .inr (count, trait, true)
    else return .inr (count, trait, false)) (0, false)

def isPredicateEnd (ts : List Tree) : Bool :=
  ts.isEmpty || Ahead.brace ts || Ahead.mark "," ts || Ahead.mark ";" ts ||
  (Ahead.mark ":" ts && !Ahead.mark "::" ts) || Ahead.mark "=" ts

def wherePredicate (g : Grammar) : Parser Unit := do
  let ts ← get
  if Ahead.lifetime ts && second (Ahead.mark ":") ts then
    lifetime
    mark ":"
    lifetimeBoundsUntil fun ts => isPredicateEnd ts || Ahead.mark ":" ts
  else
    let _ ← tryBinder g
    let _ ← g.type true
    mark ":"
    boundsUntil isPredicateEnd (bound g false true)

/-- A `where` clause, if there is one. -/
def tryWhere (g : Grammar) : Parser Unit := do
  if ← tryWord "where" then
    iterate (fun _ : Unit => do
      if ← ahead isPredicateEnd then return .inr ()
      else
        wherePredicate g
        if ← tryMark "," then return .inl () else return .inr ()) ()

/-! ### Types -/

/-- The name of a calling convention. -/
def abi : Parser Unit := do
  word "extern"
  if ← ahead Ahead.string then dropTrees 1

def tryAbi : Parser Unit := do
  if ← ahead (Ahead.word "extern") then abi

/-- A parameter of a function type. Only the first may be `self`. -/
def functionTypeArgument (g : Grammar) (first : Bool) : Parser Unit := do
  outerAttributes g
  let ts ← get
  let mutSelf := first && Ahead.word "mut" ts && second (Ahead.word "self") ts
  if mutSelf then dropTrees 1
  let ts ← get
  let self := first && Ahead.word "self" ts
  let named := (Ahead.ident ts || Ahead.underscore ts || self) &&
    second (Ahead.mark ":") ts && !second (Ahead.mark "::") ts
  if named then
    let _ ← anyWord
    mark ":"
  let ts ← get
  if first && !(named && self) && Ahead.word "mut" ts && second (Ahead.word "self") ts then
    dropTrees 2
  else if mutSelf && !named then word "self"
  else
    let _ ← g.type true

def isVariadicAhead (ts : List Tree) : Bool :=
  Ahead.mark "..." ts ||
  ((Ahead.ident ts || Ahead.underscore ts) && second (Ahead.mark ":") ts &&
    third (Ahead.mark "...") ts)

def functionTypeArguments (g : Grammar) : Parser Unit :=
  iterate (fun first : Bool => do
    if ← isDone then return .inr ()
    else
      outerAttributes g
      if ← ahead isVariadicAhead then
        if ← ahead Ahead.anyWord then
          dropTrees 1
          mark ":"
        mark "..."
        let _ ← tryMark ","
        return .inr ()
      else
        functionTypeArgument g first
        if ← isDone then return .inr ()
        else
          mark ","
          return .inl false) true

def functionType (g : Grammar) : Parser Unit := do
  let _ ← tryBinder g
  let _ ← tryWord "unsafe"
  tryAbi
  word "fn"
  within .paren (functionTypeArguments g)
  let _ ← returnType g false

/-- Bounds after the first, each after a `+`. -/
def moreBounds (g : Grammar) (count : Nat) : Parser Nat :=
  iterate (fun count => do
    if ← tryMark "+" then
      let _ ← bound g false false
      return .inl (count + 1)
    else return .inr count) count

def traitObject (g : Grammar) (marked plus : Bool) : Parser TypeForm := do
  let (count, trait, trailing) ← bounds g plus false false
  if trait then return .bounds marked count trailing else failure

/-- What a type in parentheses holds. -/
inductive ParenType where
  | tuple
  | paren
  | object
  | inner (form : TypeForm)

def parenTypeInner (g : Grammar) : Parser ParenType := do
  let ts ← get
  if ts.isEmpty then return .tuple
  else if Ahead.lifetime ts then
    let _ ← traitObject g false true
    return .paren
  else if Ahead.mark "?" ts then
    let _ ← bound g false false
    return .object
  else
    let first ← g.type true
    if ← tryMark "," then
      let _ ← commaToEnd (g.type true)
      return .tuple
    else return .inner first

def parenType (g : Grammar) (plus : Bool) : Parser TypeForm := do
  match ← within .paren (parenTypeInner g) with
  | .tuple => return .other
  | .paren => return .paren
  | .object =>
    let n ← moreBounds g 1
    return .bounds false n false
  | .inner first =>
    let joins := match first with
      | .path p => !p.qualified
      | .bounds false n trailing => n ≤ 1 && !trailing
      | _ => false
    if plus && joins && (← ahead (Ahead.mark "+")) then
      return .bounds false (← moreBounds g 1) false
    else return .paren

/-- The bounds of a trait object that starts with a path. -/
def pathBounds (g : Grammar) (plus : Bool) : Parser TypeForm :=
  iterate (fun count => do
    if plus && (← ahead (Ahead.mark "+")) then
      mark "+"
      let ts ← get
      if Ahead.anyWord ts || Ahead.mark "::" ts || Ahead.mark "?" ts || Ahead.lifetime ts ||
          Ahead.paren ts then
        let _ ← bound g false false
        return .inl (count + 1)
      else return .inr (.bounds false count true)
    else return .inr (.bounds false count false)) 1

/-- Parenthesized arguments of the last segment of a path in a type. -/
def pathTypeArguments (g : Grammar) (p : PathForm) : Parser PathForm :=
  iterate (fun p => do
    if p.last == .none && (← ahead parenArgumentsAhead) then
      let _ ← tryMark "::"
      let result ← parenArguments g
      let p := { p with last := .paren, plain := false }
      if result == none || result == some .paren then
        return .inl (← pathRest g false p)
      else return .inl p
    else return .inr p) p

def pathType (g : Grammar) (bindsFirst plus : Bool) : Parser TypeForm := do
  let p ← pathTypeArguments g (← qualifiedPath g false)
  let ts ← get
  if p.qualified then return .path p
  else if Ahead.mark "!" ts && !Ahead.mark "!=" ts && p.plain then
    mark "!"
    let _ ← anyGroup
    return .other
  else if bindsFirst || (plus && Ahead.mark "+" ts) then pathBounds g plus
  else return .path p

def isPathAhead (ts : List Tree) : Bool :=
  Ahead.pathWord ts || Ahead.mark "::" ts || Ahead.mark "<" ts

def type (g : Grammar) (plus : Bool) : Parser TypeForm := do
  let bindsFirst ← tryBinder g
  let ts ← get
  let isFunction := Ahead.word "fn" ts || Ahead.word "unsafe" ts || Ahead.word "extern" ts
  if bindsFirst && !(Ahead.pathWord ts || isFunction) then failure
  else if Ahead.paren ts then parenType g plus
  else if isFunction then
    functionType g
    return .other
  else if isPathAhead ts then pathType g bindsFirst plus
  else if Ahead.word "dyn" ts then
    dropTrees 1
    if ← tryMark "*" then
      let _ ← traitObject g true plus
      return .other
    else traitObject g true plus
  else if Ahead.bracket ts then
    within .bracket do
      let _ ← g.type true
      if ← tryMark ";" then
        let _ ← g.expression true
    return .other
  else if Ahead.mark "*" ts then
    mark "*"
    if ← tryWord "const" then pure () else word "mut"
    let _ ← g.type false
    return .other
  else if Ahead.mark "&" ts then
    mark "&"
    let _ ← tryLifetime
    let _ ← tryWord "mut"
    let _ ← g.type false
    return .other
  else if Ahead.mark "!" ts && !Ahead.mark "=" ts then
    mark "!"
    return .other
  else if Ahead.word "impl" ts then
    dropTrees 1
    let (_, trait, _) ← bounds g plus true true
    if trait then return .other else failure
  else if Ahead.underscore ts then
    dropTrees 1
    return .other
  else if Ahead.lifetime ts then traitObject g false true
  else failure

end Notebook.Syntax.Parser
