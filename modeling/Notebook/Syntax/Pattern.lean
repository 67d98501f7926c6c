import Notebook.Syntax.Type

namespace Notebook.Syntax.Parser

open Ahead (second third)

/-- The marks of a range: whether it is closed. The form with three dots is taken where `old`. -/
def rangeLimits (old : Bool) : Parser Bool := do
  let ts ← get
  if Ahead.mark "..=" ts then
    mark "..="
    return true
  else if Ahead.mark "..." ts then
    if old then
      mark "..."
      return true
    else failure
  else
    mark ".."
    return false

def isOr (ts : List Tree) : Bool :=
  Ahead.mark "|" ts && !Ahead.mark "||" ts && !Ahead.mark "|=" ts

/-- One pattern or more with `|` between, and possibly one in front. -/
def patterns (g : Grammar) : Parser PatternForm := do
  let leading ← tryMark "|"
  let first ← g.pattern
  if leading || (← ahead isOr) then
    let _ ← manyWhile isOr do mark "|"; g.pattern
    return .other
  else return first

def isRangeBoundEnd (ts : List Tree) : Bool :=
  ts.isEmpty || Ahead.mark "|" ts || Ahead.mark "=" ts ||
  (Ahead.mark ":" ts && !Ahead.mark "::" ts) || Ahead.mark "," ts || Ahead.mark ";" ts ||
  Ahead.word "if" ts

/-- A bound of a range pattern, if there is one. -/
def rangeBound (g : Grammar) : Parser Bool := do
  let ts ← get
  if isRangeBoundEnd ts then return false
  else if Ahead.literal ts then
    literal
    return true
  else if isPathAhead ts then
    let _ ← qualifiedPath g true
    return true
  else
    word "const"
    let _ ← block g
    return true

/-- The rest of a range pattern after its start, if it has one. -/
def rangePattern (g : Grammar) (started : Bool) : Parser PatternForm := do
  let closed ← rangeLimits started
  let ended ← rangeBound g
  if !ended && closed then failure
  else if !ended && !started then return .rest
  else if started && ended then return .other
  else return .openRange

def literalPattern (g : Grammar) : Parser PatternForm := do
  if ← rangeBound g then
    if ← ahead (Ahead.mark "..") then rangePattern g true else return .other
  else failure

def fieldPattern (g : Grammar) : Parser Unit := do
  let boxed ← tryWord "box"
  let byRef ← tryWord "ref"
  let mutable ← tryWord "mut"
  let marked := boxed || byRef || mutable
  let ts ← get
  if marked then
    let _ ← ident
  else if Ahead.ident ts then
    dropTrees 1
    if ← tryMark ":" then
      let _ ← patterns g
  else
    require Ahead.integer
    dropTrees 1
    mark ":"
    let _ ← patterns g

def structPattern (g : Grammar) : Parser Unit :=
  iterate (fun _ : Unit => do
    if ← isDone then return .inr ()
    else
      outerAttributes g
      if ← tryMark ".." then return .inr ()
      else
        fieldPattern g
        if ← isDone then return .inr ()
        else
          mark ","
          return .inl ()) ()

def pathPattern (g : Grammar) : Parser PatternForm := do
  let p ← qualifiedPath g true
  let ts ← get
  if !p.qualified && Ahead.mark "!" ts && !Ahead.mark "!=" ts && p.plain then
    mark "!"
    let _ ← anyGroup
    return .other
  else if Ahead.brace ts then
    within .brace (structPattern g)
    return .other
  else if Ahead.paren ts then
    let _ ← within .paren (commaToEnd (patterns g))
    return .other
  else if Ahead.mark ".." ts then rangePattern g true
  else return .other

def identPattern (g : Grammar) : Parser Unit := do
  let _ ← tryWord "ref"
  let _ ← tryWord "mut"
  if ← tryWord "self" then pure () else let _ ← ident
  if ← tryMark "@" then
    let _ ← g.pattern

/-- Ranges without a start or an end do not stand bare in a slice pattern. -/
def slicePattern (g : Grammar) : Parser Unit := do
  let _ ← commaToEnd do
    if (← patterns g) == .openRange then failure

def pattern (g : Grammar) : Parser PatternForm := do
  let ts ← get
  if (Ahead.ident ts &&
        (second (Ahead.mark "::") ts || second (Ahead.mark "!") ts || second Ahead.brace ts ||
         second Ahead.paren ts || second (Ahead.mark "..") ts)) ||
      (Ahead.word "self" ts && second (Ahead.mark "::") ts) || Ahead.mark "::" ts ||
      Ahead.mark "<" ts || Ahead.word "Self" ts || Ahead.word "super" ts ||
      Ahead.word "crate" ts then
    pathPattern g
  else if Ahead.underscore ts then
    dropTrees 1
    return .other
  else if Ahead.word "box" ts then
    dropTrees 1
    let _ ← g.pattern
    return .other
  else if Ahead.mark "-" ts || Ahead.literal ts || Ahead.word "const" ts then literalPattern g
  else if Ahead.word "ref" ts || Ahead.word "mut" ts || Ahead.word "self" ts ||
      Ahead.ident ts then
    identPattern g
    return .other
  else if Ahead.mark "&" ts then
    mark "&"
    let _ ← tryWord "mut"
    let _ ← g.pattern
    return .other
  else if Ahead.paren ts then
    let _ ← within .paren (commaToEnd (patterns g))
    return .other
  else if Ahead.bracket ts then
    within .bracket (slicePattern g)
    return .other
  else if Ahead.mark ".." ts && !Ahead.mark "..." ts then rangePattern g false
  else failure

end Notebook.Syntax.Parser
