import Notebook.Syntax.Expression

namespace Notebook.Syntax.Parser

open Ahead (second third)

/-! ### Visibility and signatures -/

/-- Whether the item is public. Parentheses after `pub` belong to it only if they hold a place. -/
def visibility : Parser Bool := do
  if ← tryWord "pub" then
    match ← get with
    | .group .paren [.word w _] _ :: ts =>
      if w == "crate" || w == "self" || w == "super" then set ts
    | .group .paren inner _ :: _ =>
      if Ahead.word "in" inner then within .paren do word "in"; plainPath
    | _ => pure ()
    return true
  else return false

def skipWord (w : String) (ts : List Tree) : List Tree :=
  if Ahead.word w ts then ts.drop 1 else ts

/-- Whether the words before `fn` and `fn` are ahead. -/
def signatureAhead (safe : Bool) (ts : List Tree) : Bool :=
  let ts := skipWord "async" (skipWord "const" ts)
  let ts := if safe && Ahead.word "safe" ts then ts.drop 1 else skipWord "unsafe" ts
  let ts := if Ahead.word "extern" ts then
      let ts := ts.drop 1
      if Ahead.string ts then ts.drop 1 else ts
    else ts
  Ahead.word "fn" ts

/-- Whether the parameter ahead is the receiver. -/
def receiverAhead (ts : List Tree) : Bool :=
  let byRef := Ahead.mark "&" ts
  let ts := if byRef then
      let ts := ts.drop 1
      if Ahead.lifetime ts then ts.drop 2 else ts
    else ts
  let ts := skipWord "mut" ts
  Ahead.word "self" ts &&
  (let ts := ts.drop 1
   byRef || !Ahead.mark ":" ts || Ahead.mark ":::" ts ||
    !(Ahead.mark "::" ts || second (Ahead.mark "...") ts))

def receiver (g : Grammar) : Parser Unit := do
  let byRef ← tryMark "&"
  if byRef then
    let _ ← tryLifetime
  let _ ← tryWord "mut"
  word "self"
  if !byRef then
    if ← tryMark ":" then
      let _ ← g.type true

/-- The end of the parameters after three dots. -/
def variadicEnd : Parser Unit := do
  if ← isDone then pure () else mark ","

/-- The parameters of a function. Only the first may be a receiver. -/
def parameters (g : Grammar) : Parser Unit :=
  iterate (fun first : Bool => do
    if ← isDone then return .inr ()
    else
      outerAttributes g
      let ts ← get
      if Ahead.mark "..." ts then
        mark "..."
        variadicEnd
        return .inr ()
      else
        let mut variadic := false
        if receiverAhead ts then
          if !first then failure
          receiver g
        else if Ahead.ident ts && second (Ahead.mark "<") ts then
          let _ ← g.type true
        else
          let _ ← g.pattern
          mark ":"
          if ← tryMark "..." then
            variadicEnd
            variadic := true
          else
            let _ ← g.type true
        if variadic then return .inr ()
        else if ← isDone then return .inr ()
        else
          mark ","
          return .inl false) true

/-- The head of a function up to its body: its name. -/
def signature (g : Grammar) (safe : Bool) : Parser String := do
  let _ ← tryWord "const"
  let _ ← tryWord "async"
  if ← tryWord "unsafe" then pure ()
  else if safe then
    let _ ← tryWord "safe"
  tryAbi
  word "fn"
  let name ← ident
  generics g
  within .paren (parameters g)
  let _ ← returnType g true
  tryWhere g
  return name

/-! ### Types, constants and statics -/

/-- Where the `where` clause of a type item stands. -/
inductive WherePlace where
  | beforeValue
  | afterValue
  | anywhere
  deriving DecidableEq

def typeItem (g : Grammar) (default : Bool) (place : WherePlace) : Parser Unit := do
  if default then
    let _ ← tryWord "default"
  word "type"
  let _ ← ident
  generics g
  if ← tryMark ":" then
    let stop ts := Ahead.word "where" ts || Ahead.mark "=" ts || Ahead.mark ";" ts
    iterate (fun _ : Unit => do
      if ← ahead stop then return .inr ()
      else
        let _ ← bound g false true
        if ← ahead stop then return .inr ()
        else
          mark "+"
          return .inl ()) ()
  let early ← ahead (Ahead.word "where")
  if place != .afterValue then tryWhere g
  if ← tryMark "=" then
    let _ ← g.type true
  if place == .afterValue || (place == .anywhere && !early) then tryWhere g
  mark ";"

def constItem (g : Grammar) : Parser Unit := do
  word "const"
  let ts ← get
  if Ahead.ident ts || Ahead.underscore ts then dropTrees 1 else failure
  generics g
  mark ":"
  let _ ← g.type true
  if ← tryMark "=" then
    let _ ← g.expression true
  tryWhere g
  mark ";"

def staticItem (g : Grammar) : Parser Unit := do
  word "static"
  let _ ← tryWord "mut"
  let _ ← ident
  if ← tryMark "=" then
    let _ ← g.expression true
  else
    mark ":"
    let _ ← g.type true
    if ← tryMark "=" then
      let _ ← g.expression true
  mark ";"

/-! ### Imports -/

def useTree (g : Grammar) (root : Bool) : Parser Unit := do
  let ts ← get
  if Ahead.ident ts || Ahead.word "self" ts || Ahead.word "super" ts || Ahead.word "crate" ts ||
      Ahead.word "try" ts then
    dropTrees 1
    if ← tryMark "::" then g.useTree false
    else if ← tryWord "as" then
      let ts ← get
      if Ahead.ident ts || Ahead.underscore ts then dropTrees 1 else failure
  else if Ahead.mark "*" ts then mark "*"
  else
    let _ ← within .brace <| commaToEnd do
      let rooted ← if root then tryMark "::" else pure false
      g.useTree (root && !rooted)

def useItem (g : Grammar) : Parser Unit := do
  word "use"
  let rooted ← tryMark "::"
  useTree g !rooted
  mark ";"

def externCrate : Parser Unit := do
  word "extern"
  word "crate"
  if ← tryWord "self" then pure () else let _ ← ident
  if ← tryWord "as" then
    let ts ← get
    if Ahead.ident ts || Ahead.underscore ts then dropTrees 1 else failure
  mark ";"

/-! ### Macros -/

/-- A macro as an item; one that does not end with a brace needs a semicolon. -/
def macroItem (named : Bool) : Parser Unit := do
  plainPath
  mark "!"
  if named then
    let ts ← get
    if Ahead.ident ts || Ahead.word "try" ts then dropTrees 1
  if (← anyGroup) != .brace then mark ";"

def macroDefinition : Parser Unit := do
  word "macro"
  let _ ← ident
  if ← ahead Ahead.paren then dropTrees 1
  require Ahead.brace
  dropTrees 1

def startsMacro (ts : List Tree) : Bool :=
  Ahead.ident ts || Ahead.word "self" ts || Ahead.word "super" ts || Ahead.word "crate" ts ||
  Ahead.mark "::" ts

/-! ### Structures, enumerations and unions -/

def namedField (g : Grammar) : Parser Unit := do
  outerAttributes g
  let _ ← visibility
  let wild ← tryWord "_"
  if !wild then
    let _ ← ident
  mark ":"
  let ts ← get
  if wild && (Ahead.word "struct" ts || (Ahead.word "union" ts && second Ahead.brace ts)) then
    dropTrees 1
    g.namedFields
  else
    let _ ← g.type true

def namedFields (g : Grammar) : Parser Unit := do
  let _ ← within .brace (commaToEnd (namedField g))

def tupleFields (g : Grammar) : Parser Unit := do
  let _ ← within .paren <| commaToEnd do
    outerAttributes g
    let _ ← visibility
    g.type true

def structItem (g : Grammar) : Parser Unit := do
  word "struct"
  let _ ← ident
  generics g
  let ts ← get
  if Ahead.paren ts then
    tupleFields g
    tryWhere g
    mark ";"
  else
    tryWhere g
    if ← ahead Ahead.brace then namedFields g else mark ";"

def variant (g : Grammar) : Parser Unit := do
  outerAttributes g
  let _ ← visibility
  let _ ← ident
  let ts ← get
  if Ahead.brace ts then namedFields g
  else if Ahead.paren ts then tupleFields g
  if ← tryMark "=" then
    let _ ← g.expression true

def enumItem (g : Grammar) : Parser Unit := do
  word "enum"
  let _ ← ident
  generics g
  tryWhere g
  let _ ← within .brace (commaToEnd (variant g))

def unionItem (g : Grammar) : Parser Unit := do
  word "union"
  let _ ← ident
  generics g
  tryWhere g
  namedFields g

/-! ### Foreign items, traits and implementations -/

def foreignItem (g : Grammar) : Parser Unit := do
  outerAttributes g
  let isPublic ← visibility
  let ts ← get
  if signatureAhead true ts then
    let _ ← signature g true
    if ← ahead Ahead.brace then
      let _ ← attributedBlock g
    else mark ";"
  else if Ahead.word "static" ts ||
      ((Ahead.word "unsafe" ts || Ahead.word "safe" ts) && second (Ahead.word "static") ts) then
    if !Ahead.word "static" ts then dropTrees 1
    word "static"
    let _ ← tryWord "mut"
    let _ ← ident
    mark ":"
    let _ ← g.type true
    if ← tryMark "=" then
      let _ ← g.expression true
    mark ";"
  else if Ahead.word "type" ts then typeItem g false .anywhere
  else if !isPublic && startsMacro ts then macroItem false
  else failure

def foreignMod (g : Grammar) : Parser Unit := do
  let _ ← tryWord "unsafe"
  abi
  within .brace do
    innerAttributes g
    let _ ← manyToEnd (foreignItem g)

def traitMember (g : Grammar) : Parser Unit := do
  outerAttributes g
  let isPublic ← visibility
  let isDefault ← tryWord "default"
  let ts ← get
  if signatureAhead false ts then
    let _ ← signature g false
    if ← tryMark ";" then pure ()
    else
      let _ ← attributedBlock g
  else if Ahead.word "const" ts then constItem g
  else if Ahead.word "type" ts then typeItem g false .afterValue
  else if !isPublic && !isDefault && startsMacro ts then macroItem false
  else failure

/-- Bounds that `+` separates, up to `stop`, which has to follow. -/
def strictBounds (g : Grammar) (stop : List Tree → Bool) (const : Bool) : Parser Unit :=
  iterate (fun _ : Unit => do
    if ← ahead stop then return .inr ()
    else
      let _ ← bound g false const
      if ← ahead stop then return .inr ()
      else
        mark "+"
        return .inl ()) ()

def traitBody (g : Grammar) : Parser Unit := do
  if ← tryMark ":" then
    strictBounds g (fun ts => Ahead.word "where" ts || Ahead.brace ts) true
  tryWhere g
  within .brace do
    innerAttributes g
    let _ ← manyToEnd (traitMember g)

/-- A trait, or an alias of bounds unless words stand before `trait`. -/
def traitItem (g : Grammar) : Parser Unit := do
  let isUnsafe ← tryWord "unsafe"
  let isAuto ← tryWord "auto"
  word "trait"
  let _ ← ident
  generics g
  if !isUnsafe && !isAuto && (← ahead (Ahead.mark "=")) then
    mark "="
    strictBounds g (fun ts => Ahead.word "where" ts || Ahead.mark ";" ts) false
    tryWhere g
    mark ";"
  else traitBody g

def implMember (g : Grammar) : Parser Unit := do
  outerAttributes g
  let isPublic ← visibility
  let ts ← get
  let isDefault := Ahead.word "default" ts && !second (Ahead.mark "!") ts
  if isDefault then dropTrees 1
  let ts ← get
  if signatureAhead false ts then
    let _ ← signature g false
    if ← tryMark ";" then pure ()
    else
      let _ ← attributedBlock g
  else if Ahead.word "const" ts then constItem g
  else if Ahead.word "type" ts then typeItem g false .afterValue
  else if !isPublic && !isDefault && startsMacro ts then macroItem false
  else failure

def implItem (g : Grammar) : Parser Unit := do
  let _ ← tryWord "default"
  let _ ← tryWord "unsafe"
  word "impl"
  if ← ahead genericsAhead then generics g
  let ts ← get
  if Ahead.word "const" ts || (Ahead.mark "?" ts && second (Ahead.word "const") ts) then
    let _ ← tryMark "?"
    word "const"
  let ts ← get
  let negative := Ahead.mark "!" ts && !second Ahead.brace ts
  if negative then mark "!"
  let _ ← g.type true
  if ← tryWord "for" then
    let _ ← g.type true
  else if negative then failure
  tryWhere g
  within .brace do
    innerAttributes g
    let _ ← manyToEnd (implMember g)

def modItem (g : Grammar) : Parser Unit := do
  let _ ← tryWord "unsafe"
  word "mod"
  if ← tryWord "try" then pure () else let _ ← ident
  if ← tryMark ";" then pure ()
  else within .brace do
    innerAttributes g
    let _ ← manyToEnd g.item

/-! ### Items -/

def functionItem (g : Grammar) : Parser Item := do
  let name ← signature g false
  if ← tryMark ";" then return .other else return .function name (← attributedBlock g)

/-- An item after its attributes. -/
def plainItem (g : Grammar) : Parser Item := do
  let isPublic ← visibility
  let ts ← get
  let other (p : Parser Unit) : Parser Item := do p; return .other
  if signatureAhead false ts then functionItem g
  else if Ahead.word "extern" ts then
    if second (Ahead.word "crate") ts then other externCrate
    else if !isPublic &&
        (second Ahead.brace ts || (second Ahead.string ts && third Ahead.brace ts)) then
      other (foreignMod g)
    else failure
  else if Ahead.word "use" ts then other (useItem g)
  else if Ahead.word "static" ts then other (staticItem g)
  else if Ahead.word "const" ts then other (constItem g)
  else if Ahead.word "unsafe" ts then
    if second (Ahead.word "trait") ts ||
        (second (Ahead.word "auto") ts && third (Ahead.word "trait") ts) then
      other (traitItem g)
    else if second (Ahead.word "impl") ts then other (implItem g)
    else if second (Ahead.word "extern") ts && !isPublic then other (foreignMod g)
    else if second (Ahead.word "mod") ts then other (modItem g)
    else failure
  else if Ahead.word "mod" ts then other (modItem g)
  else if Ahead.word "type" ts then other (typeItem g false .beforeValue)
  else if Ahead.word "struct" ts then other (structItem g)
  else if Ahead.word "enum" ts then other (enumItem g)
  else if Ahead.word "union" ts && second Ahead.ident ts then other (unionItem g)
  else if Ahead.word "trait" ts || (Ahead.word "auto" ts && second (Ahead.word "trait") ts) then
    other (traitItem g)
  else if Ahead.word "impl" ts || (Ahead.word "default" ts && !second (Ahead.mark "!") ts) then
    other (implItem g)
  else if Ahead.word "macro" ts then other macroDefinition
  else if !isPublic && startsMacro ts then other (macroItem true)
  else failure

def item (g : Grammar) : Parser Item := do
  outerAttributes g
  plainItem g

end Notebook.Syntax.Parser
