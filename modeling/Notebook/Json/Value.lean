import Notebook.Json.Reader

/-!
Values of any form: kept to be looked at later, or only gone past.
-/

namespace Notebook.Json

inductive Value where
  | null
  | bool (b : Bool)
  | number (n : Number)
  | string (s : List Char)
  | list (vs : List Value)
  | object (fields : List (List Char × Value))

def foundBool (b : Bool) : List Char :=
  "boolean `".toList ++ (if b then "true".toList else "false".toList) ++ ['`']

def foundString (s : List Char) : List Char := "string ".toList ++ Text.quoted s

/-- A value as messages name it. -/
def Value.found : Value → List Char
  | null => "null".toList
  | bool b => foundBool b
  | number n => n.naming
  | string s => foundString s
  | list _ => "sequence".toList
  | object _ => "map".toList

namespace Reader

/-- The name of a field and the colon after it, the name being ahead. -/
def fieldName : Reader (List Char) := do
  advance 1
  let name ← stringTail
  colon
  return name

/-- Reads a value, in which lists and objects may stand inside each other less than `depth`
deep. -/
def value : (depth : Nat) → Reader Value
  | 0 => failAhead .tooDeep
  | depth + 1 => do
    match ← peekToken with
    | none => failAhead .valueEnds
    | some 'n' => advance 1; ident "ull".toList; return .null
    | some 't' => advance 1; ident "rue".toList; return .bool true
    | some 'f' => advance 1; ident "alse".toList; return .bool false
    | some '-' => advance 1; return .number (← number false)
    | some '"' => advance 1; return .string (← stringTail)
    | some '[' =>
      if depth = 0 then failAhead .tooDeep
      advance 1
      let vs ← elements (value depth)
      listEnd
      return .list vs
    | some '{' =>
      if depth = 0 then failAhead .tooDeep
      advance 1
      let fields ← iterate (fun read => do
        if ← objectGoesOn read.isEmpty then
          let name ← fieldName
          return .inl ((name, ← value depth) :: read)
        else return .inr read.reverse) []
      objectEnd
      return .object fields
    | some c => if c.isDigit then return .number (← number true) else failAhead .expectedValue

/-! ### Going past a value -/

def skipDigits : Reader Unit := modify (·.skipWhile Char.isDigit)

def skipNumber : Reader Unit := do
  match ← peek with
  | some c =>
    if !c.isDigit then failAhead .invalidNumber
    if c = '0' then
      advance 1
      if (← peek).any Char.isDigit then failAhead .invalidNumber
    else skipDigits
  | none => failAhead .invalidNumber
  if (← peek) = some '.' then
    advance 1
    if !(← peek).any Char.isDigit then failAhead .invalidNumber
    skipDigits
  if isExponentMark (← peek) then
    advance 1
    let sign ← peek
    if sign = some '+' || sign = some '-' then advance 1
    if !(← peek).any Char.isDigit then failAhead .invalidNumber
    skipDigits

def skipEscape : Reader Unit := do
  match ← peek with
  | none => fail .stringEnds
  | some 'u' => advance 1; let _ ← fourHex
  | some c => if (shortEscapes.lookup c).isSome then advance 1 else failAhead .invalidEscape

def skipString : Reader Unit :=
  iterate (fun (_ : Unit) => do
    match ← peek with
    | none => fail .stringEnds
    | some '"' => advance 1; return .inr ()
    | some '\\' => advance 1; skipEscape; return .inl ()
    | some c =>
      if c.toNat < 32 then fail .controlCharacter
      advance 1
      return .inl ()) ()

/-- Goes past the name of a field and the colon after it. -/
def skipFieldName : Reader Unit := do
  match ← peekToken with
  | none => failAhead .objectEnds
  | some '"' => advance 1
  | some _ => failAhead .keyNotString
  skipString
  colon

/-- Goes past a value in which lists and objects stand inside each other less than `depth`
deep. -/
def skipValueTo : (depth : Nat) → Reader Unit
  | 0 => failAhead .valueEnds
  | depth + 1 => do
    match ← peekToken with
    | none => failAhead .valueEnds
    | some 'n' => advance 1; ident "ull".toList
    | some 't' => advance 1; ident "rue".toList
    | some 'f' => advance 1; ident "alse".toList
    | some '-' => advance 1; skipNumber
    | some '"' => advance 1; skipString
    | some '[' =>
      advance 1
      match ← peekToken with
      | none => failAhead .listEnds
      | some ']' => advance 1
      | some _ =>
        iterate (fun (_ : Unit) => do
          skipValueTo depth
          match ← peekToken with
          | none => failAhead .listEnds
          | some ',' => advance 1; return .inl ()
          | some ']' => advance 1; return .inr ()
          | some _ => failAhead .expectedListComma) ()
    | some '{' =>
      advance 1
      match ← peekToken with
      | none => failAhead .objectEnds
      | some '}' => advance 1
      | some _ =>
        iterate (fun (_ : Unit) => do
          skipFieldName
          skipValueTo depth
          match ← peekToken with
          | none => failAhead .objectEnds
          | some ',' => advance 1; return .inl ()
          | some '}' => advance 1; return .inr ()
          | some _ => failAhead .expectedObjectComma) ()
    | some c => if c.isDigit then skipNumber else failAhead .expectedValue

/-- Goes past a value. -/
def skipValue : Reader Unit := do skipValueTo ((← get).rest.length + 1)

end Reader

end Notebook.Json
