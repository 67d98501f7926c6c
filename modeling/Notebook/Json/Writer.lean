import Notebook.Digest.Sha256
import Notebook.Json.Value

/-!
Writing values, on one line or with a line for each element.
-/

namespace Notebook.Json

def escapedChar (c : Char) : List Char :=
  match c with
  | '"' => ['\\', '"']
  | '\\' => ['\\', '\\']
  | '\x08' => ['\\', 'b']
  | '\x0C' => ['\\', 'f']
  | '\n' => ['\\', 'n']
  | '\r' => ['\\', 'r']
  | '\t' => ['\\', 't']
  | c =>
    if c.toNat < 32 then
      ['\\', 'u', '0', '0', Digest.hexDigit (c.toNat / 16), Digest.hexDigit (c.toNat % 16)]
    else [c]

def stringText (s : List Char) : List Char := '"' :: s.flatMap escapedChar ++ ['"']

def Number.text : Number → List Char
  | .integer n => integerText n
  | .fraction f => Fraction.text f

def lineStart (depth : Nat) : List Char := '\n' :: List.replicate (2 * depth) ' '

namespace Value

/-- A value on one line. -/
def compact : Value → List Char
  | null => "null".toList
  | bool b => if b then "true".toList else "false".toList
  | number n => n.text
  | string s => stringText s
  | list vs => '[' :: List.intercalate [','] (compactAll vs) ++ [']']
  | object fs => '{' :: List.intercalate [','] (compactFields fs) ++ ['}']
where
  compactAll : List Value → List (List Char)
    | [] => []
    | v :: vs => v.compact :: compactAll vs
  compactFields : List (List Char × Value) → List (List Char)
    | [] => []
    | (k, v) :: fs => (stringText k ++ ':' :: v.compact) :: compactFields fs

/-- A value with each element on a line of its own, two blanks further in for each level. -/
def pretty (depth : Nat) : Value → List Char
  | null => "null".toList
  | bool b => if b then "true".toList else "false".toList
  | number n => n.text
  | string s => stringText s
  | list [] => ['[', ']']
  | list (v :: vs) =>
    '[' :: lineStart (depth + 1) ++
      List.intercalate (',' :: lineStart (depth + 1)) (prettyAll (depth + 1) (v :: vs)) ++
      lineStart depth ++ [']']
  | object [] => ['{', '}']
  | object (f :: fs) =>
    '{' :: lineStart (depth + 1) ++
      List.intercalate (',' :: lineStart (depth + 1)) (prettyFields (depth + 1) (f :: fs)) ++
      lineStart depth ++ ['}']
where
  prettyAll (depth : Nat) : List Value → List (List Char)
    | [] => []
    | v :: vs => v.pretty depth :: prettyAll depth vs
  prettyFields (depth : Nat) : List (List Char × Value) → List (List Char)
    | [] => []
    | (k, v) :: fs => (stringText k ++ ':' :: ' ' :: v.pretty depth) :: prettyFields depth fs

end Value

end Notebook.Json
