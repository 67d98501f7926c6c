import Notebook.Text.Blank
import Notebook.Text.Identifier

/-!
Lengths of literals. Every function takes the text at which a literal may start, or the rest of
it, and gives the number of characters read so far plus those that belong to it.
-/

namespace Notebook.Syntax.Literal

open Notebook.Text

def isHex (c : Char) : Bool :=
  c.isDigit || ('a' ≤ c && c ≤ 'f') || ('A' ≤ c && c ≤ 'F')

def hexValue (c : Char) : Nat :=
  if c.isDigit then c.toNat - 48 else if 'a' ≤ c then c.toNat - 87 else c.toNat - 55

/-- The length of an identifier that is not raw. -/
def plainIdentLength? : List Char → Option Nat
  | c :: s => if isIdentStart c then some (1 + (identTail s).length) else none
  | [] => none

/-- `n` plus the length of the suffix at the front of `s`. -/
def withSuffix (n : Nat) (s : List Char) : Nat := n + (plainIdentLength? s).getD 0

/-- The kinds of quoted text differ in the escapes and characters that they take. -/
inductive Quoted where
  | text
  | bytes
  | cstring
  deriving DecidableEq

def Quoted.admits (q : Quoted) (c : Char) : Bool :=
  match q with
  | .text => true
  | .bytes => c.toNat < 128
  | .cstring => c.toNat ≠ 0

/-- The hexadecimal digits and the closing brace of `\u{…}`: the character's number and the
length read. Underscores may stand after the first digit, and there are at most six digits. -/
def unicodeDigits? (value digits n : Nat) : List Char → Option (Nat × Nat)
  | c :: s =>
    if isHex c then
      if digits = 6 then none else unicodeDigits? (value * 16 + hexValue c) (digits + 1) (n + 1) s
    else if c = '_' ∧ 0 < digits then unicodeDigits? value digits (n + 1) s
    else if c = '}' ∧ 0 < digits then
      if value.isValidChar then some (value, n + 1) else none
    else none
  | [] => none

/-- What follows the backslash of an escape that is not a line continuation. -/
def escapeLength? (q : Quoted) : List Char → Option Nat
  | 'x' :: a :: b :: _ =>
    match q with
    | .text => if '0' ≤ a ∧ a ≤ '7' ∧ isHex b then some 3 else none
    | .bytes => if isHex a ∧ isHex b then some 3 else none
    | .cstring => if isHex a ∧ isHex b ∧ ¬(a = '0' ∧ b = '0') then some 3 else none
  | 'u' :: '{' :: s =>
    match q with
    | .bytes => none
    | .text => (unicodeDigits? 0 0 2 s).map (·.2)
    | .cstring => (unicodeDigits? 0 0 2 s).bind fun (v, n) => if v = 0 then none else some n
  | '0' :: _ => if q = .cstring then none else some 1
  | c :: _ => if c = 'n' ∨ c = 'r' ∨ c = 't' ∨ c = '\\' ∨ c = '\'' ∨ c = '"' then some 1 else none
  | [] => none

/-- The blanks that a backslash at the end of a line swallows, after the line's own end `last`.
A carriage return has to be followed by a line feed, and something has to follow the blanks. -/
def continuationLength? (last : Char) (n : Nat) : List Char → Option Nat
  | [] => none
  | c :: s =>
    if last = '\r' then
      if c = '\n' then continuationLength? '\n' (n + 1) s else none
    else if c = ' ' ∨ c = '\t' ∨ c = '\n' ∨ c = '\r' then continuationLength? c (n + 1) s
    else some n

/-- The rest of a quoted text after its opening quote, up to and with its suffix. -/
def quotedLength? (q : Quoted) : Nat → Nat → List Char → Option Nat
  | 0, _, _ => none
  | _ + 1, _, [] => none
  | fuel + 1, n, c :: s =>
    if c = '"' then some (withSuffix (n + 1) s)
    else if c = '\r' then
      match s with
      | '\n' :: s => quotedLength? q fuel (n + 2) s
      | _ => none
    else if c = '\\' then
      match s with
      | '\n' :: s =>
        (continuationLength? '\n' 0 s).bind fun k => quotedLength? q fuel (n + 2 + k) (s.drop k)
      | '\r' :: s =>
        (continuationLength? '\r' 0 s).bind fun k => quotedLength? q fuel (n + 2 + k) (s.drop k)
      | s => (escapeLength? q s).bind fun k => quotedLength? q fuel (n + 1 + k) (s.drop k)
    else if q.admits c then quotedLength? q fuel (n + 1) s
    else none

/-- The rest of a raw text whose closing quote is followed by `hashes` number signs. -/
def rawLength? (q : Quoted) (hashes : Nat) : Nat → List Char → Option Nat
  | _, [] => none
  | n, '"' :: s =>
    if hasPrefix (List.replicate hashes '#') s then
      some (withSuffix (n + 1 + hashes) (s.drop hashes))
    else rawLength? q hashes (n + 1) s
  | n, '\r' :: '\n' :: s => rawLength? q hashes (n + 2) s
  | _, '\r' :: _ => none
  | n, c :: s => if q.admits c then rawLength? q hashes (n + 1) s else none

/-- A raw text after the letters in front of it, of which there were `n`. -/
def rawTextLength? (q : Quoted) (n : Nat) (s : List Char) : Option Nat :=
  let hashes := (s.takeWhile (· = '#')).length
  match s.drop hashes with
  | '"' :: t => if hashes ≤ 255 then rawLength? q hashes (n + hashes + 1) t else none
  | _ => none

/-- A quoted or raw text. -/
def textLength? (s : List Char) : Option Nat :=
  match s with
  | '"' :: t => quotedLength? .text (s.length + 1) 1 t
  | 'r' :: t => rawTextLength? .text 1 t
  | 'b' :: '"' :: t => quotedLength? .bytes (s.length + 1) 2 t
  | 'b' :: 'r' :: t => rawTextLength? .bytes 2 t
  | 'c' :: '"' :: t => quotedLength? .cstring (s.length + 1) 2 t
  | 'c' :: 'r' :: t => rawTextLength? .cstring 2 t
  | _ => none

/-- One character between single quotes, after the opening one. -/
def charLength? (q : Quoted) (n : Nat) (s : List Char) : Option Nat :=
  let close (n : Nat) : List Char → Option Nat
    | '\'' :: s => some (withSuffix (n + 1) s)
    | _ => none
  match s with
  | '\\' :: s => (escapeLength? q s).bind fun k => close (n + 1 + k) (s.drop k)
  | c :: s => if q.admits c then close (n + 1) s else none
  | [] => none

def characterLength? : List Char → Option Nat
  | 'b' :: '\'' :: s => charLength? .bytes 2 s
  | '\'' :: s => charLength? .text 1 s
  | _ => none

/-- The length of the mantissa of a float after its first digit, and whether it has a point and
an exponent mark. None if the point is followed by another one or by an identifier. -/
def mantissa? (n : Nat) (point : Bool) : List Char → Option (Nat × Bool × Bool)
  | '.' :: s =>
    if point then some (n, true, false)
    else match s with
      | [] => some (n + 1, true, false)
      | c :: _ => if c = '.' || isIdentStart c then none else mantissa? (n + 1) true s
  | c :: s =>
    if c.isDigit || c == '_' then mantissa? (n + 1) point s
    else if c = 'e' ∨ c = 'E' then some (n + 1, point, true)
    else some (n, point, false)
  | [] => some (n, point, false)

/-- The digits of an exponent: the length read, whether a second sign stops the number, and
whether there is a digit. -/
def exponent (n : Nat) (sign digit : Bool) : List Char → Nat × Bool × Bool
  | c :: s =>
    if c = '+' ∨ c = '-' then
      if digit then (n, false, digit)
      else if sign then (n, true, digit)
      else exponent (n + 1) true digit s
    else if c.isDigit then exponent (n + 1) sign true s
    else if c = '_' then exponent (n + 1) sign digit s
    else (n, false, digit)
  | [] => (n, false, digit)

def floatDigits? : List Char → Option Nat
  | c :: s =>
    if c.isDigit then
      (mantissa? 1 false s).bind fun (n, point, mark) =>
        if mark then
          let (m, stopped, digit) := exponent n false false ((c :: s).drop n)
          if stopped || !digit then if point then some (n - 1) else none else some m
        else if point then some n
        else none
    else none
  | [] => none

/-- The digits of a whole number with their base. A digit that is too large for the base ends
the number if it is a letter and spoils it if it is not. -/
def baseDigits? (base : Nat) (n : Nat) (digit : Bool) : List Char → Option Nat
  | c :: s =>
    if c.isDigit then
      if base ≤ hexValue c then none else baseDigits? base (n + 1) true s
    else if isHex c && hexValue c < base then baseDigits? base (n + 1) true s
    else if c = '_' then
      if !digit && base == 10 then none else baseDigits? base (n + 1) digit s
    else if digit then some n else none
  | [] => if digit then some n else none

def intDigits? : List Char → Option Nat
  | '0' :: 'x' :: s => baseDigits? 16 2 false s
  | '0' :: 'o' :: s => baseDigits? 8 2 false s
  | '0' :: 'b' :: s => baseDigits? 2 2 false s
  | s => baseDigits? 10 0 false s

/-- A number with its suffix, if no identifier goes on after it. -/
def endNumber? (s : List Char) (n : Nat) : Option Nat :=
  let m := withSuffix n (s.drop n)
  match s.drop m with
  | c :: _ => if isIdentContinue c then none else some m
  | [] => some m

def numberLength? (s : List Char) : Option Nat :=
  ((floatDigits? s).bind (endNumber? s)).or ((intDigits? s).bind (endNumber? s))

/-- The length of the literal at the front of `s`. -/
def length? (s : List Char) : Option Nat :=
  (textLength? s).or ((characterLength? s).or (numberLength? s))

/-- What a literal stands for in the grammar. -/
inductive Kind where
  | string
  | integer (value : Nat) (suffix : List Char)
  | float
  | other
  deriving DecidableEq

/-- Whether an exponent and a suffix follow the mark `e` of a decimal number, so that it is no
whole number. `none` leaves the number whole with all of the rest as its suffix. -/
def exponentSpoils (digit : Bool) : List Char → Bool
  | [] => digit
  | c :: s =>
    if c = '_' then exponentSpoils digit s
    else if c = '-' ∨ c = '+' then true
    else if c.isDigit then exponentSpoils true s
    else digit && isIdentStart c && s.all isIdentContinue

/-- The value and the suffix of a whole number. -/
def integerParts? (base value : Nat) (digit : Bool) : List Char → Option (Nat × List Char)
  | c :: s =>
    if c.isDigit then
      if base ≤ hexValue c then none else integerParts? base (value * base + hexValue c) true s
    else if 10 < base && isHex c then
      integerParts? base (value * base + hexValue c) true s
    else if c = '_' then integerParts? base value digit s
    else if c = '.' ∧ base = 10 then none
    else if (c = 'e' ∨ c = 'E') ∧ base = 10 then
      if exponentSpoils false s || !digit then none else some (value, c :: s)
    else if digit && isIdentStart c && s.all isIdentContinue then some (value, c :: s)
    else none
  | [] => if digit then some (value, []) else none

def integer? : List Char → Option (Nat × List Char)
  | '0' :: 'x' :: s => integerParts? 16 0 false s
  | '0' :: 'o' :: s => integerParts? 8 0 false s
  | '0' :: 'b' :: s => integerParts? 2 0 false s
  | c :: s => if c.isDigit then integerParts? 10 0 false (c :: s) else none
  | [] => none

/-- Whether what follows the mark `e` of a float is an exponent. -/
def opensExponent (s : List Char) : Bool :=
  match s.dropWhile (· = '_') with
  | c :: _ => c.isDigit || c == '-' || c == '+'
  | [] => false

/-- Whether a literal that starts with a digit and is no whole number is a float. -/
def isFloat : List Char → Bool → Bool → Bool → Bool → Bool
  | [], _, mark, _, digit => !mark || digit
  | c :: s, point, mark, sign, digit =>
    if c = '_' then isFloat s point mark sign digit
    else if c.isDigit then isFloat s point mark sign (digit || mark)
    else if c = '.' then if mark || point then false else isFloat s true mark sign digit
    else if (c = 'e' ∨ c = 'E') ∧ opensExponent s ∧ !(mark && digit) then
      if mark then false else isFloat s point true sign digit
    else if c = '-' ∨ c = '+' then
      if sign || digit || !mark then false else isFloat s point mark true digit
    else (!mark || digit) && isIdentStart c && s.all isIdentContinue

def kind (s : List Char) : Kind :=
  match s with
  | '"' :: _ | 'r' :: _ => .string
  | c :: _ =>
    if c.isDigit then
      match integer? s with
      | some (v, suffix) => .integer v suffix
      | none => if isFloat s false false false false then .float else .other
    else .other
  | [] => .other

end Notebook.Syntax.Literal
