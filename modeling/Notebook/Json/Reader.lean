import Notebook.Json.Number
import Notebook.Json.Problem
import Notebook.Text.Quoted
import Notebook.Text.Utf8

/-!
Reading a text from its front. A reader stops at the first thing that is wrong; what it has not
looked at by then does not matter.
-/

namespace Notebook.Json

structure Cursor where
  rest : List Char
  mark : Mark

abbrev Reader := StateT Cursor (Except Problem)

namespace Cursor

def ofText (s : List Char) : Cursor := ⟨s, .start⟩

def isBlank (c : Char) : Bool := c = ' ' || c = '\n' || c = '\t' || c = '\r'

/-- Goes past the characters in front for which `p` holds. -/
def skipWhile (p : Char → Bool) (c : Cursor) : Cursor :=
  ⟨c.rest.dropWhile p, c.mark.afterAll (c.rest.takeWhile p)⟩

def skip (n : Nat) (c : Cursor) : Cursor := ⟨c.rest.drop n, c.mark.afterAll (c.rest.take n)⟩

end Cursor

namespace Reader

/-- Stops here. -/
def fail {α : Type} (i : Issue) : Reader α := do throw ⟨i, (← get).mark⟩

/-- Stops one byte on, if there is one. -/
def failAhead {α : Type} (i : Issue) : Reader α := do
  match ← get with
  | ⟨[], m⟩ => throw ⟨i, m⟩
  | ⟨c :: _, m⟩ => throw ⟨i, m.bump c⟩

/-- The next character, if the text goes on. -/
def peek : Reader (Option Char) := do return (← get).rest.head?

def advance (n : Nat) : Reader Unit := modify (·.skip n)

/-- The next character that is not blank. -/
def peekToken : Reader (Option Char) := do
  modify (·.skipWhile Cursor.isBlank)
  peek

/-- Goes on as long as a step gives a new state. -/
def iterateFrom {α β : Type} (step : α → Reader (α ⊕ β)) : Nat → α → Reader β
  | 0, _ => fail .valueEnds
  | n + 1, a => do
    match ← step a with
    | .inl a => iterateFrom step n a
    | .inr b => return b

/-- Goes on as long as a step gives a new state; every step has to read a character. -/
def iterate {α β : Type} (step : α → Reader (α ⊕ β)) (a : α) : Reader β := do
  iterateFrom step ((← get).rest.length + 1) a

/-! ### Names and numbers -/

/-- Reads the rest of a name of which the first character was read. -/
def ident : List Char → Reader Unit
  | [] => return ()
  | c :: cs => do
    match ← peek with
    | none => fail .valueEnds
    | some d =>
      if c = d then advance 1; ident cs
      else failAhead .expectedIdent

/-- Adds digits to a significand as long as it stays below `18_446_744_073_709_551_616`: the significand and the number
of digits added. -/
def absorb (significand : Nat) : List Char → Nat × Nat
  | [] => (significand, 0)
  | d :: ds =>
    let next := significand * 10 + (d.toNat - '0'.toNat)
    if next < 18_446_744_073_709_551_616 then
      let (s, n) := absorb next ds
      (s, n + 1)
    else (significand, 0)

/-- The digits ahead, which are read. -/
def digits : Reader (List Char) := do
  let c ← get
  set (c.skipWhile Char.isDigit)
  return c.rest.takeWhile Char.isDigit

def fraction (positive : Bool) (significand : Nat) (exponent : Int) : Reader Number := do
  match Fraction.scale 8 (UInt64.ofNat significand).toFloat exponent with
  | some f => return .fraction (if positive then f else -f)
  | none => fail .numberOutOfRange

/-- The digits of an exponent up to the one that makes it too large for 32 bits: its value, or
how many digits there are up to that one. -/
def exponentValue : Nat → Nat → List Char → Nat ⊕ Nat
  | value, _, [] => .inl value
  | value, n, d :: ds =>
    let next := value * 10 + (d.toNat - '0'.toNat)
    if next < 2_147_483_648 then exponentValue next (n + 1) ds else .inr (n + 1)

def exponentPart (positive : Bool) (significand : Nat) (exponent : Int) : Reader Number := do
  advance 1
  let sign ← peek
  if sign = some '+' || sign = some '-' then advance 1
  match ← peek with
  | none => fail .valueEnds
  | some c => if !c.isDigit then failAhead .invalidNumber
  let start ← get
  match exponentValue 0 0 (← digits) with
  | .inl value =>
    fraction positive significand
      (if sign = some '-' then exponent - value else exponent + value)
  | .inr n =>
    if significand ≠ 0 && sign ≠ some '-' then
      set (start.skip n)
      fail .numberOutOfRange
    else return .fraction (if positive then 0.0 else -0.0)

def isExponentMark (c : Option Char) : Bool := c = some 'e' || c = some 'E'

def decimalPart (positive : Bool) (significand : Nat) (exponent : Int) : Reader Number := do
  advance 1
  let ds ← digits
  if ds.isEmpty then
    match ← peek with
    | some _ => failAhead .invalidNumber
    | none => failAhead .valueEnds
  let (significand, n) := absorb significand ds
  if isExponentMark (← peek) then exponentPart positive significand (exponent - n)
  else fraction positive significand (exponent - n)

/-- A number without its sign. -/
def number (positive : Bool) : Reader Number := do
  match ← peek with
  | none => fail .valueEnds
  | some c =>
    if !c.isDigit then failAhead .invalidNumber
    if c = '0' then
      advance 1
      if (← peek).any Char.isDigit then failAhead .invalidNumber
  let ds ← if (← peek).any Char.isDigit then digits else pure []
  let (significand, n) := absorb 0 ds
  let exponent := ds.length - n
  let next ← peek
  if next = some '.' then decimalPart positive significand exponent
  else if isExponentMark next then exponentPart positive significand exponent
  else if exponent ≠ 0 then fraction positive significand exponent
  else if positive then return .integer significand
  else if 0 < significand && significand ≤ 9_223_372_036_854_775_808 then return .integer (-significand)
  else return .fraction (-(UInt64.ofNat significand).toFloat)

/-! ### Strings -/

def hexValue? (c : Char) : Option Nat :=
  if c.isDigit then some (c.toNat - '0'.toNat)
  else if 'a' ≤ c && c ≤ 'f' then some (c.toNat - 'a'.toNat + 10)
  else if 'A' ≤ c && c ≤ 'F' then some (c.toNat - 'A'.toNat + 10)
  else none

def hexNumber? (s : List Char) : Option Nat :=
  s.foldl (fun n c => n.bind fun n => (hexValue? c).map (16 * n + ·)) (some 0)

/-- Four digits, after which the place is four bytes on whatever they are. -/
def fourHex : Reader Nat := do
  let c ← get
  if Text.Utf8.size c.rest < 4 then
    throw ⟨.stringEnds, c.mark.afterAll c.rest⟩
  match hexNumber? (c.rest.take 4) with
  | some n => advance 4; return n
  | none => throw ⟨.invalidEscape, c.mark.afterBytes 4 c.rest⟩

def isHighSurrogate (n : Nat) : Bool := 0xD800 ≤ n && n ≤ 0xDBFF

def isLowSurrogate (n : Nat) : Bool := 0xDC00 ≤ n && n ≤ 0xDFFF

def inString (c : Char) : Reader Unit := do
  match ← peek with
  | none => fail .stringEnds
  | some d => if c = d then advance 1 else failAhead .unpairedSurrogate

/-- A character by its number, or the two halves of one. -/
def codePoint : Reader Char := do
  let n ← fourHex
  if isLowSurrogate n then fail .loneSurrogate
  else if isHighSurrogate n then
    inString '\\'
    inString 'u'
    let m ← fourHex
    if isLowSurrogate m then
      return Char.ofNat ((n - 0xD800) * 0x400 + (m - 0xDC00) + 0x10000)
    else fail .loneSurrogate
  else return Char.ofNat n

/-- The characters with an escape of their own. -/
def shortEscapes : List (Char × Char) :=
  [('"', '"'), ('\\', '\\'), ('/', '/'), ('b', '\x08'), ('f', '\x0C'), ('n', '\n'), ('r', '\r'),
   ('t', '\t')]

def escape : Reader Char := do
  match ← peek with
  | none => fail .stringEnds
  | some 'u' => advance 1; codePoint
  | some c =>
    match shortEscapes.lookup c with
    | some d => advance 1; return d
    | none => failAhead .invalidEscape

/-- A string after its opening quote. -/
def stringTail : Reader (List Char) :=
  iterate (fun read => do
    match ← peek with
    | none => fail .stringEnds
    | some '"' => advance 1; return .inr read.reverse
    | some '\\' => advance 1; return .inl ((← escape) :: read)
    | some c =>
      if c.toNat < 32 then failAhead .controlCharacter
      advance 1
      return .inl (c :: read)) []

/-! ### Separators -/

/-- Whether a list goes on with an element, which is ahead then. -/
def listGoesOn (first : Bool) : Reader Bool := do
  match ← peekToken with
  | none => failAhead .listEnds
  | some ']' => return false
  | some c =>
    if first then return true
    else if c = ',' then
      advance 1
      match ← peekToken with
      | none => failAhead .valueEnds
      | some ']' => failAhead .trailingComma
      | some _ => return true
    else failAhead .expectedListComma

/-- Whether an object goes on with a field, whose name is ahead then. -/
def objectGoesOn (first : Bool) : Reader Bool := do
  match ← peekToken with
  | none => failAhead .objectEnds
  | some '}' => return false
  | some c =>
    if first then
      if c = '"' then return true else failAhead .keyNotString
    else if c = ',' then
      advance 1
      match ← peekToken with
      | none => failAhead .valueEnds
      | some '"' => return true
      | some '}' => failAhead .trailingComma
      | some _ => failAhead .keyNotString
    else failAhead .expectedObjectComma

def listEnd : Reader Unit := do
  match ← peekToken with
  | none => failAhead .listEnds
  | some ']' => advance 1
  | some ',' =>
    advance 1
    if (← peekToken) = some ']' then failAhead .trailingComma else failAhead .trailingCharacters
  | some _ => failAhead .trailingCharacters

def objectEnd : Reader Unit := do
  match ← peekToken with
  | none => failAhead .objectEnds
  | some '}' => advance 1
  | some ',' => failAhead .trailingComma
  | some _ => failAhead .trailingCharacters

def colon : Reader Unit := do
  match ← peekToken with
  | none => failAhead .objectEnds
  | some ':' => advance 1
  | some _ => failAhead .expectedColon

/-- Stops inside a list with an issue of its meaning, which is placed after the end of the list if
that is ahead. -/
def failInList {α : Type} (i : Issue) : Reader α := do
  if (← peekToken) = some ']' then advance 1
  fail i

/-- Stops inside an object with an issue of its meaning, which is placed after the end of the
object if that is ahead. -/
def failInObject {α : Type} (i : Issue) : Reader α := do
  if (← peekToken) = some '}' then advance 1
  fail i

/-- The elements of a list after its opening bracket and up to its closing one. -/
def elements {α : Type} (element : Reader α) : Reader (List α) :=
  iterate (fun read => do
    if ← listGoesOn read.isEmpty then return .inl ((← element) :: read)
    else return .inr read.reverse) []

/-- A whole text. -/
def run {α : Type} (r : Reader α) (s : List Char) : Except Problem α := do
  let whole : Reader α := do
    let a ← r
    match ← peekToken with
    | none => return a
    | some _ => failAhead .trailingCharacters
  return (← StateT.run whole (.ofText s)).1

end Reader

end Notebook.Json
