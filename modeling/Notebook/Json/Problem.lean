/-!
What a reader finds wrong with a text, and where.
-/

namespace Notebook.Json

/-- A place in a text. Lines count from one; a column is the number of bytes before the place in
its line. -/
structure Mark where
  line : Nat
  column : Nat
  deriving DecidableEq, Repr

namespace Mark

def start : Mark := ⟨1, 0⟩

def after (m : Mark) (c : Char) : Mark :=
  if c = '\n' then ⟨m.line + 1, 0⟩ else ⟨m.line, m.column + c.utf8Size⟩

/-- The place one byte on, which may lie inside of a character. -/
def bump (m : Mark) (c : Char) : Mark :=
  if c = '\n' then ⟨m.line + 1, 0⟩ else ⟨m.line, m.column + 1⟩

def afterAll (m : Mark) (s : List Char) : Mark := s.foldl after m

@[simp] theorem afterAll_nil (m : Mark) : m.afterAll [] = m := rfl

@[simp] theorem afterAll_cons (m : Mark) (c : Char) (s : List Char) :
    m.afterAll (c :: s) = (m.after c).afterAll s := rfl

@[simp] theorem afterAll_append (m : Mark) (s t : List Char) :
    m.afterAll (s ++ t) = (m.afterAll s).afterAll t := by
  simp [afterAll, List.foldl_append]

/-- The place `n` bytes on, or the end of the text. -/
def afterBytes (m : Mark) : Nat → List Char → Mark
  | 0, _ => m
  | _, [] => m
  | n + 1, c :: s =>
    if c.utf8Size ≤ n + 1 then (m.after c).afterBytes (n + 1 - c.utf8Size) s
    else ⟨m.line, m.column + n + 1⟩
termination_by _ s => s.length

end Mark

inductive Issue where
  | valueEnds
  | listEnds
  | objectEnds
  | stringEnds
  | expectedColon
  | expectedListComma
  | expectedObjectComma
  | expectedIdent
  | expectedValue
  | invalidEscape
  | invalidNumber
  | numberOutOfRange
  | loneSurrogate
  | unpairedSurrogate
  | controlCharacter
  | keyNotString
  | trailingComma
  | trailingCharacters
  | tooDeep
  | invalidType (found : List Char) (expected : String)
  | invalidValue (found : List Char) (expected : String)
  | invalidLength (length : Nat) (expected : String)
  | unknownVariant (name : List Char) (variants : List String)
  | missingField (name : String)
  | duplicateField (name : String)
  | refused (reason : String)
  deriving DecidableEq, Repr

def quotedNames (names : List String) : String :=
  ", ".intercalate (names.map fun n => "`" ++ n ++ "`")

namespace Issue

def text : Issue → List Char
  | valueEnds => "EOF while parsing a value".toList
  | listEnds => "EOF while parsing a list".toList
  | objectEnds => "EOF while parsing an object".toList
  | stringEnds => "EOF while parsing a string".toList
  | expectedColon => "expected `:`".toList
  | expectedListComma => "expected `,` or `]`".toList
  | expectedObjectComma => "expected `,` or `\x7d`".toList
  | expectedIdent => "expected ident".toList
  | expectedValue => "expected value".toList
  | invalidEscape => "invalid escape".toList
  | invalidNumber => "invalid number".toList
  | numberOutOfRange => "number out of range".toList
  | loneSurrogate => "lone leading surrogate in hex escape".toList
  | unpairedSurrogate => "unexpected end of hex escape".toList
  | controlCharacter => "control character (\\u0000-\\u001F) found while parsing a string".toList
  | keyNotString => "key must be a string".toList
  | trailingComma => "trailing comma".toList
  | trailingCharacters => "trailing characters".toList
  | tooDeep => "recursion limit exceeded".toList
  | invalidType found expected =>
    "invalid type: ".toList ++ found ++ ", expected ".toList ++ expected.toList
  | invalidValue found expected =>
    "invalid value: ".toList ++ found ++ ", expected ".toList ++ expected.toList
  | invalidLength n expected => s!"invalid length {n}, expected {expected}".toList
  | unknownVariant name variants =>
    "unknown variant `".toList ++ name ++ "`, expected one of ".toList ++
      (quotedNames variants).toList
  | missingField name => s!"missing field `{name}`".toList
  | duplicateField name => s!"duplicate field `{name}`".toList
  | refused reason => reason.toList

end Issue

structure Problem where
  issue : Issue
  place : Mark
  deriving DecidableEq, Repr

def Problem.message (p : Problem) : List Char :=
  p.issue.text ++ s!" at line {p.place.line} column {p.place.column}".toList

end Notebook.Json
