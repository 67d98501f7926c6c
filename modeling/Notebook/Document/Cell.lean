namespace Notebook

/-- A piece of a notebook. An evaluated cell keeps what its last run printed and what was
reported about it. -/
inductive Cell where
  | markup (text : List Char)
  | code (source : List Char)
  | evaluated (source output report : List Char)
  deriving DecidableEq, Repr

namespace Cell

inductive Kind where
  | markup
  | code
  | evaluated
  deriving DecidableEq, Repr

def Kind.name : Kind → String
  | markup => "Markup"
  | code => "Code"
  | evaluated => "EvaluatedCode"

def Kind.all : List Kind := [markup, code, evaluated]

def kind : Cell → Kind
  | markup _ => .markup
  | code _ => .code
  | evaluated .. => .evaluated

/-- The code of a cell; markup has none. -/
def source? : Cell → Option (List Char)
  | markup _ => none
  | code s => some s
  | evaluated s _ _ => some s

def isCode (c : Cell) : Bool := c.source?.isSome

end Cell

end Notebook
