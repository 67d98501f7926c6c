import Notebook.Files.Path

/-!
What can be said to the shell.
-/

namespace Notebook.Shell

open Files (Name)

inductive RedirectKind where
  | input
  | output
  | append
  /-- Writes to where another stream goes. -/
  | duplicate
  deriving DecidableEq, Repr

mutual

/-- A piece of a word. -/
inductive Part where
  | text (text : List Char) (isQuoted : Bool)
  | variable (name : Name) (isQuoted : Bool)
  /-- How many characters a variable holds. -/
  | size (name : Name)
  /-- What a command writes. -/
  | result (command : Command) (isQuoted : Bool)

inductive Redirect where
  | mk (stream : Nat) (kind : RedirectKind) (target : List Part)

inductive Command where
  /-- Variables to set, the words of the command, where its streams go, and the line that it stands
  on. -/
  | simple (settings : List (Name × List Part)) (words : List (List Part))
      (redirects : List Redirect) (line : Nat)
  /-- Commands that cannot change what is around them. -/
  | apart (body : Command) (redirects : List Redirect)
  | group (body : Command) (redirects : List Redirect)
  | cond (test yes : Command) (no : Command) (redirects : List Redirect)
  | pipe (first second : Command)
  | negate (body : Command)
  | both (first second : Command)
  | either (first second : Command)
  | seq (first second : Command)
  | skip

end

abbrev Word := List Part

end Notebook.Shell
