import Notebook.Json.Structure

namespace Notebook.Execution

/-- What a program that ended by itself has written, and its exit status. -/
structure Output where
  stdout : List Char
  stderr : List Char
  exitCode : Option Int
  deriving DecidableEq, Repr

namespace Output

def succeeded (o : Output) : Bool := o.exitCode = some 0

/-- The fields that have been read. -/
structure Draft where
  stdout : Option (List Char) := none
  stderr : Option (List Char) := none
  exitCode : Option (Option Int) := none

/-- A status that is missing is none. -/
def form : Json.Structure Draft Output where
  expected := "struct RunOutput"
  start := {}
  fields :=
    [⟨"stdout", (·.stdout.isSome), fun d => do return { d with stdout := ← Json.Reader.string }⟩,
     ⟨"stderr", (·.stderr.isSome), fun d => do return { d with stderr := ← Json.Reader.string }⟩,
     ⟨"exit_code", (·.exitCode.isSome), fun d => do
        let code ← Json.Reader.optional (Json.Reader.integer "i32" (-2_147_483_648) 2_147_483_647)
        return { d with exitCode := some code }⟩]
  finish d :=
    match d.stdout, d.stderr with
    | none, _ => .error "stdout"
    | _, none => .error "stderr"
    | some stdout, some stderr => .ok ⟨stdout, stderr, d.exitCode.getD none⟩

def parse (s : List Char) : Except Json.Problem Output := Json.Reader.run (.structured form) s

end Output

end Notebook.Execution
