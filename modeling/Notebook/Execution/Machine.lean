import Notebook.Execution.Output
import Notebook.Failure
import Notebook.Program.Toolchain
import Notebook.Text.Utf8

/-!
What runs a toolchain. A machine has its own kind of processes. They start in a directory and work
on the files step by step, while others may do the same, until they end.
-/

namespace Notebook.Execution

open Files (Path Place Tree Fault)
open Program (Toolchain)

/-- How a process ended. -/
inductive Exit where
  | status (code : Nat)
  | signal (number : Nat)
  deriving DecidableEq, Repr

/-- A process that has ended: how it did, and what it wrote. -/
structure Completion where
  exit : Exit
  stdout : List UInt8
  stderr : List UInt8
  deriving DecidableEq, Repr

structure Machine where
  Job : Type
  /-- Starts a toolchain in a directory, or tells why it cannot start. -/
  start : Toolchain → Tree → Place → Path → Except Fault Job
  step : Job → Tree → Tree × (Job ⊕ Completion)

/-- A process that ended by itself has an output, whatever its status; one that was killed has
none. -/
def outcome (tc : Toolchain) (c : Completion) : Except Failure Output :=
  match c.exit with
  | .status code =>
    .ok ⟨Text.Utf8.decodeLossy c.stdout, Text.Utf8.decodeLossy c.stderr, some code⟩
  | .signal n => .error (.terminated tc.program (some n))

namespace Machine

/-- Lets a process run alone for so many steps. -/
def complete (m : Machine) : Nat → m.Job → Tree → Option (Tree × Completion)
  | 0, _, _ => none
  | n + 1, p, t =>
    match m.step p t with
    | (t, .inl p) => m.complete n p t
    | (t, .inr c) => some (t, c)

end Machine

end Notebook.Execution
