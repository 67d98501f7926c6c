import Notebook.Execution.State
import Notebook.Files.Path

namespace Notebook

/-- Why a request for a cell gives no output. -/
inductive Failure where
  | workspace (path : Files.Path) (cause : Files.Fault)
  | manifest (path : Files.Path) (cause : Files.Fault)
  | spawn (program : List Char) (cause : Files.Fault)
  | terminated (program : List Char) (signal : Option Int)
  | cellNotFound (index : Nat)
  | notExecutable (index : Nat)
  | invalidTransition (source target : Execution.State)
  | internal (text : List Char)
  | io (cause : Files.Fault)
  deriving DecidableEq, Repr

namespace Failure

def message : Failure → List Char
  | workspace p c => "workspace error at ".toList ++ p.text ++ ": ".toList ++ c.message
  | manifest p c => "failed to read manifest ".toList ++ p.text ++ ": ".toList ++ c.message
  | spawn p c => "failed to start `".toList ++ p ++ "`: ".toList ++ c.message
  | terminated p none => '`' :: p ++ "` was terminated".toList
  | terminated p (some n) => '`' :: p ++ "` was terminated by signal ".toList ++ (toString n).toList
  | cellNotFound i => s!"cell not found: index {i}".toList
  | notExecutable i => s!"cell {i} is not a code cell".toList
  | invalidTransition s t =>
    s!"invalid execution transition: {s.name} -> {t.name}".toList
  | internal t => "internal error: ".toList ++ t
  | io c => "IO error: ".toList ++ c.message

/-- The failure came from files or processes and not from the document. -/
def isInfrastructure : Failure → Bool
  | workspace .. | spawn .. | terminated .. | io _ => true
  | _ => false

/-- What to try next. -/
def hint? : Failure → Option String
  | workspace .. => some "check that the scratch directory is writable (see --scratch-dir)"
  | manifest .. => some "check the path given to --manifest"
  | spawn _ c =>
    some (if c.isNotFound then
      "install the Rust toolchain (https://rustup.rs) or pass --toolchain"
      else "check the permissions of the toolchain binary")
  | cellNotFound _ => some "cell indices are 0-based; run `rmnb cells` to list them"
  | notExecutable _ => some "only ```rust blocks can be executed"
  | _ => none

def withHint (f : Failure) : List Char :=
  match f.hint? with
  | some h => f.message ++ "\n  hint: ".toList ++ h.toList
  | none => f.message

end Failure

end Notebook
