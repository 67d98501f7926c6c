import Notebook.Text.Blank

/-!
What can stand on a command line, and how that is described.
-/

namespace Notebook.Command

/-- Why a value is not taken. -/
inductive Refusal where
  | missing
  | invalid (reason : List Char)
  deriving DecidableEq, Repr

inductive FlagKind where
  /-- A flag with a value, by the name that the value has in descriptions. -/
  | value (name : String) (check : List Char → Option Refusal)
  | switch
  | help
  | version

structure Flag where
  name : String
  short : Option Char
  kind : FlagKind
  isRequired : Bool
  default : Option String
  help : String

namespace Flag

def valueName? (f : Flag) : Option String :=
  match f.kind with
  | .value n _ => some n
  | _ => none

/-- A flag as it is named in messages. -/
def display (f : Flag) : String :=
  match f.valueName? with
  | some v => s!"--{f.name} <{v}>"
  | none => "--" ++ f.name

/-- Whether it stands for the options that a usage line leaves out. -/
def isOption (f : Flag) : Bool :=
  match f.kind with
  | .help | .version => false
  | _ => !f.isRequired

def row (f : Flag) : String × String :=
  let short := match f.short with
    | some c => "-" ++ c.toString ++ ", "
    | none => "    "
  let default := match f.default with
    | some d => s!" [default: {d}]"
    | none => ""
  (short ++ f.display, f.help ++ default)

end Flag

structure Operand where
  name : String
  isRequired : Bool
  isRepeated : Bool
  help : String

namespace Operand

def display (o : Operand) : String :=
  (if o.isRequired then s!"<{o.name}>" else s!"[{o.name}]") ++ if o.isRepeated then "..." else ""

end Operand

/-- A command with its flags and operands, and the names of those below it. The name is written with
all those above. -/
structure Level where
  name : String
  about : String
  flags : List Flag
  operands : List Operand
  commands : List (String × String)

namespace Level

/-- The operands in brackets, and what stands for a command. -/
def usageEnd (l : Level) : List String :=
  l.operands.map Operand.display ++ if l.commands.isEmpty then [] else ["<COMMAND>"]

def requiredFlags (l : Level) : List String := (l.flags.filter (·.isRequired)).map Flag.display

/-- How the command is used. -/
def usage (l : Level) : String :=
  let options := if l.flags.any Flag.isOption then ["[OPTIONS]"] else []
  " ".intercalate (l.name :: options ++ l.requiredFlags ++ l.usageEnd)

/-- How the command is used with some flags. -/
def usageWith (l : Level) (flags : List Flag) : String :=
  if flags.isEmpty then l.usage
  else
    let shown := (l.requiredFlags ++ flags.map Flag.display).eraseDups
    " ".intercalate (l.name :: shown ++ l.usageEnd)

/-- A titled list of names, with what they mean in a second column. -/
def section_ (title : String) (rows : List (String × String)) : List String :=
  if rows.isEmpty then []
  else
    let width := (rows.map (·.1.length)).foldl max 0
    let line (r : String × String) : String :=
      "  " ++ r.1 ++ "".pushn ' ' (width - r.1.length) ++ "  " ++ r.2 ++ "\n"
    [title ++ ":\n" ++ String.join (rows.map line)]

def helpText (l : Level) : String :=
  "\n".intercalate
    ([l.about ++ "\n", "Usage: " ++ l.usage ++ "\n"] ++ section_ "Commands" l.commands ++
      section_ "Arguments" (l.operands.map fun o => (o.display, o.help)) ++
      section_ "Options" (l.flags.map Flag.row))

end Level

end Notebook.Command
