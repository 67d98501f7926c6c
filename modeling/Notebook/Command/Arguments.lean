import Notebook.Command.Flag
import Notebook.Command.Similar

/-!
Reading a command line. A flag that waits for its value is not looked at again until something else
follows, so that of several mistakes the first one found is the one that is told.
-/

namespace Notebook.Command

abbrev Argument := List Char

/-- What is wrong with a command line: what it is, what may help, and how the command is used. -/
structure Mistake where
  message : List Char
  tips : List (List Char)
  usage : Option String
  deriving DecidableEq, Repr

namespace Mistake

def text (m : Mistake) : List Char :=
  let tips := m.tips.flatMap fun t => "\n  tip: ".toList ++ t
  "error: ".toList ++ m.message ++ (if tips.isEmpty then [] else '\n' :: tips) ++
    (match m.usage with
    | some u => "\n\nUsage: ".toList ++ u.toList
    | none => []) ++
    "\n\nFor more information, try '--help'.\n".toList

end Mistake

/-- Why reading ends early. -/
inductive Stop where
  | help (level : Level)
  | version
  /-- Nothing was said at all. -/
  | silence (level : Level)
  | mistake (m : Mistake)

def inQuotes (s : List Char) : List Char := '\'' :: s ++ ['\'']

def unexpected (a : Argument) : List Char :=
  "unexpected argument ".toList ++ inQuotes a ++ " found".toList

/-- Flags with their values in the order of the command line, operands, and the last flag with a
value if it has not been dealt with. -/
structure Reading where
  flags : List (Flag × Option Argument)
  operands : List Argument
  pending : Option (Flag × Option Argument)
  /-- After two dashes there are only operands. -/
  onlyOperands : Bool

namespace Reading

def empty : Reading := ⟨[], [], none, false⟩

def has (r : Reading) (f : Flag) : Bool := r.flags.any (·.1.name = f.name)

def value? (r : Reading) (name : String) : Option (Option Argument) :=
  (r.flags.find? (·.1.name = name)).map (·.2)

def missingValue (f : Flag) : Mistake :=
  ⟨s!"a value is required for '{f.display}' but none was supplied".toList, [], none⟩

/-- Takes note of a flag. What has been noted is returned also with a mistake. -/
def note (l : Level) (r : Reading) (f : Flag) (value : Option Argument) : Reading × Option Stop :=
  let add : Reading := { r with flags := r.flags ++ [(f, value)] }
  let again : Reading × Option Stop :=
    ({ r with flags := r.flags.filter (·.1.name ≠ f.name) },
      some (.mistake ⟨s!"the argument '{f.display}' cannot be used multiple times".toList, [],
        some l.usage⟩))
  match f.kind, value with
  | .help, _ => (r, some (.help l))
  | .version, _ => (r, some .version)
  | .switch, _ => if r.has f then again else (add, none)
  | .value .., none => (r, some (.mistake (missingValue f)))
  | .value _ check, some v =>
    if r.has f then again
    else
      match check v with
      | none => (add, none)
      | some .missing => (add, some (.mistake (missingValue f)))
      | some (.invalid reason) =>
        (add, some (.mistake ⟨"invalid value ".toList ++ inQuotes v ++ " for ".toList ++
          inQuotes f.display.toList ++ ": ".toList ++ reason, [], none⟩))

/-- Deals with the flag that is pending. -/
def settled (l : Level) (r : Reading) : Reading × Option Stop :=
  match r.pending with
  | none => (r, none)
  | some (f, v) => note l { r with pending := none } f v

def settle (l : Level) (r : Reading) : Except Stop Reading :=
  match r.settled l with
  | (r, none) => .ok r
  | (_, some s) => .error s

def react (l : Level) (r : Reading) (f : Flag) (value : Option Argument) :
    Except Stop Reading := do
  let r ← r.settle l
  match note l r f value with
  | (r, none) => .ok r
  | (_, some s) => .error s

/-- Waits for the value of a flag. -/
def expect (l : Level) (r : Reading) (f : Flag) : Except Stop Reading := do
  return { ← r.settle l with pending := some (f, none) }

def isWaiting (r : Reading) : Bool :=
  match r.pending with
  | some (_, none) => true
  | _ => false

/-! ### Mistakes -/

/-- The flags that count for a usage line. -/
def used (r : Reading) : List Flag := (r.flags.map (·.1)).filter (!·.isRequired)

def asValue (l : Level) (a : Argument) : List (List Char) :=
  if l.operands.isEmpty then []
  else ["to pass ".toList ++ inQuotes a ++ " as a value, use ".toList ++
    inQuotes ("-- ".toList ++ a)]

def unneededValue (l : Level) (r : Reading) (f : Flag) (v : Argument) : Mistake :=
  ⟨"unexpected value ".toList ++ inQuotes v ++ " for ".toList ++ inQuotes f.display.toList ++
    " found; no more were expected".toList, [], some (l.usageWith (r.used ++ [f]))⟩

def unknownShort (l : Level) (c : Char) : Mistake :=
  ⟨unexpected ['-', c], asValue l ['-', c], some l.usage⟩

/-- The flag of a command further on that an unknown flag may mean. -/
def furtherOn? (below : List (String × Level)) (name : Argument) (rest : List Argument) :
    Option (String × String) :=
  let found := below.filterMap fun (n, l) => do
    let flag ← (similar name (l.flags.map (·.name))).getLast?
    let place ← rest.findIdx? (· = n.toList)
    return (place, n, flag)
  let first := found.foldl (fun (best : Option (Nat × String × String)) e =>
    match best with
    | some b => if e.1 < b.1 then some e else some b
    | none => some e) none
  first.map (·.2)

def unknownLong (l : Level) (below : List (String × Level)) (r : Reading) (name : Argument)
    (rest : List Argument) : Mistake :=
  let r := (r.settled l).1
  let shown := "--".toList ++ name
  match (similar name (l.flags.map (·.name))).getLast? with
  | some n =>
    let meant := l.flags.filter fun f => f.name = n && !f.isRequired && !r.has f
    ⟨unexpected shown, [s!"a similar argument exists: '--{n}'".toList],
      some (l.usageWith (r.used ++ meant))⟩
  | none =>
    match furtherOn? below name rest with
    | some (command, flag) =>
      ⟨unexpected shown, [s!"'{command} --{flag}' exists".toList], some (l.usageWith r.used)⟩
    | none => ⟨unexpected shown, asValue l shown, some (l.usageWith r.used)⟩

def unknownCommand (l : Level) (a : Argument) : Mistake :=
  let near := similar a (l.commands.map (·.1))
  let names := ", ".intercalate (near.map fun n => "'" ++ n ++ "'")
  let tips := match near with
    | [] => []
    | [_] => ["a similar subcommand exists: ".toList ++ names.toList]
    | _ => ["some similar subcommands exist: ".toList ++ names.toList]
  ⟨"unrecognized subcommand ".toList ++ inQuotes a, tips, some l.usage⟩

def needlessDashes (l : Level) (a : Argument) : Mistake :=
  ⟨unexpected a, ["subcommand ".toList ++ inQuotes a ++
    " exists; to use it, remove the '--' before it".toList], some l.usage⟩

def extraOperand (l : Level) (r : Reading) (a : Argument) : Mistake :=
  if l.commands.isEmpty then ⟨unexpected a, [], some l.usage⟩
  else if r.onlyOperands && l.commands.any (·.1.toList = a) then needlessDashes l a
  else unknownCommand l a

/-! ### Arguments -/

def longFlag (l : Level) (below : List (String × Level)) (r : Reading) (a : Argument)
    (rest : List Argument) : Except Stop Reading :=
  let name := a.takeWhile (· ≠ '=')
  let attached := if name.length < a.length then some (a.drop (name.length + 1)) else none
  match l.flags.find? (·.name.toList = name) with
  | none => .error (.mistake (unknownLong l below r name rest))
  | some f =>
    match f.kind, attached with
    | .value .., some v => r.react l f (some v)
    | .value .., none => r.expect l f
    | _, some v => .error (.mistake (unneededValue l r f v))
    | _, none => r.react l f none

/-- Flags of one letter, the last of which may have its value attached. -/
def shortFlags (l : Level) (r : Reading) : List Char → Except Stop Reading
  | [] => .ok r
  | c :: cs =>
    match l.flags.find? (·.short = some c) with
    | none => .error (.mistake (unknownShort l c))
    | some f =>
      match f.kind, cs with
      | .value .., [] => r.expect l f
      | .value .., '=' :: v => r.react l f (some v)
      | .value .., v => r.react l f (some v)
      | _, _ => do shortFlags l (← r.react l f none) cs

def operand (l : Level) (r : Reading) (a : Argument) : Except Stop Reading :=
  if r.operands.length < l.operands.length then do
    let r ← r.settle l
    return { r with operands := r.operands ++ [a] }
  else .error (.mistake (extraOperand l r a))

/-- One argument that names no command. -/
def argument (l : Level) (below : List (String × Level)) (r : Reading) (a : Argument)
    (rest : List Argument) : Except Stop Reading :=
  if r.onlyOperands then r.operand l a
  else
    match a with
    | ['-', '-'] => .ok { r with onlyOperands := true }
    | '-' :: '-' :: name => r.longFlag l below name rest
    | '-' :: c :: cs => r.shortFlags l (c :: cs)
    | a =>
      match r.pending with
      | some (f, none) => .ok { r with pending := some (f, some a) }
      | _ => r.operand l a

/-- Reads up to the name of a command, which is returned with what follows. -/
def arguments (l : Level) (below : List (String × Level)) :
    Reading → List Argument → Except Stop (Reading × Option (String × List Argument))
  | r, [] => .ok (r, none)
  | r, a :: rest =>
    match if r.onlyOperands || r.isWaiting then none
      else l.commands.find? (·.1.toList = a) with
    | some (n, _) => .ok (r, some (n, rest))
    | none => do arguments l below (← r.argument l below a rest) rest

/-- Whether all that is required is there. -/
def complete (l : Level) (r : Reading) : Except Stop Unit :=
  let flags := l.flags.filter fun f => f.isRequired && !r.has f
  let operands := (l.operands.drop r.operands.length).filter (·.isRequired)
  if flags.isEmpty && operands.isEmpty then .ok ()
  else
    let lines := (flags.map Flag.display ++ operands.map Operand.display).map ("\n  " ++ ·)
    -- All flags stand in the usage line, also when only operands are missing.
    let usage := " ".intercalate (l.name ::
      (l.requiredFlags ++ r.used.map Flag.display).eraseDups ++ l.usageEnd)
    .error (.mistake
      ⟨("the following required arguments were not provided:" ++ String.join lines).toList, [],
        some usage⟩)

end Reading

/-- The help about the command that is named by arguments. -/
def helpAbout (below : List (String × Level)) (l : Level) : List Argument → Stop
  | [] => .help l
  | a :: as =>
    match if l.commands.isEmpty then none else below.find? (·.1.toList = a) with
    | some (_, m) => helpAbout below m as
    | none => .mistake ⟨"unrecognized subcommand ".toList ++ inQuotes a, [], some l.usage⟩

/-- What has been read of a command line: the flags before the command, the command, and what
follows it. -/
structure Parsed where
  before : Reading
  command : String
  after : Reading

/-- Reads a command line. -/
def parse (l : Level) (below : List (String × Level)) (args : List Argument) :
    Except Stop Parsed := do
  match ← Reading.arguments l below .empty args with
  | (r, some (n, rest)) =>
    if n = "help" then .error (helpAbout below l rest)
    else
      match below.lookup n with
      | none => .error (.silence l)
      | some m => do
        let (after, _) ← Reading.arguments m [] .empty rest
        let after ← after.settle m
        after.complete m
        return ⟨← r.settle l, n, after⟩
  | (r, none) => do
    let r ← r.settle l
    if r.flags.isEmpty then .error (.silence l)
    else
      let names := ", ".intercalate (l.commands.map (·.1))
      .error (.mistake ⟨s!"'{l.name}' requires a subcommand but one was not provided\n  [subcommands: {names}]".toList,
        [], some l.usage⟩)

end Notebook.Command
