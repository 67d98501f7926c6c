import Notebook.Execution.Machine
import Notebook.Shell.Parser
import Notebook.Shell.Tool

/-!
Running scripts and programs on a tree of files.
-/

namespace Notebook.Shell

open Files (Name Path Place Tree Fault Errno)
open Execution (Exit Completion Machine)
open Program (Toolchain)

/-- Where a stream goes. -/
inductive Target where
  | buffer (n : Nat)
  | file (p : Place)
  | nowhere
  deriving DecidableEq, Repr

/-- What commands change while they run. -/
structure Session where
  tree : Tree
  here : Place
  bindings : List (Name × List Char)
  buffers : List (List UInt8)
  input : List UInt8
  status : Nat

/-- What stays the same for the commands of a script: its name and arguments, the number of its
process, and where its streams go. -/
structure Frame where
  name : List Char
  arguments : List (List Char)
  process : Nat
  output : Target
  errors : Target

/-- Commands end early on `exit` and when they are killed. -/
abbrev Action := ExceptT Exit (StateM Session)

namespace Action

def write (t : Target) (bytes : List UInt8) : Action Unit :=
  match t with
  | .buffer n => modify fun s => { s with buffers := s.buffers.modify n (· ++ bytes) }
  | .file p => modify fun s =>
    match s.tree.get? p with
    | some (.file old x) => { s with tree := s.tree.put p (.file (old ++ bytes) x) }
    | _ => s
  | .nowhere => return

def say (f : Frame) (s : List Char) : Action Unit := write f.output (Text.Utf8.encode s)

def complain (f : Frame) (line : Nat) (s : List Char) : Action Unit :=
  write f.errors (Text.Utf8.encode (f.name ++ s!": {line}: ".toList ++ s ++ ['\n']))

def setStatus (n : Nat) : Action Unit := modify fun s => { s with status := n }

def setVariable (n : Name) (v : List Char) : Action Unit :=
  modify fun s => { s with bindings := (n, v) :: s.bindings.filter (·.1 ≠ n) }

/-- Makes a buffer that nothing has been written to. -/
def newBuffer : Action Nat := do
  let n := (← get).buffers.length
  modify fun s => { s with buffers := s.buffers ++ [[]] }
  return n

/-- Ends the commands with a status but not what is around them. -/
def contain (a : Action Unit) : Action Unit := fun s =>
  match a s with
  | (.error (.status n), s) => (.ok (), { s with status := n })
  | r => r

/-- Runs commands whose changes to directory and bindings do not last. -/
def apart (a : Action Unit) : Action Unit := do
  let s ← get
  contain a
  modify fun t => { t with here := s.here, bindings := s.bindings }

/-- Runs commands that read from elsewhere. -/
def reading (input : List UInt8) (a : Action Unit) : Action Unit := do
  let s ← get
  modify fun t => { t with input }
  a
  modify fun t => { t with input := s.input }

end Action

/-! ### Words -/

def lookUp (f : Frame) (s : Session) (n : Name) : List Char :=
  match n with
  | ['?'] => (toString s.status).toList
  | ['$'] => (toString f.process).toList
  | ['#'] => (toString f.arguments.length).toList
  | ['@'] | ['*'] => List.intercalate [' '] f.arguments
  | ['0'] => f.name
  | ['!'] | ['-'] => []
  | [c] =>
    if c.isDigit then (f.arguments[c.toNat - '0'.toNat - 1]?).getD []
    else (s.bindings.lookup n).getD []
  | _ => (s.bindings.lookup n).getD []

/-- Fields made so far, and the one that more can be added to. -/
structure Fields where
  done : List (List Char)
  current : Option (List Char)

namespace Fields

def add (fs : Fields) (s : List Char) : Fields := { fs with current := some (fs.current.getD [] ++ s) }

def close (fs : Fields) : Fields :=
  match fs.current with
  | some c => ⟨fs.done ++ [c], none⟩
  | none => fs

def isSeparator (c : Char) : Bool := c = ' ' || c = '\t' || c = '\n'

/-- Adds a text that falls into fields at its blanks. -/
def addSplit (fs : Fields) (s : List Char) : Fields :=
  s.foldl (fun fs c => if isSeparator c then fs.close else fs.add [c]) fs

/-- Adds fields; the first and the last grow together with what is around them. -/
def addAll (fs : Fields) : List (List Char) → Fields
  | [] => fs
  | [a] => fs.add a
  | a :: as => addAll (fs.add a).close as

def all (fs : Fields) : List (List Char) := fs.close.done

end Fields

/-- What a command wrote, without the ends of lines at its end. -/
def resultText (bytes : List UInt8) : List Char :=
  Text.dropEndWhile (· = '\n') (Text.Utf8.decodeLossy bytes)

/-! ### Programs in files -/

/-- A program that has been found: one of the system's own or a script, with its interpreter. -/
inductive Executable where
  | tool (name : Name)
  | script (interpreter : Name) (arguments : List (List Char))
  deriving DecidableEq, Repr

/-- The first line of a script names its interpreter and one argument for it. -/
def interpreter? (content : List UInt8) : Option (List Char × List (List Char)) :=
  match Text.Utf8.decodeLossy ((linesOf content).headD []) with
  | '#' :: '!' :: s =>
    let s := Text.trimWhile (fun c => c = ' ' || c = '\t' || c = '\n') s
    let path := s.takeWhile fun c => c ≠ ' ' && c ≠ '\t'
    let argument := (s.drop path.length).dropWhile fun c => c = ' ' || c = '\t'
    if path.isEmpty then none else some (path, if argument.isEmpty then [] else [argument])
  | _ => none

/-- The program at a path. -/
def executableAt (t : Tree) (here : Place) (p : Path) : Except Fault Executable := do
  match ← t.lookup here p with
  | (_, .tool n) => return .tool n
  | (_, .file content true) =>
    match interpreter? content with
    | some (i, as) =>
      match ← t.lookup here ⟨i⟩ with
      | (_, .tool n) => return .script n (as ++ [p.text])
      | _ => .error (.system .denied)
    | none => .error (.system .noExec)
  | _ => .error (.system .denied)

/-- The program of a name: at its path if there is a slash in it, else in the directories of
programs. -/
def executable (t : Tree) (here : Place) (name : List Char) : Except Fault Executable :=
  if name.contains '\x00' then .error .nulInCommand
  else if name.contains '/' then executableAt t here ⟨name⟩
  else if name.isEmpty then .error (.system .noEntry)
  else if Text.Utf8.size name > 255 then .error (.system .nameTooLong)
  else
    match Toolchain.directories.find? fun d => Toolchain.isProgramAt t d ⟨name⟩ with
    | some d => executableAt t d ⟨name⟩
    | none => .error (.system .noEntry)

/-! ### Commands -/

def isSignal (s : List Char) : Option Nat :=
  match String.ofList s with
  | "-1" | "-HUP" => some 1
  | "-2" | "-INT" => some 2
  | "-3" | "-QUIT" => some 3
  | "-6" | "-ABRT" => some 6
  | "-9" | "-KILL" => some 9
  | "-11" | "-SEGV" => some 11
  | "-15" | "-TERM" => some 15
  | _ => none

/-- Kills a process by its number; a script knows only its own. -/
def kill (f : Frame) (line : Nat) (args : List (List Char)) : Action Unit := do
  let (signal, targets) := match args with
    | ['-', 's'] :: n :: ts => ((isSignal ('-' :: n)).getD 15, ts)
    | a :: ts => match isSignal a with
      | some n => (n, ts)
      | none => (15, a :: ts)
    | [] => (15, [])
  match targets with
  | [] => Action.complain f line "kill: No process ID specified".toList; Action.setStatus 2
  | p :: _ =>
    if p = (toString f.process).toList then throw (.signal signal)
    else
      Action.complain f line "kill: No such process\n".toList
      Action.setStatus 1

/-- What the shell does itself. -/
inductive Builtin where
  | colon
  | cd
  | exit
  | kill
  | tool (t : Tool)

def builtin? (n : List Char) : Option Builtin :=
  match String.ofList n with
  | ":" => some .colon
  | "cd" => some .cd
  | "exit" => some .exit
  | "kill" => some .kill
  | "echo" => some (.tool (Tool.echo true))
  | "printf" => some (.tool Tool.printf)
  | "pwd" => some (.tool Tool.pwd)
  | "test" => some (.tool Tool.test)
  | "[" => some (.tool Tool.bracket)
  | "true" => some (.tool fun c => c.done 0)
  | "false" => some (.tool fun c => c.done 1)
  | _ => none

/-- The path of a place, from the root. -/
def pathText (p : Place) : List Char := '/' :: List.intercalate ['/'] p

def runTool (f : Frame) (t : Tool) (args : List (List Char)) : Action Unit := do
  let s ← get
  let r := t ⟨s.tree, s.here, args, s.input⟩
  set { s with tree := r.tree, input := r.input, status := r.status }
  Action.write f.output r.output
  Action.write f.errors r.errors

def changeDirectory (f : Frame) (line : Nat) (args : List (List Char)) : Action Unit := do
  let s ← get
  let target : List Char := (args.head?).getD ((s.bindings.lookup "HOME".toList).getD ['/'])
  match s.tree.lookup s.here ⟨target⟩ with
  | .ok (p, .directory) =>
    set { s with here := p, status := 0 }
    Action.setVariable "PWD".toList (pathText p)
  | _ =>
    Action.complain f line ("cd: can't cd to ".toList ++ target)
    Action.setStatus 2

/-- Opens the file at a path for writing. -/
def openForWriting (appending : Bool) (p : List Char) : Action (Except Fault Target) := do
  let s ← get
  match s.tree.lookup s.here ⟨p⟩ with
  | .ok (_, .sink) => return .ok .nowhere
  | .ok (place, .file content _) =>
    match s.tree.write s.here ⟨p⟩ (if appending then content else []) with
    | .ok tree => set { s with tree }; return .ok (.file place)
    | .error e => return .error e
  | _ =>
    match s.tree.write s.here ⟨p⟩ [] with
    | .ok tree =>
      set { s with tree }
      match tree.resolve s.here ⟨p⟩ with
      | .ok place => return .ok (.file place)
      | .error e => return .error e
    | .error e => return .error e

/-- Why a file cannot be opened. -/
def openMessage (verb : String) (p : List Char) (e : Fault) : List Char :=
  let why := if e.isNotFound then
      (if verb = "create" then "Directory nonexistent" else "No such file").toList
    else plainMessage e
  s!"cannot {verb} ".toList ++ p ++ ": ".toList ++ why

/-- The frame and the input that a command has after its redirections. -/
structure Redirected where
  frame : Frame
  input : Option (List UInt8)

/-- Opens what a redirection names, or says why that is not possible. -/
def redirectOne (f : Frame) (line : Nat) (r : Redirected) (stream : Nat) (kind : RedirectKind)
    (target : List Char) : Action (Option Redirected) := do
  match kind with
  | .input =>
    let s ← get
    match s.tree.read s.here ⟨target⟩ with
    | .ok bytes => return some { r with input := some bytes }
    | .error e => Action.complain f line (openMessage "open" target e); return none
  | .duplicate =>
    let goal? := if target = ['1'] then some r.frame.output
      else if target = ['2'] then some r.frame.errors else none
    match goal? with
    | some t =>
      return some { r with frame := if stream = 2 then { r.frame with errors := t }
        else { r.frame with output := t } }
    | none => Action.complain f line (target ++ ": Bad file descriptor".toList); return none
  | .output | .append =>
    match ← openForWriting (kind = .append) target with
    | .ok t =>
      return some { r with frame := if stream = 2 then { r.frame with errors := t }
        else { r.frame with output := t } }
    | .error e => Action.complain f line (openMessage "create" target e); return none

/-- The arguments of a shell: a script after `-c`, or the name of a file that holds one. -/
inductive Invocation where
  | text (script : List Char) (name : List Char) (arguments : List (List Char))
  | file (path : List Char) (arguments : List (List Char))
  | input

def invocation (args : List (List Char)) : Invocation :=
  match args with
  | [] => .input
  | ['-', 'c'] :: s :: rest => .text s (rest.headD "sh".toList) rest.tail
  | ['-', 'e'] :: as => invocation as
  | p :: rest => .file p rest

mutual

/-- Adds what a word stands for to fields. -/
def expandPart (depth : Nat) (f : Frame) (fs : Fields) (p : Part) : Action Fields :=
  match depth with
  | 0 => return fs
  | n + 1 => do
    let s ← get
    match p with
    | .text t _ => return fs.add t
    | .size v => return fs.add (toString (lookUp f s v).length).toList
    | .variable v isQuoted =>
      if isQuoted then
        if v = ['@'] then return fs.addAll f.arguments else return fs.add (lookUp f s v)
      else return fs.addSplit (lookUp f s v)
    | .result c isQuoted =>
      let b ← Action.newBuffer
      Action.apart (run n { f with output := .buffer b } c)
      let text := resultText ((← get).buffers[b]?.getD [])
      return if isQuoted then fs.add text else fs.addSplit text

/-- The fields of words. -/
def expand (depth : Nat) (f : Frame) : List Word → Action (List (List Char))
  | [] => return []
  | w :: ws =>
    match depth with
    | 0 => return []
    | n + 1 => do
      -- Quotes around all of `$@` leave nothing if there are no arguments.
      let onlyArguments := w.all fun
        | .text [] true => true
        | .variable ['@'] true => true
        | _ => false
      let hasArguments := w.any fun
        | .variable ['@'] true => true
        | _ => false
      if onlyArguments && hasArguments && f.arguments.isEmpty then expand n f ws
      else
        let fs ← w.foldlM (expandPart n f) ⟨[], none⟩
        return fs.all ++ (← expand n f ws)

/-- A word as one text. -/
def expandOne (depth : Nat) (f : Frame) (w : Word) : Action (List Char) := do
  match depth with
  | 0 => return []
  | n + 1 =>
    let fs ← w.foldlM (fun fs p => expandPart n f fs (match p with
      | .variable v _ => .variable v (v ≠ ['@'])
      | .result c _ => .result c true
      | p => p)) ⟨[], none⟩
    return List.intercalate [' '] fs.all

def redirect (depth : Nat) (line : Nat) (r : Redirected) :
    List Redirect → Action (Option Redirected)
  | [] => return some r
  | .mk stream kind target :: rs =>
    match depth with
    | 0 => return none
    | n + 1 => do
      let t ← expandOne n r.frame target
      match ← redirectOne r.frame line r stream kind t with
      | some r => redirect n line r rs
      | none => return none

/-- Runs commands with their redirections in place. -/
def redirected (depth : Nat) (f : Frame) (line : Nat) (rs : List Redirect)
    (body : Frame → Action Unit) : Action Unit :=
  match depth with
  | 0 => return
  | n + 1 => do
    match ← redirect n line ⟨f, none⟩ rs with
    | none => Action.setStatus 2
    | some ⟨f, none⟩ => body f
    | some ⟨f, some input⟩ => Action.reading input (body f)

/-- Runs a shell in a process of its own. -/
def shell (depth : Nat) (f : Frame) (name : List Char) (args : List (List Char)) : Action Unit :=
  match depth with
  | 0 => return
  | n + 1 => do
    let s ← get
    let go (text : List Char) (name : List Char) (arguments : List (List Char)) : Action Unit :=
      match parse? text with
      | none => do
        Action.complain { f with name } 1 "Syntax error: unexpected token".toList
        Action.setStatus 2
      | some c => do
        Action.setStatus 0
        run n { f with name, arguments } c
    Action.setVariable "PWD".toList (pathText s.here)
    match invocation args with
    | .text t scriptName as => go t (if as.isEmpty && scriptName = "sh".toList then name else scriptName) as
    | .file p as =>
      match s.tree.read s.here ⟨p⟩ with
      | .ok bytes => go (Text.Utf8.decodeLossy bytes) p as
      | .error e =>
        Action.write f.errors (Text.Utf8.encode (name ++ ": 0: ".toList ++ openMessage "open" p e ++ ['\n']))
        Action.setStatus 2
    | .input =>
      modify fun s => { s with input := [] }
      go (Text.Utf8.decodeLossy s.input) name []

/-- Runs a program in a process of its own. -/
def execute (depth : Nat) (f : Frame) (name : List Char) (e : Executable)
    (args : List (List Char)) : Action Unit :=
  match depth with
  | 0 => return
  | n + 1 =>
    let (program, args) := match e with
      | .tool p => (p, args)
      | .script p as => (p, as ++ args)
    if program = "sh".toList then shell n f name args
    else
      match Tool.named? program with
      | some t => runTool f t args
      | none => do
        Action.write f.errors (Text.Utf8.encode (name ++ ": not supported\n".toList))
        Action.setStatus 126

/-- Runs a program for a script, which lives on when the program is killed. -/
def child (depth : Nat) (f : Frame) (line : Nat) (name : List Char) (args : List (List Char)) :
    Action Unit :=
  match depth with
  | 0 => return
  | n + 1 => do
    let s ← get
    match executable s.tree s.here name with
    | .ok e => fun s =>
      match Action.apart (execute n { f with process := f.process + 1 } name e args) s with
      | (.error (.signal k), t) =>
        (.ok (), { t with here := s.here, bindings := s.bindings, status := 128 + k })
      | r => r
    | .error e =>
      if e.isNotFound then
        Action.complain f line (name ++ ": not found".toList)
        Action.setStatus 127
      else
        Action.complain f line (name ++ ": ".toList ++ plainMessage e)
        Action.setStatus 126

def runWords (depth : Nat) (f : Frame) (line : Nat) (words : List (List Char)) : Action Unit :=
  match depth, words with
  | 0, _ => return
  | _, [] => return
  | n + 1, name :: args =>
    match builtin? name with
    | some .colon => Action.setStatus 0
    | some .cd => changeDirectory f line args
    | some .exit => do
      let s ← get
      let status := match args with
        | a :: _ => (String.ofList a).toNat?.getD 2
        | [] => s.status
      throw (.status (status % 256))
    | some .kill => kill f line args
    | some (.tool t) => runTool f t args
    | none => child n f line name args

/-- Runs a command. The depth bounds how commands, words and scripts stand inside each other. -/
def run (depth : Nat) (f : Frame) (c : Command) : Action Unit :=
  match depth with
  | 0 => return
  | n + 1 =>
    match c with
    | .skip => return
    | .simple settings words redirects line => do
      let fields ← expand n f words
      let values ← settings.mapM fun (v, w) => return (v, ← expandOne n f w)
      if fields.isEmpty then
        redirected n f line redirects fun _ => do
          for (v, w) in values do Action.setVariable v w
          if words.isEmpty && !(settings.any fun (_, w) => w.any fun
            | .result .. => true
            | _ => false) then Action.setStatus 0
      else redirected n f line redirects fun f => runWords n f line fields
    | .apart body redirects => redirected n f 1 redirects fun f => Action.apart (run n f body)
    | .group body redirects => redirected n f 1 redirects fun f => run n f body
    | .cond test yes no redirects =>
      redirected n f 1 redirects fun f => do
        run n f test
        if (← get).status = 0 then Action.setStatus 0; run n f yes
        else Action.setStatus 0; run n f no
    | .pipe first second => do
      let b ← Action.newBuffer
      Action.apart (run n { f with output := .buffer b } first)
      let input := (← get).buffers[b]?.getD []
      Action.reading input (Action.apart (run n f second))
    | .negate body => do
      run n f body
      Action.setStatus (if (← get).status = 0 then 1 else 0)
    | .both first second => do
      run n f first
      if (← get).status = 0 then run n f second
    | .either first second => do
      run n f first
      if (← get).status ≠ 0 then run n f second
    | .seq first second => do
      run n f first
      run n f second

end

/-! ### The machine -/

/-- A program that has been started: what it is, and where. -/
structure Job where
  program : List Char
  executable : Executable
  arguments : List (List Char)
  here : Place
  deriving DecidableEq, Repr

namespace Job

/-- Starts a toolchain. A program with a relative path is looked for in the directory that it runs
in. -/
def start (tc : Toolchain) (t : Tree) (here : Place) (dir : Path) : Except Fault Job := do
  if tc.program.contains '\x00' || tc.arguments.any (·.contains '\x00') then
    .error .nulInCommand
  match ← t.lookup here dir with
  | (place, .directory) =>
    return ⟨tc.program, ← Shell.executable t place tc.program, tc.arguments, place⟩
  | _ => .error (.system .notDirectory)

/-- How deep commands may stand inside each other. -/
def depth : Nat := 10000

def frame (j : Job) : Frame := ⟨j.program, [], 1000, .buffer 0, .buffer 1⟩

def session (j : Job) (t : Tree) : Session := ⟨t, j.here, [], [[], []], [], 0⟩

/-- Runs to the end. -/
def finish (j : Job) (t : Tree) : Tree × Completion :=
  let (r, s) := Shell.execute depth j.frame j.program j.executable j.arguments (j.session t)
  let exit : Exit := match r with
    | .ok () => .status s.status
    | .error e => e
  (s.tree, ⟨exit, (s.buffers[0]?).getD [], (s.buffers[1]?).getD []⟩)

end Job

/-- The machine whose programs are those of this shell. A program runs in one step. -/
def machine : Machine where
  Job := Job
  start := Job.start
  step j t := ((j.finish t).1, .inr (j.finish t).2)

/-- The names of the system's own programs. -/
def programNames : List String := "sh" :: "cargo" :: Tool.all.map (·.1)

/-- A tree with nothing in it but the system's own programs and the device that swallows all. -/
def system : Tree :=
  let directory (p : List String) : Place × Files.Entry := (p.map String.toList, .directory)
  let program (d : List String) (n : String) : Place × Files.Entry :=
    ((d ++ [n]).map String.toList, .tool n.toList)
  ⟨[directory ["bin"], directory ["usr"], directory ["usr", "bin"], directory ["dev"],
    directory ["tmp"], (["dev".toList, "null".toList], .sink)] ++
    programNames.map (program ["bin"]) ++ programNames.map (program ["usr", "bin"])⟩

end Notebook.Shell
