import Notebook.Shell.Command
import Notebook.Text.Blank

/-!
Reading scripts. A depth bounds how commands stand inside each other; the length of the script is
always enough.
-/

namespace Notebook.Shell

open Files (Name)

/-- What is left of the script. -/
abbrev Parser := StateT (List Char) Option

namespace Parser

def rest : Parser (List Char) := get

def skip (n : Nat) : Parser Unit := modify (·.drop n)

def startsWith (p : String) : Parser Bool := return Text.hasPrefix p.toList (← get)

def takeWhile (p : Char → Bool) : Parser (List Char) := do
  let s := (← get).takeWhile p
  skip s.length
  return s

def isSpace (c : Char) : Bool := c = ' ' || c = '\t'

/-- A character that ends a word. -/
def isMeta (c : Char) : Bool := isSpace c || "\n;&|<>()".toList.contains c

def isNameStart (c : Char) : Bool := c.isAlpha || c = '_'

def isNameChar (c : Char) : Bool := c.isAlphanum || c = '_'

/-- Skips blanks, continued lines and comments. -/
def blanks : Parser Unit := modify (go false ·)
where
  go (inComment : Bool) : List Char → List Char
    | [] => []
    | '\\' :: '\n' :: s => go inComment s
    | '\n' :: s => '\n' :: s
    | c :: s => if inComment || isSpace c then go inComment s
      else if c = '#' then go true s else c :: s

/-- Skips blanks and ends of lines. -/
def newlines : Nat → Parser Unit
  | 0 => return
  | n + 1 => do
    blanks
    if ← startsWith "\n" then skip 1; newlines n

def accept (p : String) : Parser Bool := do
  blanks
  if ← startsWith p then skip p.length; return true else return false

def expect (p : String) : Parser Unit := do guard (← accept p)

/-- A reserved word stands alone. -/
def atReserved (w : String) : Parser Bool := do
  blanks
  let s ← rest
  match Text.dropPrefix? w.toList s with
  | none => return false
  | some [] => return true
  | some (c :: _) => return isMeta c

def acceptReserved (w : String) : Parser Bool := do
  if ← atReserved w then skip w.length; return true else return false

/-- The names of variables: a letter with letters and digits, or one special character. -/
def variableName? : List Char → Option (Name × List Char)
  | [] => none
  | c :: s =>
    if isNameStart c then
      let more := s.takeWhile isNameChar
      some (c :: more, s.drop more.length)
    else if c.isDigit || "@*#?$!-".toList.contains c then some ([c], s)
    else none

/-- The part after a dollar sign. -/
def dollar (script : Parser Command) (isQuoted : Bool) : Parser Part := do
  match ← rest with
  | '(' :: _ =>
    skip 1
    let body ← script
    expect ")"
    return .result body isQuoted
  | '{' :: '#' :: s =>
    match variableName? s with
    | some (n, '}' :: s) => set s; return .size n
    | _ => failure
  | '{' :: s =>
    match variableName? s with
    | some (n, '}' :: s) => set s; return .variable n isQuoted
    | _ => failure
  | s =>
    match variableName? s with
    | some (n, s) => set s; return .variable n isQuoted
    | none => return .text ['$'] isQuoted

/-- The parts up to a closing double quote. -/
def quoted (script : Parser Command) : Nat → Parser Word
  | 0 => failure
  | n + 1 => do
    match ← rest with
    | [] => failure
    | '"' :: s => set s; return []
    | '$' :: s => do
      set s
      let p ← dollar script true
      return p :: (← quoted script n)
    | '\\' :: c :: s => do
      set s
      let more ← quoted script n
      if c = '\n' then return more
      else if "$\"\\".toList.contains c || c = '\x60' then return .text [c] true :: more
      else return .text ['\\', c] true :: more
    | c :: s => do
      set s
      return .text [c] true :: (← quoted script n)

/-- The parts of a word. -/
def word (script : Parser Command) : Nat → Parser Word
  | 0 => failure
  | n + 1 => do
    match ← rest with
    | [] => return []
    | '\'' :: s =>
      let body := s.takeWhile (· ≠ '\'')
      guard (body.length < s.length)
      set (s.drop (body.length + 1))
      return .text body true :: (← word script n)
    | '"' :: s => do
      set s
      let parts ← quoted script (s.length + 1)
      return .text [] true :: parts ++ (← word script n)
    | '\\' :: '\n' :: s => set s; word script n
    | '\\' :: c :: s => set s; return .text [c] true :: (← word script n)
    | '$' :: s => do
      set s
      let p ← dollar script false
      return p :: (← word script n)
    | c :: s =>
      if isMeta c then return []
      else
        guard (c ≠ '\x60')
        set s
        return .text [c] false :: (← word script n)

/-- The mark of a redirection and the stream it is about. -/
def redirectKind? : List Char → Option (Nat × RedirectKind × List Char)
  | '<' :: s => if Text.hasPrefix ['<'] s then none else some (0, .input, s)
  | '>' :: '>' :: s => some (1, .append, s)
  | '>' :: '&' :: s => some (1, .duplicate, s)
  | '>' :: s => some (1, .output, s)
  | c :: s =>
    if c.isDigit then
      match s with
      | '<' :: s => some (c.toNat - '0'.toNat, .input, s)
      | '>' :: '>' :: s => some (c.toNat - '0'.toNat, .append, s)
      | '>' :: '&' :: s => some (c.toNat - '0'.toNat, .duplicate, s)
      | '>' :: s => some (c.toNat - '0'.toNat, .output, s)
      | _ => none
    else none
  | [] => none

def redirect? (script : Parser Command) : Parser (Option Redirect) := do
  blanks
  match redirectKind? (← rest) with
  | none => return none
  | some (stream, kind, s) =>
    set s
    blanks
    let w ← word script (s.length + 1)
    guard !w.isEmpty
    return some (.mk stream kind w)

def redirects (script : Parser Command) : Nat → Parser (List Redirect)
  | 0 => return []
  | n + 1 => do
    match ← redirect? script with
    | some r => return r :: (← redirects script n)
    | none => return []

/-- A name and an equals sign at the front. -/
def setting? (s : List Char) : Option (Name × List Char) :=
  match s with
  | c :: _ =>
    let name := s.takeWhile isNameChar
    match s.drop name.length with
    | '=' :: s => if isNameStart c then some (name, s) else none
    | _ => none
  | [] => none

/-- Settings, words and redirections up to the end of a simple command. -/
def simple (script : Parser Command) (line : Nat) : Nat → Command → Parser Command
  | n + 1, .simple settings words redirects _ => do
    match ← redirect? script with
    | some r => simple script line n (.simple settings words (redirects ++ [r]) line)
    | none =>
      match ← rest with
      | [] => return .simple settings words redirects line
      | c :: s =>
        if isMeta c then return .simple settings words redirects line
        else
          match setting? (c :: s), words with
          | some (name, s), [] => do
            set s
            let w ← word script (s.length + 1)
            simple script line n (.simple (settings ++ [(name, w)]) words redirects line)
          | _, _ => do
            let w ← word script (s.length + 2)
            simple script line n (.simple settings (words ++ [w]) redirects line)
  | _, c => return c

def isNothing : Command → Bool
  | .simple [] [] [] _ => true
  | _ => false

/-- The words that no command starts with. -/
def closers : List String := ["\x7d", "then", "else", "elif", "fi", "do", "done", "esac"]

/-- Whether no command starts here. -/
def atEnd : Parser Bool := do
  blanks
  match ← rest with
  | [] => return true
  | c :: _ => if c = ')' then return true else closers.anyM atReserved

mutual

/-- What follows the test of a condition. -/
def branches (total : Nat) : Nat → Parser (Command × Command)
  | 0 => failure
  | n + 1 => do
    guard (← acceptReserved "then")
    let yes ← script total n
    if ← acceptReserved "else" then
      let no ← script total n
      guard (← acceptReserved "fi")
      return (yes, no)
    else if ← acceptReserved "elif" then
      let test ← script total n
      let (a, b) ← branches total n
      return (yes, .cond test a b [])
    else
      guard (← acceptReserved "fi")
      return (yes, .skip)

def command (total : Nat) : Nat → Parser Command
  | 0 => failure
  | n + 1 => do
    blanks
    if ← accept "(" then
      let body ← script total n
      expect ")"
      return .apart body (← redirects (script total n) ((← rest).length + 1))
    else if ← acceptReserved "\x7b" then
      let body ← script total n
      guard (← acceptReserved "\x7d")
      return .group body (← redirects (script total n) ((← rest).length + 1))
    else if ← acceptReserved "if" then
      let test ← script total n
      let (yes, no) ← branches total n
      return .cond test yes no (← redirects (script total n) ((← rest).length + 1))
    else
      guard !(← atEnd)
      let s ← rest
      let c ← simple (script total n) (total - s.count '\n') (s.length + 1) (.simple [] [] [] 0)
      guard !(isNothing c)
      return c

/-- Commands with a bar between. -/
def pipeline (total : Nat) : Nat → Parser Command
  | 0 => failure
  | n + 1 => do
    let c ← command total n
    blanks
    match ← rest with
    | '|' :: '|' :: _ => return c
    | '|' :: _ =>
      skip 1
      newlines total
      return .pipe c (← pipeline total n)
    | _ => return c

def negatable (total : Nat) : Nat → Parser Command
  | 0 => failure
  | n + 1 => do
    if ← acceptReserved "!" then return .negate (← pipeline total n) else pipeline total n

/-- Pipelines that depend on the status of those before them. -/
def chain (total : Nat) : Nat → Command → Parser Command
  | 0, _ => failure
  | n + 1, c => do
    if ← accept "&&" then
      newlines total
      let d ← negatable total n
      chain total n (.both c d)
    else if ← accept "||" then
      newlines total
      let d ← negatable total n
      chain total n (.either c d)
    else return c

/-- Commands up to the end or to a closing word. -/
def script (total : Nat) : Nat → Parser Command
  | 0 => failure
  | n + 1 => do
    newlines total
    if ← atEnd then return .skip
    else
      let first ← negatable total n
      let c ← chain total n first
      if ← accept ";" then return .seq c (← script total n)
      else if ← startsWith "\n" then return .seq c (← script total n)
      else
        guard (← atEnd)
        return c

end

end Parser

/-- A whole script, if it is well formed. -/
def parse? (s : List Char) : Option Command :=
  let depth := 8 * s.length + 8
  match (Parser.script (s.count '\n' + 1) depth).run s with
  | some (c, []) => some c
  | _ => none

end Notebook.Shell
