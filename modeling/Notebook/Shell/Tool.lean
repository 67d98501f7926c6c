import Notebook.Files.Tree
import Notebook.Shell.Regex
import Notebook.Text.Utf8

/-!
The programs that come with the shell. A program works on a tree of files and on what it is given
to read.
-/

namespace Notebook.Shell

open Files (Name Path Place Tree Fault)

/-- What a program is given. -/
structure Call where
  tree : Tree
  here : Place
  arguments : List (List Char)
  input : List UInt8

/-- What a program leaves behind. -/
structure Result where
  tree : Tree
  input : List UInt8
  output : List UInt8
  errors : List UInt8
  status : Nat

abbrev Tool := Call → Result

namespace Call

def done (c : Call) (status : Nat) : Result := ⟨c.tree, c.input, [], [], status⟩

def say (c : Call) (output : List UInt8) : Result := ⟨c.tree, c.input, output, [], 0⟩

def complain (c : Call) (status : Nat) (message : List Char) : Result :=
  ⟨c.tree, c.input, [], Text.Utf8.encode (message ++ ['\n']), status⟩

end Call

namespace Result

/-- The result after that of what was done before. -/
def after (r : Result) (output errors : List UInt8) : Result :=
  { r with output := output ++ r.output, errors := errors ++ r.errors }

def withStatus (r : Result) (n : Nat) : Result := { r with status := n }

end Result

/-- What the system says about a fault, without its number. -/
def plainMessage : Fault → List Char
  | .system e => e.text.toList
  | .reason _ t => t

def quote (s : List Char) : List Char := '\'' :: s ++ ['\'']

/-- Splits the leading arguments of letters behind a dash from the rest. -/
def flagsOf : List (List Char) → List Char × List (List Char)
  | [] => ([], [])
  | a :: as =>
    match a with
    | ['-', '-'] => ([], as)
    | '-' :: c :: cs => ((c :: cs) ++ (flagsOf as).1, (flagsOf as).2)
    | _ => ([], a :: as)

/-! ### Lines of bytes -/

def newline : UInt8 := 10

/-- The lines of a text with their ends; the last may have none. -/
def linesOf : List UInt8 → List (List UInt8)
  | [] => []
  | b :: bs =>
    if b = newline then [b] :: linesOf bs
    else
      match linesOf bs with
      | [] => [[b]]
      | l :: ls => (b :: l) :: ls

def withoutEnd (l : List UInt8) : List UInt8 := if l.getLast? = some newline then l.dropLast else l

def withEnd (l : List UInt8) : List UInt8 := withoutEnd l ++ [newline]

/-- Reads a file, or the input for a dash. -/
def readOperand (c : Call) (name : List Char) : Except Fault (List UInt8) :=
  if name = ['-'] then .ok c.input else c.tree.read c.here ⟨name⟩

/-- Works on each file in turn, or on the input if there is none. The message about a file that
cannot be read ends with what the system says. -/
def onEach (c : Call) (files : List (List Char)) (status : Nat) (message : List Char → List Char)
    (work : Option (List Char) → List UInt8 → List UInt8) : Result :=
  match files with
  | [] => { c.say (work none c.input) with input := [] }
  | _ =>
    files.foldl (fun r f =>
      match readOperand c f with
      | .ok bytes => { r with output := r.output ++ work (some f) bytes }
      | .error e =>
        { r with errors := r.errors ++ Text.Utf8.encode (message f ++ plainMessage e ++ ['\n'])
                 status := status }) (c.done 0)

/-! ### Programs -/

namespace Tool

def cat : Tool := fun c =>
  let files := (flagsOf c.arguments).2
  onEach c files 1 (fun f => "cat: ".toList ++ f ++ ": ".toList) fun _ bytes => bytes

def natText (n : Nat) : List Char := (toString n).toList

def padded (width : Nat) (s : List Char) : List Char := List.replicate (width - s.length) ' ' ++ s

/-- The number of words between blanks. -/
def countWords (bytes : List UInt8) : Nat :=
  (bytes.foldl (fun (n, inside) b =>
    if b = 32 || (9 ≤ b && b ≤ 13) then (n, false)
    else (if inside then n else n + 1, true)) (0, false)).1

def counts (flags : List Char) (bytes : List UInt8) : List Nat :=
  let all := flags.isEmpty
  (if all || flags.contains 'l' then [bytes.count newline] else []) ++
  (if all || flags.contains 'w' then [countWords bytes] else []) ++
  (if flags.contains 'm' then [(Text.Utf8.decodeLossy bytes).length] else []) ++
  (if all || flags.contains 'c' then [bytes.length] else [])

def wc : Tool := fun c =>
  let (flags, files) := flagsOf c.arguments
  let kinds := (counts flags []).length
  let sizeOf (f : List Char) : Nat := match readOperand c f with
    | .ok bytes => bytes.length
    | .error _ => 0
  let size := files.foldl (fun n f => n + sizeOf f) 0
  let width :=
    if files.isEmpty then (if kinds = 1 then 1 else 7)
    else if kinds = 1 && files.length = 1 then 1 else (natText size).length
  let line (ns : List Nat) (name : List Char) : List UInt8 :=
    let texts := ns.map fun n => padded width (natText n)
    Text.Utf8.encode (List.intercalate [' '] texts ++ name ++ ['\n'])
  let r := onEach c files 1 (fun f => "wc: ".toList ++ f ++ ": ".toList) fun name bytes =>
    line (counts flags bytes) (match name with | some f => ' ' :: f | none => [])
  if files.length > 1 then
    let good := files.filterMap fun f => (readOperand c f).toOption
    let total := (good.map (counts flags)).foldl (fun a b => a.zipWith (· + ·) b)
      (List.replicate kinds 0)
    { r with output := r.output ++ line total " total".toList }
  else r

/-- How many lines or bytes from the front or the end. -/
structure Portion where
  count : Nat
  ofBytes : Bool

def portion? : List (List Char) → Option (Portion × List (List Char))
  | [] => some (⟨10, false⟩, [])
  | ('-' :: f :: rest) :: as =>
    if f = 'n' || f = 'c' then
      match rest, as with
      | [], n :: as => do return (⟨← (String.ofList n).toNat?, f = 'c'⟩, as)
      | [], [] => none
      | _, as => do return (⟨← (String.ofList rest).toNat?, f = 'c'⟩, as)
    else if f.isDigit then do return (⟨← (String.ofList (f :: rest)).toNat?, false⟩, as)
    else none
  | as => some (⟨10, false⟩, as)

def portions (name : String) (take : Portion → List UInt8 → List UInt8) : Tool := fun c =>
  match portion? c.arguments with
  | none => c.complain 1 (name.toList ++ ": invalid option".toList)
  | some (p, files) =>
    onEach c files 1
      (fun f => name.toList ++ ": cannot open ".toList ++ quote f ++ " for reading: ".toList)
      fun f bytes =>
        let header := match f with
          | some f => if files.length > 1 then
              Text.Utf8.encode ("==> ".toList ++ f ++ " <==\n".toList) else []
          | none => []
        header ++ take p bytes

def head : Tool := portions "head" fun p bytes =>
  if p.ofBytes then bytes.take p.count else ((linesOf bytes).take p.count).flatten

def tail : Tool := portions "tail" fun p bytes =>
  if p.ofBytes then bytes.drop (bytes.length - p.count)
  else
    let lines := linesOf bytes
    (lines.drop (lines.length - p.count)).flatten

/-- The last part of a path, without an ending that is not all of it. -/
def basename : Tool := fun c =>
  match c.arguments with
  | [] => c.complain 1 ("basename: missing operand\nTry 'basename --help' for more " ++
      "information.").toList
  | p :: suffix =>
    let trimmed := Text.dropEndWhile (· = '/') p
    let name :=
      if trimmed.isEmpty then (if p.isEmpty then [] else ['/'])
      else ((Files.piecesBetween '/' trimmed).getLast?).getD []
    let name := match suffix with
      | s :: _ => match Text.dropSuffix? s name with
        | some (a :: as) => a :: as
        | _ => name
      | [] => name
    c.say (Text.Utf8.encode (name ++ ['\n']))

def dirname : Tool := fun c =>
  match c.arguments with
  | [] => c.complain 1 ("dirname: missing operand\nTry 'dirname --help' for more " ++
      "information.").toList
  | p :: _ =>
    let trimmed := Text.dropEndWhile (· = '/') p
    let dir := Text.dropEndWhile (· = '/') (Text.dropEndWhile (· ≠ '/') trimmed)
    let dir :=
      if !dir.isEmpty then dir else if p.head? = some '/' then ['/'] else ['.']
    c.say (Text.Utf8.encode (dir ++ ['\n']))

def pwd : Tool := fun c =>
  c.say (Text.Utf8.encode ('/' :: List.intercalate ['/'] c.here ++ ['\n']))

def sleep : Tool := fun c =>
  if c.arguments.isEmpty then
    c.complain 1 "sleep: missing operand\nTry 'sleep --help' for more information.".toList
  else c.done 0

/-! #### Output -/

def octalValue (digits : List Char) : Nat :=
  digits.foldl (fun n d => n * 8 + (d.toNat - '0'.toNat)) 0

def isOctal (c : Char) : Bool := '0' ≤ c && c ≤ '7'

/-- The character that a letter after a backslash stands for. -/
def escape? : Char → Option UInt8
  | 'a' => some 7
  | 'b' => some 8
  | 'f' => some 12
  | 'n' => some 10
  | 'r' => some 13
  | 't' => some 9
  | 'v' => some 11
  | '\\' => some 92
  | _ => none

/-- Resolves backslashes. Octal numbers start with a zero that does not count, if asked for. After
`\c` nothing more is written, which the flag tells. -/
def unescape (zeroFirst : Bool) : Nat → List Char → List UInt8 × Bool
  | 0, _ => ([], false)
  | _, [] => ([], false)
  | n + 1, '\\' :: c :: s =>
    if c = 'c' then ([], true)
    else if isOctal c && (!zeroFirst || c = '0') then
      let digits := if zeroFirst then (s.take 3).takeWhile isOctal
        else ((c :: s).take 3).takeWhile isOctal
      let rest := s.drop (if zeroFirst then digits.length else digits.length - 1)
      let (more, stop) := unescape zeroFirst n rest
      (UInt8.ofNat (octalValue digits) :: more, stop)
    else
      let (more, stop) := unescape zeroFirst n s
      match escape? c with
      | some b => (b :: more, stop)
      | none => (92 :: Text.Utf8.encode [c] ++ more, stop)
  | n + 1, c :: s =>
    let (more, stop) := unescape zeroFirst n s
    (Text.Utf8.encode [c] ++ more, stop)

/-- Writes its arguments; the shell's own resolves backslashes in them. -/
def echo (resolves : Bool) : Tool := fun c =>
  let (ends, words) := match c.arguments with
    | ['-', 'n'] :: ws => (false, ws)
    | ws => (true, ws)
  let line := List.intercalate [' '] words
  let (text, stop) := if resolves then unescape true (line.length + 1) line
    else (Text.Utf8.encode line, false)
  c.say (text ++ if ends && !stop then [newline] else [])

/-- One pass over a format. The list holds the arguments that are left. -/
def formatOnce : Nat → List Char → List (List Char) → List UInt8 × List (List Char)
  | 0, _, as => ([], as)
  | _, [], as => ([], as)
  | n + 1, '%' :: c :: s, as =>
    let value := as.head?.getD []
    let add (bytes : List UInt8) (as : List (List Char)) :=
      let (more, as) := formatOnce n s as
      (bytes ++ more, as)
    match c with
    | '%' => add [37] as
    | 's' => add (Text.Utf8.encode value) as.tail
    | 'b' => add (unescape true (value.length + 1) value).1 as.tail
    | 'c' => add (Text.Utf8.encode (value.take 1)) as.tail
    | 'd' | 'i' =>
      add (Text.Utf8.encode (toString ((String.ofList value).toInt?.getD 0)).toList) as.tail
    | _ => add (37 :: Text.Utf8.encode [c]) as
  | n + 1, '\\' :: s, as =>
    let digits := (s.take 3).takeWhile isOctal
    if digits.isEmpty then
      match s with
      | c :: s =>
        let (more, as) := formatOnce n s as
        match escape? c with
        | some b => (b :: more, as)
        | none => (92 :: Text.Utf8.encode [c] ++ more, as)
      | [] => ([92], as)
    else
      let (more, as) := formatOnce n (s.drop digits.length) as
      (UInt8.ofNat (octalValue digits) :: more, as)
  | n + 1, c :: s, as =>
    let (more, as) := formatOnce n s as
    (Text.Utf8.encode [c] ++ more, as)

/-- Passes over a format until no argument is left. -/
def formatAll (format : List Char) : Nat → List (List Char) → List UInt8
  | 0, _ => []
  | n + 1, as =>
    let (text, rest) := formatOnce (format.length + 1) format as
    if rest.isEmpty || rest.length = as.length then text else text ++ formatAll format n rest

def printf : Tool := fun c =>
  match c.arguments with
  | [] => c.complain 2 "printf: usage: printf format [arg ...]".toList
  | format :: as => c.say (formatAll format (as.length + 1) as)

/-! #### Tests -/

def isKind (c : Call) (p : List Char) (f : Files.Entry → Bool) : Bool :=
  match c.tree.lookup c.here ⟨p⟩ with
  | .ok (_, e) => f e
  | .error _ => false

def unary? (c : Call) (op operand : List Char) : Option Bool :=
  match String.ofList op with
  | "-n" => some !operand.isEmpty
  | "-z" => some operand.isEmpty
  | "-e" => some (isKind c operand fun _ => true)
  | "-f" => some (isKind c operand fun
      | .file .. | .tool _ => true
      | _ => false)
  | "-d" => some (isKind c operand (· = .directory))
  | "-r" | "-w" => some (isKind c operand fun _ => true)
  | "-x" => some (isKind c operand fun
      | .file _ x => x
      | .sink => false
      | _ => true)
  | "-s" => some (isKind c operand fun
      | .file b _ => !b.isEmpty
      | .sink => false
      | _ => true)
  | _ => none

def binary? (a op b : List Char) : Option Bool :=
  let compare (f : Int → Int → Bool) : Option Bool := do
    return f (← (String.ofList a).toInt?) (← (String.ofList b).toInt?)
  match String.ofList op with
  | "=" | "==" => some (a = b)
  | "!=" => some (a ≠ b)
  | "-eq" => compare (· == ·)
  | "-ne" => compare (· != ·)
  | "-lt" => compare (fun x y => decide (x < y))
  | "-le" => compare (fun x y => decide (x ≤ y))
  | "-gt" => compare (fun x y => decide (x > y))
  | "-ge" => compare (fun x y => decide (x ≥ y))
  | _ => none

def holds? (c : Call) : List (List Char) → Option Bool
  | [] => some false
  | [a] => some !a.isEmpty
  | [a, b] => if a = ['!'] then some b.isEmpty else unary? c a b
  | [a, b, d] =>
    match binary? a b d with
    | some r => some r
    | none => if a = ['!'] then (holds? c [b, d]).map (!·) else none
  | a :: as => if a = ['!'] then (holds? c as).map (!·) else none

def test : Tool := fun c =>
  match holds? c c.arguments with
  | some true => c.done 0
  | some false => c.done 1
  | none => c.complain 2 "test: unexpected operator".toList

def bracket : Tool := fun c =>
  if c.arguments.getLast? = some [']'] then test { c with arguments := c.arguments.dropLast }
  else c.complain 2 "[: missing ]".toList

/-! #### Directories -/

def sortNames (ns : List Name) : List Name :=
  ns.mergeSort fun a b => decide (String.ofList a ≤ String.ofList b)

def namesIn (c : Call) (flags : List Char) (p : Place) : List Name :=
  let visible := (c.tree.names p).filter fun n =>
    flags.contains 'a' || flags.contains 'A' || n.head? ≠ some '.'
  (if flags.contains 'a' then [['.'], Path.parent] else []) ++ sortNames visible

/-- A directory's names and then, with the flag for it, those of the directories in it. -/
def listing (c : Call) (flags : List Char) : Nat → Bool → List Char → Place → List (List Char)
  | 0, _, _, _ => []
  | n + 1, titled, title, p =>
    let names := namesIn c flags p
    let own := (if titled then [title ++ [':']] else []) ++ names
    if flags.contains 'R' then
      let inner := names.filter fun m =>
        m ≠ ['.'] && m ≠ Path.parent && c.tree.get? (p ++ [m]) = some .directory
      own ++ inner.flatMap fun m =>
        [] :: listing c flags n true (((⟨title⟩ : Path).join ⟨m⟩).text) (p ++ [m])
    else own

def ls : Tool := fun c =>
  let (flags, operands) := flagsOf c.arguments
  let operands := if operands.isEmpty then [['.']] else sortNames operands
  let found := operands.map fun o => (o, c.tree.lookup c.here ⟨o⟩)
  let errors := found.flatMap fun (o, e) => match e with
    | .error f => "ls: cannot access ".toList ++ quote o ++ ": ".toList ++ plainMessage f ++ ['\n']
    | .ok _ => []
  let single := found.filterMap fun (o, e) => match e with
    | .ok (_, .directory) => if flags.contains 'd' then some o else none
    | .ok _ => some o
    | .error _ => none
  let directories := found.filterMap fun (o, e) => match e with
    | .ok (p, .directory) => if flags.contains 'd' then none else some (o, p)
    | _ => none
  let titled := operands.length > 1 || flags.contains 'R'
  let blocks := directories.map fun (o, p) =>
    listing c flags (c.tree.entries.length + 1) titled o p
  let blocks := if single.isEmpty then blocks else single :: blocks
  let lines := List.intercalate [[]] blocks
  ⟨c.tree, c.input, Text.Utf8.encode (lines.flatMap (· ++ ['\n'])), Text.Utf8.encode errors,
    if errors.isEmpty then 0 else 2⟩

def rm : Tool := fun c =>
  let (flags, operands) := flagsOf c.arguments
  let recursive := flags.contains 'r' || flags.contains 'R'
  let force := flags.contains 'f'
  operands.foldl (fun r o =>
    let refuse (why : List Char) : Result :=
      { r with
        errors := r.errors ++
          Text.Utf8.encode ("rm: cannot remove ".toList ++ quote o ++ ": ".toList ++ why ++ ['\n'])
        status := 1 }
    match r.tree.lookup c.here ⟨o⟩ with
    | .ok (p, .directory) =>
      if recursive then { r with tree := r.tree.erase p } else refuse "Is a directory".toList
    | .ok (p, .file ..) => { r with tree := r.tree.erase p }
    | .ok _ => refuse "Permission denied".toList
    | .error e => if force && e.isNotFound then r else refuse (plainMessage e)) (c.done 0)

def mkdir : Tool := fun c =>
  let (flags, operands) := flagsOf c.arguments
  operands.foldl (fun r o =>
    let (tree, fault) :=
      if flags.contains 'p' then r.tree.makePath c.here ⟨o⟩
      else
        match r.tree.makeDirectory (if (⟨o⟩ : Path).isAbsolute then [] else c.here)
            (⟨o⟩ : Path).steps with
        | .ok t => (t, none)
        | .error e => (r.tree, some (.system e))
    match fault with
    | none => { r with tree }
    | some f =>
      { r with
        tree
        errors := r.errors ++ Text.Utf8.encode
          ("mkdir: cannot create directory ".toList ++ quote o ++ ": ".toList ++ plainMessage f ++
            ['\n'])
        status := 1 }) (c.done 0)

def touch : Tool := fun c =>
  (flagsOf c.arguments).2.foldl (fun r o =>
    match r.tree.lookup c.here ⟨o⟩ with
    | .ok _ => r
    | .error _ =>
      match r.tree.write c.here ⟨o⟩ [] with
      | .ok tree => { r with tree }
      | .error f =>
        { r with
          errors := r.errors ++ Text.Utf8.encode
            ("touch: cannot touch ".toList ++ quote o ++ ": ".toList ++ plainMessage f ++ ['\n'])
          status := 1 }) (c.done 0)

/-! #### Searching and changing lines -/

/-- Which lines are looked for. -/
def pattern? (flags : List Char) (p : List Char) : Option Regex :=
  let alternatives := (Text.splitLines p).mapM fun l =>
    if flags.contains 'F' then some (Regex.literal l) else Regex.parse? (flags.contains 'E') l
  alternatives.map fun
    | [] => .empty
    | r :: rs => rs.foldl .alt r

def grep : Tool := fun c =>
  let (flags, operands) := flagsOf c.arguments
  match operands with
  | [] => c.complain 2 "Usage: grep [OPTION]... PATTERNS [FILE]...".toList
  | p :: files =>
    let lower (s : List Char) := if flags.contains 'i' then s.map Char.toLower else s
    match pattern? flags (lower p) with
    | none => c.complain 2 "grep: Invalid regular expression".toList
    | some regex =>
      let selects (l : List UInt8) : Bool :=
        let s := lower (Text.Utf8.decodeLossy (withoutEnd l))
        let found := if flags.contains 'x' then (regex.ends true s).contains []
          else regex.matchesIn s
        found != flags.contains 'v'
      let name (f : Option (List Char)) : List Char := match f with
        | some f => if files.length > 1 && !flags.contains 'h' then f ++ [':'] else []
        | none => []
      let selected (bytes : List UInt8) := (linesOf bytes).zipIdx.filter (selects ·.1)
      let r := onEach c files 2 (fun f => "grep: ".toList ++ f ++ ": ".toList) fun f bytes =>
        let found := selected bytes
        if flags.contains 'q' then []
        else if flags.contains 'l' then
          if found.isEmpty then [] else Text.Utf8.encode (f.getD "(standard input)".toList ++ ['\n'])
        else if flags.contains 'c' then
          Text.Utf8.encode (name f ++ natText found.length ++ ['\n'])
        else found.flatMap fun (l, i) =>
          Text.Utf8.encode (name f ++ if flags.contains 'n' then natText (i + 1) ++ [':'] else []) ++
            withEnd l
      let texts := if files.isEmpty then [c.input]
        else files.filterMap fun f => (readOperand c f).toOption
      let any := texts.any fun t => !(selected t).isEmpty
      if any && (flags.contains 'q' || r.status = 0) then r.withStatus 0
      else if r.status = 0 then r.withStatus 1 else r

/-- The characters of a set of `tr`, with ranges and backslashes resolved. -/
def charSet : Nat → List Char → List Char
  | 0, _ => []
  | _, [] => []
  | n + 1, '\\' :: c :: s =>
    match escape? c with
    | some b => Char.ofNat b.toNat :: charSet n s
    | none => c :: charSet n s
  | n + 1, '[' :: ':' :: s =>
    let name := s.takeWhile (· ≠ ':')
    let all := (List.range 128).map Char.ofNat
    let members := match String.ofList name with
      | "alpha" => some (all.filter Char.isAlpha)
      | "digit" => some (all.filter Char.isDigit)
      | "alnum" => some (all.filter Char.isAlphanum)
      | "lower" => some (all.filter Char.isLower)
      | "upper" => some (all.filter Char.isUpper)
      | "space" => some [' ', '\t', '\n', '\x0b', '\x0c', '\r']
      | _ => none
    match members with
    | some cs => cs ++ charSet n (s.drop (name.length + 2))
    | none => '[' :: charSet n (':' :: s)
  | n + 1, a :: '-' :: b :: s =>
    ((List.range (b.toNat + 1 - a.toNat)).map fun i => Char.ofNat (a.toNat + i)) ++ charSet n s
  | n + 1, c :: s => c :: charSet n s

def setBytes (s : List Char) : List UInt8 := Text.Utf8.encode (charSet (s.length + 1) s)

/-- Leaves one of several equal bytes of a set in a row. -/
def squeeze (set : List UInt8) : List UInt8 → List UInt8
  | a :: b :: bs => if a = b && set.contains a then squeeze set (b :: bs) else a :: squeeze set (b :: bs)
  | bs => bs

def tr : Tool := fun c =>
  let (flags, operands) := flagsOf c.arguments
  let complement := flags.contains 'c' || flags.contains 'C'
  let members (s : List Char) : List UInt8 :=
    if complement then ((List.range 256).map UInt8.ofNat).filter fun b => !(setBytes s).contains b
    else setBytes s
  let finish (bytes : List UInt8) : Result := { c.say bytes with input := [] }
  match operands with
  | [] => c.complain 1 "tr: missing operand\nTry 'tr --help' for more information.".toList
  | [a] =>
    if flags.contains 'd' then finish (c.input.filter fun b => !(members a).contains b)
    else if flags.contains 's' then finish (squeeze (members a) c.input)
    else
      c.complain 1 ("tr: missing operand after ".toList ++ quote a ++
        ("\nTwo strings must be given when translating.\n" ++
          "Try 'tr --help' for more information.").toList)
  | a :: b :: _ =>
    let source := members a
    let target := setBytes b
    let table := source.zipIdx.map fun (x, i) =>
      (x, (target[i]?).getD ((target.getLast?).getD x))
    let mapped := c.input.map fun x => ((table.filter (·.1 = x)).getLast?.map (·.2)).getD x
    if flags.contains 'd' then finish (squeeze target (c.input.filter fun x => !source.contains x))
    else finish (if flags.contains 's' then squeeze target mapped else mapped)

/-! #### Editing -/

inductive Address where
  | line (n : Nat)
  | last
  | having (r : Regex)

inductive Edit where
  | print
  | delete
  | quit
  | change (r : Regex) (by_ : List Char) (all printed : Bool)

/-- An edit and the lines that it is about. -/
structure Rule where
  first : Option Address
  last : Option Address
  isNegated : Bool
  edit : Edit

def address? (isExtended : Bool) : List Char → Option (Address × List Char)
  | '$' :: s => some (.last, s)
  | '/' :: s => do
    let p := s.takeWhile (· ≠ '/')
    return (.having (← Regex.parse? isExtended p), s.drop (p.length + 1))
  | s =>
    let digits := s.takeWhile Char.isDigit
    (String.ofList digits).toNat?.map fun n => (.line n, s.drop digits.length)

/-- The text up to a delimiter that has no backslash before it. -/
def upTo (d : Char) : List Char → List Char × List Char
  | [] => ([], [])
  | '\\' :: c :: s =>
    let (a, r) := upTo d s
    (if c = d then c :: a else '\\' :: c :: a, r)
  | c :: s => if c = d then ([], s) else ((c :: (upTo d s).1), (upTo d s).2)

def edit? (isExtended : Bool) : List Char → Option (Edit × List Char)
  | 'p' :: s => some (.print, s)
  | 'd' :: s => some (.delete, s)
  | 'q' :: s => some (.quit, s)
  | 's' :: d :: s => do
    let (p, s) := upTo d s
    let (by_, s) := upTo d s
    let flags := s.takeWhile fun c => c = 'g' || c = 'p'
    return (.change (← Regex.parse? isExtended p) by_ (flags.contains 'g') (flags.contains 'p'),
      s.drop flags.length)
  | _ => none

def rules? (isExtended : Bool) : Nat → List Char → Option (List Rule)
  | 0, _ => none
  | n + 1, s => do
    let s := s.dropWhile fun c => c = ' ' || c = ';' || c = '\n'
    if s.isEmpty then return []
    let (first, s) := match address? isExtended s with
      | some (a, s) => (some a, s)
      | none => (none, s)
    let (last, s) ← match s with
      | ',' :: s => do
        let (a, s) ← address? isExtended s
        pure (some a, s)
      | s => pure (none, s)
    let (isNegated, s) := match s with
      | '!' :: s => (true, s)
      | s => (false, s)
    let (edit, s) ← edit? isExtended (s.dropWhile (· = ' '))
    return ⟨first, last, isNegated, edit⟩ :: (← rules? isExtended n s)

def Address.isAt (line : List Char) (number : Nat) (isLast : Bool) : Address → Bool
  | .line n => n = number
  | .last => isLast
  | .having r => r.matchesIn line

/-- Fills in what was found for each plain ampersand. -/
def filled (found : List Char) : List Char → List Char
  | [] => []
  | '\\' :: c :: s => (if c = 'n' then '\n' else c) :: filled found s
  | '&' :: s => found ++ filled found s
  | c :: s => c :: filled found s

/-- Changes the first match in a line, or all. -/
def substitute (r : Regex) (by_ : List Char) (all : Bool) : Nat → Bool → List Char →
    List Char × Bool
  | 0, _, s => (s, false)
  | n + 1, atStart, s =>
    match r.find? atStart s with
    | none => (s, false)
    | some (before, rest) =>
      let found := (s.drop before.length).take (s.length - before.length - rest.length)
      let done := before ++ filled found by_
      if !all then (done ++ rest, true)
      else if found.isEmpty then
        match rest with
        | [] => (done, true)
        | c :: rest => (done ++ c :: (substitute r by_ all n false rest).1, true)
      else (done ++ (substitute r by_ all n false rest).1, true)

/-- What is known of one line while rules are applied to it. -/
structure Editing where
  line : List Char
  printed : List (List Char)
  isDeleted : Bool
  isOver : Bool
  /-- Which rules with two addresses are between them. -/
  inside : List Bool

def applyRule (number : Nat) (isLast : Bool) (e : Editing) (rule : Rule) (index : Nat) : Editing :=
  if e.isDeleted || e.isOver then e
  else
    let wasInside := (e.inside[index]?).getD false
    let (selected, inside) := match rule.first, rule.last with
      | none, _ => (true, false)
      | some a, none => (a.isAt e.line number isLast, false)
      | some a, some b =>
        if wasInside then
          let ended := match b with
            | .line n => decide (n ≤ number)
            | b => b.isAt e.line number isLast
          (true, !ended)
        else if a.isAt e.line number isLast then
          (true, match b with
            | .line n => decide (n > number)
            | .last => !isLast
            | .having _ => true)
        else (false, false)
    let e := { e with inside := e.inside.set index inside }
    if selected == rule.isNegated then e
    else
      match rule.edit with
      | .print => { e with printed := e.printed ++ [e.line] }
      | .delete => { e with isDeleted := true }
      | .quit => { e with isOver := true }
      | .change r by_ all printed =>
        let (line, changed) := substitute r by_ all (e.line.length + 1) true e.line
        { e with
          line
          printed := if changed && printed then e.printed ++ [line] else e.printed }

def editLines (quiet : Bool) (rules : List Rule) :
    Nat → List Bool → List (List UInt8) → List UInt8
  | _, _, [] => []
  | number, inside, l :: ls =>
    let isLast := ls.isEmpty
    let start : Editing := ⟨Text.Utf8.decodeLossy (withoutEnd l), [], false, false, inside⟩
    let e := rules.zipIdx.foldl (fun e (r, i) => applyRule number isLast e r i) start
    let texts := e.printed ++ if quiet || e.isDeleted then [] else [e.line]
    let ending : List UInt8 := if l.getLast? = some newline then [newline] else []
    let out := List.intercalate [newline] (texts.map Text.Utf8.encode) ++
      if texts.isEmpty then [] else ending
    if e.isOver then out else out ++ editLines quiet rules (number + 1) e.inside ls

def sed : Tool := fun c =>
  let (flags, operands) := flagsOf c.arguments
  let isExtended := flags.contains 'E' || flags.contains 'r'
  match operands with
  | [] => c.complain 1 "Usage: sed [OPTION]... \x7bscript-only-if-no-other-script\x7d [input-file]...".toList
  | s :: files =>
    match rules? isExtended (s.length + 1) s with
    | none => c.complain 1 "sed: -e expression #1, char 1: unknown command".toList
    | some rules =>
      let texts := if files.isEmpty then [c.input]
        else files.filterMap fun f => (readOperand c f).toOption
      let out := editLines (flags.contains 'n') rules 1 (rules.map fun _ => false)
        (linesOf texts.flatten)
      let r := onEach c files 2 (fun f => "sed: can't read ".toList ++ f ++ ": ".toList)
        fun _ _ => []
      { r with output := out }

/-! ### All of them -/

def all : List (String × Tool) :=
  [("cat", cat), ("wc", wc), ("head", head), ("tail", tail), ("basename", basename),
   ("dirname", dirname), ("pwd", pwd), ("sleep", sleep), ("echo", echo false), ("printf", printf),
   ("test", test), ("[", bracket), ("ls", ls), ("rm", rm), ("mkdir", mkdir), ("touch", touch),
   ("grep", grep), ("tr", tr), ("sed", sed), ("true", fun c => c.done 0),
   ("false", fun c => c.done 1)]

def named? (n : Name) : Option Tool := all.lookup (String.ofList n)

end Tool

end Notebook.Shell
