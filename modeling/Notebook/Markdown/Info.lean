import Notebook.Markdown.Line

/-!
The language that an info string names, after escapes and entities are resolved.
-/

namespace Notebook.Markdown

/-- Entities by name that stand for a blank or a comma. Those for other characters are kept as
they are written, for no name of a language has such a character. -/
def namedBlanks : List (String × Char) :=
  [("Tab", '\t'), ("NewLine", '\n'), ("nbsp", '\u00A0'), ("NonBreakingSpace", '\u00A0'),
   ("ensp", '\u2002'), ("emsp", '\u2003'), ("emsp13", '\u2004'), ("emsp14", '\u2005'),
   ("numsp", '\u2007'), ("puncsp", '\u2008'), ("thinsp", '\u2009'), ("ThinSpace", '\u2009'),
   ("hairsp", '\u200A'), ("VeryThinSpace", '\u200A'), ("MediumSpace", '\u205F'),
   ("ThickSpace", '\u205F'), ("comma", ',')]

/-- The character of a number; numbers of none stand for the replacement character. -/
def numbered (n : Nat) : Char :=
  if n = 0 || 0x110000 ≤ n || (0xD800 ≤ n && n < 0xE000) then '\uFFFD' else Char.ofNat n

def digitValue (c : Char) : Nat :=
  if c.isDigit then c.toNat - '0'.toNat else c.toLower.toNat - 'a'.toNat + 10

def isHexDigit (c : Char) : Bool :=
  c.isDigit || ('a' ≤ c && c ≤ 'f') || ('A' ≤ c && c ≤ 'F')

def numberIn (base : Nat) (ds : List Char) : Nat := ds.foldl (fun n d => base * n + digitValue d) 0

/-- The character of an entity and what is left after it; the `&` was read. -/
def entity? (s : List Char) : Option (Char × List Char) :=
  let ended (c : Char) (s : List Char) : Option (Char × List Char) :=
    match s with
    | ';' :: s => some (c, s)
    | _ => none
  match s with
  | '#' :: t =>
    let (base, digits, rest) :=
      if (t.head?.any fun c => c = 'x' || c = 'X') then
        let ds := ((t.drop 1).take 6).takeWhile isHexDigit
        (16, ds, t.drop (1 + ds.length))
      else
        let ds := (t.take 7).takeWhile Char.isDigit
        (10, ds, t.drop ds.length)
    if digits.isEmpty then none else ended (numbered (numberIn base digits)) rest
  | _ =>
    let name := s.takeWhile Char.isAlphanum
    match namedBlanks.lookup (String.ofList name) with
    | some c => ended c (s.drop name.length)
    | none => none

def unescape (s : List Char) : List Char :=
  match s with
  | [] => []
  | '\\' :: c :: t => if isPunctuation c then c :: unescape t else '\\' :: unescape (c :: t)
  | '\r' :: t => unescape t
  | '&' :: t =>
    match entity? t with
    | some (c, r) => if r.length < t.length then c :: unescape r else [c]
    | none => '&' :: unescape t
  | c :: t => c :: unescape t
termination_by s.length

/-- The first word of an info string; a comma ends it like a blank. -/
def language (info : List Char) : List Char :=
  (unescape info).takeWhile fun c => !(Text.isBlank c || c = ',')

end Notebook.Markdown
