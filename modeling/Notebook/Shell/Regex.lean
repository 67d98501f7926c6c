/-!
Patterns that lines are searched for.
-/

namespace Notebook.Shell

inductive Regex where
  | empty
  | char (c : Char)
  | any
  | set (isNegated : Bool) (ranges : List (Char × Char))
  | lineStart
  | lineEnd
  | seq (a b : Regex)
  | alt (a b : Regex)
  | star (a : Regex)
  deriving DecidableEq, Repr

namespace Regex

def plus (r : Regex) : Regex := .seq r (.star r)

def optional (r : Regex) : Regex := .alt r .empty

def inRanges (c : Char) (rs : List (Char × Char)) : Bool := rs.any fun r => r.1 ≤ c && c ≤ r.2

/-- All that can be left of a line after a match at its front, a longer match first. -/
def ends (atStart : Bool) : Regex → List Char → List (List Char)
  | empty, s => [s]
  | char c, d :: s => if c = d then [s] else []
  | any, _ :: s => [s]
  | set isNegated ranges, d :: s => if inRanges d ranges != isNegated then [s] else []
  | lineStart, s => if atStart then [s] else []
  | lineEnd, [] => [[]]
  | seq a b, s => (a.ends atStart s).flatMap fun t => b.ends (atStart && t.length = s.length) t
  | alt a b, s => (a.ends atStart s ++ b.ends atStart s).eraseDups
  | star a, s => again (fun start t => a.ends start t) s.length atStart s
  | _, _ => []
where
  /-- Matches as often as the line lets it. -/
  again (step : Bool → List Char → List (List Char)) :
      Nat → Bool → List Char → List (List Char)
    | 0, _, s => [s]
    | n + 1, start, s =>
      let shorter := (step start s).filter (·.length < s.length)
      (shorter.flatMap (again step n false) ++ [s]).eraseDups

/-- What is left after the longest match at the front. -/
def longest? (r : Regex) (atStart : Bool) (s : List Char) : Option (List Char) :=
  (r.ends atStart s).foldl (fun best t =>
    match best with
    | none => some t
    | some b => if t.length < b.length then some t else some b) none

/-- The first match in a line: what stands before it, and what is left after it. -/
def find? (r : Regex) : Bool → List Char → Option (List Char × List Char)
  | atStart, s =>
    match r.longest? atStart s with
    | some t => some ([], t)
    | none =>
      match s with
      | [] => none
      | c :: s => (r.find? false s).map fun (a, t) => (c :: a, t)

def matchesIn (r : Regex) (s : List Char) : Bool := (r.find? true s).isSome

def literal : List Char → Regex
  | [] => empty
  | [c] => char c
  | c :: s => seq (char c) (literal s)

/-! ### Reading patterns -/

/-- The members of a set up to its closing bracket. -/
def setMembers : Nat → List (Char × Char) → List Char → Option (List (Char × Char) × List Char)
  | 0, _, _ => none
  | n + 1, acc, s =>
    match s with
    | [] => none
    | ']' :: s => if acc.isEmpty then setMembers n [(']', ']')] s else some (acc, s)
    | a :: '-' :: b :: s =>
      if b = ']' then setMembers n (acc ++ [(a, a)]) ('-' :: b :: s)
      else setMembers n (acc ++ [(a, b)]) s
    | c :: s => setMembers n (acc ++ [(c, c)]) s

/-- What an operator is in one of the two ways to write patterns: the extended way has plain
operators, the basic one puts a backslash before them. -/
def operator? (isExtended : Bool) : List Char → Option (Char × List Char)
  | '\\' :: c :: s => if !isExtended && "()|+?".toList.contains c then some (c, s) else none
  | c :: s => if isExtended && "()|+?".toList.contains c then some (c, s) else none
  | [] => none

mutual

def alternatives (isExtended : Bool) : Nat → List Char → Option (Regex × List Char)
  | 0, _ => none
  | n + 1, s => do
    let (a, s) ← sequence isExtended n true s
    match operator? isExtended s with
    | some ('|', s) =>
      let (b, s) ← alternatives isExtended n s
      return (alt a b, s)
    | _ => return (a, s)

def sequence (isExtended : Bool) : Nat → Bool → List Char → Option (Regex × List Char)
  | 0, _, _ => none
  | n + 1, isFirst, s =>
    match s, operator? isExtended s with
    | [], _ => some (empty, [])
    | _, some ('|', _) => some (empty, s)
    | _, some (')', _) => some (empty, s)
    | _, _ => do
      let (a, s) ← atom isExtended n isFirst s
      let (a, s) := repeats isExtended s.length a s
      let (b, s) ← sequence isExtended n false s
      return (if b = empty then a else seq a b, s)

def atom (isExtended : Bool) : Nat → Bool → List Char → Option (Regex × List Char)
  | 0, _, _ => none
  | n + 1, isFirst, s =>
    match operator? isExtended s with
    | some ('(', s) => do
      let (a, s) ← alternatives isExtended n s
      match operator? isExtended s with
      | some (')', s) => return (a, s)
      | _ => none
    | some (c, s) => some (char c, s)
    | none =>
      match s with
      | '.' :: s => some (any, s)
      | '[' :: '^' :: s => (setMembers (s.length + 1) [] s).map fun (rs, s) => (set true rs, s)
      | '[' :: s => (setMembers (s.length + 1) [] s).map fun (rs, s) => (set false rs, s)
      | '^' :: s => some (if isFirst || isExtended then lineStart else char '^', s)
      | '$' :: s =>
        let isLast := s.isEmpty || isExtended || (operator? isExtended s).isSome
        some (if isLast then lineEnd else char '$', s)
      | '\\' :: c :: s => some (char c, s)
      | ['\\'] => none
      | c :: s => some (char c, s)
      | [] => none

/-- The marks of repetition behind an atom. -/
def repeats (isExtended : Bool) : Nat → Regex → List Char → Regex × List Char
  | 0, a, s => (a, s)
  | n + 1, a, s =>
    match s with
    | '*' :: s => repeats isExtended n (star a) s
    | s =>
      match operator? isExtended s with
      | some ('+', s) => repeats isExtended n (plus a) s
      | some ('?', s) => repeats isExtended n (optional a) s
      | _ => (a, s)

end

def parse? (isExtended : Bool) (s : List Char) : Option Regex :=
  match alternatives isExtended (4 * s.length + 4) s with
  | some (r, []) => some r
  | _ => none

end Regex

end Notebook.Shell
