import Notebook.Markdown.Html

/-!
What ends a paragraph, and the definitions of link references that may stand in place of one.
-/

namespace Notebook.Markdown

/-- A line that ends the paragraph above it. -/
def interrupts (sameContainer : Bool) (s : List Char) : Bool :=
  (lineEnd? s).isSome || (rule? s).isSome || (heading? s).isSome || (fence? s).isSome ||
  s.head? = some '>' || itemInterrupts sameContainer s || startsHtml s

/-- Where the text of the next line starts, if it goes on with a definition. The line must not
underline text in the same containers, or in any if it is `strict`. -/
def continued? (stack : List Container) (strict : Bool) (s : List Char) : Option (List Char) :=
  let (entered, l) := Container.enterAll stack (.of s)
  match l.blanks 4 with
  | (0, l) => some l.rest
  | (_, l) =>
    if interrupts (entered = stack) l.rest ||
        (strict || entered = stack) && (underline? l.rest).isSome then
      none
    else some l.rest

/-- What is left after the label of a definition, the opening bracket of which was read. Of `length`
there are fewer than a thousand characters; one line may end in each run of blanks. -/
def afterLabel? (stack : List Container) (length : Nat) (blank broken : Bool) (s : List Char) :
    Option (List Char) :=
  if length ≥ 1000 then none
  else
    match s with
    | [] => none
    | '[' :: _ => none
    | ']' :: t => if blank then none else some t
    | ['\\'] => none
    | '\\' :: _ :: t => afterLabel? stack (length + 2) false false t
    | c :: t =>
      if isLineBreak c then
        if broken then none
        else
          match (lineEnd? (c :: t)).bind (continued? stack false) with
          | none => none
          | some r =>
            if r.length < (c :: t).length then
              afterLabel? stack (length + ((c :: t).length - r.length)) blank true r
            else none
      else if isInlineBlank c then afterLabel? stack (length + 1) blank broken t
      else afterLabel? stack (length + 1) false false t
termination_by s.length
decreasing_by all_goals simp only [List.length_cons] at *; omega

/-- What is left after blanks with at most one line end, and whether there was one. -/
def gap? (stack : List Container) (s : List Char) : Option (List Char × Bool) :=
  let s := s.dropWhile isInlineBlank
  match lineEnd? s with
  | none => some (s, false)
  | some t =>
    match (continued? stack true t).map (·.dropWhile isInlineBlank) with
    | none => none
    | some r => if (lineEnd? r).isSome then none else some (r, true)

/-- What is left after a destination in angle brackets. -/
def afterAngled? : List Char → Option (List Char)
  | [] => none
  | '>' :: s => some s
  | '\\' :: c :: s =>
    if isPunctuation c then afterAngled? s else afterAngled? (c :: s)
  | c :: s => if isLineBreak c || c = '<' then none else afterAngled? s

/-- What is left after a destination without blanks, in which parentheses match. -/
def afterBare? (nest : Nat) : List Char → Option (List Char)
  | [] => if nest = 0 then some [] else none
  | '\\' :: c :: s =>
    if isPunctuation c then afterBare? nest s else afterBare? nest (c :: s)
  | c :: s =>
    if c.toNat ≤ 32 then (if nest = 0 then some (c :: s) else none)
    else if c = '(' then (if nest > 32 then none else afterBare? (nest + 1) s)
    else if c = ')' then (if nest = 0 then some (c :: s) else afterBare? (nest - 1) s)
    else afterBare? nest s

def bare? (s : List Char) : Option (List Char) :=
  (afterBare? 0 s).filter fun r => r.length < s.length

def destination? (s : List Char) : Option (List Char) :=
  match s with
  | '<' :: t => afterAngled? t
  | _ => bare? s

/-- What is left after a title up to its closing mark. -/
def afterTitle? (stack : List Container) (close : Char) (s : List Char) : Option (List Char) :=
  match s with
  | [] => none
  | ['\\'] => none
  | '\\' :: _ :: t => afterTitle? stack close t
  | c :: t =>
    if c = close then some t
    else if c = '(' && close = ')' then none
    else if isLineBreak c then
      match (lineEnd? (c :: t)).bind (continued? stack false) with
      | none => none
      | some r => if r.length < (c :: t).length then afterTitle? stack close r else none
    else afterTitle? stack close t
termination_by s.length
decreasing_by all_goals simp only [List.length_cons] at *; omega

def title? (stack : List Container) (s : List Char) : Option (List Char) :=
  match s with
  | '"' :: t => afterTitle? stack '"' t
  | '\'' :: t => afterTitle? stack '\'' t
  | '(' :: t => afterTitle? stack ')' t
  | _ => none

/-- What is left after a definition that may have a title after its destination. -/
def titled? (stack : List Container) (plain : List Char) : Option (List Char) :=
  match gap? stack plain with
  | none => some plain
  | some (t, broken) =>
    let broken := broken || plain.isEmpty
    if t.length = plain.length && !broken then none
    else
      match title? stack t with
      | some r =>
        if (blankLine? r).isSome then some r
        else if broken then some plain
        else none
      | none => if broken then some plain else none

/-- What is left after a destination and possibly a title, after which nothing else stands on the
line. -/
def target? (stack : List Container) (s : List Char) : Option (List Char) :=
  match gap? stack s with
  | none => none
  | some (s, _) => (destination? s).bind (titled? stack)

def afterColon? : List Char → Option (List Char)
  | ':' :: s => some s
  | _ => none

/-- What is left after the definition of a reference: a label and its target. -/
def definition? (stack : List Container) (s : List Char) : Option (List Char) :=
  match s with
  | '[' :: s => ((afterLabel? stack 0 true false s).bind afterColon?).bind (target? stack)
  | _ => none

end Notebook.Markdown
