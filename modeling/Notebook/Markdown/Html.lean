import Notebook.Markdown.Line

/-!
What starts a block of HTML. Some blocks end with a line that has an end mark, the others with a
blank line.
-/

namespace Notebook.Markdown

/-- Whether a text starts with a word, the case of letters aside. -/
def startsWithWord (w : String) (s : List Char) : Bool :=
  (s.take w.length).map Char.toLower = w.toList

/-- Whether the name of a tag ends here. -/
def nameEnds (s : List Char) : Bool := s.head?.all fun c => isAsciiBlank c || c = '>'

def startsTag (w : String) (s : List Char) : Bool := startsWithWord w s && nameEnds (s.drop w.length)

def startsDeclaration : List Char → Bool
  | '!' :: c :: _ => c.isAlpha
  | _ => false

/-- The end mark of a block that goes on up to one; the opening `<` was read. -/
def endMark? (s : List Char) : Option String :=
  if startsTag "pre" s then some "</pre>"
  else if startsTag "style" s then some "</style>"
  else if startsTag "script" s then some "</script>"
  else if startsTag "textarea" s then some "</textarea>"
  else if Text.hasPrefix "!--".toList s then some "-->"
  else if Text.hasPrefix ['?'] s then some "?>"
  else if Text.hasPrefix "![CDATA[".toList s then some "]]>"
  else if startsDeclaration s then some ">"
  else none

/-- The elements that start a block wherever they stand. -/
def blockElements : List String :=
  ["address", "article", "aside", "base", "basefont", "blockquote", "body", "caption", "center",
   "col", "colgroup", "dd", "details", "dialog", "dir", "div", "dl", "dt", "fieldset",
   "figcaption", "figure", "footer", "form", "frame", "frameset", "h1", "h2", "h3", "h4", "h5",
   "h6", "head", "header", "hr", "html", "iframe", "legend", "li", "link", "main", "menu",
   "menuitem", "nav", "noframes", "ol", "optgroup", "option", "p", "param", "search", "section",
   "summary", "table", "tbody", "td", "tfoot", "th", "thead", "title", "tr", "track", "ul"]

/-- What may follow the name of such an element. -/
def elementEnds : List Char → Bool
  | [] => true
  | '/' :: '>' :: _ => true
  | c :: _ => c = ' ' || c = '\t' || c = '\r' || c = '\n' || c = '>'

def withoutSlash : List Char → List Char
  | '/' :: s => s
  | s => s

/-- The tag of such an element; the opening `<` was read. -/
def startsBlockElement (s : List Char) : Bool :=
  let s := withoutSlash s
  let name := s.takeWhile Char.isAlphanum
  blockElements.contains (String.ofList (name.map Char.toLower)) && elementEnds (s.drop name.length)

/-- HTML that ends a paragraph; a tag that is alone on its line does not. -/
def startsHtml : List Char → Bool
  | '<' :: s => (endMark? s).isSome || startsBlockElement s
  | _ => false

/-! ### Whole tags on a line -/

/-- What is left after an attribute name. -/
def attributeName? (s : List Char) : Option (List Char) :=
  match s with
  | c :: t =>
    if c.isAlpha || c = '_' || c = ':' then
      some (t.dropWhile fun c => c.isAlphanum || c = '_' || c = '.' || c = ':' || c = '-')
    else none
  | [] => none

/-- What is left after a value in quotes, which ends on its line. -/
def quotedValue? (quote : Char) (s : List Char) : Option (List Char) :=
  match s.dropWhile fun c => c ≠ quote && !isLineBreak c with
  | c :: t => if c = quote then some t else none
  | [] => none

def isValueChar (c : Char) : Bool :=
  !(c = '\'' || c = '"' || c = ' ' || c = '=' || c = '>' || c = '<' || c = '`' || isLineBreak c)

def attributeValue? (s : List Char) : Option (List Char) :=
  match s with
  | '"' :: t => quotedValue? '"' t
  | '\'' :: t => quotedValue? '\'' t
  | c :: _ => if isValueChar c then some (s.dropWhile isValueChar) else none
  | [] => none

/-- What is left after blanks that do not end the line. -/
def onLine? (s : List Char) : Option (List Char) :=
  let s := s.dropWhile isInlineBlank
  if (lineEnd? s).isSome && !s.isEmpty then none else some s

def attribute? (s : List Char) : Option (List Char) := do
  let named ← attributeName? s
  match ← onLine? named with
  | '=' :: t => attributeValue? (← onLine? t)
  | _ => return named

/-- What is left after the attributes of a tag. Each has a blank in front. -/
def attributes? (s : List Char) : Option (List Char) :=
  let t := s.dropWhile isInlineBlank
  match t with
  | [] => none
  | c :: _ =>
    if isLineBreak c then none
    else if c = '/' || c = '>' then some t
    else if t.length = s.length then none
    else
      match attribute? t with
      | none => none
      | some r => if r.length < s.length then attributes? r else none
termination_by s.length

/-- Whether a tag ends here, and its line with it. -/
def tagEnds : List Char → Bool
  | '>' :: s => (blankLine? s).isSome
  | _ => false

/-- A whole tag that is alone on its line; the opening `<` was read. -/
def isTagLine (s : List Char) : Bool :=
  let closes := s.head? = some '/'
  let s := withoutSlash s
  let name := s.takeWhile Char.isAlpha
  let s := (s.drop name.length).dropWhile fun c => c.isAlphanum || c = '-'
  if name.isEmpty then false
  else
    match if closes then some s else attributes? s with
    | none => false
    | some s =>
      let s := s.dropWhile isInlineBlank
      tagEnds (if closes then s else withoutSlash s)

end Notebook.Markdown
