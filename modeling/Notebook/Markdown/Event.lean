import Notebook.Markdown.Block
import Notebook.Markdown.Info

/-!
What a text is made of, told from its front on: an element is told by its start, what is inside of
it, and its end.
-/

namespace Notebook.Markdown

/-- A part of a text, by the characters before its first and before what follows it. -/
structure Extent where
  first : Nat
  stop : Nat
  deriving DecidableEq, Repr

inductive Tag where
  | fenced (info : List Char)
  | other
  deriving DecidableEq, Repr

inductive Event where
  | start (tag : Tag)
  | finish
  | text (s : List Char)
  | other
  deriving DecidableEq, Repr

/-- An event with the part of the text that it is about. -/
structure Notice where
  event : Event
  extent : Extent
  deriving DecidableEq, Repr

/-- The first word of an info string in which all escapes have been resolved. -/
def firstWord (info : List Char) : List Char :=
  info.takeWhile fun c => !(Text.isBlank c || c = ',')

def Tag.isRust : Tag → Bool
  | fenced info => firstWord info = "rust".toList
  | other => false

inductive Element where
  | nested (tag : Tag) (extent : Extent) (inner : List Element)
  | text (s : List Char) (extent : Extent)
  | other (extent : Extent)

namespace Element

def extent : Element → Extent
  | nested _ e _ | text _ e | other e => e

/-- The events that tell of an element. -/
def notices : Element → List Notice
  | nested tag e inner => ⟨.start tag, e⟩ :: noticesOf inner ++ [⟨.finish, e⟩]
  | text s e => [⟨.text s, e⟩]
  | other e => [⟨.other, e⟩]
where
  noticesOf : List Element → List Notice
    | [] => []
    | x :: xs => x.notices ++ noticesOf xs

/-- The text in an element, at any depth. -/
def content : Element → List Char
  | nested _ _ inner => contentOf inner
  | text s _ => s
  | other _ => []
where
  contentOf : List Element → List Char
    | [] => []
    | x :: xs => x.content ++ contentOf xs

/-- The extent and the text of a fenced block of Rust. -/
def rust? : Element → Option (Extent × List Char)
  | nested tag e inner => if tag.isRust then some (e, content.contentOf inner) else none
  | _ => none

/-- Elements that follow each other in a text. -/
def Ordered (text : List Char) (xs : List Element) : Prop :=
  (∀ x ∈ xs, x.extent.first ≤ x.extent.stop ∧ x.extent.stop ≤ text.length) ∧
    xs.Pairwise fun x y => x.extent.stop ≤ y.extent.first

end Element

/-- A fenced block of a text as an element of it. -/
def FencedBlock.element (text : List Char) (b : FencedBlock) : Element :=
  let e : Extent := ⟨text.length - b.opening.length, text.length - b.closing.length⟩
  .nested (.fenced (unescape b.info)) e [.text b.code e]

/-- The fenced blocks outside of all containers as elements. -/
def elements (text : List Char) : List Element := (blocks text).map (·.element text)

end Notebook.Markdown
