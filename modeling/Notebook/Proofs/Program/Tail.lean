import Notebook.Program.Shape
import Notebook.Proofs.Syntax.Position
import Notebook.Proofs.Syntax.Sequence
import Notebook.Proofs.Syntax.Spelling

/-!
Where the bare expression stands that closes a cell. The places found for it are where it starts
and where it ends.
-/

namespace Notebook.Program

open Text Syntax
open Lexer (isSpace dropSpace Spells Placed)

namespace Tail

/-- The last statement of a cell that reads as a block. -/
def lastStmt? (cell : List Char) : Option Stmt := (block? (asBlock cell)).bind List.getLast?

/-- The bare expression that closes a cell. -/
def bare? (cell : List Char) : Option Expr := (lastStmt? cell).bind Stmt.bare?

/-- The trees of a statement that belong to the bare expression that it is. -/
def exprTrees (e : Expr) (s : Stmt) : List Tree :=
  if e.leadsVerbatim then s.body else s.attributes ++ s.body

/-- The bare expression `e` closes the cell and stands at `expr`. Only blanks and plain comments
follow it. -/
structure Closing (cell : List Char) (e : Expr) (pre expr post : List Char) : Prop where
  text : cell = pre ++ (expr ++ post)
  read : ∃ s first last, lastStmt? cell = some s ∧ s.bare? = some e ∧
    (exprTrees e s).head? = some first ∧
    first.span.first = Position.start.after ('\x7b' :: '\n' :: pre) ∧
    s.body.getLast? = some last ∧
    last.span.last = Position.start.after ('\x7b' :: '\n' :: (pre ++ expr))
  starts : ∃ c ∈ expr.head?, isSpace c = false
  rest : dropSpace (post ++ ['\n', '\x7d']) = ['\x7d']

section

variable {cell pre expr post : List Char} {e : Expr} {stmts : List Stmt}

theorem dropSpace_nil : dropSpace [] = [] := by
  rw [dropSpace]

theorem dropSpace_brace : dropSpace ['\x7d'] = ['\x7d'] := by
  rw [Lexer.dropSpace_of_none (by rfl)]
  rfl

/-- The text between the braces of the block that a cell is read as. -/
theorem trees?_inner {inner : List Tree} {span : Span}
    (h : Lexer.trees? (asBlock cell) = some [.group .brace inner span]) :
    ∃ p, Spells (Position.start.next '\x7b') ('\n' :: (cell ++ ['\n', '\x7d'])) inner p
      ['\x7d'] := by
  obtain ⟨q, hs⟩ := Lexer.trees?_spells h
  have hblock : (dropPrefix? ['\uFEFF'] (asBlock cell)).getD (asBlock cell) =
      '\x7b' :: '\n' :: (cell ++ ['\n', '\x7d']) := rfl
  rw [hblock] at hs
  obtain ⟨p, c, t, hin, -, ht⟩ := hs.group_inv rfl
  obtain ⟨u, hu, -⟩ := hin.text
  have hsuffix : t <:+ '\n' :: cell ++ ['\n'] ++ ['\x7d'] := ⟨u ++ [c], by simp [hu]⟩
  -- nothing but the brace can stand last, as neither a comment nor a blank can take it
  have hnil : t = [] := by
    rcases List.suffix_concat_iff.1 hsuffix with rfl | ⟨t, rfl, h⟩
    · rfl
    · rw [dropSpace_nil] at ht
      rcases List.suffix_concat_iff.1 h with rfl | ⟨t, rfl, -⟩
      · rw [List.nil_append, dropSpace_brace] at ht
        cases ht
      · rw [List.append_assoc] at ht
        exact absurd ht (Lexer.dropSpace_ne_nil (d := '\x7d') (by decide) (by decide) t)
  subst hnil
  have hc : c = '\x7d' := by
    have hconcat : u ++ [c] = '\n' :: cell ++ ['\n'] ++ ['\x7d'] := by simp [hu]
    exact List.singleton_inj.1 (List.append_inj' hconcat rfl).2
  subst hc
  exact ⟨p, hin⟩

/-- The trees between the braces of the block that a cell is read as. -/
theorem inner_spells (h : block? (asBlock cell) = some stmts) :
    ∃ inner p, (Parser.statements (.depth (2 * Tree.size.sizes inner + 5))).run inner =
      some (stmts, []) ∧
      Spells (Position.start.next '\x7b') ('\n' :: (cell ++ ['\n', '\x7d'])) inner p ['\x7d'] := by
  obtain ⟨ts, hts, h⟩ := Option.bind_eq_some_iff.1 h
  have hrun : (Parser.block (.depth (enoughDepth ts))).run ts = some (stmts, []) := by
    split at h <;> cases h
    assumption
  obtain ⟨inner, span, rfl, hinner⟩ := Parser.run_within_eq_some.1 hrun
  obtain ⟨p, hin⟩ := trees?_inner hts
  exact ⟨inner, p, hinner, hin⟩

theorem getLast?_exprTrees {s : Stmt} (hbody : s.body ≠ []) :
    (exprTrees e s).getLast? = s.body.getLast? := by
  unfold exprTrees
  split
  · rfl
  · exact List.getLast?_append_of_ne_nil _ hbody

theorem exprTrees_suffix (e : Expr) (s : Stmt) :
    ∃ before, s.attributes ++ s.body = before ++ exprTrees e s := by
  unfold exprTrees
  split
  · exact ⟨s.attributes, rfl⟩
  · exact ⟨[], rfl⟩

theorem closing_of_bare? (h : bare? cell = some e) :
    ∃ pre expr post, Closing cell e pre expr post := by
  obtain ⟨s, hs, he⟩ := Option.bind_eq_some_iff.1 h
  obtain ⟨stmts, hblock, hstmts⟩ := Option.bind_eq_some_iff.1 hs
  obtain ⟨inner, p, hrun, hin⟩ := inner_spells hblock
  obtain ⟨⟨before, hbefore⟩, hbody⟩ := Parser.run_statements_last hrun hstmts
  obtain ⟨before', htrees⟩ := exprTrees_suffix e s
  rw [htrees, ← List.append_assoc] at hbefore
  have hlast := getLast?_exprTrees (e := e) hbody
  have hne : exprTrees e s ≠ [] := by
    rw [← List.getLast?_isSome, hlast, List.getLast?_isSome]
    exact hbody
  obtain ⟨a, m, b, hp⟩ := hin.placed hbefore hne
  obtain ⟨pre, post, rfl, rfl, htext⟩ := hp.between
  obtain ⟨first, hfirst⟩ := Option.isSome_iff_exists.1 (List.isSome_head?.2 hne)
  obtain ⟨last, hlast'⟩ := Option.isSome_iff_exists.1 (List.getLast?_isSome.2 hbody)
  refine ⟨pre, m, post, htext, ⟨s, first, last, hs, he, hfirst, ?_, hlast', ?_⟩, ?_, ?_⟩
  · exact hp.first first hfirst
  · exact hp.last last (hlast.trans hlast')
  · cases m with
    | nil => cases hp.stops.pos
    | cons c m => exact ⟨c, rfl, hp.starts c rfl⟩
  · have hrest := hp.rest
    rwa [dropSpace_brace, List.append_assoc] at hrest

/-- The brace has the first line to itself, so the cell starts on the second. -/
theorem after_brace (pre : List Char) :
    Position.start.after ('\x7b' :: '\n' :: pre) = ⟨pre.count '\n' + 2, lastColumn pre⟩ := by
  rw [Nat.add_comm]
  exact Position.after_eq 2 pre

theorem offset?_after (pre rest : List Char) :
    offset? (pre ++ rest) (Position.start.after ('\x7b' :: '\n' :: pre)) = some pre.length := by
  have hline : ¬ pre.count '\n' + 2 < 2 := by omega
  rw [after_brace, offset?, if_neg hline, Nat.add_sub_cancel, offsetOf?_append]

theorem of?_eq (cell : List Char) : of? cell = (lastStmt? cell).bind (ofStmt? cell) := by
  rw [lastStmt?, Option.bind_assoc]
  rfl

theorem Closing.of?_eq (h : Closing cell e pre expr post) :
    of? cell = some ⟨pre.length, (pre ++ expr).length, Program.hasValue e.form⟩ := by
  obtain ⟨s, first, last, hs, he, hfirst, hstart, hlast, hstop⟩ := h.read
  have hstart' : offset? cell first.span.first = some pre.length := by
    rw [hstart, h.text, offset?_after]
  have hstop' : offset? cell last.span.last = some (pre ++ expr).length := by
    rw [hstop, h.text, ← List.append_assoc, offset?_after]
  unfold exprTrees at hfirst
  simp only [Tail.of?_eq, hs, ofStmt?, he, Option.bind_eq_bind, Option.bind_some, hfirst, hlast,
    hstart', hstop']
  rfl

theorem of?_eq_none (h : bare? cell = none) : of? cell = none := by
  rw [of?_eq, Option.bind_eq_none_iff]
  intro s hs
  have he : s.bare? = none := Option.bind_eq_none_iff.1 h s hs
  rw [ofStmt?, he]
  rfl

theorem bare?_of_of? {t : Tail} (h : of? cell = some t) :
    ∃ e, bare? cell = some e ∧ t.hasValue = Program.hasValue e.form := by
  cases he : bare? cell with
  | none =>
    rw [of?_eq_none he] at h
    cases h
  | some e =>
    obtain ⟨pre, expr, post, hclosing⟩ := closing_of_bare? he
    rw [hclosing.of?_eq] at h
    cases h
    exact ⟨e, rfl, rfl⟩

end

/-! ### In bytes -/

/-- Where a place in the block lies in the cell, in bytes. -/
def byteOffset? (cell : List Char) (p : Position) : Option Nat :=
  if p.line < 2 then none else byteOffsetOf? cell (p.line - 2) p.column

/-- The bare expression that closes a cell, by bytes. -/
def inBytes? (cell : List Char) : Option Tail := do
  let s ← lastStmt? cell
  let e ← s.bare?
  let first ← (exprTrees e s).head?
  let last ← s.body.getLast?
  return ⟨← byteOffset? cell first.span.first, ← byteOffset? cell last.span.last,
    Program.hasValue e.form⟩

theorem byteOffset?_eq (cell : List Char) (p : Position) :
    byteOffset? cell p = (offset? cell p).map fun n => Utf8.size (cell.take n) := by
  rw [byteOffset?, offset?]
  split
  · rfl
  · exact byteOffsetOf?_eq cell _ _

theorem byteOffset?_after (pre rest : List Char) :
    byteOffset? (pre ++ rest) (Position.start.after ('\x7b' :: '\n' :: pre)) =
      some (Utf8.size pre) := by
  rw [byteOffset?_eq, offset?_after, Option.map_some, List.take_left]

theorem inBytes?_eq (cell : List Char) : inBytes? cell = (of? cell).map fun t =>
    ⟨Utf8.size (cell.take t.start), Utf8.size (cell.take t.stop), t.hasValue⟩ := by
  rw [of?_eq, inBytes?]
  cases lastStmt? cell with
  | none => rfl
  | some s =>
    rw [Option.bind_eq_bind, Option.bind_some, Option.bind_some, ofStmt?]
    unfold exprTrees
    cases s.bare? with
    | none => rfl
    | some e =>
      simp only [Option.bind_eq_bind, Option.bind_some]
      cases (if e.leadsVerbatim then s.body else s.attributes ++ s.body).head? with
      | none => rfl
      | some first =>
        cases s.body.getLast? with
        | none => rfl
        | some last =>
          simp only [Option.bind_some, byteOffset?_eq]
          cases offset? cell first.span.first <;> cases offset? cell last.span.last <;> rfl

theorem Closing.inBytes?_eq {cell pre expr post : List Char} {e : Expr}
    (h : Closing cell e pre expr post) :
    inBytes? cell = some ⟨Utf8.size pre, Utf8.size (pre ++ expr), Program.hasValue e.form⟩ := by
  have hstart : cell.take pre.length = pre := by rw [h.text, List.take_left]
  have hstop : cell.take (pre ++ expr).length = pre ++ expr := by
    rw [h.text, ← List.append_assoc, List.take_left]
  rw [Tail.inBytes?_eq, h.of?_eq, Option.map_some]
  dsimp only
  rw [hstart, hstop]

end Tail

end Notebook.Program
