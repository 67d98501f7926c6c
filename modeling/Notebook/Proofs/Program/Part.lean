import Notebook.Proofs.Program.Shape
import Notebook.Proofs.Syntax.Piece
import Notebook.Proofs.Syntax.Settled

/-!
What becomes of the statements of a cell where other text stands around it.
-/

namespace Notebook.Program

open Text Syntax
open Lexer (Spells Exchange docTrees)
open Tail (asBlock Closing)

section

variable {cell pre expr post : List Char} {stmts : List Stmt} {s : Stmt} {e : Expr}
  {p q : Position} {b r : List Char} {x inner : List Tree}

/-- Blanks and comments start at an edge. -/
theorem edge_of_spells (h : Spells p b [] q r) (hb : b ≠ r) : Literal.Edge b := by
  obtain ⟨m, t, ds, x, rfl, hts, hm, -⟩ := h.uncons hb
  obtain ⟨rfl, rfl⟩ := List.append_eq_nil_iff.1 hts.symm
  generalize hds : ([] : List Tree) = ds at hm
  cases hm with
  | @item c v _ i h hi hv =>
    refine Literal.edge_cons.2 ?_
    rcases Lexer.item?_cases h hi with ⟨rfl, -⟩ | ⟨hspace, -⟩ | ⟨l, n, -, rfl⟩
    · decide
    · exact Lexer.isEdge_of_isSpace hspace
    · cases hds
  | group => cases hds

theorem isEnd_of_anchor {t : Tree} (h : Anchor t) : Lexer.isEnd t = true := by
  cases h <;> rfl

/-- No documentation comment stands after the bare expression that closes a text. -/
theorem no_doc_last {n : Nat} {inner' : Bool} {span : Span}
    (h : Parser.Reaches (.depth n) inner stmts []) (hs : stmts.getLast? = some s)
    (he : s.bare?.isSome = true) : inner ≠ x ++ docTrees inner' span := by
  rintro rfl
  obtain ⟨ss, rfl⟩ := List.getLast?_eq_some_iff.1 hs
  obtain ⟨y, hss, hlast⟩ := h.split
  obtain ⟨w, hw⟩ := hss.suffix
  have hstep : Parser.Step (.depth n) y s [] := by
    cases hlast with
    | cons hs h => cases h; exact hs
  have hy : y = s.attributes ++ s.body := by simpa using hstep.text.1
  have hsettled : settled y = true := hy ▸ hstep.settled he
  have hdoc : settled (docTrees inner' span) = false := by cases inner' <;> rfl
  have hne : y ≠ [] := by simp [hy, hstep.text.2]
  rw [← hw] at hss
  rcases List.append_eq_append_iff.1 hw with ⟨a, -, ha⟩ | ⟨a, rfl, ha⟩
  · rw [ha] at hsettled
    rw [settled_of_append hsettled] at hdoc
    cases hdoc
  · by_cases hnil : a = []
    · rw [ha, hnil, List.nil_append, hsettled] at hdoc
      cases hdoc
    · -- the statement before would end with the number sign
      obtain ⟨t, ht, hend⟩ := Lexer.isEnd_of_docTrees ha.symm hnil hne
      have hanchor := hss.ends hne t (by rw [List.getLast?_append, ht]; rfl)
      rw [isEnd_of_anchor hanchor] at hend
      cases hend

/-- The statements of a cell, and the trees between the braces that they are read from. -/
structure Reads (cell : List Char) (stmts : List Stmt) (inner : List Tree) : Prop where
  block : block? (asBlock cell) = some stmts
  reaches : Parser.Reaches (.depth (2 * Tree.size.sizes inner + 5)) inner stmts []
  spells : Spells (Position.start.next '\x7b') ('\n' :: cell ++ ['\n', '\x7d']) inner
    ((Position.start.next '\x7b').after ('\n' :: cell)) ['\n', '\x7d']

theorem reads_of_block? (h : block? (asBlock cell) = some stmts) :
    ∃ inner, Reads cell stmts inner := by
  obtain ⟨inner, p, hrun, hin⟩ := Tail.inner_spells h
  exact ⟨inner, h, (Parser.run_statements.1 hrun).2,
    Spells.before_feed (u := '\n' :: cell) (by simpa using hin)⟩

theorem Reads.bare?_eq (h : Reads cell stmts inner) :
    Tail.bare? cell = stmts.getLast?.bind Stmt.bare? := by
  rw [Tail.bare?, Tail.lastStmt?, h.block, Option.bind_some]

theorem Tail.Closing.last (hr : Reads cell stmts inner) (hc : Closing cell e pre expr post) :
    ∃ s, stmts.getLast? = some s ∧ s.bare? = some e ∧
      (∃ before, inner = before ++ Tail.exprTrees e s) ∧ s.body ≠ [] ∧
      (∀ t ∈ (Tail.exprTrees e s).head?,
        t.span.first = (Position.start.next '\x7b').after ('\n' :: pre)) ∧
      ∀ t ∈ inner.getLast?,
        t.span.last = (Position.start.next '\x7b').after ('\n' :: (pre ++ expr)) := by
  obtain ⟨s, first, last, hs, he, hfirst, hstart, hlast, hstop⟩ := hc.read
  rw [Tail.lastStmt?, hr.block, Option.bind_some] at hs
  obtain ⟨⟨before, hbefore⟩, hbody⟩ :=
    Parser.run_statements_last (Parser.run_statements.2 ⟨rfl, hr.reaches⟩) hs
  obtain ⟨before', htrees⟩ := Tail.exprTrees_suffix e s
  refine ⟨s, hs, he, ⟨before ++ before', ?_⟩, hbody, ?_, ?_⟩
  · rw [hbefore, htrees, List.append_assoc]
  · rintro t ht
    rw [hfirst] at ht
    cases ht
    exact hstart
  · rintro t ht
    rw [hbefore, ← List.append_assoc, List.getLast?_append_of_ne_nil _ hbody, hlast] at ht
    cases ht
    exact hstop

/-- The last piece of a cell that closes with a bare expression. -/
theorem Reads.parted (h : Reads cell stmts inner) (hc : Closing cell e pre expr post) :
    ∃ u m x ds, '\n' :: (pre ++ expr) = u ++ m ∧ inner = x ++ ds ∧ ds ≠ [] ∧
      (∀ inner' span, ds ≠ docTrees inner' span) ∧
      Spells (Position.start.next '\x7b') (u ++ (m ++ (post ++ ['\n', '\x7d']))) x
        ((Position.start.next '\x7b').after u) (m ++ (post ++ ['\n', '\x7d'])) ∧
      Lexer.Piece ((Position.start.next '\x7b').after u) m (post ++ ['\n', '\x7d']) ds ∧
      ∃ q', Spells ((Position.start.next '\x7b').after (u ++ m)) (post ++ ['\n', '\x7d']) [] q'
        ['\n', '\x7d'] := by
  obtain ⟨s, hs, he, ⟨before, hbefore⟩, hbody, -, hstop⟩ := hc.last h
  have hne : inner ≠ [] := by
    rintro rfl
    have hnil := (List.append_eq_nil_iff.1 hbefore.symm).2
    have := Tail.getLast?_exprTrees (e := e) hbody
    rw [hnil, List.getLast?_nil, eq_comm, List.getLast?_eq_none_iff] at this
    exact hbody this
  obtain ⟨u, m, b, x, ds, htext, rfl, hds, hx, hm, hb⟩ := h.spells.last hne
  have hspan : ∀ t ∈ ds.getLast?, t.span.last = (Position.start.next '\x7b').after (u ++ m) := by
    intro t ht
    rw [hm.span (List.mem_of_getLast? ht), Position.after_append]
  have hcut : u ++ m = '\n' :: (pre ++ expr) := by
    obtain ⟨t, ht⟩ := Option.isSome_iff_exists.1 (List.getLast?_isSome.2 hds)
    have hstop := hstop t (by rw [List.getLast?_append, ht]; rfl)
    rw [hspan t ht] at hstop
    have hcell : u ++ m ++ (b ++ ['\n', '\x7d']) =
        '\n' :: (pre ++ expr) ++ (post ++ ['\n', '\x7d']) := by
      rw [List.append_assoc, ← htext, hc.text]
      simp
    exact Position.after_inj hcell hstop
  obtain rfl : b = post := by
    rw [hc.text, ← List.append_assoc u, hcut] at htext
    simpa using htext.symm
  rw [htext] at hx
  exact ⟨u, m, x, ds, hcut.symm, rfl, hds,
    fun inner' span hdoc => no_doc_last h.reaches hs (by rw [he]; rfl) (by rw [hdoc]), hx, hm, _,
    hb⟩

theorem exchange_feed (r r' : List Char) : Exchange ('\n' :: r) ('\n' :: r') :=
  ⟨Literal.edge_cons.2 (by decide), Literal.edge_cons.2 (by decide), by simp, id⟩

/-- A text before a line end is read the same before another. -/
theorem spells_before_feed {u r : List Char}
    (h : Spells p (u ++ '\n' :: r) x q ('\n' :: r)) (p' : Position) (r' : List Char) :
    ∃ z, Spells p' (u ++ '\n' :: r') z (p'.after u) ('\n' :: r') ∧
      List.Forall₂ Tree.Same x z :=
  Spells.exchange (w := []) (exchange_feed r r') (fun _ _ => rfl) rfl h p'

theorem Reads.ended (h : Reads cell stmts inner) (hc : Closing cell e pre expr post)
    (p' : Position) (r' : List Char) :
    ∃ z j a, Spells p' ('\n' :: terminated cell ++ '\n' :: r') (z ++ [.mark ';' j a])
      (p'.after ('\n' :: terminated cell)) ('\n' :: r') ∧ Track [] [] inner z := by
  obtain ⟨u, m, x, ds, hcut, rfl, hds, hdoc, hx, hm, q, hpost⟩ := h.parted hc
  have hexchange : Exchange (post ++ ['\n', '\x7d']) (';' :: (post ++ '\n' :: r')) := by
    refine ⟨?_, Literal.edge_cons.2 (by decide), by simp, fun h => by cases h⟩
    cases post with
    | nil => exact Literal.edge_cons.2 (by decide)
    | cons c post => exact edge_of_spells hpost fun h => by simpa using congrArg List.length h
  obtain ⟨z, hz, htrack⟩ := hx.exchange_last hexchange hm hds hdoc p'
  have hmark : Lexer.item? ';' (post ++ '\n' :: r') =
      some (.leaf (.mark ';' (Lexer.markChar? (post ++ '\n' :: r')).isSome) 1) := by
    rw [Lexer.item?_of_leaf (by decide) rfl rfl rfl, Lexer.leaf?_of_isMark rfl (by decide) rfl]
    rfl
  obtain ⟨ys, hys, hall⟩ := spells_before_feed hpost ((p'.after (u ++ m)).next ';') r'
  obtain rfl := List.forall₂_nil_left_iff.1 hall
  have hspells := hz.append (Spells.of_item (v := []) hmark rfl rfl hys)
  refine ⟨z, (Lexer.markChar? (post ++ '\n' :: r')).isSome,
    ⟨p'.after (u ++ m), (p'.after (u ++ m)).after [';']⟩, ?_, htrack⟩
  have hterminated : '\n' :: terminated cell = u ++ (m ++ ';' :: post) := by
    rw [← List.append_assoc, ← hcut, terminated_of_closing hc]
    simp
  rw [hterminated]
  simpa [Lexer.Item.trees, Lexer.Leaf.tree] using hspells

/-- A cell is read before other text as it is alone, its closing expression with a semicolon. -/
theorem Reads.kept (h : Reads cell stmts inner) (p' : Position) (r' : List Char) :
    ∃ z, Spells p' ('\n' :: terminated cell ++ '\n' :: r') z (p'.after ('\n' :: terminated cell))
        ('\n' :: r') ∧
      Tree.size.sizes inner ≤ Tree.size.sizes z ∧
      ∀ m r, 2 * Tree.size.sizes inner + 5 ≤ m → goesOn r = false →
        (∀ s ∈ stmts.getLast?, s.bare? = none → Parser.Rests s r) →
        ∃ ss, Parser.Reaches (.depth m) (z ++ r) ss r ∧ Kept stmts ss := by
  have hlast := h.bare?_eq
  cases hbare : Tail.bare? cell with
  | none =>
    rw [hbare, eq_comm, Option.bind_eq_none_iff] at hlast
    have hcell : terminated cell = cell := by
      unfold terminated
      rw [Tail.of?_eq_none hbare]
    obtain ⟨z, hz, hsame⟩ := spells_before_feed h.spells p' r'
    have htrack : Track [] [] inner z := .of_same hsame
    rw [hcell]
    refine ⟨z, hz, htrack.sizes_eq.le, fun m r hm hr hrests => ?_⟩
    obtain ⟨m, rfl⟩ : ∃ k, m = k + 1 := ⟨m - 1, by omega⟩
    have := Grammar.follows_of_le hm
    obtain ⟨ss, hss, hall⟩ := Parser.Reaches.close (.depth (m + 1)) (r := [])
      (by simpa using h.reaches) htrack (fun s hs => hrests s hs (hlast s hs)) rfl hr
    exact ⟨ss, hss, .whole hlast hall⟩
  | some e =>
    obtain ⟨s, hs, he⟩ := Option.bind_eq_some_iff.1 (hlast.symm.trans hbare)
    obtain ⟨pre, expr, post, hc⟩ := Tail.closing_of_bare? hbare
    obtain ⟨z, j, a, hz, htrack⟩ := h.ended hc p' r'
    refine ⟨_, hz, ?_, fun m r hm hr hrests => ?_⟩
    · rw [Tree.sizes_append, htrack.sizes_eq]
      omega
    · have := Grammar.follows_of_le hm
      obtain ⟨ss, rfl⟩ := List.getLast?_eq_some_iff.1 hs
      have hend : Track [] (.mark ';' j a :: r) inner (z ++ .mark ';' j a :: r) := by
        simpa using htrack.extend [] (.mark ';' j a :: r)
      obtain ⟨ss', s', hss', hall, hended⟩ :=
        Parser.Reaches.ended (.depth m) h.reaches hend (by rw [he]; rfl)
      exact ⟨ss' ++ [s'], by simpa using hss', .ended hall hended⟩

/-! ### The statements before the last -/

/-- The trees of a statement in front of the bare expression that it is. -/
def leadTrees (e : Expr) (s : Stmt) : List Tree := if e.leadsVerbatim then s.attributes else []

theorem leadTrees_append (e : Expr) (s : Stmt) :
    leadTrees e s ++ Tail.exprTrees e s = s.attributes ++ s.body := by
  unfold leadTrees Tail.exprTrees
  split <;> rfl

/-- A cell is parted in front of the bare expression that closes it: the text before it is read the
same before any other. -/
theorem Reads.front (h : Reads cell stmts inner) (hc : Closing cell e pre expr post) :
    ∃ ss s w, stmts = ss ++ [s] ∧ s.bare? = some e ∧ inner = w ++ (s.attributes ++ s.body) ∧
      Parser.Reaches (.depth (2 * Tree.size.sizes inner + 5)) inner ss (s.attributes ++ s.body) ∧
      Parser.Step (.depth (2 * Tree.size.sizes inner + 5)) (s.attributes ++ s.body) s [] ∧
      (∀ p' t', ∃ x, Spells p' ('\n' :: pre ++ t') x (p'.after ('\n' :: pre)) t' ∧
        Track [] [] (w ++ leadTrees e s) x) ∧
      ∃ p q, Spells p (expr ++ (post ++ ['\n', '\x7d'])) (Tail.exprTrees e s) q ['\n', '\x7d'] := by
  obtain ⟨s, hs, he, -, hbody, hfirst, -⟩ := hc.last h
  obtain ⟨ss, rfl⟩ := List.getLast?_eq_some_iff.1 hs
  obtain ⟨y, hss, hlast⟩ := h.reaches.split
  have hstep : Parser.Step (.depth (2 * Tree.size.sizes inner + 5)) y s [] := by
    cases hlast with
    | cons hs h => cases h; exact hs
  obtain rfl : y = s.attributes ++ s.body := by simpa using hstep.text.1
  obtain ⟨w, rfl⟩ := hss.suffix
  obtain ⟨hattributes, -, -⟩ := hstep.parts (by rw [Stmt.bare?_eq_some.1 he]; simp)
  have hne : Tail.exprTrees e s ≠ [] := by
    rw [← List.getLast?_isSome, Tail.getLast?_exprTrees hbody, List.getLast?_isSome]
    exact hbody
  have hends : ∀ t ∈ (w ++ leadTrees e s).getLast?, Lexer.isEnd t = true := by
    intro t ht
    by_cases hlead : leadTrees e s = []
    · rw [hlead, List.append_nil] at ht
      exact isEnd_of_anchor (hss.ends (by simp [hbody]) t ht)
    · rw [List.getLast?_append_of_ne_nil _ hlead] at ht
      unfold leadTrees at ht
      split at ht
      · obtain ⟨inner, p, rfl⟩ := hattributes.isBracket t ht
        rfl
      · cases ht
  have hspells := h.spells
  rw [← leadTrees_append e s, ← List.append_assoc] at hspells
  obtain ⟨u, t, htext, hu, ht, hstart, d, hd, hspace⟩ := hspells.split hne hends
  obtain rfl : u = '\n' :: pre := by
    obtain ⟨a, ha⟩ := Option.isSome_iff_exists.1 (List.isSome_head?.2 hne)
    have hcell : u ++ t = '\n' :: pre ++ (expr ++ (post ++ ['\n', '\x7d'])) := by
      rw [← htext, hc.text]
      simp
    exact Position.after_inj hcell ((hstart a ha).symm.trans (hfirst a ha))
  have hrest : t = expr ++ (post ++ ['\n', '\x7d']) := by
    rw [hc.text] at htext
    simpa using htext.symm
  rw [htext] at hu
  have hfeed : d ≠ '\n' := by
    rintro rfl
    cases hspace
  exact ⟨ss, s, w, rfl, he, rfl, hss, hstep,
    fun p' t' => hu.cut (by simp) ⟨d, hd, hfeed⟩ hends p' t', _, _, hrest ▸ ht⟩

end

end Notebook.Program
