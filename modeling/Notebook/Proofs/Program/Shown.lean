import Notebook.Proofs.Program.Part

/-!
The value of the last cell in its binding, and the statement that shows it.
-/

namespace Notebook.Program

open Text Syntax
open Lexer (Spells)
open Tail (Closing exprTrees)

/-- The trees that bind a block to the name of the value. -/
def bindingTrees (inner : List Tree) (a b c d f : Span) : List Tree :=
  [.word "let" a, .word "__rmnb_value" b, .mark '=' false c, .group .brace inner d,
    .mark ';' false f]

/-- The trees of the macro that prints. -/
def printTrees (inner : List Tree) (a b c d : Span) : List Tree :=
  [.word "println" a, .mark '!' false b, .group .paren inner c, .mark ';' false d]

/-- The statements that show the bare expression `e` of the statement `s`: it is all there is in a
block that is bound to a name, and what has this name is printed. -/
structure Shows (e : Expr) (s binding print : Stmt) : Prop where
  binding_form : binding.form = .binding
  binding_attributes : Track [] [] (leadTrees e s) binding.attributes
  binding_body : ∃ inner a b c d f, binding.body = bindingTrees inner a b c d f ∧
    ∃ n s', (Parser.statements (.depth n)).run inner = some ([s'], []) ∧ s'.form = s.form ∧
      Track [] [] (exprTrees e s) (s'.attributes ++ s'.body)
  print_form : print.form = .macroCall .paren true
  print_attributes : print.attributes = []
  print_body : ∃ inner a b c d, print.body = printTrees inner a b c d ∧
    inner.map Tree.shape =
      [.literal "\"\x7b:#?\x7d\"".toList, .mark ',' false, .word "__rmnb_value"]

/-! ### The statements that show a value -/

section

variable {k n : Nat} {e : Expr} {s : Stmt} {ss : List Stmt} {w x y z r : List Tree}
  {a b c d f : Span}

theorem run_value (hz : Parser.Reaches (.depth k) z ss []) :
    ((Grammar.depth (k + 2)).expression true).run (.group .brace z a :: .mark ';' false b :: r) =
      some (.of .block, .mark ';' false b :: r) := by
  have hatom : (Parser.atom (.depth (k + 1)) true).run
      (.group .brace z a :: .mark ';' false b :: r) = some (.block, .mark ';' false b :: r) := by
    rw [Parser.run_atom_brace _ rfl]
    exact Parser.run_bind_eq_some.2 ⟨ss, _, hz.block, rfl⟩
  have hoperand : (Parser.operand (.depth (k + 1)) true).run
      (.group .brace z a :: .mark ';' false b :: r) =
        some (.of .block, .mark ';' false b :: r) := by
    rw [Parser.run_operand rfl]
    exact Parser.run_bind_eq_some.2 ⟨_, _, hatom, rfl⟩
  exact Parser.run_bind_eq_some.2 ⟨_, _, hoperand, rfl⟩

theorem run_binding (hz : Parser.Reaches (.depth k) z ss []) :
    (Parser.binding (.depth (k + 2))).run (bindingTrees z a b c d f ++ r) = some ((), r) := by
  have hvalue : (Parser.endingWithBrace ((Grammar.depth (k + 2)).expression true)).run
      (.group .brace z d :: .mark ';' false f :: r) = some (true, .mark ';' false f :: r) := by
    have hpart := readPart_append [.group .brace z d] (.mark ';' false f :: r)
    refine Parser.run_bind_eq_some.2
      ⟨(.of .block, [.group .brace z d]), .mark ';' false f :: r, ?_, rfl⟩
    rw [Parser.run_reading, run_value hz]
    exact congrArg (fun z => some ((Expr.of .block, z), Tree.mark ';' false f :: r)) hpart
  rw [Parser.binding_eq]
  refine Parser.run_bind_eq_some.2 ⟨(), _, rfl, Parser.run_bind_eq_some.2 ⟨_, _, rfl,
    Parser.run_bind_eq_some.2 ⟨false, _, rfl, ?_⟩⟩⟩
  simp only [Bool.false_eq_true, if_false]
  exact Parser.run_bind_eq_some.2
    ⟨true, _, rfl, Parser.run_bind_eq_some.2 ⟨true, _, hvalue, rfl⟩⟩

theorem step_binding (hz : Parser.Reaches (.depth k) z ss [])
    (hy : Parser.Attributes (.depth (k + 2)) y) :
    Parser.Step (.depth (k + 2)) (y ++ (bindingTrees z a b c d f ++ r))
      ⟨.binding, y, bindingTrees z a b c d f⟩ r := by
  have hform : (Parser.statementForm (.depth (k + 2))).run (bindingTrees z a b c d f ++ r) =
      some (.binding, r) := by
    rw [Parser.run_statementForm]
    exact Parser.run_bind_eq_some.2 ⟨(), r, run_binding hz, rfl⟩
  refine .statement ?_ (Parser.run_statement.2
    ⟨_, Parser.run_outerAttributes_iff.2 ⟨y, rfl, hy, rfl⟩, hform, ?_, ?_⟩) nofun
  · cases hy <;> rfl
  · exact (readPart_append ..).symm
  · exact (readPart_append ..).symm

theorem step_print : Parser.Step (.depth (k + 2)) (printTrees z a b c d)
    ⟨.macroCall .paren true, [], printTrees z a b c d⟩ [] :=
  .statement rfl rfl nofun

/-- A bare expression is read by itself as it is where it closes a text. -/
theorem step_exprTrees (h : Parser.Step (.depth n) (s.attributes ++ s.body) s [])
    (he : s.bare? = some e) : ∃ s', Parser.Step (.depth n) (exprTrees e s) s' [] ∧
      s'.form = s.form ∧ exprTrees e s = s'.attributes ++ s'.body := by
  unfold exprTrees
  split
  · obtain ⟨-, hmark, hrun⟩ := h.parts (by rw [Stmt.bare?_eq_some.1 he]; simp)
    have hstatement : (Parser.statement (.depth n)).run s.body =
        some (⟨s.form, [], s.body⟩, []) :=
      Parser.run_statement.2 ⟨s.body, Parser.run_outerAttributes hmark, hrun, by simp [readPart],
        by simp [readPart]⟩
    exact ⟨_, .statement (semicolon_of_opening (Parser.statement_opening hstatement)) hstatement
      fun _ => rfl, rfl, rfl⟩
  · exact ⟨s, h, rfl, rfl⟩

/-- The value is all there is in the block that is bound. -/
theorem reaches_value (hn : n ≤ k) (hs : Parser.Step (.depth n) (s.attributes ++ s.body) s [])
    (he : s.bare? = some e) (hz : List.Forall₂ Tree.Same (exprTrees e s) z) :
    ∃ s', Parser.Reaches (.depth k) z [s'] [] ∧ s'.form = s.form ∧
      Track [] [] (exprTrees e s) (s'.attributes ++ s'.body) := by
  have : (Grammar.depth n).Follows (.depth k) := Grammar.follows_of_le hn
  have htrack : Track [] [] (exprTrees e s) z := .of_same hz
  obtain ⟨s₁, hs₁, hform, -⟩ := step_exprTrees hs he
  obtain ⟨q, s', hq, hnil, hs', halike⟩ :=
    hs₁.follow (.depth k) Inner.nil htrack List.nil_suffix
  have hend : z.drop q = [] := by
    have hlen := hz.length_eq
    have := congrArg List.length hnil
    rw [List.length_nil, List.length_drop] at this
    exact List.drop_eq_nil_of_le (by omega)
  rw [hend] at hs'
  have htext := hs'.text.1
  rw [List.append_nil] at htext
  exact ⟨s', .single hs', halike.form.symm.trans hform, htext ▸ htrack⟩

/-- The statements before a bare expression stay what they are where its value is shown. -/
theorem reaches_shown {print : List Tree} {a' b' c' d' : Span} (hn : n ≤ k)
    (hss : Parser.Reaches (.depth n) (w ++ (s.attributes ++ s.body)) ss (s.attributes ++ s.body))
    (hs : Parser.Step (.depth n) (s.attributes ++ s.body) s []) (he : s.bare? = some e)
    (hx : Track [] [] (w ++ leadTrees e s) x) (hz : List.Forall₂ Tree.Same (exprTrees e s) z)
    (hprint : print.map Tree.shape =
      [.literal "\"\x7b:#?\x7d\"".toList, .mark ',' false, .word "__rmnb_value"]) :
    ∃ ss' t u, Parser.Reaches (.depth (k + 2))
        (x ++ (bindingTrees z a b c d f ++ printTrees print a' b' c' d')) (ss' ++ [t, u]) [] ∧
      List.Forall₂ Stmt.Alike ss ss' ∧ Shows e s t u ∧ ∀ s₁ : Stmt, ¬ s₁.RunsInto t := by
  have : (Grammar.depth n).Follows (.depth (k + 2)) := Grammar.follows_of_le (by omega)
  obtain ⟨x, y, rfl, hwx, hlead⟩ := hx.split
  have hy : Parser.Attributes (.depth (k + 2)) y := by
    refine Parser.Attributes.follow _ (g := .depth n) ?_ hlead
    unfold leadTrees
    split
    · exact (hs.parts (by rw [Stmt.bare?_eq_some.1 he]; simp)).1
    · exact .nil
  obtain ⟨s', hs', hform, htrees⟩ := reaches_value hn hs he hz
  -- nothing goes on with the statements before
  have hhalt (r : List Tree) : Parser.Halt (y ++ (bindingTrees z a b c d f ++ r)) := by
    cases hy with
    | nil => exact Parser.halt_binding
    | cons => exact Parser.halt_attribute
  obtain ⟨ss', hss', hall⟩ := hss.close (.depth (k + 2)) hwx
    (fun t ht => .halted (hss.needsSemicolon (by simp [hs.text.2]) t ht) (hhalt _))
    (Parser.Reaches.single hs).goesOn (hhalt (printTrees print a' b' c' d')).goesOn
  have hshown := hss'.append (.cons (step_binding hs' hy) (.single step_print))
  rw [← List.append_assoc] at hshown
  refine ⟨ss', _, _, hshown, hall, ⟨rfl, hlead, ⟨z, _, _, _, _, _, rfl, k, s',
    Parser.run_statements.2 ⟨rfl, hs'⟩, hform, htrees⟩, rfl, rfl, print, _, _, _, _, rfl, hprint⟩,
    fun s₁ hinto => ?_⟩
  rcases hinto.next with h | ⟨-, h⟩
  · cases h
  · cases hy <;> cases h

end

/-! ### The text around the value -/

section

variable {p q : Position} {u t : List Char} {x : List Tree}

/-- What stands after the value up to the end of the function. -/
def displayed : List Char := "\n\x7d;\nprintln!(\"\x7b:#?\x7d\", __rmnb_value);".toList

theorem display_eq : display = displayed ++ closing := rfl

theorem binding_spells (p : Position) (t : List Char) : ∃ a b c q,
    Spells p ('\n' :: ("let".toList ++ ' ' :: ("__rmnb_value".toList ++ [' ', '=', ' '] ++ t)))
      [.word "let" a, .word "__rmnb_value" b, .mark '=' false c] q t := by
  have h := Spells.of_item (p := p) (c := '\n') (v := []) (i := .space 1) rfl rfl rfl <|
    Spells.of_item (c := 'l') (v := "et".toList) (i := .leaf (.word "let") 3) rfl rfl rfl <|
    Spells.of_item (c := ' ') (v := []) (i := .space 1) rfl rfl rfl <|
    Spells.of_item (c := '_') (v := "_rmnb_value".toList) (i := .leaf (.word "__rmnb_value") 12)
      rfl rfl rfl <|
    Spells.of_item (c := ' ') (v := []) (i := .space 1) rfl rfl rfl <|
    Spells.of_item (c := '=') (v := []) (i := .leaf (.mark '=' false) 1) rfl rfl rfl <|
    Spells.of_item (c := ' ') (v := []) (t := t) (i := .space 1) rfl rfl rfl .nil
  exact ⟨_, _, _, _, h⟩

theorem print_spells (p : Position) (t : List Char) : ∃ f print a b c d q,
    Spells p (';' :: '\n' :: ("println".toList ++ '!' :: '(' :: ("\"\x7b:#?\x7d\"".toList ++
      ',' :: ' ' :: ("__rmnb_value".toList ++ [')', ';'])) ++ '\n' :: t))
      (.mark ';' false f :: printTrees print a b c d) q ('\n' :: t) ∧
    print.map Tree.shape =
      [.literal "\"\x7b:#?\x7d\"".toList, .mark ',' false, .word "__rmnb_value"] := by
  have hinner (p : Position) := Spells.of_item (p := p) (c := '"') (v := "\x7b:#?\x7d\"".toList)
      (i := .leaf (.literal "\"\x7b:#?\x7d\"".toList) 7) rfl rfl rfl <|
    Spells.of_item (c := ',') (v := []) (i := .leaf (.mark ',' false) 1) rfl rfl rfl <|
    Spells.of_item (c := ' ') (v := []) (i := .space 1) rfl rfl rfl <|
    Spells.of_item (c := '_') (v := "_rmnb_value".toList) (t := ')' :: ';' :: '\n' :: t)
      (i := .leaf (.word "__rmnb_value") 12) rfl rfl rfl .nil
  have h := Spells.of_item (p := p) (c := ';') (v := []) (i := .leaf (.mark ';' false) 1)
      rfl rfl rfl <|
    Spells.of_item (c := '\n') (v := []) (i := .space 1) rfl rfl rfl <|
    Spells.of_item (c := 'p') (v := "rintln".toList) (i := .leaf (.word "println") 7)
      rfl rfl rfl <|
    Spells.of_item (c := '!') (v := []) (i := .leaf (.mark '!' false) 1) rfl rfl rfl <|
    Spells.group (c := '(') (d := .paren) rfl (hinner _) rfl <|
    Spells.of_item (c := ';') (v := []) (t := '\n' :: t) (i := .leaf (.mark ';' false) 1)
      rfl rfl rfl .nil
  exact ⟨_, _, _, _, _, _, _, h, rfl⟩

/-- Text between braces that stand on lines of their own. -/
theorem braces_spells
    (h : Spells (p.next '\x7b') (u ++ '\n' :: '\x7d' :: t) x q ('\n' :: '\x7d' :: t)) :
    ∃ a q', Spells p ('\x7b' :: (u ++ '\n' :: '\x7d' :: t)) [.group .brace x a] q' t := by
  have hin := h.append (Spells.of_item (c := '\n') (v := []) (i := .space 1) rfl rfl rfl .nil)
  have hspells := Spells.group (c := '\x7b') (d := .brace) rfl hin rfl .nil
  simp only [Lexer.Item.trees, List.append_nil] at hspells
  exact ⟨_, _, hspells⟩

end

section

variable {cell pre expr post : List Char} {stmts : List Stmt} {inner : List Tree} {e : Expr}

/-- The last cell is read with its closing expression as the value that is shown. -/
theorem Reads.shown (h : Reads cell stmts inner) (hc : Closing cell e pre expr post) :
    ∃ ss s, stmts = ss ++ [s] ∧ s.bare? = some e ∧ ∀ p r, ∃ x q,
      Spells p ('\n' :: (pre ++ (binding ++ (expr ++ post) ++ displayed)) ++ '\n' :: r) x q
        ('\n' :: r) ∧
      ∀ m, 2 * Tree.size.sizes x + 5 ≤ m → ∃ ss' t u,
        Parser.Reaches (.depth m) x (ss' ++ [t, u]) [] ∧ List.Forall₂ Stmt.Alike ss ss' ∧
          Shows e s t u ∧ ∀ s₁ : Stmt, ¬ s₁.RunsInto t := by
  obtain ⟨ss, s, w, rfl, he, hinner, hss, hstep, hfront, p₁, q₁, hvalue⟩ := h.front hc
  refine ⟨ss, s, rfl, he, fun p r => ?_⟩
  obtain ⟨x, hx, htrack⟩ := hfront p (binding ++ (expr ++ post) ++ displayed ++ '\n' :: r)
  obtain ⟨a, b, c, q, hbinding⟩ := binding_spells (p.after ('\n' :: pre))
    ('\x7b' :: ('\n' :: (expr ++ post) ++ (displayed ++ '\n' :: r)))
  obtain ⟨z, hz, hsame⟩ := spells_before_feed (u := expr ++ post) (by simpa using hvalue)
    ((q.next '\x7b').next '\n') ('\x7d' :: (displayed.drop 2 ++ '\n' :: r))
  have hz' := Spells.of_item (p := q.next '\x7b') (c := '\n') (v := []) (i := .space 1) rfl rfl
    rfl hz
  obtain ⟨d, q', hgroup⟩ := braces_spells (u := '\n' :: (expr ++ post)) hz'
  obtain ⟨f, print, a', b', c', d', q'', hdisplay, hprint⟩ := print_spells q' r
  have htext : binding ++ (expr ++ post) ++ displayed ++ '\n' :: r = '\n' :: ("let".toList ++
      ' ' :: ("__rmnb_value".toList ++ [' ', '=', ' '] ++
        '\x7b' :: ('\n' :: (expr ++ post) ++ (displayed ++ '\n' :: r)))) := by
    rw [List.append_assoc, List.append_assoc]
    rfl
  rw [htext] at hx
  have hspells := hx.append (hbinding.append (hgroup.append hdisplay))
  rw [← htext] at hspells
  refine ⟨x ++ (bindingTrees z a b c d f ++ printTrees print a' b' c' d'), q'', ?_, ?_⟩
  · have htotal : '\n' :: (pre ++ (binding ++ (expr ++ post) ++ displayed)) ++ '\n' :: r =
        '\n' :: pre ++ (binding ++ (expr ++ post) ++ displayed ++ '\n' :: r) := by simp
    rw [htotal]
    exact hspells
  intro m hm
  have hsizes : Tree.size.sizes inner + 2 ≤
      Tree.size.sizes (x ++ (bindingTrees z a b c d f ++ printTrees print a' b' c' d')) := by
    have hvalue := (Track.of_same hsame).sizes_eq
    have hfront := htrack.sizes_eq
    have hgroup : Tree.size.sizes (bindingTrees z a b c d f) = Tree.size.sizes z + 5 := by
      simp +arith [bindingTrees, Tree.size, Tree.size.sizes]
    rw [hinner, ← leadTrees_append e s, ← List.append_assoc]
    simp only [Tree.sizes_append]
    simp only [Tree.sizes_append] at hfront
    omega
  obtain ⟨k, rfl⟩ : ∃ k, m = k + 2 := ⟨m - 2, by omega⟩
  exact reaches_shown (by omega) (hinner ▸ hss) hstep he htrack hsame hprint

end

end Notebook.Program
