import Mathlib.Data.List.Chain
import Notebook.Proofs.Program.Shown

/-!
The program as a file: its one item is `main`, and the statements of that are those of the cells.
-/

namespace Notebook.Program

open Text Syntax
open Lexer (Spells)
open Tail (asBlock Closing)

/-- The last expression of the cells, if the program shows its value. -/
def shown? (shape : Shape) (blocks : List (List Stmt)) : Option Expr :=
  if shape = .evaluate then
    ((blocks.getLast?.bind List.getLast?).bind Stmt.bare?).filter fun e => hasValue e.form
  else none

/-- The statements of the cells that are statements of the program. -/
def standing (shape : Shape) (blocks : List (List Stmt)) : List Stmt :=
  if (shown? shape blocks).isSome then blocks.flatten.dropLast else blocks.flatten

section

variable {shape : Shape} {blocks : List (List Stmt)} {ss : List Stmt} {s : Stmt} {e : Expr}

theorem standing_of_none (h : shown? shape blocks = none) :
    standing shape blocks = blocks.flatten := by
  rw [standing, h]
  rfl

theorem standing_of_some (h : shown? shape (blocks ++ [ss ++ [s]]) = some e) :
    standing shape (blocks ++ [ss ++ [s]]) = blocks.flatten ++ ss := by
  rw [standing, h, Option.isSome_some, if_pos rfl, List.flatten_append, List.flatten_singleton,
    ← List.append_assoc, List.dropLast_concat]

end

/-- What the cells with the statements `blocks` combine to: their statements in order, a bare
expression that closes a cell with a semicolon, and the one that is shown in its binding. -/
inductive Combined (shape : Shape) : List (List Stmt) → List Stmt → Prop
  | closed {blocks stmts : List (List Stmt)} (hshown : shown? shape blocks = none)
      (h : List.Forall₂ Kept blocks stmts) : Combined shape blocks stmts.flatten
  | shown {earlier stmts : List (List Stmt)} {ss ss' : List Stmt} {s binding print : Stmt}
      {e : Expr} (hshown : shown? shape (earlier ++ [ss ++ [s]]) = some e)
      (h : List.Forall₂ Kept earlier stmts) (hss : List.Forall₂ Stmt.Alike ss ss')
      (hs : Shows e s binding print) :
      Combined shape (earlier ++ [ss ++ [s]]) (stmts.flatten ++ (ss' ++ [binding, print]))

/-! ### The function -/

section

variable {g : Grammar} {u : List Char} {x : List Tree} {ss : List Stmt} {a b c d : Span}

/-- The trees of the function `main`. -/
def mainTrees (x : List Tree) (a b c d : Span) : List Tree :=
  [.word "fn" a, .word "main" b, .group .paren [] c, .group .brace x d]

theorem run_signature_main : (Parser.signature g false).run (mainTrees x a b c d) =
    some ("main", [.group .brace x d]) := rfl

theorem run_item_main :
    (Parser.item g).run (mainTrees x a b c d) =
    ((Parser.attributedBlock g).run [.group .brace x d]).map
      fun r => (.function "main" r.1, r.2) := by
  have hattributes : (Parser.outerAttributes g).run (mainTrees x a b c d) =
      some ((), mainTrees x a b c d) := Parser.run_outerAttributes rfl
  have hplain : (Parser.plainItem g).run (mainTrees x a b c d) =
      (Parser.functionItem g).run (mainTrees x a b c d) := by
    unfold Parser.plainItem
    rfl
  have hmark : (Parser.tryMark ";").run [.group .brace x d] =
    some (false, [.group .brace x d]) := rfl
  simp only [Parser.item, StateT.run_bind, hattributes, hplain, Parser.functionItem,
    run_signature_main, hmark, Option.bind_eq_bind, Option.bind_some, Bool.false_eq_true, if_false]
  cases (Parser.attributedBlock g).run [.group .brace x d] <;> rfl

theorem run_items_main {n : Nat} :
    (do Parser.innerAttributes (.depth (n + 1)); Parser.manyToEnd (Grammar.depth (n + 1)).item).run
        (mainTrees x a b c d) =
      ((Parser.attributedBlock (.depth n)).run [.group .brace x d]).map
        fun r => ([.function "main" r.1], []) := by
  have hinner : (Parser.innerAttributes (.depth (n + 1))).run (mainTrees x a b c d) =
      some ((), mainTrees x a b c d) := Parser.run_innerAttributes rfl
  have hitems := Parser.run_manyToEnd_single (p := (Grammar.depth (n + 1)).item)
    (x := mainTrees x a b c d) (by simp [mainTrees]) fun r hr => by
      rw [Grammar.depth, Grammar.next, run_item_main] at hr
      obtain ⟨r', hr', rfl⟩ := Option.map_eq_some_iff.1 hr
      obtain ⟨inner, span, hx, -⟩ := Parser.run_within_eq_some.1 hr'
      exact (List.cons.inj hx).2.symm
  rw [StateT.run_bind, hinner, Option.bind_eq_bind, Option.bind_some, hitems, Grammar.depth,
    Grammar.next, run_item_main, Option.map_map]
  rfl

theorem items?_main {s : List Char} (h : Lexer.trees? s = some (mainTrees x a b c d)) :
    items? s = ((Parser.attributedBlock (.depth (2 * Tree.size.sizes x + 11))).run
      [.group .brace x d]).map fun r => [.function "main" r.1] := by
  have hdepth : enoughDepth (mainTrees x a b c d) = 2 * Tree.size.sizes x + 12 := by
    simp +arith [mainTrees, enoughDepth, Tree.size, Tree.size.sizes]
  rw [items?, h, Option.bind_some, hdepth]
  simp only [run_items_main]
  cases (Parser.attributedBlock (.depth (2 * Tree.size.sizes x + 11))).run [.group .brace x d]
  case none => rfl
  case some => rfl

/-- The function with the text `u` between its braces. -/
def mainText (u : List Char) : List Char :=
  "fn main() ".toList ++ '\x7b' :: (u ++ ['\n', '\x7d', '\n'])

/-- Where the text between the braces of the function starts. -/
def inside : Position := (Position.start.after "fn main() ".toList).next '\x7b'

/-- The text `u` between the braces of the function spells the trees `x`. -/
def Inside (u : List Char) (x : List Tree) : Prop :=
  ∃ q, Spells inside (u ++ ['\n', '\x7d', '\n']) x q ['\n', '\x7d', '\n']

theorem trees?_mainText (h : Inside u x) :
    ∃ a b c d, Lexer.trees? (mainText u) = some (mainTrees x a b c d) := by
  obtain ⟨q, h⟩ := h
  obtain ⟨d, q', hbody⟩ := braces_spells h
  have hend := hbody.append (Spells.of_item (c := '\n') (v := []) (i := .space 1) rfl rfl rfl .nil)
  have hhead := Spells.of_item (p := Position.start) (c := 'f') (v := ['n'])
      (i := .leaf (.word "fn") 2) rfl rfl rfl <|
    Spells.of_item (c := ' ') (v := []) (i := .space 1) rfl rfl rfl <|
    Spells.of_item (c := 'm') (v := "ain".toList) (i := .leaf (.word "main") 4) rfl rfl rfl <|
    Spells.group (c := '(') (d := .paren) rfl .nil rfl <|
    Spells.of_item (c := ' ') (v := []) (i := .space 1) rfl rfl rfl hend
  exact ⟨_, _, _, _, hhead.trees? (by simp)⟩

theorem file?_mainText (h : Inside u x) :
    ∃ d, file? (mainText u) = ((Parser.attributedBlock (.depth (2 * Tree.size.sizes x + 11))).run
      [.group .brace x d]).map fun r => [.function "main" r.1] := by
  obtain ⟨a, b, c, d, h⟩ := trees?_mainText h
  exact ⟨d, items?_main h⟩

/-- The statements of the function are those that are read between its braces. -/
theorem file?_of_reaches (h : Inside u x)
    (hx : Parser.Reaches (.depth (2 * Tree.size.sizes x + 10)) x ss []) :
    file? (mainText u) = some [.function "main" ss] := by
  obtain ⟨d, hfile⟩ := file?_mainText h
  rw [hfile, Grammar.depth, hx.block]
  rfl

theorem isChain_of_file? (h : Inside u x)
    (hfile : file? (mainText u) = some [.function "main" ss]) :
    ss.IsChain fun s t => ¬ s.RunsInto t := by
  obtain ⟨d, hblock⟩ := file?_mainText h
  obtain ⟨⟨ss', r⟩, hrun, hss⟩ := Option.map_eq_some_iff.1 (hblock.symm.trans hfile)
  cases hss
  obtain ⟨inner, span, -, hinner⟩ := Parser.run_within_eq_some.1 hrun
  obtain ⟨_, y, -, hy⟩ := Parser.run_bind_eq_some.1 hinner
  exact (Parser.run_statements (g := .depth (2 * Tree.size.sizes x + 10)).1 hy).2.isChain

end

/-! ### The cells -/

section

variable {cells : List (List Char)} {blocks stmts : List (List Stmt)} {ss ss' : List Stmt}

theorem matches_flatten (h : List.Forall₂ Kept blocks stmts) :
    List.Forall₂ Stmt.Matches blocks.flatten stmts.flatten := by
  induction h with
  | nil => exact .nil
  | cons h _ ih => exact List.rel_append h.matches ih

theorem exists_head_of_matches (h : List.Forall₂ Stmt.Matches ss ss') :
    ∀ t' ∈ ss'.head?, ∃ t ∈ ss.head?, t.Matches t' := by
  cases h with
  | nil => nofun
  | cons h _ =>
    rintro t' ⟨⟩
    exact ⟨_, rfl, h⟩

/-- The cells, each with the statements that it is read as, before a text that a line end starts. -/
theorem cells_kept
    (h : List.Forall₂ (fun cell ss => block? (asBlock cell) = some ss) cells blocks)
    (p : Position) (r : List Char) :
    ∃ x q, Spells p (cells.flatMap (fun cell => '\n' :: terminated cell) ++ '\n' :: r) x q
        ('\n' :: r) ∧
      ∀ m y ss, 2 * Tree.size.sizes x + 5 ≤ m → Parser.Reaches (.depth m) y ss [] →
        ((blocks.flatten ++ ss).IsChain fun s t => ¬ s.RunsInto t) →
        ∃ stmts, Parser.Reaches (.depth m) (x ++ y) (stmts.flatten ++ ss) [] ∧
          List.Forall₂ Kept blocks stmts := by
  induction h generalizing p with
  | nil => exact ⟨[], p, .nil, fun m y ss _ hy _ => ⟨[], hy, .nil⟩⟩
  | @cons cell ss₁ cells blocks hcell h ih =>
    obtain ⟨inner, hcell⟩ := reads_of_block? hcell
    obtain ⟨x, q, hx, hreaches⟩ := ih (p.after ('\n' :: terminated cell))
    obtain ⟨r', hr'⟩ : ∃ r', cells.flatMap (fun cell => '\n' :: terminated cell) ++ '\n' :: r =
        '\n' :: r' := by
      cases cells with
      | nil => exact ⟨_, rfl⟩
      | cons cell cells => exact ⟨_, rfl⟩
    obtain ⟨z, hz, hsizes, hkept⟩ := hcell.kept p r'
    refine ⟨z ++ x, q, ?_, fun m y ss hm hy hchain => ?_⟩
    · have htext : (cell :: cells).flatMap (fun cell => '\n' :: terminated cell) ++ '\n' :: r =
          '\n' :: terminated cell ++ '\n' :: r' := by
        rw [List.flatMap_cons, List.append_assoc, hr']
      rw [htext]
      rw [hr'] at hx
      exact hz.append hx
    · rw [Tree.sizes_append] at hm
      rw [List.flatten_cons, List.append_assoc, List.isChain_append] at hchain
      obtain ⟨-, hchain, hnext⟩ := hchain
      obtain ⟨stmts, hall, hstmts⟩ := hreaches m y ss (by omega) hy hchain
      have hmatches : List.Forall₂ Stmt.Matches (blocks.flatten ++ ss) (stmts.flatten ++ ss) :=
        List.rel_append (matches_flatten hstmts) (List.forall₂_same.2 fun s _ => .inl (.refl s))
      obtain ⟨ss₁', hss₁', hkept⟩ := hkept m (x ++ y) (by omega) hall.goesOn fun s hs he => by
        obtain ⟨x₁, -, hstep⟩ := hcell.reaches.last hs
        refine hall.rests (hstep.form he) fun t' ht' hinto => ?_
        obtain ⟨t, ht, htt'⟩ := exists_head_of_matches hmatches t' ht'
        exact hnext s hs t ht ((Stmt.Matches.runsInto_iff (.inl (.refl s)) htt').2 hinto)
      refine ⟨ss₁' :: stmts, ?_, .cons hkept hstmts⟩
      simpa using hss₁'.append hall

theorem feed_joinLines {ls : List (List Char)} (h : ls ≠ []) :
    '\n' :: joinLines ls = ls.flatMap fun l => '\n' :: l := by
  induction ls with
  | nil => exact absurd rfl h
  | cons l ls ih =>
    cases ls with
    | nil => simp [joinLines]
    | cons l' ls =>
      rw [List.flatMap_cons, ← ih (by simp)]
      rfl

theorem showing_eq {body value before pre : List Char}
    (h : '\n' :: body = before ++ '\n' :: pre) :
    showing body value = mainText (before ++ '\n' :: (pre ++ (binding ++ value ++ displayed))) :=
  calc showing body value
    _ = "fn main() ".toList ++ '\x7b' :: ('\n' :: body ++
          (binding ++ value ++ displayed ++ ['\n', '\x7d', '\n'])) := by
      have hopening : opening = "fn main() ".toList ++ ['\x7b', '\n'] := rfl
      have hclosing : closing = ['\n', '\x7d', '\n'] := rfl
      simp only [showing, hopening, display_eq, hclosing, List.append_assoc, List.cons_append,
        List.nil_append]
    _ = mainText (before ++ '\n' :: (pre ++ (binding ++ value ++ displayed))) := by
      unfold mainText
      rw [h]
      simp only [List.append_assoc, List.cons_append]

theorem exists_concat_of_forall₂ {α β : Type} {R : α → β → Prop} {as : List α} {a : α}
    {bs : List β} (h : List.Forall₂ R (as ++ [a]) bs) :
    ∃ bs' b, bs = bs' ++ [b] ∧ List.Forall₂ R as bs' ∧ R a b := by
  induction as generalizing bs with
  | nil =>
    cases h with
    | cons h hnil =>
      cases hnil
      exact ⟨[], _, rfl, .nil, h⟩
  | cons a' as ih =>
    cases h with
    | cons h hs =>
      obtain ⟨bs', b, rfl, hall, hb⟩ := ih hs
      exact ⟨_ :: bs', b, rfl, .cons h hall, hb⟩

section

variable (hcells : List.Forall₂ (fun cell ss => block? (asBlock cell) = some ss) cells blocks)

include hcells

theorem bare?_last : (blocks.getLast?.bind List.getLast?).bind Stmt.bare? =
    cells.getLast?.bind Tail.bare? := by
  rcases List.eq_nil_or_concat' cells with rfl | ⟨earlier, last, rfl⟩
  · cases hcells
    rfl
  · obtain ⟨bs, b, rfl, -, hlast⟩ := exists_concat_of_forall₂ hcells
    rw [List.getLast?_concat, List.getLast?_concat, Option.bind_some, Option.bind_some, Tail.bare?,
      Tail.lastStmt?, hlast, Option.bind_some]

theorem wrapped_inside : ∃ u x, wrapped (joinLines (cells.map terminated)) = mainText u ∧
    Inside u x ∧ ((blocks.flatten.IsChain fun s t => ¬ s.RunsInto t) →
      ∃ stmts, Parser.Reaches (.depth (2 * Tree.size.sizes x + 10)) x stmts.flatten [] ∧
        List.Forall₂ Kept blocks stmts) := by
  by_cases hnil : cells = []
  · subst hnil
    cases hcells
    exact ⟨['\n'], [], rfl, ⟨_, .of_item (v := []) (i := .space 1) rfl rfl rfl .nil⟩,
      fun _ => ⟨[], .done, .nil⟩⟩
  · obtain ⟨x, q, hx, hreaches⟩ := cells_kept hcells inside ['\x7d', '\n']
    refine ⟨_, x, ?_, ⟨q, hx⟩, fun hchain => ?_⟩
    · have h : '\n' :: joinLines (cells.map terminated) = _ :=
        feed_joinLines (by simpa using hnil)
      rw [List.flatMap_map] at h
      rw [← h]
      rfl
    · obtain ⟨stmts, hstmts, hall⟩ :=
        hreaches (2 * Tree.size.sizes x + 10) [] [] (by omega) .done (by simpa using hchain)
      exact ⟨stmts, by simpa using hstmts, hall⟩

theorem showing_inside {last pre expr post : List Char} {e : Expr}
    (hlast : block? (asBlock last) = some ss) (hc : Closing last e pre expr post) :
    ∃ ss₁ s u x, ss = ss₁ ++ [s] ∧ s.bare? = some e ∧
      showing (joinLines (cells.map terminated ++ [pre])) (expr ++ post) = mainText u ∧
      Inside u x ∧
      (((blocks.flatten ++ ss₁).IsChain fun s t => ¬ s.RunsInto t) →
        ∃ stmts ss₁' binding print,
          Parser.Reaches (.depth (2 * Tree.size.sizes x + 10)) x
            (stmts.flatten ++ (ss₁' ++ [binding, print])) [] ∧
          List.Forall₂ Kept blocks stmts ∧ List.Forall₂ Stmt.Alike ss₁ ss₁' ∧
          Shows e s binding print) := by
  obtain ⟨inner, hreads⟩ := reads_of_block? hlast
  obtain ⟨ss₁, s, rfl, he, hshown⟩ := hreads.shown hc
  obtain ⟨x, q, hx, hreaches⟩ := cells_kept hcells inside
    (pre ++ (binding ++ (expr ++ post) ++ displayed) ++ ['\n', '\x7d', '\n'])
  obtain ⟨y, q', hy, hbody⟩ := hshown q ['\x7d', '\n']
  refine ⟨ss₁, s, cells.flatMap (fun cell => '\n' :: terminated cell) ++
    '\n' :: (pre ++ (binding ++ (expr ++ post) ++ displayed)), x ++ y, rfl, he, ?_, ⟨q', ?_⟩, ?_⟩
  · refine showing_eq ?_
    rw [feed_joinLines (by simp), List.flatMap_append, List.flatMap_map, List.flatMap_singleton]
  · have h := hx.append hy
    simpa using h
  · intro hchain
    rw [List.isChain_append] at hchain
    obtain ⟨hblocks, -, hnext⟩ := hchain
    have hsizes := Tree.sizes_append x y
    obtain ⟨ss₁', t, u, hys, hall, hshows, hbinding⟩ :=
      hbody (2 * Tree.size.sizes (x ++ y) + 10) (by omega)
    obtain ⟨stmts, hstmts, hkept⟩ := hreaches _ y _ (by omega) hys <| by
      refine hblocks.append hys.isChain fun s₁ hs₁ t' ht' => ?_
      cases hall with
      | nil =>
        cases ht'
        exact hbinding s₁
      | cons h _ =>
        cases ht'
        exact fun hinto => hnext s₁ hs₁ _ rfl
          ((Stmt.Matches.runsInto_iff (.inl (.refl s₁)) (.inl h)).2 hinto)
    exact ⟨stmts, ss₁', t, u, hstmts, hkept, hall, hshows⟩

end

end

/-! ### The program -/

section

variable {shape : Shape} {cells : List (List Char)} {blocks : List (List Stmt)} {ss : List Stmt}
  {e : Expr}

theorem shown?_eq_some : shown? shape blocks = some e ↔ shape = .evaluate ∧
    (blocks.getLast?.bind List.getLast?).bind Stmt.bare? = some e ∧ hasValue e.form = true := by
  unfold shown?
  split
  · rename_i h
    simp [Option.filter_eq_some_iff, h]
  · simp_all

/-- What of the cells stands in the program is in it in order. -/
theorem Combined.standing (h : Combined shape blocks ss) :
    ∃ ss₁ ss₂, ss = ss₁ ++ ss₂ ∧ List.Forall₂ Stmt.Matches (standing shape blocks) ss₁ := by
  cases h with
  | @closed blocks stmts hshown h =>
    refine ⟨stmts.flatten, [], by simp, ?_⟩
    rw [standing_of_none hshown]
    exact matches_flatten h
  | @shown earlier stmts ss ss' s t u e hshown h hss hs =>
    refine ⟨stmts.flatten ++ ss', [t, u], by simp, ?_⟩
    rw [standing_of_some hshown]
    exact List.rel_append (matches_flatten h) (hss.imp fun _ _ => .inl)

theorem ofCells_inside (hshape : shape ≠ .verbatim)
    (hmain : declaresMain (joinLines cells) = false)
    (hcells : List.Forall₂ (fun cell ss => block? (asBlock cell) = some ss) cells blocks) :
    ∃ u x, ofCells shape cells = mainText u ∧ Inside u x ∧
      (((standing shape blocks).IsChain fun s t => ¬ s.RunsInto t) →
        ∃ ss, Parser.Reaches (.depth (2 * Tree.size.sizes x + 10)) x ss [] ∧
          Combined shape blocks ss) := by
  have hbare := bare?_last hcells
  cases hshown : shown? shape blocks with
  | none =>
    have hlast : shape = .evaluate →
        ∀ last ∈ cells.getLast?, ∀ e ∈ Tail.bare? last, hasValue e.form = false := by
      intro hevaluate last hlast e he
      by_contra hv
      have hsome : shown? shape blocks = some e := by
        refine shown?_eq_some.2 ⟨hevaluate, ?_, by simpa using hv⟩
        rw [hbare, hlast]
        exact he
      rw [hsome] at hshown
      cases hshown
    obtain ⟨u, x, htext, hx, hreaches⟩ := wrapped_inside hcells
    refine ⟨u, x, (ofCells_wrapped hshape hmain hlast).trans htext, hx, fun hchain => ?_⟩
    obtain ⟨stmts, hstmts, hall⟩ := hreaches (standing_of_none hshown ▸ hchain)
    exact ⟨_, hstmts, .closed hshown hall⟩
  | some e =>
    obtain ⟨rfl, he, hv⟩ := shown?_eq_some.1 hshown
    obtain ⟨last, hlast, hclosed⟩ := Option.bind_eq_some_iff.1 (hbare ▸ he)
    obtain ⟨earlier, rfl⟩ := List.getLast?_eq_some_iff.1 hlast
    obtain ⟨bs, b, rfl, hearlier, hb⟩ := exists_concat_of_forall₂ hcells
    obtain ⟨pre, expr, post, hc⟩ := Tail.closing_of_bare? hclosed
    obtain ⟨ss, s, u, x, rfl, hs, htext, hx, hreaches⟩ := showing_inside hearlier hb hc
    refine ⟨u, x, (ofCells_shown hmain hc hv).trans htext, hx, fun hchain => ?_⟩
    obtain ⟨stmts, ss', t, u, hreads, hkept, hall, hshows⟩ :=
      hreaches (standing_of_some hshown ▸ hchain)
    exact ⟨_, hreads, .shown hshown hkept hall hshows⟩

/-- The statements of the program are those of the cells exactly if none of them runs into the one
after it. -/
theorem statements_combined_iff (hshape : shape ≠ .verbatim)
    (hmain : declaresMain (joinLines cells) = false)
    (hcells : List.Forall₂ (fun cell ss => block? (asBlock cell) = some ss) cells blocks) :
    (∃ ss, file? (ofCells shape cells) = some [.function "main" ss] ∧ Combined shape blocks ss) ↔
      (standing shape blocks).IsChain fun s t => ¬ s.RunsInto t := by
  obtain ⟨u, x, htext, hx, hreaches⟩ := ofCells_inside hshape hmain hcells
  rw [htext]
  constructor
  · rintro ⟨ss, hfile, hcombined⟩
    obtain ⟨ss₁, ss₂, rfl, hmatches⟩ := hcombined.standing
    exact (Stmt.Matches.isChain_iff hmatches).2 (isChain_of_file? hx hfile).left_of_append
  · intro hchain
    obtain ⟨ss, hss, hcombined⟩ := hreaches hchain
    exact ⟨ss, file?_of_reaches hx hss, hcombined⟩

theorem exists_single (cell : List Char) (φ : StmtForm)
    (h : (block? (asBlock cell)).map (List.map Stmt.form) = some [φ]) :
    ∃ s, block? (asBlock cell) = some [s] ∧ s.form = φ := by
  obtain ⟨ss, hss, hform⟩ := Option.map_eq_some_iff.1 h
  have hlen : ss.length = 1 := by simpa using congrArg List.length hform
  obtain ⟨s, rfl⟩ := List.length_eq_one_iff.1 hlen
  exact ⟨s, hss, by simpa using hform⟩

theorem statements_combined_shown :
    ∃ blocks ss, List.Forall₂ (fun cell ss => block? (asBlock cell) = some ss)
        ["let x = 1;".toList, "x + 1".toList] blocks ∧
      (shown? .evaluate blocks).isSome = true ∧
      file? (ofCells .evaluate ["let x = 1;".toList, "x + 1".toList]) =
        some [.function "main" ss] ∧ Combined .evaluate blocks ss := by
  obtain ⟨s, hs, -⟩ := exists_single "let x = 1;".toList .binding
    (by decide +kernel)
  obtain ⟨t, ht, hform⟩ := exists_single "x + 1".toList
    (.expression (.of (.binary .add)) false) (by decide +kernel)
  have hcells : List.Forall₂ (fun cell ss => block? (asBlock cell) = some ss)
      ["let x = 1;".toList, "x + 1".toList] [[s], [t]] := .cons hs (.cons ht .nil)
  have hshown : shown? .evaluate [[s], [t]] = some (.of (.binary .add)) :=
    shown?_eq_some.2 ⟨rfl, Stmt.bare?_eq_some.2 hform, rfl⟩
  have hchain : (standing .evaluate [[s], [t]]).IsChain fun s t => ¬ s.RunsInto t := by
    unfold standing
    rw [hshown]
    exact .singleton s
  obtain ⟨ss, hfile, hcombined⟩ :=
    (statements_combined_iff (by decide) (by decide +kernel) hcells).2 hchain
  exact ⟨_, ss, hcells, by rw [hshown]; rfl, hfile, hcombined⟩

/-- What follows a macro in braces can become its call. -/
theorem statements_not_combined :
    ∃ blocks, List.Forall₂ (fun cell ss => block? (asBlock cell) = some ss)
        ["try! {}".toList, "(1, 2)".toList] blocks ∧
      declaresMain (joinLines ["try! {}".toList, "(1, 2)".toList]) = false ∧
      ¬ ∃ ss, file? (ofCells .wrap ["try! {}".toList, "(1, 2)".toList]) =
        some [.function "main" ss] ∧ Combined .wrap blocks ss := by
  obtain ⟨s, hs, -⟩ := exists_single "try! {}".toList (.macroCall .brace false)
    (by decide +kernel)
  obtain ⟨t, ht, -⟩ := exists_single "(1, 2)".toList
    (.expression (.of (.tuple 2)) false) (by decide +kernel)
  refine ⟨[[s], [t]], .cons hs (.cons ht .nil), by decide +kernel, ?_⟩
  rintro ⟨ss, hfile, hcombined⟩
  obtain ⟨ss₁, ss₂, rfl, hmatches⟩ := hcombined.standing
  have htwo : ss₁.length = 2 := hmatches.length_eq.symm
  have hone : (file? (ofCells .wrap ["try! {}".toList, "(1, 2)".toList])).map
      (List.map (Item.rec (fun _ ss => ss.length) 0)) = some [1] := by decide +kernel
  rw [hfile] at hone
  simp only [Option.map_some, List.map_cons, List.map_nil, List.length_append, htwo,
    Option.some.injEq, List.cons.injEq] at hone
  omega

end

end Notebook.Program
