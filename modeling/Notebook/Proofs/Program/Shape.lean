import Notebook.Proofs.Program.Tail

/-!
What a program has of the cells and what is put in.
-/

namespace Notebook.Program

open Text Syntax
open Tail (Closing bare? inBytes? inBytes?_eq)

section

variable {shape : Shape} {cells earlier : List (List Char)} {last pre expr post : List Char}
  {e : Expr}

theorem terminated_of_closing (h : Closing last e pre expr post) :
    terminated last = pre ++ (expr ++ ';' :: post) := by
  have htake : last.take (pre ++ expr).length = pre ++ expr := by
    rw [h.text, ← List.append_assoc, List.take_left]
  have hdrop : last.drop (pre ++ expr).length = post := by
    rw [h.text, ← List.append_assoc, List.drop_left]
  unfold terminated
  rw [h.of?_eq]
  dsimp only
  rw [htake, hdrop, List.append_assoc]

theorem ofCells_unchanged (h : shape = .verbatim ∨ declaresMain (joinLines cells) = true) :
    ofCells shape cells = joinLines cells := by
  unfold ofCells
  rw [if_pos (by simpa using h)]

theorem ofCells_shown (hmain : declaresMain (joinLines (earlier ++ [last])) = false)
    (h : Closing last e pre expr post) (hv : hasValue e.form = true) :
    ofCells .evaluate (earlier ++ [last]) =
      showing (joinLines (earlier.map terminated ++ [pre])) (expr ++ post) := by
  have htake : last.take pre.length = pre := by rw [h.text, List.take_left]
  have hdrop : last.drop pre.length = expr ++ post := by rw [h.text, List.drop_left]
  unfold ofCells
  rw [if_neg (by simp [hmain])]
  simp [h.of?_eq, hv, htake, hdrop]

theorem ofCells_wrapped (hshape : shape ≠ .verbatim)
    (hmain : declaresMain (joinLines cells) = false)
    (h : shape = .evaluate → ∀ last ∈ cells.getLast?, ∀ e ∈ bare? last, hasValue e.form = false) :
    ofCells shape cells = wrapped (joinLines (cells.map terminated)) := by
  unfold ofCells
  rw [if_neg (by simp [hshape, hmain])]
  rcases List.eq_nil_or_concat' cells with rfl | ⟨earlier, last, rfl⟩
  · rfl
  · rw [List.getLast?_concat] at h ⊢
    simp only [List.dropLast_concat, List.map_append, List.map_cons, List.map_nil]
    cases ht : Tail.of? last with
    | none => rfl
    | some t =>
      obtain ⟨e, he, hv⟩ := Tail.bare?_of_of? ht
      dsimp only
      rw [if_neg]
      intro hshow
      obtain ⟨hevaluate, htrue⟩ := Bool.and_eq_true_iff.1 hshow
      rw [hv, h (of_decide_eq_true hevaluate) last rfl e he] at htrue
      cases htrue

end

/-! ### Pieces -/

/-- A part of a program: text of a cell, or text that is put in. -/
inductive Piece where
  | own (text : List Char)
  | added (text : List Char)

def spelled (ps : List Piece) : List Char :=
  ps.flatMap fun
    | .own s | .added s => s

/-- What is left when the text that was put in is taken out. -/
def kept (ps : List Piece) : List Char :=
  ps.flatMap fun
    | .own s => s
    | .added _ => []

def joinPieces : List (List Piece) → List Piece
  | [] => []
  | [ps] => ps
  | ps :: parts => ps ++ .own ['\n'] :: joinPieces parts

/-- A cell that closes with a bare expression has a semicolon right after it. -/
inductive Ended : List Char → List Piece → Prop
  | closed {cell pre expr post : List Char} {e : Expr} (h : Closing cell e pre expr post) :
      Ended cell [.own (pre ++ expr), .added [';'], .own post]
  | left {cell : List Char} (h : bare? cell = none) : Ended cell [.own cell]

/-- The text that a shape makes of the cells: what they join to, or that with the wrapper around it,
semicolons after the expressions that close cells, and the binding that shows the last of them. -/
inductive Laid (shape : Shape) (cells : List (List Char)) : List Piece → Prop
  | unchanged (h : shape = .verbatim ∨ declaresMain (joinLines cells) = true) :
      Laid shape cells [.own (joinLines cells)]
  | closed {parts : List (List Piece)} (hshape : shape ≠ .verbatim)
      (hmain : declaresMain (joinLines cells) = false) (hparts : List.Forall₂ Ended cells parts)
      (hlast : shape = .evaluate →
        ∀ last ∈ cells.getLast?, ∀ e ∈ bare? last, hasValue e.form = false) :
      Laid shape cells (.added opening :: joinPieces parts ++ [.added closing])
  | shown {earlier : List (List Char)} {last pre expr post : List Char} {e : Expr}
      {parts : List (List Piece)} (hshape : shape = .evaluate)
      (hmain : declaresMain (joinLines cells) = false) (hcells : cells = earlier ++ [last])
      (hparts : List.Forall₂ Ended earlier parts) (hlast : Closing last e pre expr post)
      (hv : hasValue e.form = true) :
      Laid shape cells (.added opening ::
        joinPieces (parts ++ [[.own pre, .added binding, .own (expr ++ post)]]) ++ [.added display])

section

variable {shape : Shape} {cells : List (List Char)} {cell : List Char} {ps pieces : List Piece}
  {parts : List (List Piece)}

theorem flatMap_joinPieces {g : Piece → List Char} (hg : g (.own ['\n']) = ['\n'])
    (parts : List (List Piece)) :
    (joinPieces parts).flatMap g = joinLines (parts.map (·.flatMap g)) := by
  fun_induction joinPieces parts with
  | case1 => rfl
  | case2 ps => rfl
  | case3 ps parts hne ih =>
    obtain ⟨ps', parts, rfl⟩ := List.exists_cons_of_ne_nil (by simpa using hne : parts ≠ [])
    rw [List.flatMap_append, List.flatMap_cons, hg, ih]
    rfl

theorem spelled_joinPieces (parts : List (List Piece)) :
    spelled (joinPieces parts) = joinLines (parts.map spelled) :=
  flatMap_joinPieces rfl parts

theorem kept_joinPieces (parts : List (List Piece)) :
    kept (joinPieces parts) = joinLines (parts.map kept) :=
  flatMap_joinPieces rfl parts

theorem exists_ended (cell : List Char) : ∃ ps, Ended cell ps := by
  cases h : bare? cell with
  | none => exact ⟨_, .left h⟩
  | some e =>
    obtain ⟨pre, expr, post, hclosing⟩ := Tail.closing_of_bare? h
    exact ⟨_, .closed hclosing⟩

theorem Ended.spelled_eq (h : Ended cell ps) : spelled ps = terminated cell := by
  cases h with
  | closed h => simp [spelled, terminated_of_closing h]
  | left h =>
    unfold terminated
    rw [Tail.of?_eq_none h]
    simp [spelled]

theorem Ended.kept_eq (h : Ended cell ps) : kept ps = cell := by
  cases h with
  | closed h => simp [kept, h.text]
  | left h => simp [kept]

theorem exists_all_ended (cells : List (List Char)) : ∃ parts, List.Forall₂ Ended cells parts := by
  induction cells with
  | nil => exact ⟨[], .nil⟩
  | cons cell cells ih =>
    obtain ⟨ps, h⟩ := exists_ended cell
    obtain ⟨parts, hs⟩ := ih
    exact ⟨ps :: parts, .cons h hs⟩

theorem map_spelled_of_ended (h : List.Forall₂ Ended cells parts) :
    parts.map spelled = cells.map terminated := by
  induction h with
  | nil => rfl
  | cons h _ ih => rw [List.map_cons, List.map_cons, h.spelled_eq, ih]

theorem map_kept_of_ended (h : List.Forall₂ Ended cells parts) : parts.map kept = cells := by
  induction h with
  | nil => rfl
  | cons h _ ih => rw [List.map_cons, h.kept_eq, ih]

theorem exists_laid (shape : Shape) (cells : List (List Char)) :
    ∃ pieces, Laid shape cells pieces := by
  by_cases hunchanged : shape = .verbatim ∨ declaresMain (joinLines cells) = true
  · exact ⟨_, .unchanged hunchanged⟩
  obtain ⟨hshape, hmain⟩ := not_or.1 hunchanged
  rw [Bool.not_eq_true] at hmain
  by_cases hshown : shape = .evaluate ∧
      ∃ last ∈ cells.getLast?, ∃ e ∈ bare? last, hasValue e.form = true
  · obtain ⟨hevaluate, last, hlast, e, he, hv⟩ := hshown
    obtain ⟨earlier, rfl⟩ := List.getLast?_eq_some_iff.1 hlast
    obtain ⟨pre, expr, post, hclosing⟩ := Tail.closing_of_bare? he
    obtain ⟨parts, hparts⟩ := exists_all_ended earlier
    exact ⟨_, .shown hevaluate hmain rfl hparts hclosing hv⟩
  · obtain ⟨parts, hparts⟩ := exists_all_ended cells
    refine ⟨_, .closed hshape hmain hparts ?_⟩
    intro hevaluate last hlast e he
    by_contra hv
    exact hshown ⟨hevaluate, last, hlast, e, he, by simpa using hv⟩

theorem Laid.spelled_eq (h : Laid shape cells pieces) : spelled pieces = ofCells shape cells := by
  cases h with
  | unchanged h =>
    rw [ofCells_unchanged h]
    simp [spelled]
  | @closed parts hshape hmain hparts hlast =>
    rw [ofCells_wrapped hshape hmain hlast]
    calc spelled (.added opening :: joinPieces parts ++ [.added closing])
      _ = opening ++ spelled (joinPieces parts) ++ closing := by simp [spelled]
      _ = wrapped (joinLines (cells.map terminated)) := by
        rw [spelled_joinPieces, map_spelled_of_ended hparts]
        rfl
  | @shown earlier last pre expr post e parts hshape hmain hcells hparts hlast hv =>
    subst hshape hcells
    rw [ofCells_shown hmain hlast hv]
    calc spelled (.added opening :: joinPieces
          (parts ++ [[.own pre, .added binding, .own (expr ++ post)]]) ++ [.added display])
      _ = opening ++ spelled (joinPieces
            (parts ++ [[.own pre, .added binding, .own (expr ++ post)]])) ++ display := by
        simp [spelled]
      _ = opening ++ joinLines (earlier.map terminated ++ [pre ++ (binding ++ (expr ++ post))]) ++
            display := by
        rw [spelled_joinPieces, List.map_append, map_spelled_of_ended hparts]
        simp [spelled]
      _ = showing (joinLines (earlier.map terminated ++ [pre])) (expr ++ post) := by
        rw [joinLines_concat_append, showing]
        simp only [List.append_assoc]

theorem Laid.kept_eq (h : Laid shape cells pieces) : kept pieces = joinLines cells := by
  have hframe (a b : List Char) (ps : List Piece) :
      kept (.added a :: ps ++ [.added b]) = kept ps := by
    simp [kept]
  cases h with
  | unchanged h => simp [kept]
  | closed _ _ hparts _ => rw [hframe, kept_joinPieces, map_kept_of_ended hparts]
  | @shown earlier last pre expr post e parts _ _ hcells hparts hlast _ =>
    have hpieces : kept [.own pre, .added binding, .own (expr ++ post)] = last := by
      simp [kept, hlast.text]
    rw [hframe, kept_joinPieces, List.map_append, map_kept_of_ended hparts, hcells,
      List.map_singleton, hpieces]

end

/-! ### In bytes -/

/-- A cell cut at the byte where its closing expression ends, if that is between two characters. -/
def terminatedInBytes? (cell : List Char) : Option (List Char) :=
  match inBytes? cell with
  | some t => (Utf8.split? t.stop cell).map fun (a, b) => a ++ ';' :: b
  | none => some cell

/-- The program of the cells by cutting at bytes. Where a cut would part a character or lie outside
the cell, there is none. -/
def ofCellsInBytes? (shape : Shape) (cells : List (List Char)) : Option (List Char) :=
  let joined := joinLines cells
  if shape = .verbatim || declaresMain joined then some joined
  else
    match cells.getLast? with
    | none => some (wrapped [])
    | some last => do
      let earlier ← cells.dropLast.mapM terminatedInBytes?
      match inBytes? last with
      | some tail =>
        if shape = .evaluate && tail.hasValue then
          let (head, value) ← Utf8.split? tail.start last
          return showing (joinLines (earlier ++ [head])) value
        else return wrapped (joinLines (earlier ++ [← terminatedInBytes? last]))
      | none => return wrapped (joinLines (earlier ++ [← terminatedInBytes? last]))

theorem terminatedInBytes?_eq (cell : List Char) :
    terminatedInBytes? cell = some (terminated cell) := by
  rw [terminatedInBytes?, inBytes?_eq, terminated]
  cases Tail.of? cell with
  | none => rfl
  | some t =>
    dsimp only [Option.map_some]
    rw [Utf8.split?_take]
    rfl

theorem mapM_terminatedInBytes? (cells : List (List Char)) :
    cells.mapM terminatedInBytes? = some (cells.map terminated) := by
  have hpure : terminatedInBytes? = fun cell => pure (terminated cell) :=
    funext terminatedInBytes?_eq
  rw [hpure]
  exact List.mapM_pure

theorem ofCellsInBytes?_eq (shape : Shape) (cells : List (List Char)) :
    ofCellsInBytes? shape cells = some (ofCells shape cells) := by
  unfold ofCellsInBytes? ofCells
  dsimp only
  split
  · rfl
  · cases cells.getLast? with
    | none => rfl
    | some last =>
      dsimp only
      rw [mapM_terminatedInBytes?, inBytes?_eq, terminatedInBytes?_eq]
      cases Tail.of? last with
      | none => rfl
      | some t =>
        rw [Option.map_some]
        dsimp only
        rw [Option.bind_eq_bind, Option.bind_some, Utf8.split?_take]
        split <;> rfl

/-- The program has all text of the cells in its order, and no cut parts a character. -/
theorem text_kept (shape : Shape) (cells : List (List Char)) :
    ofCellsInBytes? shape cells = some (ofCells shape cells) ∧
      ∃ pieces, Laid shape cells pieces ∧ spelled pieces = ofCells shape cells ∧
        kept pieces = joinLines cells := by
  obtain ⟨pieces, h⟩ := exists_laid shape cells
  exact ⟨ofCellsInBytes?_eq shape cells, pieces, h, h.spelled_eq, h.kept_eq⟩

end Notebook.Program
