import Notebook.Proofs.Program.Tail

/-!
Places of a cell and its bytes. A cell is read with a brace on a line in front of it, and places are
lines and columns of that text. `byte_of_place` says that each of them leads back to its byte.
-/

namespace Notebook.Program.Tail

open Text.Utf8 Syntax
open Lexer (Within Stands)

section

variable {cell before after : List Char} {p : Nat} {tail : Tail}

theorem offsets_of_split? (h : split? p cell = some (before, after)) :
    offset? cell ⟨before.count '\n' + 2, lastColumn before⟩ = some before.length ∧
      byteOffset? cell ⟨before.count '\n' + 2, lastColumn before⟩ = some p := by
  obtain ⟨rfl, rfl⟩ := split?_eq_some_iff.1 h
  rw [← after_brace]
  exact ⟨offset?_after before after, byteOffset?_after before after⟩

/-- Every tree of a cell, however deep, stands for a part of the cell. -/
theorem stands_of_within {t : Tree} {inner : List Tree} {span : Span}
    (h : Lexer.trees? (asBlock cell) = some [.group .brace inner span]) (ht : Within t inner) :
    ∃ pre text post, cell = pre ++ (text ++ post) ∧
      Stands (Position.start.after ('\x7b' :: '\n' :: pre)) t text (post ++ ['\n', '\x7d']) := by
  obtain ⟨q, hs⟩ := trees?_inner h
  obtain ⟨a, text, b, htext, hstands⟩ := hs.stands ht
  obtain ⟨pre, post, rfl, rfl, rfl⟩ :=
    Lexer.between_lines htext hstands.whole.starts hstands.whole.stops
  exact ⟨pre, text, post, rfl, by simpa using hstands⟩

theorem byteOffset?_of_stands {t : Tree} {pre text post rest : List Char}
    (h : Stands (Position.start.after ('\x7b' :: '\n' :: pre)) t text rest) :
    byteOffset? (pre ++ (text ++ post)) t.span.first = some (size pre) ∧
      byteOffset? (pre ++ (text ++ post)) t.span.last = some (size (pre ++ text)) := by
  have hlast : (Position.start.after ('\x7b' :: '\n' :: pre)).after text =
      Position.start.after ('\x7b' :: '\n' :: (pre ++ text)) := by
    rw [← Position.after_append]
    rfl
  rw [h.whole.span t (List.mem_singleton_self t)]
  dsimp only
  rw [hlast, byteOffset?_after, ← List.append_assoc, byteOffset?_after]
  exact ⟨rfl, rfl⟩

theorem isSome_inBytes? (cell : List Char) : (inBytes? cell).isSome = (bare? cell).isSome := by
  cases he : bare? cell with
  | none =>
    rw [inBytes?_eq, of?_eq_none he]
    rfl
  | some e =>
    obtain ⟨pre, expr, post, hclosing⟩ := closing_of_bare? he
    rw [hclosing.inBytes?_eq]
    rfl

theorem closing_of_inBytes? (h : inBytes? cell = some tail) : ∃ e pre expr post,
    Closing cell e pre expr post ∧
      tail = ⟨size pre, size (pre ++ expr), Program.hasValue e.form⟩ := by
  have hsome : (bare? cell).isSome = true := by
    rw [← isSome_inBytes?, h]
    rfl
  obtain ⟨e, he⟩ := Option.isSome_iff_exists.1 hsome
  obtain ⟨pre, expr, post, hclosing⟩ := closing_of_bare? he
  rw [hclosing.inBytes?_eq] at h
  exact ⟨e, pre, expr, post, hclosing, (Option.some.inj h).symm⟩

theorem Closing.size_lt {pre expr post : List Char} {e : Expr}
    (h : Closing cell e pre expr post) : size pre < size (pre ++ expr) := by
  obtain ⟨c, hc, -⟩ := h.starts
  cases expr with
  | nil => cases hc
  | cons d expr =>
    have := d.utf8Size_pos
    rw [size_append, size_cons]
    omega

end

/-- A boundary of a cell, its start and its end included, is found again by the line and the column
it has with the brace in front. So are both ends of every tree that is read of the cell, and the
cell is cut at boundaries only. -/
theorem byte_of_place (cell : List Char) :
    (∀ p, IsBoundary cell p → ∃ before after, split? p cell = some (before, after) ∧
      Position.start.after ('\x7b' :: '\n' :: before) =
        ⟨before.count '\n' + 2, lastColumn before⟩ ∧
      offset? cell ⟨before.count '\n' + 2, lastColumn before⟩ = some before.length ∧
      byteOffset? cell ⟨before.count '\n' + 2, lastColumn before⟩ = some p) ∧
    (∀ inner span, Lexer.trees? (asBlock cell) = some [.group .brace inner span] →
      ∀ t, Within t inner → ∃ pre text post, cell = pre ++ (text ++ post) ∧
        Stands (Position.start.after ('\x7b' :: '\n' :: pre)) t text (post ++ ['\n', '\x7d']) ∧
        byteOffset? cell t.span.first = some (size pre) ∧
        byteOffset? cell t.span.last = some (size (pre ++ text))) ∧
    (inBytes? cell).isSome = (bare? cell).isSome ∧
    ∀ tail, inBytes? cell = some tail →
      tail.start < tail.stop ∧ IsBoundary cell tail.start ∧ IsBoundary cell tail.stop := by
  refine ⟨?_, ?_, isSome_inBytes? cell, ?_⟩
  · intro p hp
    obtain ⟨before, after, h⟩ := isBoundary_iff.1 hp
    exact ⟨before, after, h, after_brace before, offsets_of_split? h⟩
  · intro inner span h t ht
    obtain ⟨pre, text, post, rfl, hstands⟩ := stands_of_within h ht
    exact ⟨pre, text, post, rfl, hstands, byteOffset?_of_stands hstands⟩
  · intro tail h
    obtain ⟨e, pre, expr, post, hclosing, rfl⟩ := closing_of_inBytes? h
    refine ⟨hclosing.size_lt, ?_, ?_⟩
    · rw [hclosing.text]
      exact isBoundary_append pre _
    · rw [hclosing.text, ← List.append_assoc]
      exact isBoundary_append _ post

/-- A call on the second line, with characters of two bytes before and in it. -/
def accented : List Char := "/* ü\r\n */ f(é)".toList

/-- The argument of a call that is all of a block. -/
def argument? : List Tree → Option Tree
  | [.group .brace [_, .group .paren [t] _] _] => some t
  | _ => none

theorem trees?_of_argument? {s : List Char} {t : Tree}
    (h : (Lexer.trees? s).bind argument? = some t) : ∃ f args span,
    Lexer.trees? s = some [.group .brace [f, .group .paren [t] args] span] := by
  obtain ⟨ts, hts, h⟩ := Option.bind_eq_some_iff.1 h
  unfold argument? at h
  split at h <;> cases h
  exact ⟨_, _, _, hts⟩

theorem byte_of_place_accented :
    (IsBoundary accented 13 ∧ byteOffset? accented ⟨3, 6⟩ = some 13) ∧
    (∃ inner span t, Lexer.trees? (asBlock accented) = some [.group .brace inner span] ∧
      Within t inner ∧ t.span = ⟨⟨3, 6⟩, ⟨3, 7⟩⟩ ∧
      ∃ pre text post, accented = pre ++ (text ++ post) ∧
        byteOffset? accented ⟨3, 6⟩ = some (size pre) ∧
        byteOffset? accented ⟨3, 7⟩ = some (size (pre ++ text))) ∧
    inBytes? accented = some ⟨11, 16, true⟩ ∧
      IsBoundary accented 11 ∧ IsBoundary accented 16 := by
  obtain ⟨hplaces, htrees, -, hcuts⟩ := byte_of_place accented
  refine ⟨?_, ?_, ?_⟩
  · have hsplit : split? 13 accented = some ("/* ü\r\n */ f(".toList, "é)".toList) := by
      decide +kernel
    have h : IsBoundary accented 13 := isBoundary_iff.2 ⟨_, _, hsplit⟩
    obtain ⟨before, after, hat, -, -, hp⟩ := hplaces 13 h
    rw [hsplit] at hat
    cases hat
    exact ⟨h, hp⟩
  · have hspan : ((Lexer.trees? (asBlock accented)).bind argument?).map Tree.span =
        some ⟨⟨3, 6⟩, ⟨3, 7⟩⟩ := by decide +kernel
    obtain ⟨t, ht, hspan⟩ := Option.map_eq_some_iff.1 hspan
    obtain ⟨f, args, span, h⟩ := trees?_of_argument? ht
    have hin : Within t [f, .group .paren [t] args] :=
      .inside (List.mem_cons_of_mem _ (List.mem_singleton_self _))
        (.here (List.mem_singleton_self _))
    obtain ⟨pre, text, post, heq, -, hfirst, hlast⟩ := htrees _ span h t hin
    rw [hspan] at hfirst hlast
    exact ⟨_, span, t, h, hin, hspan, pre, text, post, heq, hfirst, hlast⟩
  · have h : inBytes? accented = some ⟨11, 16, true⟩ := by decide +kernel
    exact ⟨h, (hcuts _ h).2⟩

end Notebook.Program.Tail
