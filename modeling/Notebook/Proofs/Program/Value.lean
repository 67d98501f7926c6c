import Notebook.Proofs.Program.Shape

/-!
Which closing expressions have their value shown.
-/

namespace Notebook.Program

open Text Syntax
open Tail (Closing bare?)

/-- Forms of expressions that always have type `()`. -/
def isUnit : ExprForm → Bool
  | .forLoop | .whileLoop | .assign => true
  | .binary o => o.isAssign
  | .conditional _ final => !final
  | .tuple n => n = 0
  | _ => false

theorem hasValue_eq_false_iff {f : ExprForm} : hasValue f = false ↔
    isUnit f = true ∧ (∀ o, f ≠ .binary o) ∧ ∀ n, f ≠ .conditional (n + 1) false := by
  cases f with
  | conditional n final => cases n <;> cases final <;> simp [hasValue, isUnit]
  | tuple n => simp [hasValue, isUnit]
  | _ => simp [hasValue, isUnit]

section

variable {cells earlier : List (List Char)} {last : List Char} {e : Expr}

theorem ofCells_wrap (hmain : declaresMain (joinLines cells) = false) :
    ofCells .wrap cells = wrapped (joinLines (cells.map terminated)) :=
  ofCells_wrapped (by decide) hmain (by rintro ⟨⟩)

theorem evaluate_ne_wrap (hmain : declaresMain (joinLines (earlier ++ [last])) = false)
    (he : bare? last = some e) (hv : hasValue e.form = true) :
    ofCells .evaluate (earlier ++ [last]) ≠ ofCells .wrap (earlier ++ [last]) := by
  obtain ⟨pre, expr, post, h⟩ := Tail.closing_of_bare? he
  rw [ofCells_shown hmain h hv, ofCells_wrap hmain, List.map_append, List.map_singleton,
    terminated_of_closing h, joinLines_concat_append]
  intro heq
  -- the program that shows a value is longer
  have hlength := congrArg List.length heq
  have hbinding : 0 < binding.length := by decide
  have hdisplay : closing.length < display.length := by decide
  simp only [showing, wrapped, List.length_append, List.length_cons] at hlength
  omega

/-- A closing expression that always has type `()` is not shown, unless it is a compound assignment
or a conditional with a branch `else if`. -/
theorem evaluate_eq_wrap_iff (hlast : cells.getLast? = some last)
    (hmain : declaresMain (joinLines cells) = false) (he : bare? last = some e) :
    ofCells .evaluate cells = ofCells .wrap cells ↔ isUnit e.form = true ∧
      (∀ o, e.form ≠ .binary o) ∧ ∀ n, e.form ≠ .conditional (n + 1) false := by
  rw [← hasValue_eq_false_iff]
  constructor
  · intro h
    obtain ⟨earlier, rfl⟩ := List.getLast?_eq_some_iff.1 hlast
    by_contra hv
    exact evaluate_ne_wrap hmain he (by simpa using hv) h
  · intro hv
    rw [ofCells_wrap hmain]
    refine ofCells_wrapped (by decide) hmain ?_
    intro _ last' hlast' e' he'
    obtain rfl : last = last' := Option.some.inj (hlast.symm.trans hlast')
    obtain rfl : e = e' := Option.some.inj (he.symm.trans he')
    exact hv

theorem evaluate_eq_wrap_while :
    ofCells .evaluate ["let mut n = 0;".toList, "while n < 3 \x7b n = n + 1; \x7d".toList] =
      ofCells .wrap ["let mut n = 0;".toList, "while n < 3 \x7b n = n + 1; \x7d".toList] :=
  (evaluate_eq_wrap_iff (e := ⟨.whileLoop, false⟩) rfl (by decide +kernel) (by decide +kernel)).2
    ⟨rfl, by simp, by simp⟩

/-- A compound assignment has type `()`, and is shown. -/
theorem evaluate_compound_assignment :
    let cell := "let mut a = 1;\na += 1".toList
    declaresMain (joinLines [cell]) = false ∧
      (bare? cell).map (·.form) = some (.binary .addAssign) ∧
      ofCells .evaluate [cell] ≠ ofCells .wrap [cell] := by
  decide +kernel

example : let cell := "if a \x7b\x7d else if b \x7b\x7d".toList
    (bare? cell).map (·.form) = some (.conditional 1 false) ∧
      ofCells .evaluate [cell] ≠ ofCells .wrap [cell] := by
  decide +kernel

end

end Notebook.Program
