import Notebook.Proofs.Syntax.Sequence

/-!
What statements start with, and which of them go on with what stands before them.
-/

namespace Notebook.Syntax

/-- Trees that a statement may start with. A point is one of two, and no mark of inequality is an
exclamation mark. -/
def opening : List Tree → Bool
  | [] => false
  | .word w _ :: _ => w != "as" && w != "else"
  | .mark c j s :: ts =>
    if c = '.' then Ahead.mark ".." (.mark c j s :: ts)
    else if c = '!' then !Ahead.mark "!=" (.mark c j s :: ts)
    else "#&*-|<:'".toList.contains c
  | .literal .. :: _ | .group .. :: _ => true

section

variable {x r : List Tree}

theorem opening_of_word {w : String} (h : Ahead.word w x = true)
    (hw : (w != "as" && w != "else") = true) : opening x = true := by
  rcases x with _ | ⟨_ | _ | _ | _, x⟩ <;> try cases h
  obtain rfl := beq_iff_eq.1 h
  exact hw

theorem opening_of_mark {c : Char} {cs : List Char} (h : Ahead.markChars (c :: cs) x = true)
    (hc : "#&*-|<:'".toList.contains c = true) : opening x = true := by
  obtain ⟨j, s, ts, rfl⟩ : ∃ j s ts, x = .mark c j s :: ts := by
    rcases x with _ | ⟨_ | ⟨d, j, s⟩ | _ | _, x⟩ <;> cases cs <;> try cases h
    · obtain rfl := beq_iff_eq.1 h
      exact ⟨j, s, x, rfl⟩
    · simp only [Ahead.markChars, Bool.and_eq_true, beq_iff_eq] at h
      exact ⟨j, s, x, by rw [h.1.1]⟩
  rw [opening, if_neg (by rintro rfl; cases hc), if_neg (by rintro rfl; cases hc)]
  exact hc

theorem opening_of_range (h : Ahead.mark ".." x = true) : opening x = true := by
  rcases x with _ | ⟨_ | ⟨d, j, s⟩ | _ | _, x⟩ <;> try cases h
  rw [opening]
  split_ifs with hpoint hbang
  · exact h
  · subst hbang
    cases h
  · simp [Ahead.mark, Ahead.markChars, Ne.symm hpoint] at h

theorem opening_of_literal (h : Ahead.literal x = true) : opening x = true := by
  rcases x with _ | ⟨_ | ⟨d, j, s⟩ | _ | _, x⟩
  · cases h
  · rcases Bool.or_eq_true_iff.1 h with h | h <;> (obtain rfl := beq_iff_eq.1 h; rfl)
  · rw [literal_cons, Bool.and_eq_true, beq_iff_eq] at h
    obtain ⟨rfl, -⟩ := h
    rfl
  · rfl
  · rfl

theorem opening_of_lifetime (h : Ahead.lifetime x = true) : opening x = true := by
  rcases x with _ | ⟨_ | ⟨d, j, s⟩ | _ | _, x⟩ <;> try cases h
  rw [lifetime_cons, Bool.and_eq_true, Tree.isQuote, Bool.and_eq_true, beq_iff_eq] at h
  obtain ⟨⟨rfl, -⟩, -⟩ := h
  rfl

theorem opening_of_pathWord (h : Ahead.pathWord x = true) : opening x = true := by
  rcases x with _ | ⟨⟨w, s⟩ | _ | _ | _, x⟩ <;> try cases h
  rw [opening, Bool.and_eq_true, bne_iff_ne, bne_iff_ne]
  constructor <;> rintro rfl <;> cases h

theorem goesOn_of_opening (h : opening x = true) : goesOn x = false := by
  rcases x with _ | ⟨_ | ⟨c, j, s⟩ | _ | _, x⟩ <;> try rfl
  rw [opening] at h
  split_ifs at h with hpoint hbang
  · subst hpoint
    simp only [goesOn, h]
    rfl
  · subst hbang
    rfl
  · have hquestion : c ≠ '?' := by
      rintro rfl
      cases h
    simp [goesOn, Ahead.mark, Ahead.markChars, Ne.symm hpoint, Ne.symm hquestion]

theorem else_of_opening (h : opening x = true) : Ahead.word "else" x = false := by
  by_contra hx
  rcases x with _ | ⟨⟨w, s⟩ | _ | _ | _, x⟩ <;> try exact hx rfl
  obtain rfl : w = "else" := by simpa [Ahead.word] using hx
  cases h

theorem semicolon_of_opening (h : opening x = true) : Ahead.mark ";" x = false := by
  by_contra hx
  obtain ⟨j, s, hx⟩ := Parser.exists_of_semicolon (by simpa using hx)
  rw [hx] at h
  cases h

/-- Trees that an expression before them goes on with, though a statement may start with them. -/
def continues : List Tree → Bool
  | .mark c _ _ :: _ => "&*-|<.".toList.contains c
  | .group d _ _ :: _ => d != .brace
  | _ => false

theorem halt_of_opening (h : opening x = true) (hx : continues x = false) : Parser.Halt x where
  paren := by rcases x with _ | ⟨_ | _ | _ | ⟨_ | _ | _, _, _⟩, x⟩ <;> first | rfl | cases hx
  bracket := by rcases x with _ | ⟨_ | _ | _ | ⟨_ | _ | _, _, _⟩, x⟩ <;> first | rfl | cases hx
  goesOn := goesOn_of_opening h
  semicolon := semicolon_of_opening h
  branch := else_of_opening h
  operator := by
    rcases x with _ | ⟨⟨w, s⟩ | ⟨c, j, s⟩ | _ | _, x⟩ <;> try rfl
    · have hw : w ≠ "as" := by
        rintro rfl
        cases h
      exact Parser.precedenceAhead_eq_jump.2 ⟨rfl, rfl, rfl, by simpa [Ahead.word] using hw⟩
    · rw [opening] at h
      split_ifs at h with hpoint hbang
      · subst hpoint
        cases hx
      · subst hbang
        have hne : Ahead.mark "!=" (.mark '!' j s :: x) = false := by simpa using h
        exact Parser.precedenceAhead_eq_jump.2 ⟨by
          simpa [Operator.ahead?, Operator.spellings, Ahead.mark, Ahead.markChars] using hne,
          rfl, rfl, rfl⟩
      · have hc : c = '#' ∨ c = ':' ∨ c = '\'' := by
          simp [continues] at h hx
          tauto
        rcases hc with rfl | rfl | rfl <;> rfl

end

namespace Parser

open Ahead (second third)

section

variable {g : Grammar} {x r : List Tree}

theorem opening_of_path (h : isPathAhead x = true) : opening x = true := by
  simp only [isPathAhead, Bool.or_eq_true] at h
  rcases h with (h | h) | h
  · exact opening_of_pathWord h
  · exact opening_of_mark h rfl
  · exact opening_of_mark h rfl

theorem opening_of_closure (h : isClosureAhead x = true) : opening x = true := by
  simp only [isClosureAhead, bindsAhead, Bool.or_eq_true, Bool.and_eq_true] at h
  rcases h with ((((h | h) | h) | h) | h) | h
  · exact opening_of_mark h rfl
  · exact opening_of_word h rfl
  · exact opening_of_word h.1 rfl
  · exact opening_of_word h.1 rfl
  · exact opening_of_word h rfl
  · exact opening_of_word h.1 rfl

theorem atom_opening {structs : Bool} {f : ExprForm}
    (h : (atom g structs).run x = some (f, r)) : opening x = true := by
  by_contra hx
  have hfalse {P : List Tree → Bool} (hP : P x = true → opening x = true) : P x = false := by
    by_contra hp
    exact hx (hP (by simpa using hp))
  have hword (w : String) (hw : (w != "as" && w != "else") = true) : Ahead.word w x = false :=
    hfalse fun h => opening_of_word h hw
  have hgroup (d : Delimiter) : Ahead.group d x = false := by
    refine hfalse fun h => ?_
    rcases x with _ | ⟨_ | _ | _ | _, x⟩ <;> first | rfl | cases h
  unfold atom at h
  rw [run_get_bind] at h
  simp [hfalse opening_of_literal, hfalse opening_of_closure, hfalse opening_of_path,
    hfalse opening_of_range, hfalse opening_of_lifetime, hword, Ahead.paren, Ahead.bracket,
    Ahead.brace, hgroup, Ahead.underscore] at h

/-- What the operands of a grammar start with. -/
class Opens (g : Grammar) : Prop where
  opening {structs : Bool} {x x' : List Tree} {e : Expr} :
    (g.operand structs).run x = some (e, x') → opening x = true

theorem operand_opening [Opens g] {structs : Bool} {e : Expr}
    (h : (operand g structs).run x = some (e, r)) : opening x = true := by
  by_cases hx : Ahead.mark "#" x = true
  · exact opening_of_mark hx rfl
  rw [run_operand (by simpa using hx)] at h
  unfold operandAt at h
  split_ifs at h with hreference hunary
  · exact opening_of_mark hreference rfl
  · obtain ⟨_, x₁, hx₁, h⟩ := run_bind_eq_some.1 h
    cases hx₁
    obtain ⟨e', x₂, h, -⟩ := run_bind_eq_some.1 h
    have hoperand := Opens.opening h
    simp only [Bool.or_eq_true] at hunary
    rcases hunary with (hstar | hbang) | hminus
    · exact opening_of_mark hstar rfl
    · rcases x with _ | ⟨_ | ⟨c, j, s⟩ | _ | _, x⟩ <;> try cases hbang
      obtain rfl : '!' = c := beq_iff_eq.1 hbang
      -- no operand starts with the second mark of an inequality
      by_contra hx
      have hne : Ahead.mark "!=" (.mark '!' j s :: x) = true := by simpa [opening] using hx
      replace hne : (true && j && Ahead.markChars ['='] x) = true := hne
      have hequal : Ahead.markChars ['='] x = true := (Bool.and_eq_true_iff.1 hne).2
      rcases x with _ | ⟨_ | ⟨c, j', s'⟩ | _ | _, x⟩ <;> try cases hequal
      obtain rfl : '=' = c := beq_iff_eq.1 hequal
      cases hoperand
    · exact opening_of_mark hminus rfl
  · obtain ⟨f, x₁, h, -⟩ := run_bind_eq_some.1 h
    exact atom_opening h

instance {n : Nat} : Opens (.depth n) := by
  induction n with
  | zero => exact ⟨fun h => by cases h⟩
  | succ n ih => exact ⟨operand_opening⟩

theorem blockKind?_opening {kind : BlockKind} (h : blockKind? x = some kind) :
    opening x = true := by
  unfold blockKind? at h
  split_ifs at h with h₁ h₂ h₃ h₄ h₅ h₆ h₇ h₈ h₉ h₁₀
  · exact opening_of_word h₁ rfl
  · exact opening_of_word h₂ rfl
  · exact opening_of_word (Bool.and_eq_true_iff.1 h₃).1 rfl
  · exact opening_of_word h₄ rfl
  · exact opening_of_word h₅ rfl
  · exact opening_of_word (Bool.and_eq_true_iff.1 h₆).1 rfl
  · exact opening_of_word h₇ rfl
  · exact opening_of_word (Bool.and_eq_true_iff.1 h₈).1 rfl
  · rcases x with _ | ⟨_ | _ | _ | _, x⟩ <;> first | rfl | cases h₉
  · exact opening_of_lifetime h₁₀

theorem bounded_opening [Opens g] {e : Expr} (h : (bounded g).run x = some (e, r)) :
    opening x = true := by
  by_cases hx : Ahead.mark "#" x = true
  · exact opening_of_mark hx rfl
  rw [bounded_eq_boundedOf, StateT.run_bind, run_outerAttributes (by simpa using hx)] at h
  replace h : (look blockKind? >>= boundedOf g).run x = some (e, r) := h
  rw [run_look_bind] at h
  cases hkind : blockKind? x with
  | some kind => exact blockKind?_opening hkind
  | none =>
    rw [hkind] at h
    obtain ⟨e', x₁, h, -⟩ := run_bind_eq_some.1 h
    exact operand_opening h

theorem startsItem_opening (h : startsItem x = true) : opening x = true := by
  simp only [startsItem, Bool.or_eq_true, Bool.and_eq_true] at h
  have hword {w : String} (hw : (w != "as" && w != "else") = true) (h : Ahead.word w x = true) :
      opening x = true := opening_of_word h hw
  grind

theorem plainPath_opening (h : plainPath.run x = some ((), r)) : opening x = true := by
  obtain ⟨b, x₁, h₁, h₂⟩ := run_bind_eq_some.1 h
  rw [run_tryMark] at h₁
  by_cases hx : Ahead.mark "::" x = true
  · exact opening_of_mark hx rfl
  · rw [if_neg hx] at h₁
    cases h₁
    obtain ⟨_, x₂, hget, h₂⟩ := run_bind_eq_some.1 h₂
    cases hget
    rw [iterateFrom] at h₂
    obtain ⟨_, x₂, h₂, -⟩ := run_bind_eq_some.1 h₂
    obtain ⟨_, x₃, h₂, -⟩ := run_bind_eq_some.1 h₂
    rw [run_require] at h₂
    exact opening_of_pathWord (by_contra fun hp => by simp [hp] at h₂)

theorem macroStart_opening (h : macroStart x ≠ .neither) : opening x = true := by
  rw [macroStart_eq] at h
  cases hx : plainPath.run x with
  | none =>
    rw [hx] at h
    exact absurd rfl h
  | some r => exact plainPath_opening hx

theorem statementForm_opening [Opens g] {φ : StmtForm}
    (h : (statementForm g).run x = some (φ, r)) : opening x = true := by
  rw [run_statementForm] at h
  unfold kindAhead at h
  split_ifs at h with hcall hbinding hitem
  · exact macroStart_opening (by rw [hcall]; simp)
  · exact opening_of_word hbinding rfl
  · rw [Bool.or_eq_true] at hitem
    rcases hitem with hitem | hitem
    · exact startsItem_opening hitem
    · exact macroStart_opening (by rw [of_decide_eq_true hitem]; simp)
  · obtain ⟨e, x₁, h, -⟩ := run_maybeEnded.1 h
    exact bounded_opening h

theorem statement_opening [Opens g] {s : Stmt} (h : (statement g).run x = some (s, r)) :
    opening x = true := by
  by_cases hx : Ahead.mark "#" x = true
  · exact opening_of_mark hx rfl
  obtain ⟨x₁, h₁, h₂, -, -⟩ := run_statement.1 h
  rw [run_outerAttributes (by simpa using hx)] at h₁
  cases h₁
  exact statementForm_opening h₂

/-- Inner attributes are ahead. -/
def innerAhead (ts : List Tree) : Bool := Ahead.mark "#" ts && second (Ahead.mark "!") ts

theorem run_innerAttributes (hx : innerAhead x = false) :
    (innerAttributes g).run x = some ((), x) := by
  refine run_bind_eq_some.2 ⟨[], x, iterate_stop ?_, rfl⟩
  change StateT.run (if innerAhead x = true then _ else _) x = _
  rw [hx]
  rfl

theorem outerAttributes_inner (h : (outerAttributes g).run x = some ((), r)) :
    innerAhead x = false := by
  obtain ⟨z, rfl, hz, hmark⟩ := run_outerAttributes_iff.1 h
  cases hz with
  | nil =>
    rw [innerAhead, List.nil_append, hmark]
    rfl
  | cons => rfl

theorem Step.inner {s : Stmt} (h : Step g x s r) : innerAhead x = false := by
  cases h with
  | empty => rfl
  | statement _ hs _ =>
    obtain ⟨x₁, h₁, -⟩ := run_statement.1 hs
    exact outerAttributes_inner h₁

end

end Parser

end Notebook.Syntax
