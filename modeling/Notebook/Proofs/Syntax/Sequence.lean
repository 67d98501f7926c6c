import Notebook.Proofs.Syntax.Ending

/-!
Statements one after another: those of a text are the ones that reach its end.
-/

namespace Notebook.Syntax

namespace Parser

/-- The statement `s` is read from the front of `x`, and `x'` is left. -/
inductive Step (g : Grammar) : List Tree → Stmt → List Tree → Prop
  | empty {j : Bool} {p : Span} {x : List Tree} :
    Step g (.mark ';' j p :: x) ⟨.empty, [], [.mark ';' j p]⟩ x
  | statement {x x' : List Tree} {s : Stmt} (hx : Ahead.mark ";" x = false)
    (hs : (statement g).run x = some (s, x'))
    (hn : StmtForm.needsSemicolon s.form = true → x' = []) : Step g x s x'

/-- The statements `ss` are read from `x` one after another, and `x'` is left. -/
inductive Reaches (g : Grammar) : List Tree → List Stmt → List Tree → Prop
  | done {x : List Tree} : Reaches g x [] x
  | cons {x x₁ x' : List Tree} {s : Stmt} {ss : List Stmt} (hs : Step g x s x₁)
    (h : Reaches g x₁ ss x') : Reaches g x (s :: ss) x'

namespace Reaches

variable {g : Grammar} {x y z : List Tree} {ss tt : List Stmt} {s : Stmt}

theorem append (h : Reaches g x ss y) (h' : Reaches g y tt z) : Reaches g x (ss ++ tt) z := by
  induction h with
  | done => exact h'
  | cons hs _ ih => exact .cons hs (ih h')

theorem split (h : Reaches g x (ss ++ tt) z) : ∃ y, Reaches g x ss y ∧ Reaches g y tt z := by
  induction ss generalizing x with
  | nil => exact ⟨x, .done, h⟩
  | cons s ss ih =>
    cases h with
    | cons hs h =>
      obtain ⟨y, h₁, h₂⟩ := ih h
      exact ⟨y, .cons hs h₁, h₂⟩

theorem single (hs : Step g x s y) : Reaches g x [s] y := .cons hs .done

end Reaches

section

variable {g : Grammar} [hg : g.Follows g] {x x' : List Tree} {s : Stmt} {ss : List Stmt}

/-- A statement stands for the trees that it was read from, and its body is one of them at least. -/
theorem Step.text (h : Step g x s x') : x = s.attributes ++ (s.body ++ x') ∧ s.body ≠ [] := by
  cases h with
  | empty => exact ⟨rfl, by simp⟩
  | statement _ hs _ =>
    obtain ⟨x₁, h₁, h₂, ha, hb⟩ := run_statement.1 hs
    have hattributes : Follows Inner Eq Never (outerAttributes g) (outerAttributes g) :=
      inferInstance
    have hform : Follows Inner Eq Always (statementForm g) (statementForm g) := inferInstance
    have hlt := length_lt_of_reads hform h₂
    have hbody : s.body ++ x' = x₁ := by rw [hb, readPart_suffix (hform.suffix h₂)]
    refine ⟨by rw [hbody, ha, readPart_suffix (hattributes.suffix h₁)], fun hnil => ?_⟩
    rw [hnil, List.nil_append] at hbody
    rw [hbody] at hlt
    exact Nat.lt_irrefl _ hlt

theorem Step.length_lt (h : Step g x s x') : x'.length < x.length := by
  obtain ⟨hx, hbody⟩ := h.text
  have := List.length_pos_of_ne_nil hbody
  rw [hx]
  simp only [List.length_append]
  omega

theorem Step.suffix (h : Step g x s x') : x' <:+ x :=
  ⟨s.attributes ++ s.body, by rw [List.append_assoc, ← h.text.1]⟩

theorem Reaches.text (h : Reaches g x ss x') :
    x = ss.flatMap (fun s => s.attributes ++ s.body) ++ x' := by
  induction h with
  | done => rfl
  | cons hs _ ih => rw [hs.text.1, ih]; simp

theorem Reaches.suffix (h : Reaches g x ss x') : x' <:+ x := ⟨_, h.text.symm⟩

theorem Reaches.eq_of_length_le (h : Reaches g x ss x') (hx : x.length ≤ x'.length) :
    x = x' ∧ ss = [] := by
  cases h with
  | done => exact ⟨rfl, rfl⟩
  | cons hs h =>
    have := hs.length_lt
    have := h.suffix.length_le
    omega

/-- The last statement that is read ends where the trees that are left start. -/
theorem Reaches.last (h : Reaches g x ss x') (hs : ss.getLast? = some s) :
    ∃ x₁, x₁ <:+ x ∧ Step g x₁ s x' := by
  obtain ⟨ss, rfl⟩ := List.getLast?_eq_some_iff.1 hs
  obtain ⟨x₁, h₁, h₂⟩ := h.split
  cases h₂ with
  | cons hs h => cases h; exact ⟨x₁, h₁.suffix, hs⟩

omit hg in
theorem run_statementsStep (hne : x ≠ []) (hx : Ahead.mark ";" x = false) (read : List Stmt) :
    (statementsStep g read).run x = ((statement g).run x).bind fun r =>
      if (StmtForm.needsSemicolon r.1.form && !r.2.isEmpty) = true then none
      else some (.inl (r.1 :: read), r.2) := by
  cases x with
  | nil => exact absurd rfl hne
  | cons t x =>
    change StateT.run (if Ahead.mark ";" (t :: x) = true then _ else _) (t :: x) = _
    rw [if_neg (by simp [hx]), StateT.run_bind]
    cases (statement g).run (t :: x) with
    | none => rfl
    | some r =>
      change StateT.run (if (StmtForm.needsSemicolon r.1.form && !r.2.isEmpty) = true then _ else _)
        r.2 = if (StmtForm.needsSemicolon r.1.form && !r.2.isEmpty) = true then _ else _
      split <;> rfl

omit hg in
theorem run_statementsStep_eq_some {read : List Stmt} {r : List Stmt ⊕ List Stmt} :
    (statementsStep g read).run x = some (r, x') →
      (x = [] ∧ x' = [] ∧ r = .inr read.reverse) ∨ ∃ s, Step g x s x' ∧ r = .inl (s :: read) := by
  intro h
  by_cases hne : x = []
  · subst hne
    cases h
    exact .inl ⟨rfl, rfl, rfl⟩
  cases hx : Ahead.mark ";" x with
  | true =>
    obtain ⟨j, p, hx⟩ := exists_of_semicolon hx
    rw [hx] at h ⊢
    cases h
    exact .inr ⟨_, .empty, rfl⟩
  | false =>
    rw [run_statementsStep hne hx] at h
    obtain ⟨⟨s, x₁⟩, hs, h⟩ := Option.bind_eq_some_iff.1 h
    split at h
    · cases h
    · rename_i hn
      cases h
      exact .inr ⟨s, .statement hx hs fun h => by simpa [h] using hn, rfl⟩

theorem Step.run (h : Step g x s x') (read : List Stmt) :
    (statementsStep g read).run x = some (.inl (s :: read), x') := by
  have hne : x ≠ [] := by
    rintro rfl
    exact absurd h.length_lt (Nat.not_lt_zero _)
  cases h with
  | empty => rfl
  | statement hx hs hn =>
    rw [run_statementsStep hne hx, hs, Option.bind_some, if_neg]
    simpa using hn

/-- The statements of a text are those that reach its end. -/
theorem run_statements :
    (statements g).run x = some (ss, x') ↔ x' = [] ∧ Reaches g x ss [] := by
  rw [statements_eq]
  constructor
  · intro h
    -- what is read from `z` on makes the statements of the text with what was read before
    refine iterate_induction
      (J := fun read z => ∀ tt, Reaches g z tt [] → Reaches g x (read.reverse ++ tt) [])
      (Q := fun ss z => z = [] ∧ Reaches g x ss []) ?_ ?_ (fun tt h => h) h
    · intro read z read' z' hread hstep tt htt
      obtain ⟨-, -, he⟩ | ⟨s, hs, he⟩ := run_statementsStep_eq_some hstep <;> cases he
      simpa using hread _ (.cons hs htt)
    · intro read z ss z' hread hstep
      obtain ⟨rfl, rfl, he⟩ | ⟨s, hs, he⟩ := run_statementsStep_eq_some hstep <;> cases he
      exact ⟨rfl, by simpa using hread [] .done⟩
  · rintro ⟨rfl, h⟩
    have loop {n : Nat} (read : List Stmt) (hn : x.length < n) :
        (iterateFrom (statementsStep g) n read).run x = some (read.reverse ++ ss, []) := by
      induction n generalizing read x ss with
      | zero => omega
      | succ n ih =>
        rw [iterateFrom]
        cases h with
        | done => exact run_bind_eq_some.2 ⟨.inr read.reverse, [], rfl, by simp⟩
        | cons hs h =>
          have hlt := hs.length_lt
          refine run_bind_eq_some.2 ⟨_, _, hs.run read, ?_⟩
          simpa using ih h (_ :: read) (by omega)
    exact loop [] (Nat.lt_succ_self _)

/-- The last of the productions up to the end is the first, if it takes all there is. -/
theorem run_manyToEnd_single {α : Type} {p : Parser α} (hx : x ≠ [])
    (hp : ∀ r ∈ p.run x, r.2 = []) :
    (manyToEnd p).run x = (p.run x).map fun r => ([r.1], []) := by
  obtain ⟨t, x, rfl⟩ := List.exists_cons_of_ne_nil hx
  have hmore : (ahead (fun ts => !ts.isEmpty)).run (t :: x) = some (true, t :: x) := rfl
  unfold manyToEnd manyWhile iterate
  rw [run_get_bind, iterateFrom]
  cases h : p.run (t :: x) with
  | none =>
    simp only [StateT.run_bind, hmore, Option.bind_eq_bind, Option.bind_some, if_true, h,
      Option.bind_none, Option.map_none]
  | some r =>
    obtain ⟨a, x'⟩ := r
    obtain rfl : x' = [] := hp _ h
    refine run_bind_eq_some.2 ⟨.inl [a], [], ?_, rfl⟩
    exact run_bind_eq_some.2 ⟨true, _, rfl, run_bind_eq_some.2 ⟨a, [], h, rfl⟩⟩

/-- Where the last statement stands. -/
theorem run_statements_last (h : (statements g).run x = some (ss, []))
    (hs : ss.getLast? = some s) :
    (∃ before, x = before ++ (s.attributes ++ s.body)) ∧ s.body ≠ [] := by
  obtain ⟨x₁, ⟨before, hx⟩, hstep⟩ := (run_statements.1 h).2.last hs
  obtain ⟨hx₁, hbody⟩ := hstep.text
  exact ⟨⟨before, by rw [← hx, hx₁, List.append_nil]⟩, hbody⟩

end

end Parser

end Notebook.Syntax
