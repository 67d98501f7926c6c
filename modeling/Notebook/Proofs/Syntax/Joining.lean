import Mathlib.Data.List.Forall2
import Notebook.Proofs.Syntax.Start

/-!
Statements of one text in front of those of another: where they end as they did, and which of them
run into what comes next.
-/

namespace Notebook.Syntax

namespace Stmt

/-- A macro in braces without a semicolon takes one that stands alone after it. Where the macro is
read as an expression, what may go on with an expression goes on with it. -/
structure RunsInto (s t : Stmt) : Prop where
  form : s.form = .macroCall .brace false
  next : t.form = .empty ∨
    Parser.macroStart s.body ≠ .statement ∧ continues (t.attributes ++ t.body) = true

/-- A bare expression and the statement that it is with a semicolon. -/
structure Terminated (s s' : Stmt) : Prop where
  form : ∃ e, s.bare? = some e ∧ s'.form = e.ended
  attributes : Track [] [] s.attributes s'.attributes
  body : ∃ b j p, s'.body = b ++ [.mark ';' j p] ∧ Track [] [] s.body b

theorem bare?_eq_some {s : Stmt} {e : Expr} : s.bare? = some e ↔ s.form = .expression e false := by
  obtain ⟨form, _, _⟩ := s
  rcases form with _ | _ | _ | _ | ⟨e', _ | _⟩ <;> simp [bare?]

end Stmt

theorem Expr.needsSemicolon_ended (e : Expr) : Parser.StmtForm.needsSemicolon e.ended = false := by
  obtain ⟨form, v⟩ := e
  cases form <;> rfl

/-- The statements of a text and what they are where others follow. -/
inductive Kept : List Stmt → List Stmt → Prop
  | whole {ss ss' : List Stmt} (hb : ∀ s ∈ ss.getLast?, s.bare? = none)
    (h : List.Forall₂ Stmt.Alike ss ss') : Kept ss ss'
  | ended {ss ss' : List Stmt} {s s' : Stmt} (h : List.Forall₂ Stmt.Alike ss ss')
    (hs : s.Terminated s') : Kept (ss ++ [s]) (ss' ++ [s'])

theorem Track.concat {x y : List Tree} {t : Tree} (h : Track [] [] (x ++ [t]) y) :
    ∃ y' u, y = y' ++ [u] ∧ List.Forall₂ Tree.Same x y' ∧ t.Loose u := by
  induction x generalizing y with
  | nil =>
    cases h with
    | last h => exact ⟨[], _, rfl, .nil, h⟩
    | cons h hs => cases hs; exact ⟨[], _, rfl, .nil, .same h⟩
  | cons a x ih =>
    generalize hz : a :: x ++ [t] = z at h
    cases h with
    | ends => cases hz
    | last => simp at hz
    | cons h hs =>
      cases hz
      obtain ⟨y', u, rfl, hsame, htu⟩ := ih hs
      exact ⟨_ :: y', u, rfl, .cons h hsame, htu⟩

theorem Track.extend {x y : List Tree} (h : Track [] [] x y) (e e' : List Tree) :
    Track e e' (x ++ e) (y ++ e') := by
  induction h with
  | ends => exact .ends
  | last h => exact .last h
  | cons h _ ih => exact .cons h ih

theorem Track.split {x y z : List Tree} (h : Track [] [] (x ++ y) z) :
    ∃ x' y', z = x' ++ y' ∧ Track [] [] x x' ∧ Track [] [] y y' :=
  ⟨z.take x.length, z.drop x.length, (List.take_append_drop ..).symm,
    by simpa using h.take (n := x.length) (by simp),
    by simpa using h.drop (n := x.length) (by simp)⟩

theorem Track.semicolon {e e' x y : List Tree} (h : Track e e' x y) (hx : e.length < x.length) :
    Ahead.mark ";" x = Ahead.mark ";" y := by
  obtain ⟨t, u, x, y, rfl, rfl, ht, -, -⟩ := h.inside hx
  rcases ht with ⟨_ | _⟩ | _ <;> rfl

theorem continues_append {x : List Tree} (hx : x ≠ []) (r : List Tree) :
    continues (x ++ r) = continues x := by
  rcases x with _ | ⟨_ | _ | _ | _, x⟩ <;> first | rfl | exact absurd rfl hx

theorem Track.continues {x y : List Tree} (h : Track [] [] x y) : continues x = continues y := by
  cases h with
  | ends => rfl
  | last h => rcases h with ⟨_ | _⟩ | _ <;> rfl
  | cons h _ => cases h <;> rfl

/-! ### What runs into what does not change -/

/-- The statement is the same, or the same with a semicolon. -/
def Stmt.Matches (s s' : Stmt) : Prop := s.Alike s' ∨ s.Terminated s'

namespace Stmt.Matches

variable {s s' t t' : Stmt}

theorem form_iff (h : s.Matches s') {φ : StmtForm} (hφ : ∀ e b, φ ≠ .expression e b)
    (hc : ∀ d, φ ≠ .macroCall d true) : s.form = φ ↔ s'.form = φ := by
  rcases h with h | ⟨⟨e, he, hs'⟩, -, -⟩
  · rw [h.form]
  · rw [bare?_eq_some.1 he, hs']
    refine ⟨fun h => absurd h.symm (hφ _ _), fun h => ?_⟩
    unfold Expr.ended at h
    split at h
    · exact absurd h.symm (hc _)
    · exact absurd h.symm (hφ _ _)

theorem continues_eq (h : s.Matches s') :
    continues (s.attributes ++ s.body) = continues (s'.attributes ++ s'.body) := by
  have hlead {a a' b b' : List Tree} (ha : Track [] [] a a')
      (hb : continues b = continues b') : continues (a ++ b) = continues (a' ++ b') := by
    have hlen := ha.length
    by_cases hnil : a = []
    · subst hnil
      obtain rfl := List.eq_nil_of_length_eq_zero hlen.symm
      exact hb
    · have hnil' : a' ≠ [] := by
        rintro rfl
        exact hnil (List.eq_nil_of_length_eq_zero hlen)
      rw [continues_append hnil, continues_append hnil', ha.continues]
  rcases h with h | ⟨-, ha, b, j, p, hbody, hb⟩
  · exact hlead h.attributes h.body.continues
  · refine hlead ha ?_
    rw [hbody, hb.continues]
    cases b with
    | nil => rfl
    | cons t b => rw [continues_append (by simp)]

theorem macroStart_eq (h : s.Matches s') (hs : s.form = .macroCall .brace false) :
    Parser.macroStart s.body = Parser.macroStart s'.body := by
  rcases h with h | ⟨⟨e, he, -⟩, -, -⟩
  · exact Agree.eq (n := 0) Inner.nil h.body trivial
  · rw [bare?_eq_some.1 he] at hs
    cases hs

theorem runsInto_iff (hs : s.Matches s') (ht : t.Matches t') :
    s.RunsInto t ↔ s'.RunsInto t' := by
  have hform := hs.form_iff (φ := .macroCall .brace false) (by simp) (by simp)
  have hempty := ht.form_iff (φ := .empty) (by simp) (by simp)
  constructor
  · rintro ⟨h, hnext⟩
    refine ⟨hform.1 h, ?_⟩
    rwa [← hempty, ← hs.macroStart_eq h, ← ht.continues_eq]
  · rintro ⟨h, hnext⟩
    refine ⟨hform.2 h, ?_⟩
    rwa [hempty, hs.macroStart_eq (hform.2 h), ht.continues_eq]

theorem isChain_iff {ss ss' : List Stmt} (h : List.Forall₂ Stmt.Matches ss ss') :
    (ss.IsChain fun s t => ¬ s.RunsInto t) ↔ ss'.IsChain fun s t => ¬ s.RunsInto t := by
  induction h with
  | nil => simp
  | cons hs h ih =>
    cases h with
    | nil => simp
    | cons ht h => rw [List.isChain_cons_cons, List.isChain_cons_cons, hs.runsInto_iff ht, ih]

end Stmt.Matches

theorem Kept.matches {ss ss' : List Stmt} (h : Kept ss ss') :
    List.Forall₂ Stmt.Matches ss ss' := by
  cases h with
  | whole _ h => exact h.imp fun _ _ => .inl
  | ended h hs => exact List.rel_append (h.imp fun _ _ => .inl) (.cons (.inr hs) .nil)

namespace Parser

section

variable {g : Grammar} [hg : g.Follows g] [Opens g] {x x' r : List Tree} {s t : Stmt}
  {ss : List Stmt}

omit hg [Opens g] in
theorem statementForm_ne_empty {φ : StmtForm} (h : (statementForm g).run x = some (φ, r)) :
    φ ≠ .empty := by
  rw [run_statementForm] at h
  cases hkind : kindAhead x <;> rw [hkind] at h
  case macroCall =>
    obtain ⟨_, _, -, rfl, -⟩ := run_maybeEnded.1 h
    simp
  case expression =>
    obtain ⟨e, _, -, rfl, -⟩ := run_maybeEnded.1 h
    unfold expressionForm
    split <;> try split
    all_goals simp
  all_goals
    obtain ⟨_, _, -, he⟩ := run_bind_eq_some.1 h
    cases he
    simp

omit [Opens g] in
theorem Step.continues (h : Step g x s r) :
    Syntax.continues (s.attributes ++ s.body) = Syntax.continues x := by
  obtain ⟨hx, hbody⟩ := h.text
  rw [hx, ← List.append_assoc,
    continues_append (x := s.attributes ++ s.body) (by simp [hbody])]

omit hg in
/-- A statement is a semicolon that stands alone, or starts as no semicolon does. -/
theorem Step.starts (h : Step g x s r) :
    s.form = .empty ∧ Ahead.mark ";" x = true ∨ s.form ≠ .empty ∧ opening x = true := by
  cases h with
  | empty => exact .inl ⟨rfl, rfl⟩
  | statement _ hs _ =>
    obtain ⟨x₁, -, h₂, -, -⟩ := run_statement.1 hs
    exact .inr ⟨statementForm_ne_empty h₂, statement_opening hs⟩

omit hg in
theorem Reaches.goesOn (h : Reaches g x ss []) : Syntax.goesOn x = false := by
  cases h with
  | done => rfl
  | cons hs _ =>
    rcases hs.starts with ⟨-, hx⟩ | ⟨-, hx⟩
    · obtain ⟨j, p, hx⟩ := exists_of_semicolon hx
      rw [hx]
      rfl
    · exact goesOn_of_opening hx

omit hg [Opens g] in
theorem Reaches.inner (h : Reaches g x ss []) : innerAhead x = false := by
  cases h with
  | done => rfl
  | cons hs _ => exact hs.inner

omit [Opens g] in
/-- Statements that reach the end are those of the block that they stand in. -/
theorem Reaches.block {p : Span} (h : Reaches g x ss []) :
    (attributedBlock g.next).run (.group .brace x p :: r) = some (ss, r) :=
  run_within_eq_some.2 ⟨x, p, rfl, run_bind_eq_some.2
    ⟨(), x, run_innerAttributes h.inner, run_statements.2 ⟨rfl, h⟩⟩⟩

omit hg [Opens g] in
theorem Step.form (h : Step g x s r) (hs : s.bare? = none) :
    s.form.isClosed = true ∨ s.form = .macroCall .brace false := by
  cases h with
  | empty => exact .inl rfl
  | statement _ h _ => exact statement_form h hs

/-- A statement rests before statements that it does not run into. -/
theorem Reaches.rests (h : Reaches g r ss [])
    (hs : s.form.isClosed = true ∨ s.form = .macroCall .brace false)
    (hr : ∀ t ∈ ss.head?, ¬ s.RunsInto t) : Rests s r := by
  rcases hs with hs | hs
  · exact .closed hs
  have hn : StmtForm.needsSemicolon s.form = false := by rw [hs]; rfl
  cases h with
  | done => exact .halted hn halt_nil
  | @cons _ _ _ t _ ht _ =>
    have hr := hr t rfl
    rcases ht.starts with ⟨hempty, -⟩ | ⟨-, hx⟩
    · exact absurd ⟨hs, .inl hempty⟩ hr
    by_cases hcall : macroStart s.body = .statement
    · exact .macroCall hn (macroStart_of_kindAhead.2 hcall) (semicolon_of_opening hx)
    · refine .halted hn (halt_of_opening hx ?_)
      rw [← ht.continues]
      by_contra hc
      exact hr ⟨hs, .inr ⟨hcall, by simpa using hc⟩⟩

/-- An expression goes on with what continues it. -/
theorem not_halt_of_continues (hx : opening x = true) (hc : Syntax.continues x = true) :
    ¬ (NoTrailer x ∧ precedenceAhead x = .jump) := by
  rintro ⟨hend, hjump⟩
  rcases x with _ | ⟨_ | ⟨c, j, p⟩ | _ | ⟨_ | _ | _, _, _⟩, x⟩ <;> try cases hc
  · obtain ⟨hoperator, -, hrange, -⟩ := precedenceAhead_eq_jump.1 hjump
    have hc : c = '&' ∨ c = '*' ∨ c = '-' ∨ c = '|' ∨ c = '<' ∨ c = '.' := by
      simpa [Syntax.continues] using hc
    rw [Operator.ahead?, List.find?_eq_none] at hoperator
    have hnot {m : String} {o : Operator} (hm : (m, o) ∈ Operator.spellings) :=
      hoperator (m, o) hm
    rcases hc with rfl | rfl | rfl | rfl | rfl | rfl
    · exact hnot (m := "&") (o := .bitAnd) (by decide) rfl
    · exact hnot (m := "*") (o := .mul) (by decide) rfl
    · exact hnot (m := "-") (o := .sub) (by decide) rfl
    · exact hnot (m := "|") (o := .bitOr) (by decide) rfl
    · exact hnot (m := "<") (o := .lt) (by decide) rfl
    · rw [show Ahead.mark ".." _ = true from hx] at hrange
      cases hrange
  · cases hend.paren
  · cases hend.bracket

/-- No statement runs into the one that is read after it. -/
theorem Step.not_runsInto [Climbs g] (h : Step g x s r) (h' : Step g r t x') : ¬ s.RunsInto t := by
  rintro ⟨hform, hnext⟩
  cases h with
  | empty => cases hform
  | statement _ hs _ =>
    obtain ⟨hsemicolon, -, hrest⟩ := statement_open hs hform
    rcases h'.starts with ⟨hempty, hr⟩ | ⟨hempty, hr⟩
    · rw [hr] at hsemicolon
      cases hsemicolon
    · obtain ⟨hcall, hcontinues⟩ := hnext.resolve_left hempty
      rw [h'.continues] at hcontinues
      exact not_halt_of_continues hr hcontinues
        (hrest fun hkind => hcall (macroStart_of_kindAhead.1 hkind))

theorem Reaches.isChain [Climbs g] (h : Reaches g x ss r) :
    ss.IsChain fun s t => ¬ s.RunsInto t := by
  induction h with
  | done => exact .nil
  | cons hs h ih =>
    cases h with
    | done => exact .singleton _
    | cons ht _ => exact .cons_cons (hs.not_runsInto ht) ih

end

/-! ### Ends that are replaced -/

section

variable {g : Grammar} (g' : Grammar) [hg : g.Follows g'] {E : Ends}
  {e e' x y x₁ : List Tree} {s : Stmt}

/-- A semicolon that stands alone is read alone. -/
theorem Step.of_semicolon {j : Bool} {p : Span} (ht : Track e e' (.mark ';' j p :: x) y)
    (hx : e <:+ x) : ∃ s', Step g' y s' (y.drop 1) ∧
      Stmt.Alike ⟨.empty, [], [.mark ';' j p]⟩ s' := by
  have := hx.length_le
  obtain ⟨t, u, x', y', heq, rfl, hu, -, -⟩ := ht.inside (by simp; omega)
  cases heq
  rcases hu with ⟨_ | _⟩ | _ <;> exact ⟨_, .empty, rfl, .ends, .last .mark⟩

/-- A statement is read in both lists, if it ends before both ends. -/
theorem Step.follow [Firm E] (hE : E e e') (ht : Track e e' x y) (h : Step g x s x₁)
    (hx : e <:+ x₁) : ∃ n s', n + e.length ≤ x.length ∧ x₁ = x.drop n ∧ Step g' y s' (y.drop n) ∧
      s.Alike s' := by
  cases h with
  | empty =>
    obtain ⟨s', hs', halike⟩ := Step.of_semicolon g' ht hx
    have := hx.length_le
    exact ⟨1, s', by simp; omega, rfl, hs', halike⟩
  | statement hm hs hn =>
    have hf : Follows E Stmt.Alike Always (Parser.statement g) (Parser.statement g') :=
      inferInstance
    obtain ⟨n, s', hlen, hpos, halike, hs'⟩ := hf.follow hE ht s x₁ hs hx
    have hle := hx.length_le
    have hdrop : x₁ = x.drop n := by
      rw [List.suffix_iff_eq_drop.1 (hf.suffix hs), show x.length - x₁.length = n by omega]
    have hpos := hpos trivial
    refine ⟨n, s', by omega, hdrop, .statement ?_ hs' fun hneeds => ?_, halike⟩
    · rw [← ht.semicolon (by omega), hm]
    · rw [← halike.form] at hneeds
      have hnil := hn hneeds
      have he : e = [] := List.eq_nil_of_suffix_nil (hnil ▸ hx)
      have ht' := ht.drop (n := n) (by omega)
      rw [← hdrop, hnil, he, Firm.nil_right hE he] at ht'
      exact (ht'.outside (Nat.le_refl _)).2

/-- A statement that more follows is read before any end. -/
theorem Step.before [Fair E] (hE : E e e') (ht : Track e e' x y) (h : Step g x s x₁)
    (hx : e.length < x₁.length) :
    ∃ s' y₁, Step g' y s' y₁ ∧ s.Alike s' ∧ Track e e' x₁ y₁ := by
  cases h with
  | empty =>
    have hsuffix : e <:+ x₁ := List.suffix_of_suffix_length_le ht.suffix (List.suffix_cons _ _)
      (Nat.le_of_lt hx)
    obtain ⟨s', hs', halike⟩ := Step.of_semicolon g' ht hsuffix
    exact ⟨s', _, hs', halike, ht.drop (n := 1) (by simp; omega)⟩
  | statement hm hs hn =>
    obtain ⟨s', y₁, hs', halike, ht'⟩ := statement_before g' hE ht hs hx
    have hf : Follows Inner Stmt.Alike Always (Parser.statement g) (Parser.statement g') :=
      inferInstance
    have hlt : e.length < x.length := Nat.lt_of_lt_of_le hx (hf.suffix hs).length_le
    refine ⟨s', y₁, .statement (by rw [← ht.semicolon hlt, hm]) hs' fun hneeds => ?_, halike, ht'⟩
    rw [← halike.form] at hneeds
    simp [hn hneeds] at hx

section

variable {t u : Tree} {r r' : List Tree} {ss : List Stmt} (hs : Sealed (t :: r) (u :: r'))
  (ht : Track (t :: r) (u :: r') x y) (hr : Track r r' x y)

include hs ht hr

theorem Step.close [Climbs g] [Halts g'] (h : Step g x s r) (hc : Rests s r') :
    ∃ s', Step g' y s' r' ∧ s.Alike s' := by
  cases h with
  | empty =>
    obtain ⟨s', hs', halike⟩ := Step.of_semicolon g' hr List.suffix_rfl
    have hy := ((hr.drop (n := 1) (by simp; omega)).outside (by simp)).2
    exact ⟨s', hy ▸ hs', halike⟩
  | statement hm h hn =>
    obtain ⟨s', hs', halike⟩ := statement_close g' hs ht hr h hc
    have hlt : r.length < x.length := by
      have := ht.suffix.length_le
      rw [List.length_cons] at this
      omega
    refine ⟨s', .statement (by rw [← hr.semicolon hlt, hm]) hs' fun hneeds => ?_, halike⟩
    rw [← halike.form, hc.needsSemicolon] at hneeds
    cases hneeds

/-- The last statement ends at the first of two ends, and those before it end before. -/
theorem Reaches.follow [g.Follows g] [Climbs g] [Halts g'] (h : Reaches g x ss r) (hne : ss ≠ [])
    (hlast : ∀ s ∈ ss.getLast?, Rests s r') :
    ∃ ss', Reaches g' y ss' r' ∧ List.Forall₂ Stmt.Alike ss ss' := by
  induction h generalizing y with
  | done => exact absurd rfl hne
  | @cons x x₁ r s ss h hrest ih =>
    by_cases hss : ss = []
    · subst hss
      cases hrest
      obtain ⟨s', hs', halike⟩ := h.close g' hs ht hr (hlast s rfl)
      exact ⟨[s'], .single hs', .cons halike .nil⟩
    · have hlt : r.length < x₁.length := by
        by_contra hle
        exact hss (hrest.eq_of_length_le (by omega)).2
      have hx₁ : t :: r <:+ x₁ := List.suffix_of_suffix_length_le ht.suffix h.suffix hlt
      obtain ⟨n, s', hn, rfl, hs', halike⟩ := h.follow g' hs ht hx₁
      rw [List.length_cons] at hn
      obtain ⟨ss', hss', hall⟩ := ih hs (ht.drop (by simpa using hn)) (hr.drop (by omega)) hss
        (by rwa [List.getLast?_cons_of_ne_nil hss] at hlast)
      exact ⟨s' :: ss', .cons hs' hss', .cons halike hall⟩

end

omit hg in
/-- Statements that need no semicolon end with one or with braces. -/
theorem Reaches.anchored [g.Follows g] [Climbs g] {z r : List Tree} {ss : List Stmt}
    (h : Reaches g (z ++ r) ss r) (hss : ss ≠ [])
    (hlast : ∀ s ∈ ss.getLast?, StmtForm.needsSemicolon s.form = false) :
    ∃ z₀ t, z = z₀ ++ [t] ∧ Anchor t := by
  obtain ⟨s, hs⟩ := Option.isSome_iff_exists.1 (List.getLast?_isSome.2 hss)
  obtain ⟨x₁, ⟨w, hw⟩, hstep⟩ := h.last hs
  obtain ⟨v, t, ht, rfl⟩ : ∃ v t, Anchor t ∧ x₁ = v ++ t :: r := by
    cases hstep with
    | empty => exact ⟨[], _, .semicolon, rfl⟩
    | statement _ h _ => exact statement_anchored h (hlast s hs)
  refine ⟨w ++ v, t, (List.append_left_inj r).1 ?_, ht⟩
  rw [← hw]
  simp

omit hg in
theorem Reaches.needsSemicolon [g.Follows g] {x r : List Tree} {ss : List Stmt}
    (h : Reaches g x ss r) (hr : r ≠ []) :
    ∀ s ∈ ss.getLast?, StmtForm.needsSemicolon s.form = false := by
  intro s hs
  obtain ⟨x₁, -, hstep⟩ := h.last hs
  cases hstep with
  | empty => rfl
  | statement _ _ hn => simpa using mt hn hr

omit hg in
/-- Statements that more follows end with a semicolon or with braces. -/
theorem Reaches.ends [g.Follows g] [Climbs g] {z r : List Tree} {ss : List Stmt}
    (h : Reaches g (z ++ r) ss r) (hr : r ≠ []) : ∀ t ∈ z.getLast?, Anchor t := by
  intro t ht
  have hss : ss ≠ [] := by
    rintro rfl
    have heq : z ++ r = r := by
      generalize z ++ r = x at h
      cases h
      rfl
    obtain rfl := List.append_left_eq_self.1 heq
    cases ht
  obtain ⟨z, u, rfl, hu⟩ := h.anchored hss (h.needsSemicolon hr)
  rw [List.getLast?_concat] at ht
  cases ht
  exact hu

/-- The statements of a text are read before others, if the last of them rests there. -/
theorem Reaches.close [g.Follows g] [Climbs g] [Halts g'] {z z' r r' : List Tree} {ss : List Stmt}
    (h : Reaches g (z ++ r) ss r) (hz : Track [] [] z z')
    (hlast : ∀ s ∈ ss.getLast?, Rests s r') (hr : Syntax.goesOn r = false)
    (hr' : Syntax.goesOn r' = false) :
    ∃ ss', Reaches g' (z' ++ r') ss' r' ∧ List.Forall₂ Stmt.Alike ss ss' := by
  by_cases hss : ss = []
  · subst hss
    obtain rfl : z = [] := by
      generalize heq : z ++ r = x at h
      cases h
      simpa using heq
    obtain rfl := List.eq_nil_of_length_eq_zero hz.length.symm
    exact ⟨[], .done, .nil⟩
  obtain ⟨z, t, rfl, ht⟩ := h.anchored hss fun s hs => (hlast s hs).needsSemicolon
  obtain ⟨z', u, rfl, hsame, htu⟩ := hz.concat
  have hsealed : Sealed (t :: r) (u :: r') := by
    cases ht <;> rcases htu with ⟨_ | _⟩ | _
    · exact .semicolon
    · exact .semicolon
    · exact .brace (.group ‹_›) hr hr'
  obtain ⟨ss', hss', hall⟩ := h.follow g' hsealed
    (by simpa using Track.ends.append hsame) (hz.extend r r') hss hlast
  exact ⟨ss', hss', hall⟩

/-- The bare expression that closes a text takes a semicolon that is put after it. -/
theorem Reaches.ended [g.Follows g] {x y z : List Tree} {j : Bool} {p : Span} {ss : List Stmt}
    (h : Reaches g x (ss ++ [s]) []) (ht : Track [] (.mark ';' j p :: z) x y)
    (hs : s.bare?.isSome = true) :
    ∃ ss' s', Reaches g' y (ss' ++ [s']) z ∧ List.Forall₂ Stmt.Alike ss ss' ∧ s.Terminated s' := by
  have hE : Syntax.Ended [] (.mark ';' j p :: z) := .semicolon
  induction ss generalizing x y with
  | nil =>
    cases h with
    | cons h hdone =>
      cases hdone
      obtain ⟨e, he⟩ := Option.isSome_iff_exists.1 hs
      cases h with
      | empty => cases hs
      | @statement _ _ _ hm h hn =>
        obtain ⟨s', hs', hform, hattributes, b, hbody, hb⟩ :=
          statement_end g' ht h (Stmt.bare?_eq_some.1 he)
        have hlt := (Step.statement hm h hn).length_lt
        refine ⟨[], s', .single (.statement ?_ hs' fun hneeds => ?_), .nil,
          ⟨e, he, hform⟩, hattributes, b, j, p, hbody, hb⟩
        · rw [← ht.semicolon hlt, hm]
        · rw [hform, e.needsSemicolon_ended] at hneeds
          cases hneeds
  | cons s₁ ss ih =>
    obtain ⟨x₁, h, hrest⟩ : ∃ x₁, Step g x s₁ x₁ ∧ Reaches g x₁ (ss ++ [s]) [] := by
      cases h with
      | cons h hrest => exact ⟨_, h, hrest⟩
    have hx₁ : x₁ ≠ [] := by
      rintro rfl
      exact absurd (hrest.eq_of_length_le (Nat.le_refl _)).2 (by simp)
    obtain ⟨s₁', y₁, h', halike, ht'⟩ :=
      h.before g' hE ht (by simpa using List.length_pos_of_ne_nil hx₁)
    obtain ⟨ss', s', hss', hall, hended⟩ := ih hrest ht'
    exact ⟨s₁' :: ss', s', .cons h' hss', .cons halike hall, hended⟩

/-! ### Attributes in front of another statement -/

theorem Attributes.isBracket {z : List Tree} (h : Attributes g z) :
    ∀ t ∈ z.getLast?, ∃ inner p, t = .group .bracket inner p := by
  induction h with
  | nil => simp
  | @cons j s s' inner z _ _ ih =>
    cases z with
    | nil =>
      rintro t ⟨⟩
      exact ⟨inner, s', rfl⟩
    | cons u z => simpa using ih

theorem Attributes.follow {z z' : List Tree} (h : Attributes g z) (ht : Track [] [] z z') :
    Attributes g' z' := by
  induction h generalizing z' with
  | nil =>
    obtain rfl := List.eq_nil_of_length_eq_zero ht.length.symm
    exact .nil
  | @cons j s s' inner z h _ ih =>
    obtain ⟨t, u, x, y, hx, rfl, -, htail, hsame⟩ := ht.inside (by simp)
    cases hx
    obtain ⟨t', u', x', y', hx, rfl, hloose, hz, -⟩ := htail.inside (by simp)
    cases hx
    rcases hsame.resolve_right (by simp) with _ | _
    have hgroup : inside? .bracket (metaItem g) (.group .bracket inner s') = some () := by
      simp [inside?, h]
    obtain ⟨⟨⟩, hu, -⟩ := inside?_of_loose (ρ := Eq) (q := metaItem g') inferInstance hloose hgroup
    have hrun : (within .bracket (metaItem g')).run [u'] = some ((), []) := by
      rw [run_within, List.head?_cons, Option.bind_some, hu]
      rfl
    obtain ⟨inner', p', heq, hinner⟩ := run_within_eq_some.1 hrun
    cases heq
    exact .cons hinner (ih hz)

omit hg in
/-- The last statement of a text by its parts. -/
theorem Step.parts [g.Follows g] (h : Step g x s []) (hs : s.form ≠ .empty) :
    Attributes g s.attributes ∧ Ahead.mark "#" s.body = false ∧
      (statementForm g).run s.body = some (s.form, []) := by
  cases h with
  | empty => exact absurd rfl hs
  | statement _ h _ =>
    obtain ⟨x₁, h₁, h₂, ha, hb⟩ := run_statement.1 h
    obtain ⟨z, rfl, hz, hmark⟩ := run_outerAttributes_iff.1 h₁
    rw [readPart_append] at ha
    have hbody : s.body = x₁ := by
      have := readPart_append x₁ []
      rwa [List.append_nil, ← hb] at this
    rw [ha, hbody]
    exact ⟨hz, hmark, h₂⟩

end

end Parser

end Notebook.Syntax
