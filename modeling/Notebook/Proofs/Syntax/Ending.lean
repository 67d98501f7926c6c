import Notebook.Proofs.Syntax.Open

/-!
How statements end where what follows them is replaced: a closed one before anything, an open one
before what it does not go on with, and a bare expression before a semicolon that is new.
-/

namespace Notebook.Syntax

/-- A statement that ends with a semicolon or as an item. -/
def StmtForm.isClosed : StmtForm → Bool
  | .macroCall _ semicolon | .expression _ semicolon => semicolon
  | _ => true

/-- What a bare expression is as a statement with a semicolon. -/
def Expr.ended (e : Expr) : StmtForm :=
  match e.form with
  | .macroCall d => .macroCall d true
  | _ => .expression e true

namespace Parser

variable {g g' : Grammar} [hg : g.Follows g']

theorem expressionForm_true (e : Expr) : expressionForm e true = e.ended := by
  obtain ⟨form, v⟩ := e
  cases form <;> rfl

/-! ### The parts of a statement -/

theorem run_maybeEnded {α : Type} {p : Parser α} {F : α → Bool → StmtForm} {x x' : List Tree}
    {φ : StmtForm} : (maybeEnded p F).run x = some (φ, x') ↔ ∃ a x₁, p.run x = some (a, x₁) ∧
      φ = F a (Ahead.mark ";" x₁) ∧ x' = if Ahead.mark ";" x₁ = true then x₁.drop 1 else x₁ := by
  unfold maybeEnded
  rw [run_bind_eq_some]
  refine exists_congr fun a => exists_congr fun x₁ => and_congr_right fun _ => ?_
  rw [StateT.run_bind, run_tryMark]
  cases Ahead.mark ";" x₁
  · simp [eq_comm]
  · change some (F a true, x₁.drop 1) = some (φ, x') ↔ _
    simp [eq_comm]

theorem run_reading {α : Type} (p : Parser α) (x : List Tree) :
    (reading p).run x = (p.run x).map fun r => ((r.1, readPart x r.2), r.2) := by
  unfold reading
  rw [run_get_bind, StateT.run_bind]
  cases p.run x <;> rfl

theorem run_statement {x x' : List Tree} {s : Stmt} :
    (statement g).run x = some (s, x') ↔ ∃ x₁, (outerAttributes g).run x = some ((), x₁) ∧
      (statementForm g).run x₁ = some (s.form, x') ∧ s.attributes = readPart x x₁ ∧
      s.body = readPart x₁ x' := by
  unfold statement
  constructor
  · intro h
    obtain ⟨a, x₁, h₁, h⟩ := run_bind_eq_some.1 h
    obtain ⟨b, x₂, h₂, h⟩ := run_bind_eq_some.1 h
    cases h
    rw [run_reading] at h₁ h₂
    obtain ⟨r, hr, he⟩ := Option.map_eq_some_iff.1 h₁
    cases he
    obtain ⟨r', hr', he⟩ := Option.map_eq_some_iff.1 h₂
    cases he
    exact ⟨r.2, hr, hr', rfl, rfl⟩
  · rintro ⟨x₁, h₁, h₂, ha, hb⟩
    obtain ⟨form, attributes, body⟩ := s
    dsimp only at h₂ ha hb
    subst ha hb
    refine run_bind_eq_some.2 ⟨((), readPart x x₁), x₁, ?_,
      run_bind_eq_some.2 ⟨(form, readPart x₁ x'), x', ?_, rfl⟩⟩
    · rw [run_reading, h₁]
      rfl
    · rw [run_reading, h₂]
      rfl

theorem run_statementForm (x : List Tree) :
    (statementForm g).run x = (formOf g (kindAhead x)).run x := by
  rw [statementForm_eq]
  rfl

/-- Attributes one after another. -/
inductive Attributes (g : Grammar) : List Tree → Prop
  | nil : Attributes g []
  | cons {j : Bool} {s s' : Span} {inner z : List Tree}
      (h : (metaItem g).run inner = some ((), [])) (hz : Attributes g z) :
      Attributes g (.mark '#' j s :: .group .bracket inner s' :: z)

theorem Attributes.concat {z inner : List Tree} {j : Bool} {s s' : Span} (h : Attributes g z)
    (hinner : (metaItem g).run inner = some ((), [])) :
    Attributes g (z ++ [.mark '#' j s, .group .bracket inner s']) := by
  induction h with
  | nil => exact .cons hinner .nil
  | cons h _ ih => exact .cons h ih

/-- One attribute. -/
def oneAttribute (g : Grammar) : Parser Unit := do
  mark "#"
  within .bracket (metaItem g)

theorem run_oneAttribute {x x' : List Tree} : (oneAttribute g).run x = some ((), x') ↔
    ∃ j s s' inner, x = .mark '#' j s :: .group .bracket inner s' :: x' ∧
      (metaItem g).run inner = some ((), []) := by
  unfold oneAttribute
  rw [run_bind_eq_some]
  constructor
  · rintro ⟨_, x₁, hmark, h⟩
    obtain ⟨inner, s', rfl, hinner⟩ := run_within_eq_some.1 h
    rw [run_mark, Option.ite_none_right_eq_some] at hmark
    obtain ⟨hx, hdrop⟩ := hmark
    rcases x with _ | ⟨_ | ⟨c, j, s⟩ | _ | _, x⟩ <;> try cases hx
    obtain rfl : '#' = c := beq_iff_eq.1 hx
    obtain rfl : x = .group .bracket inner s' :: x' := congrArg Prod.snd (Option.some.inj hdrop)
    exact ⟨j, s, s', inner, rfl, hinner⟩
  · rintro ⟨j, s, s', inner, rfl, hinner⟩
    exact ⟨(), _, rfl, run_within_eq_some.2 ⟨inner, s', rfl, hinner⟩⟩

theorem run_outerAttributes_iff {x x' : List Tree} :
    (outerAttributes g).run x = some ((), x') ↔
      ∃ z, x = z ++ x' ∧ Attributes g z ∧ Ahead.mark "#" x' = false := by
  have hstep {read : List Unit} {x x' : List Tree} {r : List Unit ⊕ List Unit} :
      (do if ← ahead (Ahead.mark "#") then return .inl ((← oneAttribute g) :: read)
          else return .inr read.reverse : Parser (List Unit ⊕ List Unit)).run x = some (r, x') ↔
        (Ahead.mark "#" x = true ∧ (oneAttribute g).run x = some ((), x') ∧ r = .inl (() :: read)) ∨
          (Ahead.mark "#" x = false ∧ x' = x ∧ r = .inr read.reverse) := by
    rw [run_ahead_bind]
    cases Ahead.mark "#" x with
    | true =>
      simp only [if_true, reduceCtorEq, false_and, or_false, true_and]
      rw [run_bind_eq_some]
      constructor
      · rintro ⟨_, _, h, he⟩
        cases he
        exact ⟨h, rfl⟩
      · rintro ⟨h, rfl⟩
        exact ⟨(), _, h, rfl⟩
    | false => simp [eq_comm, and_comm]
  constructor
  · intro h
    obtain ⟨_, _, h, he⟩ := run_bind_eq_some.1 h
    cases he
    refine iterate_induction (J := fun _ x₁ => ∃ z, x = z ++ x₁ ∧ Attributes g z)
      (Q := fun _ x' => ∃ z, x = z ++ x' ∧ Attributes g z ∧ Ahead.mark "#" x' = false)
      ?_ ?_ ⟨[], rfl, .nil⟩ h
    · rintro read x₁ read' x₂ ⟨z, rfl, hz⟩ h
      obtain ⟨-, h, -⟩ | ⟨-, -, h⟩ := hstep.1 h
      · obtain ⟨j, s, s', inner, rfl, hinner⟩ := run_oneAttribute.1 h
        exact ⟨z ++ [.mark '#' j s, .group .bracket inner s'], by simp, hz.concat hinner⟩
      · cases h
    · rintro read x₁ l x₂ ⟨z, rfl, hz⟩ h
      obtain ⟨-, -, h⟩ | ⟨hx, rfl, -⟩ := hstep.1 h
      · cases h
      · exact ⟨z, rfl, hz, hx⟩
  · rintro ⟨z, rfl, hz, hx⟩
    have loop {n : Nat} (read : List Unit) (hn : (z ++ x').length < n) : ∃ l,
        (iterateFrom (fun read => do
          if ← ahead (Ahead.mark "#") then return .inl ((← oneAttribute g) :: read)
          else return .inr read.reverse) n read).run (z ++ x') = some (l, x') := by
      induction hz generalizing n read with
      | nil =>
        obtain ⟨n, rfl⟩ : ∃ n', n = n' + 1 := ⟨n - 1, by omega⟩
        exact ⟨_, run_bind_eq_some.2 ⟨_, _, hstep.2 (.inr ⟨hx, rfl, rfl⟩), rfl⟩⟩
      | @cons j s s' inner z h hz ih =>
        obtain ⟨n, rfl⟩ : ∃ n', n = n' + 1 := ⟨n - 1, by omega⟩
        simp only [List.length_append, List.length_cons] at hn ih
        obtain ⟨l, hl⟩ := ih (n := n) (() :: read) (by omega)
        refine ⟨l, run_bind_eq_some.2 ⟨_, _, hstep.2 (.inl ⟨rfl, ?_, rfl⟩), hl⟩⟩
        exact run_oneAttribute.2 ⟨j, s, s', inner, rfl, h⟩
    obtain ⟨l, hl⟩ := loop [] (Nat.lt_succ_self _)
    exact run_bind_eq_some.2 ⟨l, x', hl, rfl⟩

theorem outerAttributes_end {x x' : List Tree} (h : (outerAttributes g).run x = some ((), x')) :
    Ahead.mark "#" x' = false := by
  obtain ⟨_, -, -, hx⟩ := run_outerAttributes_iff.1 h
  exact hx

/-! ### The last tree of a statement -/

section

variable [hg : g.Follows g]

theorem elsePart_anchored {n : Nat} {x x' : List Tree} {f : ExprForm}
    (h : (branch g >>= fun _ => elsePart g n).run x = some (.inr f, x')) :
    ∃ z t, Anchor t ∧ x = z ++ t :: x' := by
  have hbranch : Closes Eq (branch g) (branch g) := inferInstance
  have hblock : Closes Eq
    (block g >>= fun _ => pure (.inr (.conditional n true) : Nat ⊕ ExprForm))
    (block g >>= fun _ => pure (.inr (.conditional n true))) := inferInstance
  obtain ⟨_, x₁, h₁, h₂⟩ := run_bind_eq_some.1 h
  rw [run_elsePart] at h₂
  split at h₂
  · split at h₂
    · cases h₂
    · obtain ⟨z, t, ht, hz⟩ := hblock.anchored h₂
      obtain ⟨w, rfl⟩ := (suffix_of_anchored (hbranch.anchored h₁)).1
      exact ⟨w ++ (x₁.take 1 ++ z), t, ht, by
        rw [List.append_assoc, List.append_assoc, ← hz, List.take_append_drop]⟩
  · cases h₂
    exact hbranch.anchored h₁

theorem conditional_anchored {x x' : List Tree} {f : ExprForm}
    (h : (conditional g).run x = some (f, x')) : ∃ z t, Anchor t ∧ x = z ++ t :: x' := by
  have hstep {n : Nat} : Follows Inner Eq Always (branch g >>= fun _ => elsePart g n)
    (branch g >>= fun _ => elsePart g n) := inferInstance
  rw [conditional_eq] at h
  refine iterate_induction (J := fun _ x₁ => x₁ <:+ x)
    (Q := fun _ x' => ∃ z t, Anchor t ∧ x = z ++ t :: x')
    (fun _ _ _ _ hx h => (hstep.suffix h).trans hx) (fun _ _ _ _ hx hend => ?_) List.suffix_rfl h
  obtain ⟨w, rfl⟩ := hx
  obtain ⟨z, t, ht, rfl⟩ := elsePart_anchored hend
  exact ⟨w ++ z, t, ht, by simp⟩

theorem blockOf_anchored {kind : BlockKind} {x x' : List Tree} {f : ExprForm}
    (h : (blockOf g kind).run x = some (f, x')) : ∃ z t, Anchor t ∧ x = z ++ t :: x' := by
  have anchored {k : BlockKind} [hc : Closes Eq (blockOf g k) (blockOf g k)]
      (h : (blockOf g k).run x = some (f, x')) : ∃ z t, Anchor t ∧ x = z ++ t :: x' :=
    hc.anchored h
  cases kind with
  | conditional => exact conditional_anchored h
  | _ =>
    refine @anchored _ ?_ h
    unfold blockOf
    infer_instance

theorem bangGroup_anchored {x x' : List Tree} (h : bangGroup.run x = some (.brace, x')) :
    ∃ z t, Anchor t ∧ x = z ++ t :: x' := by
  have hmark : Follows Inner Eq Always (mark "!") (mark "!") := inferInstance
  obtain ⟨_, x₁, h₁, h₂⟩ := run_bind_eq_some.1 h
  obtain ⟨w, rfl⟩ := hmark.suffix h₁
  rcases x₁ with _ | ⟨_ | _ | _ | _, x₁⟩ <;> cases h₂
  exact ⟨w, _, .brace, rfl⟩

theorem macroHead_anchored {x x' : List Tree} (h : macroHead.run x = some (.brace, x')) :
    ∃ z t, Anchor t ∧ x = z ++ t :: x' := by
  have hpath : Follows Inner Eq Always plainPath plainPath := inferInstance
  rw [macroHead_eq] at h
  obtain ⟨_, x₁, h₁, h₂⟩ := run_bind_eq_some.1 h
  obtain ⟨w, rfl⟩ := hpath.suffix h₁
  obtain ⟨z, t, ht, rfl⟩ := bangGroup_anchored h₂
  exact ⟨w ++ z, t, ht, by simp⟩

theorem pathExpression_anchored {x x' : List Tree} {f : ExprForm}
    (h : (pathExpression g true).run x = some (f, x')) (hf : f.isOpen = true) :
    ∃ z t, Anchor t ∧ x = z ++ t :: x' := by
  have hpath : Follows Inner Eq Always (qualifiedPath g true) (qualifiedPath g true) :=
    inferInstance
  obtain ⟨p, x₁, d, h₁, -, hd, rfl⟩ := run_pathExpression_open h hf
  obtain rfl : d = .brace := by
    cases d <;> first | rfl | cases hf
  obtain ⟨w, rfl⟩ := hpath.suffix h₁
  obtain ⟨z, t, ht, rfl⟩ := bangGroup_anchored hd
  exact ⟨w ++ z, t, ht, by simp⟩

theorem bounded_anchored [Climbs g] {x x' : List Tree} {e : Expr}
    (h : (bounded g).run x = some (e, x')) (he : e.form.isOpen = true) :
    ∃ z t, Anchor t ∧ x = z ++ t :: x' := by
  have hattributes : Follows Inner Eq Never (outerAttributes g) (outerAttributes g) := inferInstance
  rw [bounded_eq_boundedOf] at h
  obtain ⟨_, x₁, h₁, h₂⟩ := run_bind_eq_some.1 h
  obtain ⟨w, rfl⟩ := hattributes.suffix h₁
  rw [run_look_bind] at h₂
  cases hblock : blockKind? x₁ with
  | none =>
    rw [hblock] at h₂
    obtain ⟨e₁, x₂, h₂, h₃⟩ := run_bind_eq_some.1 h₂
    obtain ⟨rfl, rfl, -⟩ := Climbs.unchanged h₃ he
    obtain ⟨-, -, -, f, hf, hpath, rfl⟩ := run_operand_open hblock (outerAttributes_end h₁) h₂ he
    obtain ⟨z, t, ht, rfl⟩ := pathExpression_anchored hpath hf
    exact ⟨w ++ z, t, ht, by simp⟩
  | some kind =>
    rw [hblock] at h₂
    obtain ⟨f, x₂, h₂, h₃⟩ := run_bind_eq_some.1 h₂
    obtain ⟨rfl, rfl⟩ := afterBlock_unchanged h₃ he
    obtain ⟨z, t, ht, rfl⟩ := blockOf_anchored h₂
    exact ⟨w ++ z, t, ht, by simp⟩

theorem isOpen_of_expressionForm {e : Expr}
    (h : StmtForm.needsSemicolon (expressionForm e false) = false) : e.form.isOpen = true := by
  obtain ⟨form, v⟩ := e
  cases form with
  | macroCall d => cases d <;> first | rfl | cases h
  | _ => first | rfl | cases h

/-- A semicolon is an anchor. -/
theorem anchored_of_semicolon {x x₁ : List Tree} (hx : x₁ <:+ x) (h : Ahead.mark ";" x₁ = true) :
    ∃ z t, Anchor t ∧ x = z ++ t :: x₁.drop 1 := by
  obtain ⟨j, s, hx₁⟩ := exists_of_semicolon h
  obtain ⟨w, rfl⟩ := hx
  exact ⟨w, _, .semicolon, by rw [List.drop_one, ← hx₁]⟩

theorem statementForm_anchored [Climbs g] {x x' : List Tree} {φ : StmtForm}
    (h : (statementForm g).run x = some (φ, x')) (hφ : StmtForm.needsSemicolon φ = false) :
    ∃ z t, Anchor t ∧ x = z ++ t :: x' := by
  rw [run_statementForm] at h
  cases hkind : kindAhead x <;> rw [hkind] at h
  case macroCall =>
    obtain ⟨d, x₁, h₁, rfl, rfl⟩ := run_maybeEnded.1 h
    have hhead : Follows Inner Eq Always macroHead macroHead := inferInstance
    cases hm : Ahead.mark ";" x₁ with
    | true => simpa using anchored_of_semicolon (hhead.suffix h₁) hm
    | false =>
      rw [hm] at hφ
      obtain rfl : d = .brace := by
        cases d <;> first | rfl | cases hφ
      simpa using macroHead_anchored h₁
  case binding =>
    have hc : Closes Eq (formOf g .binding) (formOf g .binding) := by
      unfold formOf; infer_instance
    exact hc.anchored h
  case item =>
    have hc : Closes Item.Alike (plainItem g) (plainItem g) := inferInstance
    obtain ⟨_, _, h₁, he⟩ := run_bind_eq_some.1 h
    cases he
    exact hc.anchored h₁
  case expression =>
    obtain ⟨e, x₁, h₁, rfl, rfl⟩ := run_maybeEnded.1 h
    have hbounded : Follows Inner Eq Always (bounded g) (bounded g) := inferInstance
    cases hm : Ahead.mark ";" x₁ with
    | true => simpa using anchored_of_semicolon (hbounded.suffix h₁) hm
    | false =>
      rw [hm] at hφ
      simpa using bounded_anchored h₁ (isOpen_of_expressionForm hφ)

/-- A statement that needs no semicolon, or has one, ends with an anchor. -/
theorem statement_anchored [Climbs g] {x x' : List Tree} {s : Stmt}
    (h : (statement g).run x = some (s, x')) (hs : StmtForm.needsSemicolon s.form = false) :
    ∃ z t, Anchor t ∧ x = z ++ t :: x' := by
  obtain ⟨x₁, h₁, h₂, -, -⟩ := run_statement.1 h
  have hattributes : Follows Inner Eq Never (outerAttributes g) (outerAttributes g) := inferInstance
  obtain ⟨w, rfl⟩ := hattributes.suffix h₁
  obtain ⟨z, t, ht, rfl⟩ := statementForm_anchored h₂ hs
  exact ⟨w ++ z, t, ht, by simp⟩

end

/-! ### Statements that close -/

section

variable {t u : Tree} {r r' x y : List Tree} (hs : Sealed (t :: r) (u :: r'))
  (ht : Track (t :: r) (u :: r') x y)

include hs ht

omit hs ht in
theorem readPart_of_track {e e' x y : List Tree} (h : Track e e' x y) :
    Track [] [] (readPart x e) (readPart y e') := by
  have hlen := h.length
  have hle := h.suffix.length_le
  unfold readPart
  rw [show y.length - e'.length = x.length - e.length by omega]
  exact h.take (by omega)

omit hs ht in
theorem readPart_drop_of_track {e e' x y : List Tree} (h : Track e e' x y) {n : Nat}
    (hn : n + e.length ≤ x.length) :
    Track [] [] (readPart x (x.drop n)) (readPart y (y.drop n)) := by
  have hlen := h.length
  have := h.take hn
  simp only [readPart, List.length_drop]
  rwa [show x.length - (x.length - n) = n by omega, show y.length - (y.length - n) = n by omega]

/-- The semicolon is the anchor. -/
theorem maybeEnded_close {α : Type} {p q : Parser α} [hp : Follows Sealed Eq Always p q]
    {F : α → Bool → StmtForm} {a : α} {x₁ : List Tree} (h : p.run x = some (a, x₁))
    (hm : Ahead.mark ";" x₁ = true) (hx : x₁.drop 1 = r) :
    (maybeEnded q F).run y = some (F a true, r') := by
  have hrun : (mark ";").run x₁ = some ((), r) := by
    rw [run_mark, if_pos hm]
    exact congrArg (fun z => some ((), z)) hx
  rcases hp.cases hs ht h (hx ▸ List.drop_suffix 1 x₁) with rfl | ⟨n, _, -, -, rfl, hq, ht₁⟩
  · have := length_le_of_mark hm
    have hlen := congrArg List.length hx
    rw [List.length_drop] at hlen
    change 1 ≤ _ at this
    omega
  · obtain ⟨_, -, hclose⟩ := Closes.close (ρ := Eq) (p := mark ";") (q := mark ";") hs ht₁ hrun
    rw [run_mark] at hclose
    split at hclose
    · rename_i hmy
      refine run_maybeEnded.2 ⟨a, _, hq, by rw [hmy], ?_⟩
      rw [if_pos hmy]
      exact (congrArg Prod.snd (Option.some.inj hclose)).symm
    · cases hclose

omit hs ht in
theorem maybeEnded_open {α : Type} {q : Parser α} {F : α → Bool → StmtForm} {a : α}
    (h : q.run y = some (a, r')) (hr : Ahead.mark ";" r' = false) :
    (maybeEnded q F).run y = some (F a false, r') :=
  run_maybeEnded.2 ⟨a, _, h, by rw [hr], by simp [hr]⟩

theorem statementForm_close {φ : StmtForm} (h : (statementForm g).run x = some (φ, r))
    (hφ : φ.isClosed = true) : (statementForm g').run y = some (φ, r') := by
  rw [run_statementForm] at h ⊢
  rw [← Agree.eq (P := kindAhead) (n := 0) hs ht trivial]
  cases hkind : kindAhead x <;> rw [hkind] at h
  case macroCall =>
    obtain ⟨d, x₁, h₁, rfl, hr⟩ := run_maybeEnded.1 h
    cases hm : Ahead.mark ";" x₁ with
    | false =>
      rw [hm] at hφ
      cases hφ
    | true =>
      rw [if_pos hm] at hr
      exact maybeEnded_close hs ht h₁ hm hr.symm
  case binding =>
    have hc : Closes Eq (formOf g .binding) (formOf g' .binding) := by
      unfold formOf; infer_instance
    obtain ⟨_, rfl, hq⟩ := hc.close hs ht h
    exact hq
  case item =>
    have hc : Closes Item.Alike (plainItem g) (plainItem g') := inferInstance
    obtain ⟨_, _, h₁, he⟩ := run_bind_eq_some.1 h
    cases he
    obtain ⟨_, -, hq⟩ := hc.close hs ht h₁
    exact run_bind_eq_some.2 ⟨_, _, hq, rfl⟩
  case expression =>
    obtain ⟨e, x₁, h₁, rfl, hr⟩ := run_maybeEnded.1 h
    cases hm : Ahead.mark ";" x₁ with
    | false =>
      rw [hm] at hφ
      obtain ⟨form, v⟩ := e
      cases form with
      | macroCall d => cases d <;> cases hφ
      | _ => cases hφ
    | true =>
      rw [if_pos hm] at hr
      exact maybeEnded_close hs ht h₁ hm hr.symm

theorem bounded_close [Climbs g] [Halts g'] (hr : Halt r') {e : Expr}
    (h : (bounded g).run x = some (e, r)) (he : e.form.isOpen = true) :
    (bounded g').run y = some (e, r') := by
  rw [bounded_eq_boundedOf] at h ⊢
  obtain ⟨_, x₁, h₁, h₂⟩ := run_bind_eq_some.1 h
  rw [run_look_bind] at h₂
  have hattributes : Follows Sealed Eq Never (outerAttributes g) (outerAttributes g') :=
    inferInstance
  have hrest :
      Follows Inner Eq Always (boundedOf g (blockKind? x₁)) (boundedOf g' (blockKind? x₁)) :=
    inferInstance
  rcases hattributes.cases hs ht h₁ (hrest.suffix h₂) with rfl | ⟨n, _, -, -, rfl, hq, ht₁⟩
  · have := length_lt_of_reads hrest h₂
    omega
  · exact run_bind_eq_some.2 ⟨_, _, hq, boundedOf_close hs ht₁ hr (outerAttributes_end h₁) h₂ he⟩

theorem statementForm_close_open [Climbs g] [Halts g']
    (hr : Halt r' ∨ kindAhead x = .macroCall ∧ Ahead.mark ";" r' = false) {φ : StmtForm}
    (h : (statementForm g).run x = some (φ, r)) (hφ : StmtForm.needsSemicolon φ = false) :
    (statementForm g').run y = some (φ, r') := by
  by_cases hclosed : φ.isClosed = true
  · exact statementForm_close hs ht h hclosed
  rw [run_statementForm] at h ⊢
  rw [← Agree.eq (P := kindAhead) (n := 0) hs ht trivial]
  cases hkind : kindAhead x <;> rw [hkind] at h
  case macroCall =>
    obtain ⟨d, x₁, h₁, rfl, hx⟩ := run_maybeEnded.1 h
    cases hm : Ahead.mark ";" x₁ with
    | true => simp [hm, StmtForm.isClosed] at hclosed
    | false =>
      obtain rfl : r = x₁ := by simpa [hm] using hx
      exact maybeEnded_open (macroHead_close hs ht h₁) (hr.elim Halt.semicolon And.right)
  case binding =>
    obtain ⟨_, _, -, he⟩ := run_bind_eq_some.1 h
    cases he
    exact absurd rfl hclosed
  case item =>
    obtain ⟨_, _, -, he⟩ := run_bind_eq_some.1 h
    cases he
    exact absurd rfl hclosed
  case expression =>
    obtain ⟨e, x₁, h₁, rfl, hx⟩ := run_maybeEnded.1 h
    replace hr : Halt r' := hr.resolve_right fun hr => by simp [hkind] at hr
    cases hm : Ahead.mark ";" x₁ with
    | true =>
      rw [hm, expressionForm_true] at hclosed
      obtain ⟨form, v⟩ := e
      cases form <;> exact absurd rfl hclosed
    | false =>
      rw [hm] at hφ
      obtain rfl : r = x₁ := by simpa [hm] using hx
      exact maybeEnded_open (bounded_close hs ht hr h₁ (isOpen_of_expressionForm hφ)) hr.semicolon

end

/-- The statement ends where it does even if `r` follows. -/
inductive Rests (s : Stmt) (r : List Tree) : Prop
  | closed (h : s.form.isClosed = true)
  | halted (h : StmtForm.needsSemicolon s.form = false) (hr : Halt r)
  | macroCall (h : StmtForm.needsSemicolon s.form = false) (hs : kindAhead s.body = .macroCall)
      (hr : Ahead.mark ";" r = false)

theorem Rests.needsSemicolon {s : Stmt} {r : List Tree} (h : Rests s r) :
    StmtForm.needsSemicolon s.form = false := by
  cases h with
  | closed h =>
    obtain ⟨form, _, _⟩ := s
    cases form <;> simp_all [StmtForm.isClosed, StmtForm.needsSemicolon]
  | halted h | macroCall h => exact h

theorem readPart_suffix {x x' : List Tree} (h : x' <:+ x) : readPart x x' ++ x' = x := by
  obtain ⟨z, rfl⟩ := h
  rw [readPart_append]

/-- What a statement is can be told from its own trees, if it ends with an anchor. -/
theorem kindAhead_readPart {t : Tree} {r x : List Tree} (hx : t :: r <:+ x)
    (hs : Sealed (t :: r) [t]) : kindAhead (readPart x r) = kindAhead x := by
  obtain ⟨z, rfl⟩ := hx
  rw [show readPart (z ++ t :: r) r = z ++ [t] by
    simpa using readPart_append (z ++ [t]) r]
  exact (Agree.eq (n := 0) hs (.of_append z _ _) trivial).symm

section

variable {t u : Tree} {r r' x y : List Tree} (hs : Sealed (t :: r) (u :: r'))
  (ht : Track (t :: r) (u :: r') x y)

include hs ht

variable (g') in
/-- A statement that ends with the first of two ends is read up to there in the other list, if it
rests there. -/
theorem statement_close [Climbs g] [Halts g'] (hr : Track r r' x y) {s : Stmt}
    (h : (statement g).run x = some (s, r)) (hc : Rests s r') :
    ∃ s', (statement g').run y = some (s', r') ∧ s.Alike s' := by
  obtain ⟨x₁, h₁, h₂, ha, hb⟩ := run_statement.1 h
  have hattributes : Follows Sealed Eq Never (outerAttributes g) (outerAttributes g') :=
    inferInstance
  have hform : Follows Inner Eq Always (statementForm g) (statementForm g') := inferInstance
  rcases hattributes.cases hs ht h₁ (hform.suffix h₂) with rfl | ⟨n, _, hn, -, rfl, hq, ht₁⟩
  · have := length_lt_of_reads hform h₂
    omega
  have hle := ht₁.suffix.length_le
  rw [List.length_cons] at hle
  have hclose : (statementForm g').run (y.drop n) = some (s.form, r') := by
    cases hc with
    | closed hc => exact statementForm_close hs ht₁ h₂ hc
    | halted hc hr => exact statementForm_close_open hs ht₁ (.inl hr) h₂ hc
    | macroCall hc hk hr =>
      rw [hb, kindAhead_readPart ht₁.suffix hs.alone] at hk
      exact statementForm_close_open hs ht₁ (.inr ⟨hk, hr⟩) h₂ hc
  obtain rfl : x₁ = x.drop n := by
    rw [List.suffix_iff_eq_drop.1 (hattributes.suffix h₁), show x.length - x₁.length = n by omega]
  refine ⟨⟨s.form, readPart y (y.drop n), readPart (y.drop n) r'⟩,
    run_statement.2 ⟨_, hq, hclose, rfl, rfl⟩, rfl, ?_, ?_⟩
  · rw [ha]
    exact readPart_drop_of_track ht (by rw [List.length_cons]; omega)
  · rw [hb]
    exact readPart_of_track (hr.drop (by omega))

end

/-! ### What does not go on with a macro -/

/-- All that `p` gives is block-like. -/
def GivesBlock (p : Parser ExprForm) : Prop :=
  ∀ x f r, p.run x = some (f, r) → f.isBlockLike = true

theorem givesBlock_pure {f : ExprForm} (h : f.isBlockLike = true) : GivesBlock (pure f) := by
  rintro x f' r ⟨⟩
  exact h

theorem givesBlock_bind {α : Type} {p : Parser α} {q : α → Parser ExprForm}
    (h : ∀ a, GivesBlock (q a)) : GivesBlock (p >>= q) := by
  intro x f r hx
  obtain ⟨a, x', -, hx⟩ := run_bind_eq_some.1 hx
  exact h a x' f r hx

section

variable (g)

theorem givesBlock_conditional : GivesBlock (conditional g) := by
  intro x f r h
  rw [conditional_eq] at h
  refine iterate_induction (J := fun _ _ => True) (Q := fun f _ => f.isBlockLike = true)
    (fun _ _ _ _ _ _ => trivial) (fun _ _ _ _ _ h => ?_) trivial h
  obtain ⟨_, x', -, h⟩ := run_bind_eq_some.1 h
  rw [run_elsePart] at h
  split at h
  · split at h
    · cases h
    · obtain ⟨_, _, -, h⟩ := run_bind_eq_some.1 h
      cases h
      rfl
  · cases h
    rfl

theorem givesBlock_whileLoop : GivesBlock (whileLoop g) :=
  givesBlock_bind fun _ => givesBlock_bind fun _ => givesBlock_bind fun _ => givesBlock_pure rfl

theorem givesBlock_forLoop : GivesBlock (forLoop g) :=
  givesBlock_bind fun _ => givesBlock_bind fun _ => givesBlock_bind fun _ =>
    givesBlock_bind fun _ => givesBlock_bind fun _ => givesBlock_pure rfl

theorem givesBlock_endlessLoop : GivesBlock (endlessLoop g) :=
  givesBlock_bind fun _ => givesBlock_bind fun _ => givesBlock_pure rfl

theorem givesBlock_labelled : GivesBlock (labelled g) := by
  refine givesBlock_bind fun _ => givesBlock_bind fun ts => ?_
  split
  · exact givesBlock_whileLoop g
  split
  · exact givesBlock_forLoop g
  split
  · exact givesBlock_endlessLoop g
  · exact givesBlock_bind fun _ => givesBlock_pure rfl

theorem givesBlock_blockOf (kind : BlockKind) : GivesBlock (blockOf g kind) := by
  cases kind with
  | conditional => exact givesBlock_conditional g
  | whileLoop => exact givesBlock_whileLoop g
  | forLoop => exact givesBlock_forLoop g
  | endlessLoop => exact givesBlock_endlessLoop g
  | matching => exact givesBlock_bind fun _ => givesBlock_bind fun _ => givesBlock_bind fun _ =>
      givesBlock_pure rfl
  | tryBlock | unsafeBlock | constBlock =>
    exact givesBlock_bind fun _ => givesBlock_bind fun _ => givesBlock_pure rfl
  | block => exact givesBlock_bind fun _ => givesBlock_pure rfl
  | labelled => exact givesBlock_labelled g

end

section

variable {x r : List Tree}

theorem bounded_macro [Climbs g] {e : Expr} (h : (bounded g).run x = some (e, r))
    (he : e.form = .macroCall .brace) : NoTrailer r ∧ precedenceAhead r = .jump := by
  have hopen : e.form.isOpen = true := by rw [he]; rfl
  rw [bounded_eq_boundedOf] at h
  obtain ⟨_, x₁, h₁, h₂⟩ := run_bind_eq_some.1 h
  rw [run_look_bind] at h₂
  cases hblock : blockKind? x₁ with
  | none =>
    rw [hblock] at h₂
    obtain ⟨e₁, x₂, h₂, h₃⟩ := run_bind_eq_some.1 h₂
    obtain ⟨rfl, rfl, hend⟩ := Climbs.unchanged h₃ hopen
    exact ⟨(run_operand_open hblock (outerAttributes_end h₁) h₂ hopen).2.2.1, hend rfl⟩
  | some kind =>
    rw [hblock] at h₂
    obtain ⟨f, x₂, h₂, h₃⟩ := run_bind_eq_some.1 h₂
    obtain ⟨rfl, rfl⟩ := afterBlock_unchanged h₃ hopen
    have := givesBlock_blockOf g kind _ _ _ h₂
    rw [show f = .macroCall .brace from he] at this
    cases this

theorem macroHead_of_macroStart (hx : macroStart x = .statement) {d : Delimiter}
    (h : macroHead.run x = some (d, r)) : d = .brace ∧ goesOn r = false := by
  obtain ⟨_, x₁, h₁, h₂⟩ := run_bind_eq_some.1 h
  obtain ⟨_, x₂, hmark, hgroup⟩ := run_bind_eq_some.1 h₂
  rw [macroStart_eq, h₁] at hx
  replace hx : macroAfter x₁ = .statement := hx
  rw [run_mark] at hmark
  split at hmark
  · cases hmark
    unfold macroAfter at hx
    split_ifs at hx with _ hbrace
    rcases x₁ with _ | ⟨t, _ | ⟨_ | _ | _ | _, x₁⟩⟩ <;> cases hgroup
    rw [Ahead.second, skip_cons, if_neg (by simp [Ahead.anyWord])] at hbrace
    rw [bracedAhead, skip_cons, if_neg (by simp [Tree.isQuote]), Bool.and_eq_true,
      Bool.not_eq_true'] at hbrace
    exact ⟨(beq_iff_eq.1 hbrace.1).symm, hbrace.2⟩
  · cases hmark

theorem macroCall_of_expressionForm {e : Expr} {b : Bool} {d : Delimiter}
    (h : expressionForm e b = .macroCall d false) :
    b = false ∧ d = .brace ∧ e.form = .macroCall .brace := by
  obtain ⟨form, v⟩ := e
  cases form with
  | macroCall d => cases b <;> cases d <;> cases h; exact ⟨rfl, rfl, rfl⟩
  | _ => cases h

theorem macroStart_of_kindAhead : kindAhead x = .macroCall ↔ macroStart x = .statement := by
  unfold kindAhead
  split_ifs <;> simp_all

/-- A statement that is left open is a macro in braces or a bare expression. -/
theorem statement_form {s : Stmt} (h : (statement g).run x = some (s, r)) (hs : s.bare? = none) :
    s.form.isClosed = true ∨ s.form = .macroCall .brace false := by
  obtain ⟨x₁, -, h₂, -, -⟩ := run_statement.1 h
  rw [run_statementForm] at h₂
  cases hform : s.form with
  | macroCall d b =>
    cases b with
    | true => exact .inl rfl
    | false =>
      rw [hform] at h₂
      cases hkind : kindAhead x₁ <;> rw [hkind] at h₂
      case macroCall =>
        obtain ⟨d', x₂, hd, he, -⟩ := run_maybeEnded.1 h₂
        obtain ⟨rfl, -⟩ := StmtForm.macroCall.inj he
        rw [(macroHead_of_macroStart (macroStart_of_kindAhead.1 hkind) hd).1]
        exact .inr rfl
      case expression =>
        obtain ⟨e, x₂, -, he, -⟩ := run_maybeEnded.1 h₂
        rw [(macroCall_of_expressionForm he.symm).2.1]
        exact .inr rfl
      all_goals
        obtain ⟨_, _, -, he⟩ := run_bind_eq_some.1 h₂
        cases he
  | expression e b =>
    cases b with
    | true => exact .inl rfl
    | false => simp [Stmt.bare?, hform] at hs
  | _ => exact .inl rfl

/-- Nothing that goes on with a macro in braces follows it where it is left open. -/
theorem statement_open [Climbs g] [g.Follows g] {s : Stmt}
    (h : (statement g).run x = some (s, r)) (hs : s.form = .macroCall .brace false) :
    Ahead.mark ";" r = false ∧ goesOn r = false ∧
      (kindAhead s.body ≠ .macroCall → NoTrailer r ∧ precedenceAhead r = .jump) := by
  obtain ⟨x₁, h₁, h₂, -, hb⟩ := run_statement.1 h
  obtain ⟨z, t, ht, hz⟩ := statementForm_anchored h₂ (by rw [hs]; rfl)
  rw [run_statementForm, hs] at h₂
  cases hkind : kindAhead x₁ <;> rw [hkind] at h₂
  case macroCall =>
    obtain ⟨d, x₂, hd, hform, hx⟩ := run_maybeEnded.1 h₂
    obtain ⟨rfl, hm⟩ := StmtForm.macroCall.inj hform
    obtain rfl : r = x₂ := by simpa [← hm] using hx
    have hgoes := (macroHead_of_macroStart (macroStart_of_kindAhead.1 hkind) hd).2
    have hsealed : Sealed (t :: r) [t] := by
      cases ht with
      | semicolon => exact .semicolon
      | brace => exact .brace (.refl _) hgoes rfl
    refine ⟨hm.symm, hgoes, fun hne => absurd ?_ hne⟩
    rw [hb, kindAhead_readPart ⟨z, hz.symm⟩ hsealed, hkind]
  case expression =>
    obtain ⟨e, x₂, he, hform, hx⟩ := run_maybeEnded.1 h₂
    obtain ⟨hm, -, hmacro⟩ := macroCall_of_expressionForm hform.symm
    obtain rfl : r = x₂ := by simpa [hm] using hx
    obtain ⟨hend, hjump⟩ := bounded_macro he hmacro
    exact ⟨hm, hend.goesOn, fun _ => ⟨hend, hjump⟩⟩
  all_goals
    obtain ⟨_, _, -, he⟩ := run_bind_eq_some.1 h₂
    cases he

end

/-! ### Statements before a semicolon that is new -/

section

variable {E : Ends} {e e' x y x' : List Tree} (hE : E e e') (ht : Track e e' x y)

include hE ht

theorem maybeEnded_before [Calm E] {α : Type} {p q : Parser α} [hp : Follows E Eq Always p q]
    {F : α → Bool → StmtForm} {φ : StmtForm} (h : (maybeEnded p F).run x = some (φ, x'))
    (hx' : e.length < x'.length) :
    ∃ n, n + x'.length = x.length ∧ (maybeEnded q F).run y = some (φ, y.drop n) := by
  obtain ⟨a, x₁, h₁, rfl, hx₁⟩ := run_maybeEnded.1 h
  have hle : x'.length ≤ x₁.length := by
    rw [hx₁]
    split <;> simp
  have hsuffix : e <:+ x₁ :=
    List.suffix_of_suffix_length_le ht.suffix (hp.suffix h₁) (by omega)
  obtain ⟨n, _, hn, -, rfl, hq⟩ := hp.follow hE ht a x₁ h₁ hsuffix
  obtain rfl : x₁ = x.drop n := by
    rw [List.suffix_iff_eq_drop.1 (hp.suffix h₁), show x.length - x₁.length = n by omega]
  have ht₁ := ht.drop (n := n) (by omega)
  have hm : Ahead.mark ";" (x.drop n) = Ahead.mark ";" (y.drop n) := by
    obtain ⟨t, u, x₂, y₂, hx, hy, hl, -, -⟩ := ht₁.inside (by omega)
    rw [hx, hy]
    rcases hl with ⟨_ | _⟩ | _ <;> rfl
  cases hmx : Ahead.mark ";" (x.drop n) with
  | true =>
    rw [if_pos hmx] at hx₁
    have hlen := congrArg List.length hx₁
    rw [List.length_drop] at hlen
    exact ⟨n + 1, by omega, run_maybeEnded.2 ⟨a, _, hq, by rw [← hm, hmx],
      by rw [← hm, if_pos hmx, List.drop_drop]⟩⟩
  | false =>
    obtain rfl : x' = x.drop n := by simpa [hmx] using hx₁
    exact ⟨n, hn, run_maybeEnded.2 ⟨a, _, hq, by rw [← hm, hmx], by simp [← hm, hmx]⟩⟩

theorem statementForm_before [Fair E] {φ : StmtForm} (h : (statementForm g).run x = some (φ, x'))
    (hx' : e.length < x'.length) :
    ∃ n, n + x'.length = x.length ∧ (statementForm g').run y = some (φ, y.drop n) := by
  rw [run_statementForm] at h ⊢
  rw [← Agree.eq (P := kindAhead) (n := 0) hE ht trivial]
  cases hkind : kindAhead x <;> rw [hkind] at h
  case macroCall => exact maybeEnded_before hE ht h hx'
  case binding =>
    have hf : Follows E Eq Always (formOf g .binding) (formOf g' .binding) := by
      unfold formOf; infer_instance
    obtain ⟨n, _, hn, -, rfl, hq⟩ := hf.follow hE ht φ x' h
      (List.suffix_of_suffix_length_le ht.suffix (hf.suffix h) (by omega))
    exact ⟨n, hn, hq⟩
  case item =>
    have hf : Follows E Item.Alike Always (plainItem g) (plainItem g') := inferInstance
    obtain ⟨a, _, h₁, he⟩ := run_bind_eq_some.1 h
    cases he
    obtain ⟨n, _, hn, -, -, hq⟩ := hf.follow hE ht a x' h₁
      (List.suffix_of_suffix_length_le ht.suffix (hf.suffix h₁) (by omega))
    exact ⟨n, hn, run_bind_eq_some.2 ⟨_, _, hq, rfl⟩⟩
  case expression => exact maybeEnded_before hE ht h hx'

variable (g') in
/-- A statement that more follows is read before any end. -/
theorem statement_before [Fair E] {s : Stmt} (h : (statement g).run x = some (s, x'))
    (hx' : e.length < x'.length) :
    ∃ s' y', (statement g').run y = some (s', y') ∧ s.Alike s' ∧ Track e e' x' y' := by
  obtain ⟨x₁, h₁, h₂, ha, hb⟩ := run_statement.1 h
  have hattributes : Follows E Eq Never (outerAttributes g) (outerAttributes g') := inferInstance
  have hform : Follows Inner Eq Always (statementForm g) (statementForm g') := inferInstance
  have hlt := length_lt_of_reads hform h₂
  have hsuffix := hattributes.suffix h₁
  obtain ⟨n, _, hn, -, -, hq⟩ := hattributes.follow hE ht () x₁ h₁
    (List.suffix_of_suffix_length_le ht.suffix hsuffix (by omega))
  obtain rfl : x₁ = x.drop n := by
    rw [List.suffix_iff_eq_drop.1 hsuffix, show x.length - x₁.length = n by omega]
  have ht₁ := ht.drop (n := n) (by omega)
  obtain ⟨m, hm, hq'⟩ : ∃ m, m + x'.length = (x.drop n).length ∧
      (statementForm g').run (y.drop n) = some (s.form, (y.drop n).drop m) :=
    statementForm_before hE ht₁ h₂ hx'
  obtain rfl : x' = (x.drop n).drop m := by
    rw [List.suffix_iff_eq_drop.1 (hform.suffix h₂),
      show (x.drop n).length - x'.length = m by omega]
  refine ⟨⟨s.form, readPart y (y.drop n), readPart (y.drop n) ((y.drop n).drop m)⟩, _,
    run_statement.2 ⟨_, hq, hq', rfl, rfl⟩, ⟨rfl, ?_, ?_⟩, ht₁.drop (by omega)⟩
  · rw [ha]
    exact readPart_drop_of_track ht (by omega)
  · rw [hb]
    exact readPart_drop_of_track ht₁ (by omega)

end

theorem expressionForm_eq_bare {e e₁ : Expr} {b : Bool}
    (h : expressionForm e b = .expression e₁ false) : b = false ∧ e = e₁ := by
  obtain ⟨form, v⟩ := e
  cases form with
  | macroCall d => cases b <;> cases d <;> cases h <;> exact ⟨rfl, rfl⟩
  | _ => cases b with
    | true => cases h
    | false => cases h; exact ⟨rfl, rfl⟩

omit hg in
/-- A bare expression is all that its statement reads. -/
theorem statementForm_bare {x x' : List Tree} {e : Expr}
    (h : (statementForm g).run x = some (.expression e false, x')) :
    kindAhead x = .expression ∧ (bounded g).run x = some (e, x') := by
  rw [run_statementForm] at h
  cases hkind : kindAhead x <;> rw [hkind] at h
  case expression =>
    obtain ⟨e₁, x₁, hbounded, hform, hx₁⟩ := run_maybeEnded.1 h
    obtain ⟨hm, rfl⟩ := expressionForm_eq_bare hform.symm
    rw [hm, if_neg (by simp)] at hx₁
    exact ⟨rfl, hx₁ ▸ hbounded⟩
  case macroCall =>
    obtain ⟨_, _, -, he, -⟩ := run_maybeEnded.1 h
    cases he
  all_goals
    obtain ⟨_, _, -, he⟩ := run_bind_eq_some.1 h
    cases he

variable (g') in
/-- A bare expression takes a semicolon that is put after it. -/
theorem statement_end {x y z : List Tree} {j : Bool} {p : Span}
    (ht : Track [] (.mark ';' j p :: z) x y) {s : Stmt} (h : (statement g).run x = some (s, []))
    {e : Expr} (he : s.form = .expression e false) :
    ∃ s', (statement g').run y = some (s', z) ∧ s'.form = e.ended ∧
      Track [] [] s.attributes s'.attributes ∧
      ∃ b, s'.body = b ++ [.mark ';' j p] ∧ Track [] [] s.body b := by
  have hE : Ended [] (.mark ';' j p :: z) := .semicolon
  obtain ⟨x₁, h₁, h₂, ha, hb⟩ := run_statement.1 h
  have hattributes : Follows Ended Eq Never (outerAttributes g) (outerAttributes g') :=
    inferInstance
  obtain ⟨n, _, hn, -, -, hq⟩ := hattributes.follow hE ht () x₁ h₁ List.nil_suffix
  obtain rfl : x₁ = x.drop n := by
    rw [List.suffix_iff_eq_drop.1 (hattributes.suffix h₁), show x.length - x₁.length = n by omega]
  have ht₁ := ht.drop (n := n) (by simp; omega)
  rw [he] at h₂
  obtain ⟨hkind, hbounded⟩ := statementForm_bare h₂
  have hf : Follows Ended Eq Always (bounded g) (bounded g') := inferInstance
  obtain ⟨m, _, hm, -, rfl, hq'⟩ := hf.follow hE ht₁ e [] hbounded List.nil_suffix
  obtain ⟨-, hy⟩ := (ht₁.drop (n := m) (by simp at hm ⊢; omega)).outside (by simp at hm ⊢; omega)
  rw [hy] at hq'
  have hq₁ : (statementForm g').run (y.drop n) = some (e.ended, z) := by
    rw [run_statementForm, ← Agree.eq (P := kindAhead) (n := 0) hE ht₁ trivial, hkind]
    exact run_maybeEnded.2 ⟨e, _, hq', (expressionForm_true e).symm, rfl⟩
  refine ⟨⟨e.ended, readPart y (y.drop n), readPart (y.drop n) z⟩,
    run_statement.2 ⟨_, hq, hq₁, rfl, rfl⟩, rfl, ?_, (y.drop n).take m, ?_, ?_⟩
  · rw [ha]
    exact readPart_drop_of_track ht (by simp; omega)
  · have : y.drop n = (y.drop n).take m ++ [.mark ';' j p] ++ z := by
      rw [List.append_assoc, List.singleton_append, ← hy, List.take_append_drop]
    rw [show readPart (y.drop n) z = readPart ((y.drop n).take m ++ [.mark ';' j p] ++ z) z by
      rw [← this], readPart_append]
  · rw [hb]
    have := ht₁.take (n := m) (by simp at hm ⊢; omega)
    rw [List.take_of_length_le (by simp at hm ⊢; omega)] at this
    rwa [readPart, List.length_nil, Nat.sub_zero, List.take_length]

end Parser

end Notebook.Syntax
