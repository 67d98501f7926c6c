import Notebook.Proofs.Syntax.Closing

/-!
Statements that end with a brace and could go on: block-like expressions, and macros in braces. In
front of what they do not go on with, they end there.
-/

set_option synthInstance.maxSize 10000
set_option synthInstance.maxHeartbeats 200000

namespace Notebook.Syntax

/-- Forms of expressions that end with a brace and need no semicolon. -/
def ExprForm.isOpen (f : ExprForm) : Bool := f.isBlockLike || f == .macroCall .brace

namespace Parser

open Ahead (second third)

variable {g g' : Grammar} [hg : g.Follows g']

/-! ### Block-like expressions -/

instance : Closes Eq (whileLoop g) (whileLoop g') := by unfold whileLoop; infer_instance

instance : Closes Eq (forLoop g) (forLoop g') := by unfold forLoop; infer_instance

instance : Closes Eq (endlessLoop g) (endlessLoop g') := by unfold endlessLoop; infer_instance

instance : Closes Eq (matching g) (matching g') := by unfold matching; infer_instance

instance : Closes Eq (labelled g) (labelled g') := by unfold labelled; infer_instance

/-- A condition and what holds under it. -/
def branch (g : Grammar) : Parser Unit := do
  word "if"
  let _ ← g.expression false
  let _ ← block g

/-- What follows a branch. -/
def elsePart (g : Grammar) (elseIfs : Nat) : Parser (Nat ⊕ ExprForm) := do
  if ← tryWord "else" then
    if ← ahead (Ahead.word "if") then return .inl (elseIfs + 1)
    else
      let _ ← block g
      return .inr (.conditional elseIfs true)
  else return .inr (.conditional elseIfs false)

theorem conditional_eq (g : Grammar) :
    conditional g = iterate (fun n => branch g >>= fun _ => elsePart g n) 0 := by
  unfold conditional branch elsePart
  simp only [bind_assoc, pure_bind]

instance {E : Ends} [Calm E] : Follows E Eq Always (branch g) (branch g') := by
  unfold branch; infer_instance

instance : Closes Eq (branch g) (branch g') := by unfold branch; infer_instance

instance {E : Ends} [Calm E] {n : Nat} : Follows E Eq Never (elsePart g n) (elsePart g' n) := by
  unfold elsePart; infer_instance

theorem run_elsePart (g : Grammar) (n : Nat) (x : List Tree) : (elsePart g n).run x =
    if Ahead.word "else" x = true then
      if Ahead.word "if" (x.drop 1) = true then some (.inl (n + 1), x.drop 1)
      else (block g >>= fun _ => pure (.inr (.conditional n true))).run (x.drop 1)
    else some (.inr (.conditional n false), x) := by
  unfold elsePart
  rw [tryWord_bind]
  change StateT.run (if Ahead.word "else" x = true then _ else _) x = _
  split
  · change StateT.run (if Ahead.word "if" (x.drop 1) = true then _ else _) (x.drop 1) = _
    split <;> rfl
  · rfl

section

variable {t u : Tree} {r r' x y : List Tree} (hs : Sealed (t :: r) (u :: r'))
  (ht : Track (t :: r) (u :: r') x y)

include hs ht

/-- A parser stops before the end or, if it closes, right after the anchor. -/
theorem Follows.cases {α β : Type} {ρ : α → β → Prop} {c : Reads α} {p : Parser α} {q : Parser β}
    (hp : Follows Sealed ρ c p q) {a : α} {x' : List Tree} (h : p.run x = some (a, x'))
    (hr : r <:+ x') :
    x' = r ∨ ∃ n b, n + x'.length = x.length ∧ (c a → 0 < n) ∧ ρ a b ∧
      q.run y = some (b, y.drop n) ∧
      Track (t :: r) (u :: r') x' (y.drop n) := by
  rcases Nat.lt_or_ge r.length x'.length with hlt | hge
  · have hx' : t :: r <:+ x' := List.suffix_of_suffix_length_le ht.suffix (hp.suffix h)
      (by simpa using Nat.succ_le_of_lt hlt)
    obtain ⟨n, b, hn, hpos, hr, hq⟩ := hp.follow hs ht a x' h hx'
    have ht' := ht.drop (n := n) (by have := hx'.length_le; omega)
    rw [← show x' = x.drop n by
      rw [List.suffix_iff_eq_drop.1 (hp.suffix h), show x.length - x'.length = n by omega]] at ht'
    exact .inr ⟨n, b, hn, hpos, hr, hq, ht'⟩
  · exact .inl (hr.eq_of_length_le hge).symm

theorem elsePart_close {n : Nat} {f : ExprForm} (h : (elsePart g n).run x = some (.inr f, r)) :
    (elsePart g' n).run y = some (.inr f, r') := by
  have helse : Ahead.word "else" x = Ahead.word "else" y := Agree.eq (n := 0) hs ht trivial
  rw [run_elsePart] at h ⊢
  rw [← helse]
  by_cases hx : Ahead.word "else" x = true
  · rw [if_pos hx] at h ⊢
    have hin := deep_one.1 (Guard.deep (P := Ahead.word "else") (n := 0) hs ht trivial hx)
    have ht₁ := ht.drop (n := 1) (by omega)
    have hif : Ahead.word "if" (x.drop 1) = Ahead.word "if" (y.drop 1) :=
      Agree.eq (n := 0) hs ht₁ trivial
    rw [← hif]
    by_cases hx' : Ahead.word "if" (x.drop 1) = true
    · rw [if_pos hx'] at h
      cases h
    · rw [if_neg hx'] at h ⊢
      have hc : Closes Eq (block g >>= fun _ => pure (.inr (.conditional n true) : Nat ⊕ ExprForm))
        (block g' >>= fun _ => pure (.inr (.conditional n true))) := inferInstance
      obtain ⟨_, rfl, hq⟩ := hc.close hs ht₁ h
      exact hq
  · rw [if_neg hx] at h
    cases h
    have := ht.suffix.length_le
    simp only [List.length_cons] at this
    omega

theorem branch_close (hr' : Ahead.word "else" r' = false) {n : Nat} {f : ExprForm}
    (h : (branch g >>= fun _ => elsePart g n).run x = some (.inr f, r)) :
    (branch g' >>= fun _ => elsePart g' n).run y = some (.inr f, r') := by
  obtain ⟨_, x₁, h₁, h₂⟩ := run_bind_eq_some.1 h
  have hb : Follows Sealed Eq Always (branch g) (branch g') := inferInstance
  have he : Follows Sealed Eq Never (elsePart g n) (elsePart g' n) := inferInstance
  rcases hb.cases hs ht h₁ (he.suffix h₂) with rfl | ⟨k, _, -, -, rfl, hq, ht₁⟩
  · have hc : Closes Eq (branch g) (branch g') := inferInstance
    obtain ⟨_, rfl, hq⟩ := hc.close hs ht h₁
    refine run_bind_eq_some.2 ⟨_, _, hq, ?_⟩
    rw [run_elsePart] at h₂ ⊢
    rw [if_neg (by simp [hr'])]
    by_cases helse : Ahead.word "else" x₁ = true
    · rw [if_pos helse] at h₂
      by_cases hif : Ahead.word "if" (x₁.drop 1) = true
      · rw [if_pos hif] at h₂
        cases h₂
      · rw [if_neg hif] at h₂
        have hblock : Follows Inner Eq Always
          (block g >>= fun _ => pure (.inr (.conditional n true) : Nat ⊕ ExprForm))
          (block g' >>= fun _ => pure (.inr (.conditional n true))) := inferInstance
        have := length_lt_of_reads hblock h₂
        simp at this
        omega
    · rw [if_neg helse] at h₂
      cases h₂
      rfl
  · exact run_bind_eq_some.2 ⟨_, _, hq, elsePart_close hs ht₁ h₂⟩

theorem conditional_close (hr' : Ahead.word "else" r' = false) {f : ExprForm}
    (h : (conditional g).run x = some (f, r)) : (conditional g').run y = some (f, r') := by
  have step {n : Nat} : Follows Sealed Eq Always (branch g >>= fun _ => elsePart g n)
    (branch g' >>= fun _ => elsePart g' n) := inferInstance
  have reads {n : Nat} : Follows Inner Eq Always (branch g >>= fun _ => elsePart g n)
    (branch g' >>= fun _ => elsePart g' n) := inferInstance
  have loop {n m k : Nat} {x y : List Tree} (ht : Track (t :: r) (u :: r') x y)
      (hm : y.length < m)
      (h : (iterateFrom (fun n => branch g >>= fun _ => elsePart g n) n k).run x = some (f, r)) :
      (iterateFrom (fun n => branch g' >>= fun _ => elsePart g' n) m k).run y =
        some (f, r') := by
    induction n generalizing m k x y with
    | zero => cases h
    | succ n ih =>
      obtain ⟨m, rfl⟩ : ∃ m', m = m' + 1 := ⟨m - 1, by omega⟩
      rw [iterateFrom] at h ⊢
      obtain ⟨a, x₁, h₁, h₂⟩ := run_bind_eq_some.1 h
      cases a with
      | inl k' =>
        rcases step.cases hs ht h₁ (suffix_iterateFrom step.suffix h₂) with
          rfl | ⟨l, _, hl, hpos, rfl, hq, ht₁⟩
        · cases n with
          | zero => cases h₂
          | succ n =>
            change (iterateFrom _ (n + 1) k').run x₁ = _ at h₂
            rw [iterateFrom] at h₂
            obtain ⟨b, x₂, h₂, h₃⟩ := run_bind_eq_some.1 h₂
            have hlt := length_lt_of_reads reads h₂
            have hle : x₁.length ≤ x₂.length := by
              cases b with
              | inl k => exact (suffix_iterateFrom step.suffix h₃).length_le
              | inr f =>
                cases h₃
                exact Nat.le_refl _
            omega
        · refine run_bind_eq_some.2 ⟨_, _, hq, ih ht₁ ?_ h₂⟩
          have := hpos trivial
          have := ht₁.length
          have := ht.length
          rw [List.length_drop]
          omega
      | inr f' =>
        cases h₂
        exact run_bind_eq_some.2 ⟨_, _, branch_close hs ht hr' h₁, rfl⟩
  rw [conditional_eq] at h ⊢
  exact loop ht (Nat.lt_succ_self _) h

end

/-- The expressions that end with their own brace. -/
inductive BlockKind where
  | conditional
  | whileLoop
  | forLoop
  | endlessLoop
  | matching
  | tryBlock
  | unsafeBlock
  | constBlock
  | block
  | labelled

def blockKind? (ts : List Tree) : Option BlockKind :=
  if Ahead.word "if" ts then some .conditional
  else if Ahead.word "while" ts then some .whileLoop
  else if Ahead.word "for" ts && !bindsAhead ts then some .forLoop
  else if Ahead.word "loop" ts then some .endlessLoop
  else if Ahead.word "match" ts then some .matching
  else if Ahead.word "try" ts && second Ahead.brace ts then some .tryBlock
  else if Ahead.word "unsafe" ts then some .unsafeBlock
  else if Ahead.word "const" ts && second Ahead.brace ts then some .constBlock
  else if Ahead.brace ts then some .block
  else if Ahead.lifetime ts then some .labelled
  else none

instance {E : Ends} [Calm E] : Agree E 0 blockKind? where
  eq {e e' x y} hE ht hd := by
    have hword (w : String) : Ahead.word w x = Ahead.word w y := Agree.eq hE ht hd
    have hfor : (Ahead.word "for" x && !bindsAhead x) = (Ahead.word "for" y && !bindsAhead y) :=
      Agree.eq (P := fun ts => Ahead.word "for" ts && !bindsAhead ts) hE ht hd
    have hbrace (w : String) : (Ahead.word w x && second Ahead.brace x) =
        (Ahead.word w y && second Ahead.brace y) :=
      Agree.eq (P := fun ts => Ahead.word w ts && second Ahead.brace ts) hE ht hd
    simp only [blockKind?, hfor, hbrace, Agree.eq (P := Ahead.brace) hE ht hd,
      Agree.eq (P := Ahead.lifetime) hE ht hd]
    simp only [hword]

def blockOf (g : Grammar) : BlockKind → Parser ExprForm
  | .conditional => conditional g
  | .whileLoop => whileLoop g
  | .forLoop => forLoop g
  | .endlessLoop => endlessLoop g
  | .matching => matching g
  | .tryBlock => do
    word "try"
    let _ ← Parser.block g
    return .tryBlock
  | .unsafeBlock => do
    word "unsafe"
    let _ ← attributedBlock g
    return .unsafeBlock
  | .constBlock => do
    word "const"
    let _ ← attributedBlock g
    return .constBlock
  | .block => do
    let _ ← attributedBlock g
    return .block
  | .labelled => labelled g

instance {E : Ends} [Calm E] {kind : BlockKind} :
    Follows E Eq Always (blockOf g kind) (blockOf g' kind) := by
  cases kind <;> (unfold blockOf; infer_instance)

theorem run_word_bind {α : Type} {w : String} {x : List Tree} (h : Ahead.word w x = true)
    (p : Parser α) : (word w >>= fun _ => p).run x = p.run (x.drop 1) := by
  unfold word
  rw [bind_assoc, StateT.run_bind, run_require, if_pos h]
  rfl

theorem run_atom_try (g : Grammar) {x : List Tree}
    (h : (Ahead.word "try" x && second Ahead.brace x) = true) :
    (atom g true).run x = (blockOf g .tryBlock).run x := by
  rw [Bool.and_eq_true] at h
  rw [blockOf, run_word_bind h.1]
  obtain ⟨hword, hbrace⟩ := h
  rcases x with _ | ⟨_ | _ | _ | _, x⟩ <;> try cases hword
  obtain rfl := beq_iff_eq.1 hword
  unfold atom
  rw [run_get_bind]
  simp [Ahead.literal, Ahead.word, hbrace]
  rfl

theorem run_atom_unsafe (g : Grammar) {x : List Tree} (h : Ahead.word "unsafe" x = true) :
    (atom g true).run x = (blockOf g .unsafeBlock).run x := by
  rw [blockOf, run_word_bind h]
  rcases x with _ | ⟨_ | _ | _ | _, x⟩ <;> try cases h
  obtain rfl := beq_iff_eq.1 h
  unfold atom
  rw [run_get_bind]
  simp [Ahead.literal, Ahead.word, isClosureAhead, bindsAhead, isPathAhead, Ahead.pathWord,
    Ahead.ident, Ahead.mark, Ahead.markChars, Ahead.paren, Ahead.group, Ahead.bracket,
    Ahead.keywords]
  rfl

theorem run_atom_const (g : Grammar) {x : List Tree}
    (h : (Ahead.word "const" x && second Ahead.brace x) = true) :
    (atom g true).run x = (blockOf g .constBlock).run x := by
  rw [Bool.and_eq_true] at h
  rw [blockOf, run_word_bind h.1]
  obtain ⟨hword, hbrace⟩ := h
  rcases x with _ | ⟨_ | _ | _ | _, x⟩ <;> try cases hword
  obtain rfl := beq_iff_eq.1 hword
  unfold atom
  rw [run_get_bind]
  simp [Ahead.literal, Ahead.word, isClosureAhead, bindsAhead, isPathAhead, Ahead.pathWord,
    Ahead.ident, Ahead.mark, Ahead.markChars, Ahead.paren, Ahead.group, Ahead.bracket,
    Ahead.keywords, hbrace]
  rfl

theorem run_atom_brace (g : Grammar) {x : List Tree} (h : Ahead.brace x = true) :
    (atom g true).run x = (blockOf g .block).run x := by
  rcases x with _ | ⟨_ | _ | _ | ⟨_ | _ | _, _, _⟩, x⟩ <;> try cases h
  unfold atom
  rw [run_get_bind]
  simp [Ahead.literal, Ahead.word, isClosureAhead, bindsAhead, isPathAhead, Ahead.pathWord,
    Ahead.ident, Ahead.mark, Ahead.markChars, Ahead.paren, Ahead.group, Ahead.bracket,
    Ahead.brace, blockOf]

/-- What is read after the attributes of an expression that ends as soon as it can. -/
def boundedOf (g : Grammar) : Option BlockKind → Parser Expr
  | some kind => do afterBlock g (← blockOf g kind)
  | none => do g.climb (← operand g true) true .jump

instance {E : Ends} [Calm E] {kind : Option BlockKind} :
    Follows E Eq Always (boundedOf g kind) (boundedOf g' kind) := by
  cases kind <;> (unfold boundedOf; infer_instance)

theorem bounded_eq_boundedOf (g : Grammar) :
    bounded g = outerAttributes g >>= fun _ => look blockKind? >>= boundedOf g := by
  rw [bounded_eq]
  refine bind_congr (m := Parser) fun _ => StateT.ext fun x => ?_
  rw [run_get_bind, run_look_bind]
  unfold blockKind?
  by_cases hif : Ahead.word "if" x = true
  · rw [if_pos hif, if_pos hif]; rfl
  rw [if_neg hif, if_neg hif]
  by_cases hwhile : Ahead.word "while" x = true
  · rw [if_pos hwhile, if_pos hwhile]; rfl
  rw [if_neg hwhile, if_neg hwhile]
  by_cases hfor : (Ahead.word "for" x && !bindsAhead x) = true
  · rw [if_pos hfor, if_pos hfor]; rfl
  rw [if_neg hfor, if_neg hfor]
  by_cases hloop : Ahead.word "loop" x = true
  · rw [if_pos hloop, if_pos hloop]; rfl
  rw [if_neg hloop, if_neg hloop]
  by_cases hmatch : Ahead.word "match" x = true
  · rw [if_pos hmatch, if_pos hmatch]; rfl
  rw [if_neg hmatch, if_neg hmatch]
  by_cases htry : (Ahead.word "try" x && second Ahead.brace x) = true
  · rw [if_pos (by simp [htry]), if_pos htry, boundedOf, StateT.run_bind, StateT.run_bind,
      run_atom_try g htry]
  rw [if_neg htry]
  by_cases hunsaf : Ahead.word "unsafe" x = true
  · rw [if_pos (by simp [hunsaf]), if_pos hunsaf, boundedOf, StateT.run_bind, StateT.run_bind,
      run_atom_unsafe g hunsaf]
  rw [if_neg hunsaf]
  by_cases hconst : (Ahead.word "const" x && second Ahead.brace x) = true
  · rw [if_pos (by simp [hconst]), if_pos hconst, boundedOf, StateT.run_bind, StateT.run_bind,
      run_atom_const g hconst]
  rw [if_neg hconst]
  by_cases hbrace : Ahead.brace x = true
  · rw [if_pos (by simp [hbrace]), if_pos hbrace, boundedOf, StateT.run_bind, StateT.run_bind,
      run_atom_brace g hbrace]
  rw [if_neg hbrace, if_neg (by simp [htry, hunsaf, hconst, hbrace])]
  split <;> rfl

/-! ### Forms that are open -/

/-- A form of expressions that does not end with a brace or needs a semicolon. -/
class Shut (f : ExprForm) : Prop where
  isOpen : f.isOpen = false

/-- What `p` reads never has a form that is open. -/
class ShutsIn {α : Type} (F : α → ExprForm) (p : Parser α) : Prop where
  isOpen {x x' : List Tree} {a : α} : p.run x = some (a, x') → (F a).isOpen = false

abbrev Shuts (p : Parser ExprForm) : Prop := ShutsIn (fun f => f) p

theorem Shuts.isOpen {p : Parser ExprForm} [hp : Shuts p] {x x' : List Tree} {f : ExprForm}
    (h : p.run x = some (f, x')) : f.isOpen = false :=
  @ShutsIn.isOpen _ (fun f => f) p hp _ _ _ h

instance : Shut .array := ⟨rfl⟩

instance : Shut .async := ⟨rfl⟩

instance : Shut .await := ⟨rfl⟩

instance : Shut .breakJump := ⟨rfl⟩

instance : Shut .closure := ⟨rfl⟩

instance : Shut .continueJump := ⟨rfl⟩

instance : Shut .field := ⟨rfl⟩

instance : Shut .infer := ⟨rfl⟩

instance : Shut .letBinding := ⟨rfl⟩

instance : Shut .literal := ⟨rfl⟩

instance : Shut .methodCall := ⟨rfl⟩

instance : Shut .paren := ⟨rfl⟩

instance : Shut .range := ⟨rfl⟩

instance : Shut .repetition := ⟨rfl⟩

instance : Shut .rawAddress := ⟨rfl⟩

instance : Shut .reference := ⟨rfl⟩

instance : Shut .returnJump := ⟨rfl⟩

instance {n : Nat} : Shut (.tuple n) := ⟨rfl⟩

instance : Shut .unary := ⟨rfl⟩

instance : Shut .verbatim := ⟨rfl⟩

instance {c : Prop} [Decidable c] {f f' : ExprForm} [hf : Shut f] [hf' : Shut f'] :
    Shut (if c then f else f') := by
  split
  · exact hf
  · exact hf'

instance : Shut .yield := ⟨rfl⟩

instance {f : ExprForm} [h : Shut f] : Shut (Expr.of f).form := h

section

variable {α β : Type} {F : β → ExprForm}

instance {b : β} [h : Shut (F b)] : ShutsIn F (pure b) where
  isOpen hp := by
    cases hp
    exact h.isOpen

instance : ShutsIn F failure where
  isOpen h := by cases h

instance {p : Parser α} {f : α → Parser β} [hf : ∀ a, ShutsIn F (f a)] :
    ShutsIn F (p >>= f) where
  isOpen h := by
    obtain ⟨a, _, _, h⟩ := run_bind_eq_some.1 h
    exact (hf a).isOpen h

instance {c : Prop} [Decidable c] {p q : Parser β} [hp : ShutsIn F p] [hq : ShutsIn F q] :
    ShutsIn F (if c then p else q) := by
  split
  · exact hp
  · exact hq

instance {d : Delimiter} {p : Parser ExprForm} [hp : Shuts p] : Shuts (within d p) where
  isOpen {x x' f} h := by
    obtain ⟨t, -, h⟩ := Option.bind_eq_some_iff.1 (run_within d p x ▸ h)
    obtain ⟨f, h, he⟩ := Option.map_eq_some_iff.1 h
    cases he
    unfold inside? at h
    split at h
    · split at h
      · split at h
        · cases h
          exact hp.isOpen ‹_›
        · cases h
      · cases h
    · cases h

end

instance : Shuts (closure g true) := by unfold closure; infer_instance

instance : Shuts builtin := by unfold builtin; infer_instance

instance : Shuts (breakJump g true) := by unfold breakJump; dsimp only; infer_instance

instance : Shuts (letBinding g true) := by unfold letBinding; infer_instance

instance : Shuts numberField where
  isOpen {x x' f} h := by
    obtain ⟨t, -, h⟩ := Option.bind_eq_some_iff.1 (run_numberField x ▸ h)
    obtain ⟨f, h, he⟩ := Option.map_eq_some_iff.1 h
    cases he
    unfold fieldNumber? at h
    split at h
    · split at h
      · split at h
        · cases h
          rfl
        · cases h
      · cases h
    · cases h

instance : Shuts (member g) := by rw [member_eq]; dsimp only; infer_instance

instance : Shuts (arrayOrRepetition g) := by unfold arrayOrRepetition; infer_instance

instance : Shuts (parenOrTuple g) := by
  unfold parenOrTuple
  have each (r : List Expr × Bool) : Shuts (match r with
      | (elements, trailing) =>
        match elements with
        | [_] => pure (if trailing = true then .tuple 1 else .paren)
        | es => pure (.tuple es.length)) := by
    obtain ⟨_ | ⟨_, _ | _⟩, trailing⟩ := r <;> (dsimp only; infer_instance)
  infer_instance

/-- Whether the atom ahead starts with a path. -/
def pathAtom (ts : List Tree) : Bool :=
  !Ahead.literal ts &&
  !(Ahead.word "async" ts &&
    (second Ahead.brace ts || (second (Ahead.word "move") ts && third Ahead.brace ts))) &&
  !(Ahead.word "try" ts && second Ahead.brace ts) && !isClosureAhead ts &&
  !(Ahead.word "builtin" ts && second (Ahead.mark "#") ts) &&
  (isPathAhead ts ||
    (Ahead.word "try" ts && (second (Ahead.mark "!") ts || second (Ahead.mark "::") ts)))

instance {E : Ends} [Calm E] : Agree E 0 pathAtom := by unfold pathAtom; infer_instance

theorem run_atom_path (g : Grammar) {structs : Bool} {x : List Tree} (h : pathAtom x = true) :
    (atom g structs).run x = (pathExpression g structs).run x := by
  simp only [pathAtom, Bool.and_eq_true, Bool.not_eq_true'] at h
  obtain ⟨⟨⟨⟨⟨hliteral, hasync⟩, htry⟩, hclosure⟩, hbuiltin⟩, hpath⟩ := h
  unfold atom
  rw [run_get_bind, if_neg (by simp [hliteral]), if_neg (by simp only [hasync]; decide),
    if_neg (by simp only [htry]; decide), if_neg (by simp [hclosure]),
    if_neg (by simp only [hbuiltin]; decide), if_pos hpath]

/-- What `p` reads from `x` is not open. -/
def ShutsAt (x : List Tree) (p : Parser ExprForm) : Prop :=
  ∀ f x', p.run x = some (f, x') → f.isOpen = false

theorem Shuts.at {x : List Tree} {p : Parser ExprForm} [hp : Shuts p] : ShutsAt x p :=
  fun _ _ h => Shuts.isOpen h

theorem shutsAt_ite {x : List Tree} {c : Prop} [Decidable c] {p q : Parser ExprForm}
    (hp : c → ShutsAt x p) (hq : ¬c → ShutsAt x q) : ShutsAt x (if c then p else q) := by
  split
  · exact hp ‹_›
  · exact hq ‹_›

theorem of_blockKind?_none {x : List Tree} (h : blockKind? x = none) :
    Ahead.word "if" x = false ∧ Ahead.word "while" x = false ∧
    (Ahead.word "for" x && !bindsAhead x) = false ∧ Ahead.word "loop" x = false ∧
    Ahead.word "match" x = false ∧ (Ahead.word "try" x && second Ahead.brace x) = false ∧
    Ahead.word "unsafe" x = false ∧ (Ahead.word "const" x && second Ahead.brace x) = false ∧
    Ahead.brace x = false ∧ Ahead.lifetime x = false := by
  unfold blockKind? at h
  split_ifs at h
  simp_all

/-- An atom whose form is open ends with its own brace or starts with a path. -/
theorem shutsAt_atom {x : List Tree} (hblock : blockKind? x = none) (hpath : pathAtom x = false) :
    ShutsAt x (atom g true) := by
  obtain ⟨hif, hwhile, hfor, hloop, hmatch, htry, hunsaf, hconst, hbrace, hlifetime⟩ :=
    of_blockKind?_none hblock
  unfold atom
  change ShutsAt x (if Ahead.literal x = true then _ else _)
  refine shutsAt_ite (fun _ => Shuts.at) fun hliteral => ?_
  refine shutsAt_ite (fun _ => Shuts.at) fun hasync => ?_
  refine shutsAt_ite (fun h => absurd h (by simp [htry])) fun _ => ?_
  refine shutsAt_ite (fun _ => Shuts.at) fun hclosure => ?_
  refine shutsAt_ite (fun _ => Shuts.at) fun hbuiltin => ?_
  refine shutsAt_ite (fun h => ?_) fun _ => ?_
  · have : pathAtom x = true := by
      simp only [Bool.not_eq_true] at hliteral hasync hclosure hbuiltin
      unfold pathAtom
      rw [hliteral, hasync, htry, hclosure, hbuiltin, h]
      rfl
    rw [this] at hpath
    cases hpath
  refine shutsAt_ite (fun _ => Shuts.at) fun _ => ?_
  refine shutsAt_ite (fun _ => Shuts.at) fun _ => ?_
  refine shutsAt_ite (fun _ => Shuts.at) fun _ => ?_
  refine shutsAt_ite (fun _ => Shuts.at) fun _ => ?_
  refine shutsAt_ite (fun _ => Shuts.at) fun _ => ?_
  refine shutsAt_ite (fun _ => Shuts.at) fun _ => ?_
  refine shutsAt_ite (fun _ => Shuts.at) fun _ => ?_
  refine shutsAt_ite (fun h => absurd h (by simp [hif])) fun _ => ?_
  refine shutsAt_ite (fun h => absurd h (by simp [hwhile])) fun _ => ?_
  refine shutsAt_ite (fun h => absurd hclosure ?_) fun _ => ?_
  · rw [h] at hfor
    simp_all [isClosureAhead]
  refine shutsAt_ite (fun h => absurd h (by simp [hloop])) fun _ => ?_
  refine shutsAt_ite (fun h => absurd h (by simp [hmatch])) fun _ => ?_
  refine shutsAt_ite (fun _ => Shuts.at) fun _ => ?_
  refine shutsAt_ite (fun h => absurd h (by simp [hunsaf])) fun _ => ?_
  refine shutsAt_ite (fun h => absurd hclosure ?_) fun _ => ?_
  · rw [h] at hconst
    simp_all [isClosureAhead]
  refine shutsAt_ite (fun h => absurd h (by simp [hbrace])) fun _ => ?_
  refine shutsAt_ite (fun _ => Shuts.at) fun _ => ?_
  refine shutsAt_ite (fun _ => Shuts.at) fun _ => ?_
  exact shutsAt_ite (fun h => absurd h (by simp [hlifetime])) fun _ => Shuts.at

/-! ### What goes on with an expression -/

theorem precedence_ne_jump (o : Operator) : o.precedence ≠ .jump := by
  cases o <;> simp [Operator.precedence]

theorem precedenceAhead_eq_jump {r : List Tree} : precedenceAhead r = .jump ↔
    Operator.ahead? r = none ∧ (Ahead.mark "=" r && !Ahead.mark "=>" r) = false ∧
      Ahead.mark ".." r = false ∧ Ahead.word "as" r = false := by
  unfold precedenceAhead
  cases Operator.ahead? r with
  | some o => simp [precedence_ne_jump]
  | none => split_ifs <;> simp_all

theorem goesOn_eq_false {r : List Tree} : Syntax.goesOn r = false ↔
    (Ahead.mark "." r && !Ahead.mark ".." r) = false ∧ Ahead.mark "?" r = false :=
  Bool.or_eq_false_iff

/-- What a step of a loop goes on with is not open. It ends with what it was given, where `stop`
holds. -/
def Extends (stop : Expr → List Tree → Prop) (step : Expr → Parser (Expr ⊕ Expr)) : Prop :=
  ∀ e x r x', (step e).run x = some (r, x') →
    (r = .inr e ∧ x' = x ∧ stop e x) ∨ ∃ e₁, r = .inl e₁ ∧ e₁.form.isOpen = false

/-- An expression that is open at the end of such a loop has not been made more of. -/
theorem Extends.unchanged {stop : Expr → List Tree → Prop} {step : Expr → Parser (Expr ⊕ Expr)}
    (hs : Extends stop step) {e e' : Expr} {x x' : List Tree}
    (h : (iterate step e).run x = some (e', x')) (he : e'.form.isOpen = true) :
    e' = e ∧ x' = x ∧ stop e' x' := by
  have hend : ((e' = e ∧ x' = x) ∨ e'.form.isOpen = false) ∧ stop e' x' := by
    refine iterate_induction (J := fun e₁ x₁ => (e₁ = e ∧ x₁ = x) ∨ e₁.form.isOpen = false)
      (Q := fun e₁ x₁ => ((e₁ = e ∧ x₁ = x) ∨ e₁.form.isOpen = false) ∧ stop e₁ x₁) ?_ ?_
      (.inl ⟨rfl, rfl⟩) h
    · intro a x a' x' hJ h
      rcases hs a x _ x' h with ⟨he, -⟩ | ⟨e₁, he, hshut⟩ <;> cases he
      exact .inr hshut
    · intro a x b x' hJ h
      rcases hs a x _ x' h with ⟨he, rfl, hstop⟩ | ⟨e₁, he, -⟩ <;> cases he
      exact ⟨hJ, hstop⟩
  rcases hend with ⟨⟨rfl, rfl⟩ | hshut, hstop⟩
  · exact ⟨rfl, rfl, hstop⟩
  · simp [he] at hshut

/-- Reads `p` and goes on with a form that is not open. -/
theorem extends_read {α : Type} {p : Parser α} {f : α → ExprForm} {v : Bool} {x x' : List Tree}
    {r : Expr ⊕ Expr} (hf : ∀ a, (f a).isOpen = false)
    (h : (p >>= fun a => pure (.inl ⟨f a, v⟩)).run x = some (r, x')) :
    ∃ e₁ : Expr, r = .inl e₁ ∧ e₁.form.isOpen = false := by
  obtain ⟨a, x₁, -, h⟩ := run_bind_eq_some.1 h
  cases h
  exact ⟨_, rfl, hf a⟩

/-- Neither a call nor a field or the like is ahead. -/
structure NoTrailer (ts : List Tree) : Prop where
  paren : Ahead.paren ts = false
  bracket : Ahead.bracket ts = false
  goesOn : goesOn ts = false

theorem ne_range_of_isOpen {f : ExprForm} (h : f.isOpen = true) : (f != .range) = true := by
  cases f <;> first | rfl | cases h

theorem trailers_unchanged {e e' : Expr} {x x' : List Tree}
    (h : (trailers g e).run x = some (e', x')) (he : e'.form.isOpen = true) :
    e' = e ∧ x' = x ∧ NoTrailer x' := by
  suffices hext : Extends (fun e x => e.form.isOpen = true → NoTrailer x) _ from
    (hext.unchanged h he).imp_right (.imp_right (· he))
  intro e x r x' h
  rw [run_get_bind] at h
  split at h
  · exact .inr (extends_read (f := fun _ => .call) (fun _ => rfl) h)
  split at h
  · have more {b : Bool} {x₁ : List Tree}
        (h : (if b = true then member g >>= fun f => pure (.inl (Expr.of f)) else
          pure (.inl (Expr.of .field)) : Parser (Expr ⊕ Expr)).run x₁ = some (r, x')) :
        ∃ e₁ : Expr, r = .inl e₁ ∧ e₁.form.isOpen = false := by
      split at h
      · obtain ⟨f, _, hf, h⟩ := run_bind_eq_some.1 h
        cases h
        exact ⟨_, rfl, Shuts.isOpen hf⟩
      · cases h
        exact ⟨_, rfl, rfl⟩
    obtain ⟨_, x₁, -, h⟩ := run_bind_eq_some.1 h
    change StateT.run (if Ahead.float x₁ = true then _ else _) x₁ = _ at h
    split at h
    · obtain ⟨_, _, -, h⟩ := run_bind_eq_some.1 h
      exact .inr (more h)
    · obtain ⟨_, _, -, h⟩ := run_bind_eq_some.1 h
      exact .inr (more h)
  split at h
  · exact .inr (extends_read (f := fun _ => .index) (fun _ => rfl) h)
  split at h
  · exact .inr (extends_read (f := fun _ => .try) (fun _ => rfl) h)
  · cases h
    refine .inl ⟨rfl, rfl, fun he => ?_⟩
    have hrange := ne_range_of_isOpen he
    simp_all only [Bool.and_true, Bool.not_eq_true]
    exact ⟨‹_›, ‹_›, goesOn_eq_false.2 ⟨‹_›, ‹_›⟩⟩

theorem climb_unchanged {e e' : Expr} {structs : Bool} {base : Precedence} {x x' : List Tree}
    (h : (climb g e structs base).run x = some (e', x')) (he : e'.form.isOpen = true) :
    e' = e ∧ x' = x ∧ (base = .jump → precedenceAhead x' = .jump) := by
  suffices hext : Extends
      (fun e x => e.form.isOpen = true → base = .jump → precedenceAhead x = .jump) _ from
    (hext.unchanged h he).imp_right (.imp_right (· he))
  intro e x r x' h
  rw [run_get_bind] at h
  split at h
  · rename_i hrange
    cases h
    refine .inl ⟨rfl, rfl, fun he => ?_⟩
    have := ne_range_of_isOpen he
    simp [hrange, bne] at this
  split at h
  · split at h
    · rename_i hrank
      cases h
      refine .inl ⟨rfl, rfl, fun _ hbase => ?_⟩
      subst hbase
      cases hrank
    split at h
    · cases h
    · obtain ⟨_, _, -, h⟩ := run_bind_eq_some.1 h
      exact .inr (extends_read (f := fun _ => .binary _) (fun _ => rfl) h)
  · split at h
    · obtain ⟨_, _, -, h⟩ := run_bind_eq_some.1 h
      exact .inr (extends_read (f := fun _ => .assign) (fun _ => rfl) h)
    split at h
    · exact .inr (extends_read (f := fun _ => .range) (fun _ => rfl) h)
    split at h
    · obtain ⟨_, _, -, h⟩ := run_bind_eq_some.1 h
      obtain ⟨_, _, -, h⟩ := run_bind_eq_some.1 h
      exact .inr (extends_read (f := fun _ => .cast) (fun _ => rfl) h)
    · cases h
      refine .inl ⟨rfl, rfl, fun _ hbase => ?_⟩
      subst hbase
      have hzero (n : Nat) : (decide (Precedence.jump.rank ≤ n) && true) = true := by
        simp [Precedence.rank]
      simp_all [precedenceAhead_eq_jump, Precedence.rank]

/-! ### In front of what nothing goes on with -/

/-- Trees that nothing goes on with. -/
structure Halt (r : List Tree) : Prop extends NoTrailer r where
  semicolon : Ahead.mark ";" r = false
  branch : Ahead.word "else" r = false
  operator : precedenceAhead r = .jump

theorem halt_nil : Halt [] := ⟨⟨rfl, rfl, rfl⟩, rfl, rfl, rfl⟩

theorem halt_binding {s : Span} {ts : List Tree} : Halt (.word "let" s :: ts) :=
  ⟨⟨rfl, rfl, rfl⟩, rfl, rfl, rfl⟩

theorem halt_attribute {j : Bool} {s : Span} {ts : List Tree} : Halt (.mark '#' j s :: ts) :=
  ⟨⟨rfl, rfl, rfl⟩, rfl, rfl, rfl⟩

theorem iterate_stop {α β : Type} {step : α → Parser (α ⊕ β)} {a : α} {b : β} {x : List Tree}
    (h : (step a).run x = some (.inr b, x)) : (iterate step a).run x = some (b, x) := by
  unfold iterate
  rw [run_get_bind, iterateFrom]
  exact run_bind_eq_some.2 ⟨_, _, h, rfl⟩

namespace Halt

variable {r : List Tree} (h : Halt r)

include h

theorem trailers (e : Expr) : (trailers g e).run r = some (e, r) := by
  obtain ⟨hpoint, hquestion⟩ := goesOn_eq_false.1 h.goesOn
  refine iterate_stop ?_
  rw [run_get_bind, if_neg (by simp [h.paren]), if_neg (by rw [hpoint]; simp),
    if_neg (by simp [h.bracket]), if_neg (by simp [hquestion])]
  rfl

theorem climb (e : Expr) (structs : Bool) (base : Precedence) :
    (climb g e structs base).run r = some (e, r) := by
  obtain ⟨hoperator, hassign, hrange, hcast⟩ := precedenceAhead_eq_jump.1 h.operator
  refine iterate_stop ?_
  rw [run_get_bind, hoperator]
  simp only [Bool.and_assoc, hassign, hrange, hcast, Bool.and_false, Bool.false_eq_true, if_false]
  split <;> rfl

theorem afterBlock (f : ExprForm) : (afterBlock g f).run r = some (Expr.of f, r) := by
  unfold Parser.afterBlock
  obtain ⟨hpoint, hquestion⟩ := goesOn_eq_false.1 h.goesOn
  rw [run_get_bind, hpoint, hquestion]
  rfl

end Halt

/-- Operators go on with an expression in the grammar as they do in its production. -/
class Climbs (g : Grammar) : Prop where
  unchanged {e e' : Expr} {structs : Bool} {base : Precedence} {x x' : List Tree} :
    (g.climb e structs base).run x = some (e', x') → e'.form.isOpen = true →
      e' = e ∧ x' = x ∧ (base = .jump → precedenceAhead x' = .jump)

/-- No operator goes on with an expression in front of what nothing goes on with. -/
class Halts (g : Grammar) : Prop where
  halt {r : List Tree} (h : Halt r) (e : Expr) (structs : Bool) (base : Precedence) :
    (g.climb e structs base).run r = some (e, r)

theorem afterBlock_unchanged [Climbs g] {f : ExprForm} {e : Expr} {x x' : List Tree}
    (h : (afterBlock g f).run x = some (e, x')) (he : e.form.isOpen = true) :
    e = Expr.of f ∧ x' = x := by
  unfold afterBlock at h
  rw [run_get_bind] at h
  split at h
  · obtain ⟨e₁, x₁, h₁, h₂⟩ := run_bind_eq_some.1 h
    obtain ⟨rfl, rfl, -⟩ := Climbs.unchanged h₂ he
    obtain ⟨rfl, rfl, -⟩ := trailers_unchanged h₁ he
    exact ⟨rfl, rfl⟩
  · cases h
    exact ⟨rfl, rfl⟩

instance {n : Nat} : Climbs (.depth n) where
  unchanged h := by
    cases n with
    | zero => cases h
    | succ n => exact climb_unchanged h

instance {n : Nat} : Halts (.depth (n + 1)) := ⟨fun h e structs base => h.climb e structs base⟩

/-! ### Macros -/

/-- The call of a macro after its path. -/
def bangGroup : Parser Delimiter := do
  mark "!"
  anyGroup

theorem macroHead_eq : macroHead = plainPath >>= fun _ => bangGroup := rfl

instance : Follows Inner Eq Always bangGroup bangGroup := by unfold bangGroup; infer_instance

section

variable {t u : Tree} {r r' x y : List Tree} (hs : Sealed (t :: r) (u :: r'))
  (ht : Track (t :: r) (u :: r') x y)

include hs ht

theorem anyGroup_close {d : Delimiter} (h : anyGroup.run x = some (d, r)) :
    anyGroup.run y = some (d, r') := by
  rcases x with _ | ⟨_ | _ | _ | ⟨d', i, s⟩, x⟩ <;> try cases h
  obtain ⟨hx, rfl⟩ := ht.outside (by simp)
  obtain ⟨rfl, -⟩ := List.cons.inj hx
  rcases hs.loose with ⟨_ | _ | _ | _⟩
  rfl

theorem bangGroup_close {d : Delimiter} (h : bangGroup.run x = some (d, r)) :
    bangGroup.run y = some (d, r') := by
  obtain ⟨_, x₁, h₁, h₂⟩ := run_bind_eq_some.1 h
  have hmark : Follows Sealed Eq Always (mark "!") (mark "!") := inferInstance
  have hgroup : Follows Inner Eq Always anyGroup anyGroup := inferInstance
  rcases hmark.cases hs ht h₁ (hgroup.suffix h₂) with rfl | ⟨n, _, -, -, rfl, hq, ht₁⟩
  · have := length_lt_of_reads hgroup h₂
    omega
  · exact run_bind_eq_some.2 ⟨_, _, hq, anyGroup_close hs ht₁ h₂⟩

theorem macroHead_close {d : Delimiter} (h : macroHead.run x = some (d, r)) :
    macroHead.run y = some (d, r') := by
  rw [macroHead_eq] at h ⊢
  obtain ⟨_, x₁, h₁, h₂⟩ := run_bind_eq_some.1 h
  have hpath : Follows Sealed Eq Always plainPath plainPath := inferInstance
  have hgroup : Follows Inner Eq Always bangGroup bangGroup := inferInstance
  rcases hpath.cases hs ht h₁ (hgroup.suffix h₂) with rfl | ⟨n, _, -, -, rfl, hq, ht₁⟩
  · have := length_lt_of_reads hgroup h₂
    omega
  · exact run_bind_eq_some.2 ⟨_, _, hq, bangGroup_close hs ht₁ h₂⟩

omit hs ht in
/-- A path whose form is open is that of a macro. -/
theorem run_pathExpression_open {f : ExprForm} (h : (pathExpression g true).run x = some (f, r))
    (hf : f.isOpen = true) : ∃ p x₁ d, (qualifiedPath g true).run x = some (p, x₁) ∧
      (!p.qualified && Ahead.mark "!" x₁ && !Ahead.mark "!=" x₁ && p.plain) = true ∧
      bangGroup.run x₁ = some (d, r) ∧ f = .macroCall d := by
  obtain ⟨p, x₁, h₁, h₂⟩ := run_bind_eq_some.1 h
  rw [run_get_bind] at h₂
  by_cases hbang : (!p.qualified && Ahead.mark "!" x₁ && !Ahead.mark "!=" x₁ && p.plain) = true
  · rw [if_pos hbang] at h₂
    obtain ⟨_, x₂, hmark, h₂⟩ := run_bind_eq_some.1 h₂
    obtain ⟨d, x₃, hgroup, h₂⟩ := run_bind_eq_some.1 h₂
    cases h₂
    exact ⟨p, x₁, d, h₁, hbang, run_bind_eq_some.2 ⟨_, _, hmark, hgroup⟩, rfl⟩
  · rw [if_neg hbang] at h₂
    split at h₂
    · obtain ⟨_, _, -, h₂⟩ := run_bind_eq_some.1 h₂
      cases h₂
      cases hf
    · cases h₂
      cases hf

theorem pathExpression_close {f : ExprForm} (h : (pathExpression g true).run x = some (f, r))
    (hf : f.isOpen = true) : (pathExpression g' true).run y = some (f, r') := by
  obtain ⟨p, x₁, d, h₁, hbang, hd, rfl⟩ := run_pathExpression_open h hf
  have hpath : Follows Sealed Eq Always (qualifiedPath g true) (qualifiedPath g' true) :=
    inferInstance
  have hgroup : Follows Inner Eq Always bangGroup bangGroup := inferInstance
  rcases hpath.cases hs ht h₁ (hgroup.suffix hd) with rfl | ⟨n, _, -, -, rfl, hq, ht₁⟩
  · have := length_lt_of_reads hgroup hd
    omega
  · refine run_bind_eq_some.2 ⟨_, _, hq, ?_⟩
    rw [run_get_bind, if_pos]
    · obtain ⟨_, y₂, h₂, h₃⟩ := run_bind_eq_some.1 (bangGroup_close hs ht₁ hd)
      exact run_bind_eq_some.2 ⟨_, _, h₂, run_bind_eq_some.2 ⟨_, _, h₃, rfl⟩⟩
    · rw [← Agree.eq (P := Ahead.mark "!") (n := 0) hs ht₁ trivial,
        ← Agree.eq (P := Ahead.mark "!=") (n := 0) hs ht₁ trivial]
      exact hbang

/-! ### Expressions that are open -/

omit hs ht in
theorem run_outerAttributes (hx : Ahead.mark "#" x = false) :
    (outerAttributes g).run x = some ((), x) := by
  refine run_bind_eq_some.2 ⟨[], x, iterate_stop ?_, rfl⟩
  change StateT.run (if Ahead.mark "#" x = true then _ else _) x = _
  rw [hx]
  rfl

/-- An operand with a reference in front of it. -/
def referenceOperand (g : Grammar) (structs : Bool) : Parser Expr := do
  mark "&"
  let ts ← get
  let raw := Ahead.word "raw" ts && (second (Ahead.word "mut") ts || second (Ahead.word "const") ts)
  if raw then dropTrees 1
  let mutable ← tryWord "mut"
  if raw && !mutable then word "const"
  let _ ← g.operand structs
  return .of (if raw then .rawAddress else .reference)

/-- An operand without attributes, of which `ts` is ahead. -/
def operandAt (g : Grammar) (structs : Bool) (ts : List Tree) : Parser Expr :=
  if Ahead.mark "&" ts then referenceOperand g structs
  else if Ahead.mark "*" ts || Ahead.mark "!" ts || Ahead.mark "-" ts then do
    dropTrees 1
    let _ ← g.operand structs
    return .of .unary
  else do trailers g (Expr.ofAtom (← atom g structs))

instance {structs : Bool} : ShutsIn Expr.form (referenceOperand g structs) := by
  unfold referenceOperand; dsimp only; infer_instance

omit hs ht in
theorem run_operand {structs : Bool} (hx : Ahead.mark "#" x = false) :
    (operand g structs).run x = (operandAt g structs x).run x := by
  unfold operand
  rw [run_ahead_bind, hx, StateT.run_bind, run_outerAttributes hx]
  simp only [Option.bind_eq_bind, Option.bind_some]
  rw [run_get_bind]
  unfold operandAt
  split
  · rfl
  split
  · rfl
  · simp

omit hs ht in
/-- An operand whose form is open is an atom that starts with a path, if not with a brace. -/
theorem run_operand_open (hblock : blockKind? x = none) (hx : Ahead.mark "#" x = false) {e : Expr}
    (h : (operand g true).run x = some (e, r)) (he : e.form.isOpen = true) :
    pathAtom x = true ∧ (Ahead.mark "&" x || Ahead.mark "*" x || Ahead.mark "!" x ||
      Ahead.mark "-" x) = false ∧ NoTrailer r ∧
      ∃ f, f.isOpen = true ∧ (pathExpression g true).run x = some (f, r) ∧ e = Expr.ofAtom f := by
  rw [run_operand hx] at h
  unfold operandAt at h
  by_cases href : Ahead.mark "&" x = true
  · rw [if_pos href] at h
    have := ShutsIn.isOpen (F := Expr.form) h
    simp [he] at this
  rw [if_neg href] at h
  by_cases hunary : (Ahead.mark "*" x || Ahead.mark "!" x || Ahead.mark "-" x) = true
  · rw [if_pos hunary] at h
    have := ShutsIn.isOpen (F := Expr.form) h
    simp [he] at this
  rw [if_neg hunary] at h
  obtain ⟨f, x₁, hf, ht⟩ := run_bind_eq_some.1 h
  obtain ⟨rfl, rfl, hend⟩ := trailers_unchanged ht he
  by_cases hpath : pathAtom x = true
  · rw [run_atom_path g hpath] at hf
    exact ⟨hpath, by simp_all, hend, f, he, hf, rfl⟩
  · have := shutsAt_atom hblock (by simpa using hpath) f _ hf
    exact absurd he (by simp [Expr.ofAtom, this])

theorem operand_close (hr : Halt r') (hblock : blockKind? x = none)
    (hx : Ahead.mark "#" x = false) {e : Expr} (h : (operand g true).run x = some (e, r))
    (he : e.form.isOpen = true) : (operand g' true).run y = some (e, r') := by
  obtain ⟨hpath, hsigns, -, f, hopen, hf, rfl⟩ := run_operand_open hblock hx h he
  have hq : (pathExpression g' true).run y = some (f, r') :=
    pathExpression_close hs ht hf hopen
  rw [Agree.eq (P := pathAtom) (n := 0) hs ht trivial] at hpath
  rw [Agree.eq (P := Ahead.mark "#") (n := 0) hs ht trivial] at hx
  rw [Agree.eq (P := Ahead.mark "&") (n := 0) hs ht trivial,
    Agree.eq (P := Ahead.mark "*") (n := 0) hs ht trivial,
    Agree.eq (P := Ahead.mark "!") (n := 0) hs ht trivial,
    Agree.eq (P := Ahead.mark "-") (n := 0) hs ht trivial] at hsigns
  simp only [Bool.or_eq_false_iff] at hsigns
  rw [run_operand hx, operandAt, if_neg (by simp [hsigns]), if_neg (by simp [hsigns])]
  exact run_bind_eq_some.2 ⟨f, _, (run_atom_path g' hpath).trans hq, hr.trailers _⟩

theorem blockOf_close (hr : Halt r') {kind : BlockKind} {f : ExprForm}
    (h : (blockOf g kind).run x = some (f, r)) : (blockOf g' kind).run y = some (f, r') := by
  have close {k : BlockKind} [hc : Closes Eq (blockOf g k) (blockOf g' k)]
      (h : (blockOf g k).run x = some (f, r)) : (blockOf g' k).run y = some (f, r') := by
    obtain ⟨_, rfl, hq⟩ := hc.close hs ht h
    exact hq
  cases kind with
  | conditional => exact conditional_close hs ht hr.branch h
  | _ =>
    refine @close _ ?_ h
    unfold blockOf
    infer_instance

theorem boundedOf_close [Climbs g] [Halts g'] (hr : Halt r') (hx : Ahead.mark "#" x = false)
    {e : Expr}
    (h : (boundedOf g (blockKind? x)).run x = some (e, r)) (he : e.form.isOpen = true) :
    (boundedOf g' (blockKind? y)).run y = some (e, r') := by
  rw [← Agree.eq (P := blockKind?) (n := 0) hs ht trivial]
  cases hblock : blockKind? x with
  | none =>
    rw [hblock] at h
    obtain ⟨e₁, x₁, h₁, h₂⟩ := run_bind_eq_some.1 h
    obtain ⟨rfl, rfl, -⟩ := Climbs.unchanged h₂ he
    exact run_bind_eq_some.2 ⟨e, _, operand_close hs ht hr hblock hx h₁ he, Halts.halt hr _ _ _⟩
  | some kind =>
    rw [hblock] at h
    obtain ⟨f, x₁, h₁, h₂⟩ := run_bind_eq_some.1 h
    obtain ⟨rfl, rfl⟩ := afterBlock_unchanged h₂ he
    exact run_bind_eq_some.2 ⟨f, _, blockOf_close hs ht hr h₁, hr.afterBlock f⟩

end

end Parser

end Notebook.Syntax
