import Mathlib.Data.List.Forall2
import Notebook.Syntax.Statement

/-!
Two lists of trees that are alike up to an end that each has of its own, and how much of the ends
can be told apart by looking ahead.
-/

namespace Notebook.Syntax

namespace Tree

/-- Trees that differ in their places only. -/
inductive Same : Tree → Tree → Prop
  | word {w : String} {s s' : Span} : Same (.word w s) (.word w s')
  | mark {c : Char} {j : Bool} {s s' : Span} : Same (.mark c j s) (.mark c j s')
  | literal {l : List Char} {s s' : Span} : Same (.literal l s) (.literal l s')
  | group {d : Delimiter} {i i' : List Tree} {s s' : Span}
      (h : shape.shapes i = shape.shapes i') : Same (.group d i s) (.group d i' s')

theorem same_iff {t u : Tree} : t.Same u ↔ t.shape = u.shape := by
  constructor
  · rintro (_ | _ | _ | h) <;> simp_all [shape]
  · intro h
    cases t <;> cases u <;> simp only [shape, Shape.word.injEq, Shape.mark.injEq,
      Shape.literal.injEq, Shape.group.injEq, reduceCtorEq] at h
    · exact h ▸ .word
    · exact h.1 ▸ h.2 ▸ .mark
    · exact h ▸ .literal
    · exact h.1 ▸ .group h.2

theorem Same.refl (t : Tree) : t.Same t := same_iff.2 rfl

theorem Same.symm {t u : Tree} (h : t.Same u) : u.Same t := same_iff.2 (same_iff.1 h).symm

theorem Same.trans {t u v : Tree} (h : t.Same u) (h' : u.Same v) : t.Same v :=
  same_iff.2 ((same_iff.1 h).trans (same_iff.1 h'))

/-- Trees that differ in their places and in whether a mark touches what follows it. -/
inductive Loose : Tree → Tree → Prop
  | same {t u : Tree} (h : t.Same u) : Loose t u
  | mark {c : Char} {j j' : Bool} {s s' : Span} : Loose (.mark c j s) (.mark c j' s')

theorem Loose.symm {t u : Tree} (h : t.Loose u) : u.Loose t := by
  cases h with
  | same h => exact .same h.symm
  | mark => exact .mark

/-- A quote that a name has to follow. -/
def isQuote : Tree → Bool
  | .mark c joint _ => c == '\'' && joint
  | _ => false

theorem Same.isQuote {t u : Tree} (h : t.Same u) : t.isQuote = u.isQuote := by
  cases h <;> rfl

end Tree

/-- Two lists of trees that are alike up to the ends `e` and `e'`. Whether the last tree before the
end touches the end is left open. -/
inductive Track (e e' : List Tree) : List Tree → List Tree → Prop
  | ends : Track e e' e e'
  | last {t u : Tree} (h : t.Loose u) : Track e e' (t :: e) (u :: e')
  | cons {t u : Tree} {x y : List Tree} (h : t.Same u) (hs : Track e e' x y) :
    Track e e' (t :: x) (u :: y)

namespace Track

variable {e e' x y : List Tree}

theorem append {z z' : List Tree} (h : Track e e' x y) (hz : List.Forall₂ Tree.Same z z') :
    Track e e' (z ++ x) (z' ++ y) := by
  induction hz with
  | nil => exact h
  | cons hz _ ih => exact .cons hz ih

theorem of_same (h : List.Forall₂ Tree.Same x y) : Track [] [] x y := by
  simpa using append (.ends : Track [] [] [] []) h

theorem of_append (x e e' : List Tree) : Track e e' (x ++ e) (x ++ e') :=
  ends.append (List.forall₂_same.2 fun t _ => .refl t)

theorem refl (x : List Tree) : Track [] [] x x :=
  of_same (List.forall₂_same.2 fun t _ => .refl t)

theorem suffix (h : Track e e' x y) : e <:+ x := by
  induction h with
  | ends => exact List.suffix_rfl
  | last => exact List.suffix_cons _ _
  | cons _ _ ih => exact ih.trans (List.suffix_cons _ _)

theorem length (h : Track e e' x y) : x.length + e'.length = y.length + e.length := by
  induction h with
  | ends => omega
  | last => simp only [List.length_cons]; omega
  | cons _ _ ih => simp only [List.length_cons]; omega

theorem inside (h : Track e e' x y) (hx : e.length < x.length) :
    ∃ t u x' y', x = t :: x' ∧ y = u :: y' ∧ t.Loose u ∧ Track e e' x' y' ∧
      (t.Same u ∨ x' = e) := by
  cases h with
  | ends => omega
  | last h => exact ⟨_, _, _, _, rfl, rfl, h, .ends, .inr rfl⟩
  | cons h hs => exact ⟨_, _, _, _, rfl, rfl, .same h, hs, .inl h⟩

theorem outside (h : Track e e' x y) (hx : x.length ≤ e.length) : x = e ∧ y = e' := by
  cases h with
  | ends => exact ⟨rfl, rfl⟩
  | last =>
    simp only [List.length_cons] at hx
    omega
  | cons _ hs =>
    have := hs.suffix.length_le
    simp only [List.length_cons] at hx
    omega

theorem drop (h : Track e e' x y) {n : Nat} (hn : n + e.length ≤ x.length) :
    Track e e' (x.drop n) (y.drop n) := by
  induction n generalizing x y with
  | zero => exact h
  | succ n ih =>
    obtain ⟨t, u, x', y', rfl, rfl, -, hs, -⟩ := h.inside (by omega)
    simp only [List.length_cons] at hn
    exact ih hs (by omega)

theorem take (h : Track e e' x y) {n : Nat} (hn : n + e.length ≤ x.length) :
    Track [] [] (x.take n) (y.take n) := by
  induction n generalizing x y with
  | zero => exact .ends
  | succ n ih =>
    obtain ⟨t, u, x', y', rfl, rfl, hl, hs, hx⟩ := h.inside (by omega)
    simp only [List.length_cons] at hn
    rcases hx with hx | rfl
    · exact .cons hx (ih hs (by omega))
    · obtain rfl : n = 0 := by omega
      exact .last hl

end Track

/-! ### Ends -/

/-- An end at which no production wants to go on. -/
inductive Silent : List Tree → Prop
  | nil : Silent []
  | semicolon {j : Bool} {s : Span} {ts : List Tree} : Silent (.mark ';' j s :: ts)

/-- A point or a question mark makes more of an expression that ends with a brace. -/
def goesOn (ts : List Tree) : Bool :=
  (Ahead.mark "." ts && !Ahead.mark ".." ts) || Ahead.mark "?" ts

/-- Two ends that look alike to whoever does not read past their first trees. -/
inductive AlikeEnds : List Tree → List Tree → Prop
  | silent {e e' : List Tree} (h : Silent e) (h' : Silent e') : AlikeEnds e e'
  | brace {i i' r r' : List Tree} {s s' : Span}
      (h : (Tree.group .brace i s).Same (.group .brace i' s'))
      (hr : goesOn r = false) (hr' : goesOn r' = false) :
      AlikeEnds (.group .brace i s :: r) (.group .brace i' s' :: r')

abbrev Ends := List Tree → List Tree → Prop

/-- Ends that look alike. -/
class Calm (E : Ends) : Prop where
  alike {e e' : List Tree} : E e e' → AlikeEnds e e'

/-- Ends that look alike, the second of which is the end of the text only if the first is. -/
class Fair (E : Ends) : Prop extends Calm E where
  nil {e e' : List Tree} : E e e' → e' = [] → e = []

/-- Ends that look alike, and of which both or neither are the end of the text. -/
class Firm (E : Ends) : Prop extends Fair E where
  nil_right {e e' : List Tree} : E e e' → e = [] → e' = []

/-- The ends of two groups. -/
inductive Inner : Ends
  | nil : Inner [] []

/-- The last tree of a statement that takes no more, and what follows it. -/
inductive Sealed : Ends
  | semicolon {j j' : Bool} {s s' : Span} {r r' : List Tree} :
      Sealed (.mark ';' j s :: r) (.mark ';' j' s' :: r')
  | brace {i i' r r' : List Tree} {s s' : Span}
      (h : (Tree.group .brace i s).Same (.group .brace i' s'))
      (hr : goesOn r = false) (hr' : goesOn r' = false) :
      Sealed (.group .brace i s :: r) (.group .brace i' s' :: r')

/-- The end of a group, against a semicolon and what follows it. -/
inductive Ended : Ends
  | semicolon {j : Bool} {s : Span} {r : List Tree} : Ended [] (.mark ';' j s :: r)

instance : Firm Inner where
  alike := by rintro e e' ⟨⟩; exact .silent .nil .nil
  nil := by rintro e e' ⟨⟩ _; rfl
  nil_right := by rintro e e' ⟨⟩ _; rfl

instance : Firm Sealed where
  alike := by
    rintro e e' (_ | ⟨h, hr, hr'⟩)
    · exact .silent .semicolon .semicolon
    · exact .brace h hr hr'
  nil := by rintro e e' (_ | _) <;> simp
  nil_right := by rintro e e' (_ | _) <;> simp

instance : Fair Ended where
  alike := by rintro e e' ⟨⟩; exact .silent .nil .semicolon
  nil := by rintro e e' ⟨⟩ _; rfl

theorem Sealed.alone {t u : Tree} {r r' : List Tree} (h : Sealed (t :: r) (u :: r')) :
    Sealed (t :: r) [t] := by
  cases h with
  | semicolon => exact .semicolon
  | brace _ hr _ => exact .brace (.refl _) hr rfl

/-! ### Marks and words across the ends -/

theorem skip_cons (t : Tree) (ts : List Tree) :
    Ahead.skip (t :: ts) = if t.isQuote && Ahead.anyWord ts then ts.tail else ts := by
  unfold Ahead.skip
  split
  · simp_all [Tree.isQuote, Ahead.anyWord]
  · rename_i hne heq
    obtain ⟨rfl, rfl⟩ := List.cons.inj heq
    cases t with
    | mark c j s =>
      cases ts with
      | nil => simp [Ahead.anyWord]
      | cons v ts =>
        cases v with
        | word w s' =>
          have : ¬(c = '\'' ∧ j = true) := fun ⟨hc, hj⟩ => hne s w s' ts (by rw [hc, hj]) rfl
          simpa [Tree.isQuote, Ahead.anyWord] using this
        | _ => simp [Ahead.anyWord]
    | _ => simp [Tree.isQuote]
  · simp_all

namespace AlikeEnds

variable {e e' : List Tree}

theorem anyWord (h : AlikeEnds e e') : Ahead.anyWord e = false ∧ Ahead.anyWord e' = false := by
  cases h with
  | silent h h' => cases h <;> cases h' <;> simp [Ahead.anyWord]
  | brace => simp [Ahead.anyWord]

theorem markChars (h : AlikeEnds e e') {c : Char} (hc : c ≠ ';') (cs : List Char) :
    Ahead.markChars (c :: cs) e = false ∧ Ahead.markChars (c :: cs) e' = false := by
  cases h with
  | silent h h' => cases h <;> cases h' <;> cases cs <;> simp [Ahead.markChars, hc]
  | brace => cases cs <;> simp [Ahead.markChars]

/-- A look ahead at the first tree only. -/
theorem head_eq (h : AlikeEnds e e') {P : List Tree → Bool} {f : Tree → Bool}
    (hP : ∀ t ts, P (t :: ts) = f t) (hn : P [] = false)
    (hf : ∀ t u : Tree, t.Same u → f t = f u) (hs : ∀ j s, f (.mark ';' j s) = false) :
    P e = P e' := by
  cases h with
  | silent h h' => cases h <;> cases h' <;> simp [hP, hn, hs]
  | brace h => rw [hP, hP, hf _ _ h]

end AlikeEnds

namespace Track

variable {e e' x y : List Tree}

theorem anyWord (h : Track e e' x y) (he : AlikeEnds e e') :
    Ahead.anyWord x = Ahead.anyWord y := by
  have same {t u : Tree} {ts us : List Tree} (h : t.Loose u) :
      Ahead.anyWord (t :: ts) = Ahead.anyWord (u :: us) := by
    rcases h with ⟨_ | _⟩ | _ <;> rfl
  cases h with
  | ends => rw [he.anyWord.1, he.anyWord.2]
  | last h => exact same h
  | cons h _ => exact same (.same h)

theorem skip (h : Track e e' x y) (he : AlikeEnds e e') (hx : e.length < x.length) :
    Track e e' (Ahead.skip x) (Ahead.skip y) := by
  cases h with
  | ends => omega
  | last h => simpa [skip_cons, he.anyWord] using Track.ends
  | cons h hs =>
    rw [skip_cons, skip_cons, ← h.isQuote, ← hs.anyWord he]
    split
    · rename_i hq
      rw [Bool.and_eq_true] at hq
      cases hs with
      | ends => simp [he.anyWord] at hq
      | last => exact .ends
      | cons _ hs => exact hs
    · exact hs

theorem markChars (h : Track e e' x y) (he : AlikeEnds e e') {cs : List Char} (hc : ';' ∉ cs) :
    Ahead.markChars cs x = Ahead.markChars cs y := by
  induction cs generalizing x y with
  | nil => rfl
  | cons c cs ih =>
    have hne : c ≠ ';' := fun heq => hc (by simp [heq])
    have hc' : ';' ∉ cs := fun hm => hc (by simp [hm])
    cases h with
    | ends => rw [(he.markChars hne cs).1, (he.markChars hne cs).2]
    | last h =>
      rcases h with ⟨_ | _⟩ | _ <;> cases cs with
      | nil => rfl
      | cons d cs =>
        have hd : d ≠ ';' := fun heq => hc' (by simp [heq])
        simp [Ahead.markChars, he.markChars hd]
    | cons h hs =>
      have := ih hs hc'
      cases h <;> cases cs <;> simp_all [Ahead.markChars]

/-- Marks that stand before the end are there in both lists. -/
theorem markChars_of_inside (h : Track e e' x y) {cs : List Char}
    (hx : Ahead.markChars cs x = true) (hc : cs.length + e.length ≤ x.length) :
    Ahead.markChars cs y = true := by
  induction cs generalizing x y with
  | nil => rfl
  | cons c cs ih =>
    simp only [List.length_cons] at hc
    cases h with
    | ends => omega
    | last h =>
      simp only [List.length_cons] at hc
      obtain rfl : cs = [] := List.eq_nil_of_length_eq_zero (by omega)
      rcases h with ⟨_ | _⟩ | _ <;> exact hx
    | cons h hs =>
      simp only [List.length_cons] at hc
      have := fun hx => ih hs hx (by omega)
      cases h <;> cases cs <;> simp_all [Ahead.markChars]

end Track

theorem length_le_of_markChars {cs : List Char} {x : List Tree}
    (hx : Ahead.markChars cs x = true) : cs.length ≤ x.length := by
  induction cs generalizing x with
  | nil => simp
  | cons c cs ih =>
    cases x with
    | nil => cases cs <;> simp [Ahead.markChars] at hx
    | cons t x =>
      cases cs with
      | nil => simp
      | cons d cs =>
        cases t with
        | mark c' j s =>
          simp only [Ahead.markChars, Bool.and_eq_true] at hx
          simpa using ih hx.2
        | _ => simp [Ahead.markChars] at hx

end Notebook.Syntax
