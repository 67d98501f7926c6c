import Notebook.Proofs.Syntax.Track

/-!
Looks ahead that see the same in two lists that are alike up to their ends. A look past a tree is
safe where the looks in front of it make sure that the tree stands before the end, so the number
of trees that do is part of what is stated.
-/

namespace Notebook.Syntax

/-- At least `n` trees stand before the end, a lifetime counted as one. -/
def Deep (e : List Tree) : Nat → List Tree → Prop
  | 0, _ => True
  | n + 1, x => e.length < x.length ∧ Deep e n (Ahead.skip x)

/-- A look ahead that sees the same in both lists if `n` trees stand before the ends. -/
class Agree {τ : Type} (E : Ends) (n : Nat) (P : List Tree → τ) : Prop where
  eq {e e' x y : List Tree} : E e e' → Track e e' x y → Deep e n x → P x = P y

/-- A look ahead that succeeds only if `m` trees stand before the end. -/
class Guard (E : Ends) (n : Nat) (P : List Tree → Bool) (m : outParam Nat) : Prop where
  deep {e e' x y : List Tree} : E e e' → Track e e' x y → Deep e n x → P x = true → Deep e m x

variable {E : Ends} {n m : Nat} {P Q : List Tree → Bool}

theorem deep_one {e x : List Tree} : Deep e 1 x ↔ e.length < x.length := by
  simp [Deep]

/-! ### Connectives -/

instance {b : Bool} : Agree E n (fun _ => b) := ⟨fun _ _ _ => rfl⟩

instance [Agree E n P] : Agree E n (fun ts => !P ts) :=
  ⟨fun hE h hd => by simp only [Agree.eq (P := P) hE h hd]⟩

instance {k : Nat} [Agree E n P] [Guard E n P k] [Agree E k Q] :
    Agree E n (fun ts => P ts && Q ts) where
  eq {e e' x y} hE h hd := by
    have hP : P x = P y := Agree.eq hE h hd
    cases hx : P x with
    | false => simp [← hP, hx]
    | true =>
      have hQ : Q x = Q y := Agree.eq hE h (Guard.deep (P := P) hE h hd hx)
      simp [← hP, hx, hQ]

instance [Agree E n P] [Agree E n Q] : Agree E n (fun ts => P ts || Q ts) :=
  ⟨fun hE h hd => by simp only [Agree.eq (P := P) hE h hd, Agree.eq (P := Q) hE h hd]⟩

instance (priority := low) : Guard E n P n := ⟨fun _ _ hd _ => hd⟩

instance {k : Nat} [Guard E n P k] [Guard E k Q m] : Guard E n (fun ts => P ts && Q ts) m where
  deep hE h hd hx := by
    rw [Bool.and_eq_true] at hx
    exact Guard.deep hE h (Guard.deep hE h hd hx.1) hx.2

instance [Guard E n P m] [Guard E n Q m] : Guard E n (fun ts => P ts || Q ts) m where
  deep hE h hd hx := by
    rcases Bool.or_eq_true_iff.1 hx with hx | hx
    · exact Guard.deep hE h hd hx
    · exact Guard.deep hE h hd hx

/-! ### Past a tree -/

section

variable [Calm E] {τ : Type} {R : List Tree → τ}

instance [Agree E n R] : Agree E (n + 1) (fun ts => R (Ahead.skip ts)) :=
  ⟨fun hE h hd => Agree.eq (P := R) hE (h.skip (Calm.alike hE) hd.1) hd.2⟩

instance [Agree E n P] : Agree E (n + 1) (Ahead.second P) :=
  ⟨fun hE h hd => Agree.eq (P := P) hE (h.skip (Calm.alike hE) hd.1) hd.2⟩

instance [Agree E n P] : Agree E (n + 2) (Ahead.third P) :=
  ⟨fun hE h hd => by
    have hs := h.skip (Calm.alike hE) hd.1
    exact Agree.eq (P := P) hE (hs.skip (Calm.alike hE) hd.2.1) hd.2.2⟩

instance [Guard E n P m] : Guard E (n + 1) (Ahead.second P) (m + 1) :=
  ⟨fun hE h hd hx => ⟨hd.1, Guard.deep hE (h.skip (Calm.alike hE) hd.1) hd.2 hx⟩⟩

instance [Guard E n P m] : Guard E (n + 2) (Ahead.third P) (m + 2) :=
  ⟨fun hE h hd hx => by
    have hs := h.skip (Calm.alike hE) hd.1
    exact ⟨hd.1, hd.2.1, Guard.deep (P := P) hE (hs.skip (Calm.alike hE) hd.2.1) hd.2.2 hx⟩⟩

end

/-! ### The first tree -/

theorem agree_of_head [Calm E] (f : Tree → Bool) (hP : ∀ t ts, P (t :: ts) = f t)
    (hn : P [] = false) (hf : ∀ {t u : Tree}, t.Loose u → f t = f u)
    (hs : ∀ j s, f (.mark ';' j s) = false) : Agree E n P where
  eq {e e' x y} hE h _ := by
    cases h with
    | ends => exact (Calm.alike hE).head_eq hP hn (fun _ _ h => hf (.same h)) hs
    | last h => rw [hP, hP, hf h]
    | cons h _ => rw [hP, hP, hf (.same h)]

theorem guard_of_ends [Calm E] (h : ∀ {e e'}, AlikeEnds e e' → P e = false) : Guard E 0 P 1 where
  deep {e e' x y} hE hs _ hx := by
    rw [deep_one]
    rcases Nat.lt_or_ge e.length x.length with hlt | hge
    · exact hlt
    · obtain ⟨rfl, -⟩ := hs.outside hge
      simp [h (Calm.alike hE)] at hx

theorem guard_of_head [Calm E] (f : Tree → Bool) (hP : ∀ t ts, P (t :: ts) = f t)
    (hn : P [] = false) (hs : ∀ j s, f (.mark ';' j s) = false)
    (hb : ∀ i s, f (.group .brace i s) = false) : Guard E 0 P 1 := by
  refine guard_of_ends fun {e e'} he => ?_
  cases he with
  | silent h _ => cases h <;> simp [hP, hn, hs]
  | brace => simp [hP, hb]

section

variable [Calm E]

instance {w : String} : Agree E n (Ahead.word w) :=
  agree_of_head (fun | .word t _ => t == w | _ => false) (fun t _ => by cases t <;> rfl) rfl
    (by rintro t u (⟨_ | _⟩ | _) <;> rfl) fun _ _ => rfl

instance {w : String} : Guard E 0 (Ahead.word w) 1 :=
  guard_of_head (fun | .word t _ => t == w | _ => false) (fun t _ => by cases t <;> rfl) rfl
    (fun _ _ => rfl) fun _ _ => rfl

instance : Agree E n Ahead.anyWord :=
  agree_of_head (fun | .word .. => true | _ => false) (fun t _ => by cases t <;> rfl) rfl
    (by rintro t u (⟨_ | _⟩ | _) <;> rfl) fun _ _ => rfl

instance : Guard E 0 Ahead.anyWord 1 :=
  guard_of_head (fun | .word .. => true | _ => false) (fun t _ => by cases t <;> rfl) rfl
    (fun _ _ => rfl) fun _ _ => rfl

instance : Agree E n Ahead.ident :=
  agree_of_head (fun | .word t _ => !Ahead.keywords.contains t | _ => false)
    (fun t _ => by cases t <;> rfl) rfl (by rintro t u (⟨_ | _⟩ | _) <;> rfl) fun _ _ => rfl

instance : Guard E 0 Ahead.ident 1 :=
  guard_of_head (fun | .word t _ => !Ahead.keywords.contains t | _ => false)
    (fun t _ => by cases t <;> rfl) rfl (fun _ _ => rfl) fun _ _ => rfl

instance {d : Delimiter} : Agree E n (Ahead.group d) :=
  agree_of_head (fun | .group e _ _ => d == e | _ => false) (fun t _ => by cases t <;> rfl) rfl
    (by rintro t u (⟨_ | _⟩ | _) <;> rfl) fun _ _ => rfl

instance : Agree E n Ahead.paren := inferInstanceAs (Agree E n (Ahead.group .paren))

instance : Agree E n Ahead.bracket := inferInstanceAs (Agree E n (Ahead.group .bracket))

instance : Agree E n Ahead.brace := inferInstanceAs (Agree E n (Ahead.group .brace))

instance : Guard E 0 Ahead.paren 1 :=
  guard_of_head (fun | .group e _ _ => Delimiter.paren == e | _ => false)
    (fun t _ => by cases t <;> rfl) rfl (fun _ _ => rfl) fun _ _ => rfl

instance : Guard E 0 Ahead.bracket 1 :=
  guard_of_head (fun | .group e _ _ => Delimiter.bracket == e | _ => false)
    (fun t _ => by cases t <;> rfl) rfl (fun _ _ => rfl) fun _ _ => rfl

instance : Agree E n Ahead.anyGroup :=
  agree_of_head (fun | .group .. => true | _ => false) (fun t _ => by cases t <;> rfl) rfl
    (by rintro t u (⟨_ | _⟩ | _) <;> rfl) fun _ _ => rfl

instance : Agree E n Ahead.literalKind? where
  eq {e e' x y} hE h _ := by
    have same {t u : Tree} {ts us : List Tree} (h : t.Loose u) :
        Ahead.literalKind? (t :: ts) = Ahead.literalKind? (u :: us) := by
      rcases h with ⟨_ | _⟩ | _ <;> rfl
    cases h with
    | ends =>
      cases Calm.alike hE with
      | silent h h' => cases h <;> cases h' <;> rfl
      | brace => rfl
    | last h => exact same h
    | cons h _ => exact same (.same h)

theorem agree_literalKind (f : Option Literal.Kind → Bool) :
    Agree E n fun ts => f (Ahead.literalKind? ts) :=
  ⟨fun hE h hd => by rw [Agree.eq (P := Ahead.literalKind?) hE h hd]⟩

theorem guard_literalKind (f : Option Literal.Kind → Bool) (hf : f none = false) :
    Guard E 0 (fun ts => f (Ahead.literalKind? ts)) 1 := by
  refine guard_of_ends fun {e e'} he => ?_
  cases he with
  | silent h _ => cases h <;> simpa [Ahead.literalKind?] using hf
  | brace => simpa [Ahead.literalKind?] using hf

instance : Agree E n Ahead.string := agree_literalKind fun k => k == some .string

instance : Guard E 0 Ahead.string 1 := guard_literalKind (fun k => k == some .string) rfl

instance : Agree E n Ahead.integer :=
  agree_literalKind fun | some (.integer ..) => true | _ => false

instance : Guard E 0 Ahead.integer 1 :=
  guard_literalKind (fun | some (.integer ..) => true | _ => false) rfl

instance : Agree E n Ahead.float := agree_literalKind fun k => k == some .float

instance : Guard E 0 Ahead.float 1 := guard_literalKind (fun k => k == some .float) rfl

instance : Agree E n Ahead.underscore := inferInstanceAs (Agree E n (Ahead.word "_"))

instance : Guard E 0 Ahead.underscore 1 := inferInstanceAs (Guard E 0 (Ahead.word "_") 1)

instance : Agree E n Ahead.pathWord := by unfold Ahead.pathWord; infer_instance

instance : Guard E 0 Ahead.pathWord 1 := by unfold Ahead.pathWord; infer_instance

theorem lifetime_cons (t : Tree) (ts : List Tree) :
    Ahead.lifetime (t :: ts) = (t.isQuote && Ahead.anyWord ts) := by
  cases t with
  | mark c j s =>
    by_cases hc : c = '\''
    · subst hc
      cases j <;> rcases ts with _ | ⟨_ | _ | _ | _, ts⟩ <;> rfl
    · rw [Ahead.lifetime.eq_2 _ fun s' w s'' ts' h => by cases h; exact absurd rfl hc]
      simp [Tree.isQuote, hc]
  | _ => rfl

theorem AlikeEnds.lifetime {e e' : List Tree} (he : AlikeEnds e e') :
    Ahead.lifetime e = false ∧ Ahead.lifetime e' = false := by
  cases he with
  | silent h h' => cases h <;> cases h' <;> simp [Ahead.lifetime]
  | brace => simp [Ahead.lifetime]

instance : Agree E n Ahead.lifetime where
  eq {e e' x y} hE h _ := by
    have he := Calm.alike hE
    cases h with
    | ends => rw [he.lifetime.1, he.lifetime.2]
    | last h => simp [lifetime_cons, he.anyWord]
    | cons h hs => rw [lifetime_cons, lifetime_cons, h.isQuote, hs.anyWord he]

instance : Guard E 0 Ahead.lifetime 1 := guard_of_ends fun he => he.lifetime.1

/-- A number that a sign may stand in front of. -/
def digitsAhead : List Tree → Bool
  | .literal l _ :: _ => l.head?.any Char.isDigit
  | _ => false

theorem literal_cons (t : Tree) (ts : List Tree) :
    Ahead.literal (t :: ts) =
      match t with
      | .literal .. => true
      | .word w _ => w == "true" || w == "false"
      | .mark c _ _ => c == '-' && digitsAhead ts
      | .group .. => false := by
  cases t with
  | mark c j s =>
    by_cases hc : c = '-'
    · subst hc
      cases ts with
      | nil => rfl
      | cons t ts =>
        cases t with
        | literal l s => cases l <;> rfl
        | _ => rfl
    · unfold Ahead.literal
      split <;> simp_all
  | _ => rfl

theorem AlikeEnds.literal {e e' : List Tree} (he : AlikeEnds e e') :
    Ahead.literal e = false ∧ Ahead.literal e' = false := by
  cases he with
  | silent h h' => cases h <;> cases h' <;> simp [Ahead.literal]
  | brace => simp [Ahead.literal]

theorem agree_digitsAhead : Agree E n digitsAhead :=
  agree_of_head (fun t => digitsAhead [t]) (fun t _ => by cases t <;> rfl) rfl
    (by rintro t u (⟨_ | _⟩ | _) <;> rfl) fun _ _ => rfl

instance : Agree E n Ahead.literal where
  eq {e e' x y} hE h _ := by
    have digits {x y} (h : Track e e' x y) : digitsAhead x = digitsAhead y :=
      (agree_digitsAhead (n := 0)).eq hE h trivial
    cases h with
    | ends => rw [(Calm.alike hE).literal.1, (Calm.alike hE).literal.2]
    | last h =>
      rw [literal_cons, literal_cons]
      rcases h with ⟨_ | _⟩ | _ <;> simp [digits .ends]
    | cons h hs =>
      rw [literal_cons, literal_cons]
      cases h <;> simp [digits hs]

instance : Guard E 0 Ahead.literal 1 := guard_of_ends fun he => he.literal.1

/-! ### Marks -/

/-- Punctuation that does not end a statement. -/
class Punctuation (m : String) : Prop where
  nonempty : m.toList ≠ []
  semicolon : ';' ∉ m.toList

instance {m : String} [hm : Punctuation m] : Agree E n (Ahead.mark m) :=
  ⟨fun hE h _ => by simp only [Ahead.mark, h.markChars (Calm.alike hE) hm.semicolon]⟩

theorem AlikeEnds.mark {e e' : List Tree} (he : AlikeEnds e e') (m : String)
    [hm : Punctuation m] : Ahead.mark m e = false ∧ Ahead.mark m e' = false := by
  obtain ⟨c, cs, hcs⟩ := List.exists_cons_of_ne_nil hm.nonempty
  have hc : c ≠ ';' := fun h => hm.semicolon (by simp [hcs, h])
  simp [Ahead.mark, hcs, he.markChars hc cs]

instance {m : String} [Punctuation m] : Guard E 0 (Ahead.mark m) 1 :=
  guard_of_ends fun he => (he.mark m).1

theorem Track.inside_of_mark {e e' x y : List Tree} (h : Track e e' x y) (he : AlikeEnds e e')
    {m : String} [Punctuation m] (hx : Ahead.mark m x = true) : e.length < x.length := by
  rcases Nat.lt_or_ge e.length x.length with hlt | hge
  · exact hlt
  · obtain ⟨rfl, -⟩ := h.outside hge
    simp [(he.mark m).1] at hx

end

/-! ### Punctuation -/

instance : Punctuation ":" := ⟨by decide, by decide⟩

instance : Punctuation "::" := ⟨by decide, by decide⟩

instance : Punctuation ":::" := ⟨by decide, by decide⟩

instance : Punctuation "=" := ⟨by decide, by decide⟩

instance : Punctuation "==" := ⟨by decide, by decide⟩

instance : Punctuation "=>" := ⟨by decide, by decide⟩

instance : Punctuation ">" := ⟨by decide, by decide⟩

instance : Punctuation "<" := ⟨by decide, by decide⟩

instance : Punctuation "<=" := ⟨by decide, by decide⟩

instance : Punctuation "<<=" := ⟨by decide, by decide⟩

instance : Punctuation "!" := ⟨by decide, by decide⟩

instance : Punctuation "!=" := ⟨by decide, by decide⟩

instance : Punctuation "+" := ⟨by decide, by decide⟩

instance : Punctuation "-" := ⟨by decide, by decide⟩

instance : Punctuation "-=" := ⟨by decide, by decide⟩

instance : Punctuation "->" := ⟨by decide, by decide⟩

instance : Punctuation "*" := ⟨by decide, by decide⟩

instance : Punctuation "*=" := ⟨by decide, by decide⟩

instance : Punctuation "/" := ⟨by decide, by decide⟩

instance : Punctuation "%" := ⟨by decide, by decide⟩

instance : Punctuation "^" := ⟨by decide, by decide⟩

instance : Punctuation "&" := ⟨by decide, by decide⟩

instance : Punctuation "&=" := ⟨by decide, by decide⟩

instance : Punctuation "|" := ⟨by decide, by decide⟩

instance : Punctuation "||" := ⟨by decide, by decide⟩

instance : Punctuation "|=" := ⟨by decide, by decide⟩

instance : Punctuation "?" := ⟨by decide, by decide⟩

instance : Punctuation "." := ⟨by decide, by decide⟩

instance : Punctuation ".." := ⟨by decide, by decide⟩

instance : Punctuation "..." := ⟨by decide, by decide⟩

instance : Punctuation "..=" := ⟨by decide, by decide⟩

instance : Punctuation "," := ⟨by decide, by decide⟩

instance : Punctuation "#" := ⟨by decide, by decide⟩

instance : Punctuation "@" := ⟨by decide, by decide⟩

/-- Both colons stand before the end. -/
instance [Calm E] : Guard E 0 (Ahead.mark "::") 2 where
  deep {e e' x y} hE h _ hx := by
    have hlt := h.inside_of_mark (Calm.alike hE) hx
    obtain ⟨t, u, x', y', rfl, rfl, -, hs, -⟩ := h.inside hlt
    obtain ⟨j, s, rfl, hx'⟩ : ∃ j s, t = .mark ':' j s ∧ Ahead.mark ":" x' = true := by
      cases t with
      | mark c j s =>
        have : (':' == c && j && Ahead.mark ":" x') = true := hx
        simp only [Bool.and_eq_true, beq_iff_eq] at this
        exact ⟨j, s, by rw [this.1.1], this.2⟩
      | _ => cases hx
    have hlt' := hs.inside_of_mark (Calm.alike hE) hx'
    exact ⟨hlt, by simpa [skip_cons, Tree.isQuote] using hlt', trivial⟩

/-! ### The end itself -/

section

variable [Firm E]

instance : Agree E n List.isEmpty where
  eq {e e' x y} hE h _ := by
    cases h with
    | ends =>
      have := Fair.nil hE
      have := Firm.nil_right hE
      cases e <;> cases e' <;> simp_all
    | last => rfl
    | cons => rfl

instance : Agree E n (Ahead.mark ";") where
  eq {e e' x y} hE h _ := by
    have same {t u : Tree} {ts us : List Tree} (h : t.Loose u) :
        Ahead.mark ";" (t :: ts) = Ahead.mark ";" (u :: us) := by
      rcases h with ⟨_ | _⟩ | _ <;> rfl
    cases h with
    | ends =>
      have := Fair.nil hE
      have := Firm.nil_right hE
      cases Calm.alike hE with
      | silent h h' => cases h <;> cases h' <;> simp_all [Ahead.mark, Ahead.markChars]
      | brace => rfl
    | last h => exact same h
    | cons h _ => exact same (.same h)

end

/-! ### Looks ahead with a name -/

theorem Operator.punctuation {m : String} {o : Operator} (h : (m, o) ∈ spellings) :
    Punctuation m := by
  have := List.all_eq_true.1 (show spellings.all fun p =>
    decide (p.1.toList ≠ [] ∧ ';' ∉ p.1.toList) by decide) _ h
  exact ⟨(of_decide_eq_true this).1, (of_decide_eq_true this).2⟩

namespace Parser

section

variable [Calm E]

instance : Agree E n Operator.ahead? where
  eq {e e' x y} hE h hd := by
    have find_eq (l : List (String × Operator)) (hl : ∀ p ∈ l, Punctuation p.1) :
        l.find? (fun (m, _) => Ahead.mark m x) = l.find? fun (m, _) => Ahead.mark m y := by
      induction l with
      | nil => rfl
      | cons p l ih =>
        have := hl p (by simp)
        have := ih fun p hp => hl p (by simp [hp])
        simp_all [List.find?_cons, Agree.eq (P := Ahead.mark p.1) hE h hd]
    exact find_eq _ fun p hp => Operator.punctuation hp

instance : Agree E 0 parenArgumentsAhead := by unfold parenArgumentsAhead; infer_instance

instance : Agree E 0 genericsAhead := by unfold genericsAhead; infer_instance

instance : Agree E 0 isVariadicAhead := by unfold isVariadicAhead; infer_instance

instance : Agree E n isPathAhead := by unfold isPathAhead; infer_instance

instance : Agree E n isOr := by unfold isOr; infer_instance

instance : Agree E n startsExpression := by unfold startsExpression; infer_instance

instance : Agree E 0 bindsAhead := by unfold bindsAhead; infer_instance

instance : Agree E n isAfterCast := by unfold isAfterCast; infer_instance

instance : Agree E 0 isClosureAhead := by unfold isClosureAhead; infer_instance

instance : Agree E n startsMacro := by unfold startsMacro; infer_instance

/-- Nothing is ahead that an expression goes on with. -/
def silentAhead (ts : List Tree) : Bool := ts.isEmpty || Ahead.mark ";" ts

instance {n : Nat} : Agree E n silentAhead where
  eq {e e' x y} hE h _ := by
    have same {t u : Tree} {ts us : List Tree} (h : t.Loose u) :
        silentAhead (t :: ts) = silentAhead (u :: us) := by
      rcases h with ⟨_ | _⟩ | _ <;> rfl
    cases h with
    | ends =>
      cases Calm.alike hE with
      | silent h h' => cases h <;> cases h' <;> rfl
      | brace => rfl
    | last h => exact same h
    | cons h _ => exact same (.same h)

theorem isPredicateEnd_eq (ts : List Tree) : isPredicateEnd ts =
    (silentAhead ts || Ahead.brace ts || Ahead.mark "," ts ||
      (Ahead.mark ":" ts && !Ahead.mark "::" ts) || Ahead.mark "=" ts) := by
  simp only [isPredicateEnd, silentAhead, Bool.or_assoc, Bool.or_left_comm, Bool.or_comm]

instance : Agree E n isPredicateEnd := by
  rw [funext isPredicateEnd_eq]; infer_instance

set_option synthInstance.maxSize 1024 in
instance : Agree E 0 startsItem := by unfold startsItem; infer_instance

end

end Parser

end Notebook.Syntax
