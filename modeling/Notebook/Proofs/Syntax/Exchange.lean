import Notebook.Proofs.Syntax.Edge
import Notebook.Proofs.Syntax.Spelling
import Notebook.Proofs.Syntax.Track

/-!
What follows a text may be exchanged: where both ends start at an edge, the trees before them are
the same.
-/

namespace Notebook.Syntax.Lexer

open Notebook.Text
open Literal (isEdge Edge edge_cons ne_of_isEdge)

theorem isEdge_of_isSpace {c : Char} (h : isSpace c = true) : isEdge c = true := by
  by_cases hc : c = ' '
  · subst hc
    decide
  have hmem : c.toNat ∈ List.range' 9 5 ++ [0x85, 0xA0, 0x1680] ++ List.range' 0x2000 11 ++
      [0x200E, 0x200F, 0x2028, 0x2029, 0x202F, 0x205F, 0x3000] := by
    simp only [isSpace, isBlank, beq_iff_eq, Bool.or_eq_true, Bool.and_eq_true, decide_eq_true_eq,
      hc, or_false] at h
    simp only [List.mem_append, List.mem_range'_1, List.mem_cons, List.not_mem_nil, or_false]
    omega
  have hall : ∀ n ∈ List.range' 9 5 ++ [0x85, 0xA0, 0x1680] ++ List.range' 0x2000 11 ++
      [0x200E, 0x200F, 0x2028, 0x2029, 0x202F, 0x205F, 0x3000], isEdge (Char.ofNat n) = true := by
    decide +kernel
  simpa using hall _ hmem

/-! ### Comments -/

/-- What the first characters of a text open. -/
inductive CommentKind where
  | line
  | block
  | empty
  | docLine (inner : Bool)
  | docBlock (inner : Bool)
  | none

def commentKind : List Char → CommentKind
  | '/' :: '/' :: '/' :: '/' :: _ => .line
  | '/' :: '/' :: '/' :: _ => .docLine false
  | '/' :: '/' :: '!' :: _ => .docLine true
  | '/' :: '/' :: _ => .line
  | '/' :: '*' :: '*' :: '/' :: _ => .empty
  | '/' :: '*' :: '*' :: '*' :: _ => .block
  | '/' :: '*' :: '*' :: _ => .docBlock false
  | '/' :: '*' :: '!' :: _ => .docBlock true
  | '/' :: '*' :: _ => .block
  | _ => .none

section

variable {s u z : List Char} {c d : Char} {n k : Nat} {i : Item}

theorem plainComment?_eq (s : List Char) : plainComment? s = match commentKind s with
    | .line => some (lineLength s)
    | .empty => some 4
    | .block => blockComment? s
    | _ => none := by
  fun_cases commentKind s <;> simp_all [plainComment?]

theorem docComment?_eq (h : plainComment? s = none) : docComment? s = match commentKind s with
    | .docLine inner => (docLine? 3 s).map (·, inner)
    | .docBlock inner => (docBlock? s).map (·, inner)
    | _ => none := by
  fun_cases commentKind s <;> simp_all [docComment?, plainComment?]

theorem commentKind_take (a b c d : Char) (s t : List Char) :
    commentKind (a :: b :: c :: d :: s) = commentKind (a :: b :: c :: d :: t) := by
  generalize hs : a :: b :: c :: d :: s = u
  fun_cases commentKind u <;> cases hs <;> simp_all [commentKind]

/-- The mark is no leaf in front of a second one that makes it a comment. -/
theorem leaf?_comment (hd : d = '/' ∨ d = '*') (s : List Char) : leaf? ('/' :: d :: s) = none := by
  have hlength : Literal.length? ('/' :: d :: s) = none := by
    have hnumber : Literal.numberLength? ('/' :: d :: s) = none := by
      rw [← Option.not_isSome_iff_eq_none, Option.isSome_iff_exists]
      rintro ⟨n, h⟩
      obtain ⟨c, t, heq, hc⟩ := Literal.numberLength?_starts h
      cases heq
      cases hc
    rw [Literal.length?, hnumber]
    rfl
  unfold leaf?
  rw [hlength]
  rcases hd with rfl | rfl <;> rfl

/-- What a comment is read as. -/
theorem item?_comment (hd : d = '/' ∨ d = '*') (s : List Char) :
    item? '/' (d :: s) = match commentKind ('/' :: d :: s) with
      | .line => some (.space (lineLength ('/' :: d :: s)))
      | .empty => some (.space 4)
      | .block => (blockComment? ('/' :: d :: s)).map .space
      | .docLine inner => (docLine? 3 ('/' :: d :: s)).map (.doc inner)
      | .docBlock inner => (docBlock? ('/' :: d :: s)).map (.doc inner)
      | .none => none := by
  unfold item?
  have hspace : isSpace '/' = false := rfl
  have hopening : Delimiter.ofOpening? '/' = none := rfl
  have hclosing : Delimiter.ofClosing? '/' = none := rfl
  cases hplain : plainComment? ('/' :: d :: s) with
  | some n =>
    rw [plainComment?_eq] at hplain
    generalize commentKind ('/' :: d :: s) = kind at hplain ⊢
    cases kind with
    | line | empty =>
      cases hplain
      rfl
    | block =>
      dsimp only at hplain ⊢
      rw [hplain]
      rfl
    | docLine | docBlock | none => cases hplain
  | none =>
    dsimp only
    rw [docComment?_eq hplain, leaf?_comment hd, hspace, hopening, hclosing]
    rw [plainComment?_eq] at hplain
    generalize commentKind ('/' :: d :: s) = kind at hplain ⊢
    cases kind with
    | line | empty => cases hplain
    | block =>
      dsimp only at hplain ⊢
      rw [hplain]
      rfl
    | docLine => cases docLine? 3 ('/' :: d :: s) <;> rfl
    | docBlock => cases docBlock? ('/' :: d :: s) <;> rfl
    | none => rfl

theorem startsText_cons (h : startsText (c :: s) = true) : c = 'r' ∨ c = 'b' ∨ c = 'c' := by
  obtain ⟨p, hp, h⟩ := List.any_eq_true.1 h
  obtain ⟨r, hr⟩ := Option.isSome_iff_exists.1 h
  rw [dropPrefix?_eq_some] at hr
  have hhead : ["r\"", "r#\"", "r##", "b\"", "b'", "br\"", "br#", "c\"", "cr\"", "cr#"].all
      (fun p => p.toList.head?.any fun d => d = 'r' ∨ d = 'b' ∨ d = 'c') = true := by decide
  obtain ⟨d, hd, hcases⟩ := (Option.any_eq_true ..).1 (List.all_eq_true.1 hhead p hp)
  obtain ⟨q, hq⟩ := List.head?_eq_some_iff.1 hd
  rw [hq] at hr
  rw [(List.cons.inj hr).1]
  exact of_decide_eq_true hcases

theorem rawTextLength?_starts {q : Literal.Quoted} (h : Literal.rawTextLength? q n s = some k) :
    ∃ t, s = '"' :: t ∨ s = '#' :: '"' :: t ∨ s = '#' :: '#' :: t := by
  unfold Literal.rawTextLength? at h
  dsimp only at h
  split at h
  · rename_i t ht
    rcases s with _ | ⟨c, _ | ⟨d, s⟩⟩
    · cases ht
    · by_cases hc : c = '#'
      · subst hc
        cases ht
      · simp [hc] at ht
        exact ⟨[], .inl (by rw [ht.1])⟩
    · by_cases hc : c = '#'
      · subst hc
        by_cases hd : d = '#'
        · exact ⟨s, .inr (.inr (by rw [hd]))⟩
        · simp [hd] at ht
          exact ⟨s, .inr (.inl (by rw [ht.1]))⟩
      · simp [hc] at ht
        exact ⟨d :: s, .inl (by rw [ht.1])⟩
  · cases h

/-- A literal starts with a digit or a quote, or like a text. -/
theorem length?_starts (h : Literal.length? s = some n) :
    startsText s = true ∨ ∃ c t, s = c :: t ∧ (c = '"' ∨ c = '\'' ∨ c.isDigit = true) := by
  rw [Literal.length?, Option.or_eq_some_iff, Option.or_eq_some_iff] at h
  rcases h with h | ⟨-, h | ⟨-, h⟩⟩
  · unfold Literal.textLength? at h
    split at h
    · exact .inr ⟨_, _, rfl, .inl rfl⟩
    · obtain ⟨t, rfl | rfl | rfl⟩ := rawTextLength?_starts h <;> exact .inl rfl
    · exact .inl rfl
    · obtain ⟨t, rfl | rfl | rfl⟩ := rawTextLength?_starts h <;> exact .inl rfl
    · exact .inl rfl
    · obtain ⟨t, rfl | rfl | rfl⟩ := rawTextLength?_starts h <;> exact .inl rfl
    · cases h
  · unfold Literal.characterLength? at h
    split at h
    · exact .inl rfl
    · exact .inr ⟨_, _, rfl, .inr (.inl rfl)⟩
    · cases h
  · obtain ⟨c, t, rfl, hc⟩ := Literal.numberLength?_starts h
    exact .inr ⟨c, t, rfl, .inr (.inr hc)⟩

theorem length?_eq_none (hs : startsText s = false)
    (hc : ∀ c ∈ s.head?, c ≠ '"' ∧ c ≠ '\'' ∧ c.isDigit = false) : Literal.length? s = none := by
  rw [← Option.not_isSome_iff_eq_none, Option.isSome_iff_exists]
  rintro ⟨n, h⟩
  rcases length?_starts h with hstarts | ⟨c, t, rfl, hhead⟩
  · simp [hs] at hstarts
  · have := hc c rfl
    simp_all

theorem not_startsText {c : Char} (hc : c ≠ 'r' ∧ c ≠ 'b' ∧ c ≠ 'c') (s : List Char) :
    startsText (c :: s) = false := by
  by_contra h
  have := startsText_cons (by simpa using h)
  simp [hc] at this

theorem of_isMark {P : Char → Bool} (hP : "~!@#$%^&*-=+|;:,<.>/?'".toList.all P = true)
    (h : isMark c = true) : P c = true :=
  List.all_eq_true.1 hP c (List.elem_iff.1 h)

theorem isDigit_of_isMark (h : isMark c = true) : c.isDigit = false := by
  simpa using of_isMark (P := fun d => !d.isDigit) (by decide) h

theorem leaf?_of_isMark (hc : isMark c = true) (hquote : c ≠ '\'')
    (hmark : markChar? (c :: s) = some c) :
    leaf? (c :: s) = some (.mark c (markChar? s).isSome, 1) := by
  have hne {d : Char} (hd : isMark d = false) : c ≠ d := by
    rintro rfl
    rw [hc] at hd
    cases hd
  have hlength : Literal.length? (c :: s) = none := by
    refine length?_eq_none (not_startsText ⟨hne rfl, hne rfl, hne rfl⟩ s) ?_
    rintro d ⟨⟩
    exact ⟨hne rfl, hquote, isDigit_of_isMark hc⟩
  unfold leaf?
  rw [hlength, hmark]
  dsimp only
  split
  · rename_i heq
    cases heq
    exact absurd rfl hquote
  · rename_i heq
    cases heq
    rfl
  · rename_i heq
    cases heq

theorem item?_slash (hd : ∀ d ∈ s.head?, d ≠ '/' ∧ d ≠ '*') :
    item? '/' s = some (.leaf (.mark '/' (markChar? s).isSome) 1) := by
  have hmark : markChar? ('/' :: s) = some '/' := by
    rw [markChar?.eq_3]
    · rfl
    · rintro t - rfl
      exact (hd _ rfl).1 rfl
    · rintro t - rfl
      exact (hd _ rfl).2 rfl
  have hkind : commentKind ('/' :: s) = .none := by
    rcases s with _ | ⟨d, s⟩
    · rfl
    · obtain ⟨h₁, h₂⟩ := hd d rfl
      simp [commentKind, h₁, h₂]
  have hplain : plainComment? ('/' :: s) = none := by rw [plainComment?_eq, hkind]
  unfold item?
  rw [hplain, docComment?_eq hplain, hkind, leaf?_of_isMark rfl (by decide) hmark]
  rfl

/-- What a word starts with starts neither a literal nor a mark. -/
theorem identLength?_starts (h : identLength? s = some n) :
    ∃ c t, s = c :: t ∧ isIdentStart c = true := by
  unfold identLength? at h
  split at h
  · exact ⟨_, _, rfl, by decide⟩
  · cases s with
    | nil => cases h
    | cons c s =>
      rw [Literal.plainIdentLength?, Option.ite_none_right_eq_some] at h
      exact ⟨c, s, rfl, h.1⟩

theorem isDigit_of_isIdentStart (h : isIdentStart c = true) : c.isDigit = false := by
  by_contra hc
  rw [Bool.not_eq_false, Char.isDigit_iff_toNat] at hc
  change 48 ≤ c.toNat ∧ c.toNat ≤ 57 at hc
  simp only [isIdentStart, Bool.or_eq_true, Bool.and_eq_true, decide_eq_true_eq, beq_iff_eq,
    Literal.isAlpha_iff_toNat] at h
  rcases h with (h | rfl) | ⟨h, -⟩
  · omega
  · simp at hc
  · omega

theorem isMark_of_isIdentStart (h : isIdentStart c = true) : isMark c = false := by
  by_contra hc
  rw [Bool.not_eq_false] at hc
  simpa [h] using of_isMark (P := fun d => !isIdentStart d) (by decide) hc

theorem leaf?_of_word (hs : startsText s = false) (h : identLength? s = some n) :
    leaf? s = some (.word (String.ofList (s.take n)), n) := by
  obtain ⟨c, t, rfl, hc⟩ := identLength?_starts h
  have hne {d : Char} (hd : isIdentStart d = false) : c ≠ d := by
    rintro rfl
    rw [hc] at hd
    cases hd
  have hlength : Literal.length? (c :: t) = none := by
    refine length?_eq_none hs ?_
    rintro d ⟨⟩
    exact ⟨hne rfl, hne rfl, isDigit_of_isIdentStart hc⟩
  have hmark : markChar? (c :: t) = none := by
    rw [markChar?.eq_3 _ _ (fun _ h => absurd h (hne rfl)) (fun _ h => absurd h (hne rfl)),
      isMark_of_isIdentStart hc]
    rfl
  unfold leaf?
  rw [hlength, hmark, hs, h]
  rfl

theorem leaf?_of_error (r : List Char) :
    leaf? (errorText ++ r) = some (.literal errorText, errorText.length) := rfl

theorem characterLength?_of_quoteMark {l : Leaf} (h : quoteMark? s = some (l, n)) :
    Literal.characterLength? ('\'' :: s) = none := by
  obtain ⟨m, hm, h⟩ := Option.bind_eq_some_iff.1 h
  obtain ⟨c, t, rfl, hc⟩ := identLength?_starts hm
  have hslash : c ≠ '\\' := by
    rintro rfl
    cases hc
  change Literal.charLength? .text 1 (c :: t) = none
  unfold Literal.charLength?
  dsimp only
  split
  · rename_i heq
    exact absurd (List.cons.inj heq).1 hslash
  · rename_i d r _ heq
    obtain ⟨rfl, rfl⟩ := List.cons.inj heq
    rw [if_pos (by rfl)]
    split
    · -- the quote ends the word after its first character
      rename_i r
      rw [identLength?, Literal.plainIdentLength?, if_pos hc] at hm
      · cases hm
        cases h
      · rintro r ⟨⟩
    · rfl
  · rfl

theorem leaf?_of_quoteMark {l : Leaf} (h : quoteMark? s = some (l, n)) :
    leaf? ('\'' :: s) = some (.mark '\'' true, 1) := by
  obtain ⟨rfl, rfl⟩ := quoteMark?_eq h
  have hnumber : Literal.numberLength? ('\'' :: s) = none := by
    rw [← Option.not_isSome_iff_eq_none, Option.isSome_iff_exists]
    rintro ⟨n, h⟩
    obtain ⟨c, t, heq, hc⟩ := Literal.numberLength?_starts h
    cases heq
    cases hc
  have hlength : Literal.length? ('\'' :: s) = none := by
    rw [Literal.length?, characterLength?_of_quoteMark h, hnumber]
    rfl
  have hmark : markChar? ('\'' :: s) = some '\'' := rfl
  unfold leaf?
  rw [hlength, hmark]
  dsimp only
  rw [List.drop_succ_cons, List.drop_zero, h]
  rfl

/-- What a leaf is read from. -/
theorem leaf?_cases {l : Leaf} (h : leaf? s = some (l, n)) :
    (Literal.length? s = some n ∧ l = .literal (s.take n)) ∨
    (∃ t, s = '\'' :: t ∧ quoteMark? t = some (l, n)) ∨
    (∃ c t, s = c :: t ∧ isMark c = true ∧ c ≠ '\'' ∧ markChar? s = some c ∧
      l = .mark c (markChar? t).isSome ∧ n = 1) ∨
    (startsText s = false ∧ identLength? s = some n ∧ l = .word (String.ofList (s.take n))) ∨
    ∃ r, s = errorText ++ r ∧ l = .literal errorText ∧ n = errorText.length := by
  unfold leaf? at h
  split at h
  · cases h
    exact .inl ⟨‹_›, rfl⟩
  refine .inr ?_
  dsimp only at h
  split at h
  · rename_i hmark
    obtain ⟨⟨r, rfl⟩, -⟩ := markChar?_eq_some hmark
    rw [Option.or_eq_some_iff] at h
    rcases h with h | ⟨-, h⟩
    · exact .inl ⟨r, rfl, h⟩
    · -- a quote starts no word
      have hword : identLength? ('\'' :: r) = none := rfl
      have herror : hasPrefix errorText ('\'' :: r) = false := rfl
      rw [hword, herror] at h
      simp at h
  · rename_i c hquote hmark
    obtain ⟨⟨r, rfl⟩, hc⟩ := markChar?_eq_some hmark
    cases h
    exact .inr (.inl ⟨c, r, rfl, hc, hquote, hmark, rfl, rfl⟩)
  · rw [Option.ite_none_left_eq_some] at h
    obtain ⟨hstarts, h⟩ := h
    refine .inr (.inr ?_)
    split at h
    · cases h
      exact .inl ⟨by simpa using hstarts, ‹_›, rfl⟩
    · rw [Option.ite_none_right_eq_some] at h
      obtain ⟨hp, h⟩ := h
      cases h
      obtain ⟨r, hr⟩ := Option.isSome_iff_exists.1 hp
      exact .inr ⟨r, dropPrefix?_eq_some.1 hr, rfl, rfl⟩

theorem blockRest?_le {depth : Nat} (h : blockRest? depth n s = some k) : n + 2 ≤ k := by
  fun_induction blockRest? depth n s with
  | case1 => rename_i ih; exact Nat.le_of_add_right_le (ih h)
  | case2 => cases h; exact Nat.le_refl _
  | case3 => rename_i ih; exact Nat.le_of_add_right_le (ih h)
  | case4 => rename_i ih; have := ih h; omega
  | case5 => cases h

theorem blockRest?_local {depth : Nat} (z' : List Char)
    (h : blockRest? depth n (u ++ z) = some k) (hk : k ≤ n + u.length) :
    blockRest? depth n (u ++ z') = some k := by
  have hle := blockRest?_le h
  -- the marks of comments are read two characters at once
  induction hlen : u.length using Nat.strong_induction_on generalizing depth n u with
  | _ l ih =>
    rcases u with _ | ⟨c, _ | ⟨d, u⟩⟩
    · rw [List.length_nil] at hk
      omega
    · rw [List.length_singleton] at hk
      omega
    · rw [List.length_cons, List.length_cons] at hk hlen
      rw [List.cons_append, List.cons_append] at h ⊢
      by_cases hopen : c = '/' ∧ d = '*'
      · obtain ⟨rfl, rfl⟩ := hopen
        rw [blockRest?.eq_1] at h ⊢
        exact ih _ (by omega) h (by omega) (blockRest?_le h) rfl
      by_cases hclose : c = '*' ∧ d = '/'
      · obtain ⟨rfl, rfl⟩ := hclose
        rw [blockRest?.eq_2] at h ⊢
        split_ifs at h ⊢
        · exact h
        · exact ih _ (by omega) h (by omega) (blockRest?_le h) rfl
      · have hne {a b : Char} {t : List Char} (hab : ¬ (c = a ∧ d = b)) (r : List Char)
            (hc : c = a) : d :: t = b :: r → False := fun h => hab ⟨hc, (List.cons.inj h).1⟩
        rw [blockRest?.eq_3 _ _ _ _ (hne hopen) (hne hclose), ← List.cons_append] at h ⊢
        exact ih _ (by simp; omega) h (by simp; omega) (blockRest?_le h) rfl

theorem takeWhile_line (hu : '\n' ∈ u) (z : List Char) :
    (u ++ z).takeWhile (· ≠ '\n') = u.takeWhile (· ≠ '\n') := by
  rw [List.takeWhile_append, if_neg]
  intro h
  have hall := List.takeWhile_eq_self_iff.1 ((List.takeWhile_prefix _).eq_of_length h) _ hu
  simp at hall

end

/-! ### Leaves before an edge -/

section

variable {u z z' : List Char} {n : Nat} (hz : Edge z) (hz' : Edge z')

include hz

theorem startsText_append (u : List Char) : startsText (u ++ z) = startsText u := by
  simp (disch := decide) only [startsText, List.any_cons, List.any_nil,
    Literal.hasPrefix_append hz]

theorem identLength?_append (u : List Char) : identLength? (u ++ z) = identLength? u := by
  have hplain {t : List Char} (ht : ∀ r, t ≠ 'r' :: '#' :: r) :
      identLength? t = Literal.plainIdentLength? t := identLength?.eq_2 t ht
  by_cases hraw : ∃ r, u = 'r' :: '#' :: r
  · obtain ⟨r, rfl⟩ := hraw
    rw [List.cons_append, List.cons_append]
    change (Literal.plainIdentLength? (r ++ z)).bind _ = (Literal.plainIdentLength? r).bind _
    rw [Literal.plainIdentLength?_append hz]
    refine Option.bind_congr fun n hn => ?_
    rw [List.take_append_of_le_length (Literal.plainIdentLength?_stops hn).le]
  · rw [hplain fun r h => hraw ⟨r, h⟩, hplain, Literal.plainIdentLength?_append hz]
    intro r h
    rcases u with _ | ⟨c, _ | ⟨d, u⟩⟩
    · rw [List.nil_append] at h
      rw [h] at hz
      cases edge_cons.1 hz
    · obtain rfl : z = '#' :: r := (List.cons.inj h).2
      cases edge_cons.1 hz
    · cases h
      exact hraw ⟨u, rfl⟩

theorem quoteMark?_append (u : List Char) : quoteMark? (u ++ z) = quoteMark? u := by
  unfold quoteMark?
  rw [identLength?_append hz]
  refine Option.bind_congr fun n hn => ?_
  rw [List.drop_append_of_le_length (identLength?_stops hn).le,
    Literal.hasPrefix_append hz (by decide)]
  cases u.drop n with
  | nil =>
    cases z with
    | nil => rfl
    | cons c z =>
      have hc := edge_cons.1 hz
      rw [List.nil_append]
      split
      · rename_i heq
        obtain ⟨rfl, -⟩ := List.cons.inj heq
        cases hc
      · rename_i heq
        obtain ⟨rfl, -⟩ := List.cons.inj heq
        cases hc
      · rfl
  | cons c r =>
    rw [List.cons_append]
    split <;> split <;> simp_all

omit hz in
include hz' in
theorem markChar?_local (hslash : z'.head? = some '/' → z.head? = some '/') {c : Char}
    (hc : isMark c = true) (h : markChar? (c :: (u ++ z)) = some c) :
    markChar? (c :: (u ++ z')) = some c := by
  by_cases hslash' : c = '/'
  · subst hslash'
    have hrest {d : Char} {t : List Char} (hd : d ≠ '/' ∧ d ≠ '*') :
        markChar? ('/' :: d :: t) = some '/' := by
      rw [markChar?.eq_3, if_pos hc]
      · rintro t - ⟨⟩
        exact hd.1 rfl
      · rintro t - ⟨⟩
        exact hd.2 rfl
    rcases u with _ | ⟨d, u⟩
    · rcases z' with _ | ⟨d, z'⟩
      · rfl
      · refine hrest ⟨?_, ne_of_isEdge (edge_cons.1 hz') (by decide)⟩
        rintro rfl
        obtain ⟨t, rfl⟩ := List.head?_eq_some_iff.1 (hslash rfl)
        cases h
    · refine hrest ⟨?_, ?_⟩ <;>
      · rintro rfl
        cases h
  · rw [markChar?.eq_3 _ _ (fun _ h => absurd h hslash') fun _ h => absurd h hslash', if_pos hc]

include hz'

/-- What follows a leaf says no more than whether a mark touches the next. -/
theorem leaf?_local (hslash : z'.head? = some '/' → z.head? = some '/') {l : Leaf}
    (h : leaf? (u ++ z) = some (l, n)) (hn : n ≤ u.length) :
    leaf? (u ++ z') = some (l, n) ∨ ∃ c v, u = c :: v ∧
      l = .mark c (markChar? (v ++ z)).isSome ∧ n = 1 ∧
      leaf? (u ++ z') = some (.mark c (markChar? (v ++ z')).isSome, 1) := by
  rcases leaf?_cases h with ⟨hlength, rfl⟩ | ⟨t, ht, hquote⟩ |
    ⟨c, t, ht, hc, hne, hmark, rfl, rfl⟩ | ⟨hstarts, hword, rfl⟩ | ⟨r, hr, rfl, rfl⟩
  · left
    unfold leaf?
    rw [Literal.length?_local hz hz' hlength hn]
    dsimp only
    rw [List.take_append_of_le_length hn, List.take_append_of_le_length hn]
  · left
    obtain ⟨rfl, rfl⟩ := quoteMark?_eq hquote
    obtain ⟨v, rfl, rfl⟩ := Literal.cons_of_append ht hn
    rw [quoteMark?_append hz, ← quoteMark?_append hz'] at hquote
    exact leaf?_of_quoteMark hquote
  · right
    obtain ⟨v, rfl, rfl⟩ := Literal.cons_of_append ht hn
    refine ⟨c, v, rfl, rfl, rfl, ?_⟩
    rw [List.cons_append]
    exact leaf?_of_isMark hc hne (markChar?_local hz' hslash hc hmark)
  · left
    rw [startsText_append hz, ← startsText_append hz'] at hstarts
    rw [identLength?_append hz, ← identLength?_append hz'] at hword
    rw [leaf?_of_word hstarts hword, List.take_append_of_le_length hn,
      List.take_append_of_le_length hn]
  · left
    obtain ⟨v, rfl⟩ : errorText <+: u :=
      List.prefix_of_prefix_length_le ⟨r, hr.symm⟩ ⟨z, rfl⟩ hn
    rw [List.append_assoc, leaf?_of_error]

end

/-! ### Items before an edge -/

def Item.isLeaf : Item → Bool
  | .leaf .. => true
  | _ => false

/-- An end that may stand in place of `z`. -/
structure Exchange (z z' : List Char) : Prop where
  edge : Edge z
  edge' : Edge z'
  ne_nil : z ≠ []
  slash : z'.head? = some '/' → z.head? = some '/'

section

variable {c d : Char} {u v z z' : List Char} {n : Nat} {i : Item}

theorem docLine?_append (hu : '\n' ∈ u) (marker : Nat) (z z' : List Char) :
    docLine? marker (u ++ z) = docLine? marker (u ++ z') := by
  have hlt : (u.takeWhile (· ≠ '\n')).length < u.length := by
    refine Nat.lt_of_le_of_ne (List.takeWhile_sublist _).length_le fun h => ?_
    have hall := List.takeWhile_eq_self_iff.1 ((List.takeWhile_prefix _).eq_of_length h) _ hu
    simp at hall
  have hended (z : List Char) :
      ((u ++ z).drop (u.takeWhile (· ≠ '\n')).length).isEmpty = false := by
    rw [List.drop_append_of_le_length hlt.le, List.isEmpty_eq_false_iff]
    intro h
    rw [List.append_eq_nil_iff, List.drop_eq_nil_iff] at h
    omega
  unfold docLine?
  dsimp only
  rw [takeWhile_line hu, takeWhile_line hu, hended, hended]

theorem item?_line (hv : '\n' ∈ v) (z z' : List Char) :
    item? '/' ('/' :: (v ++ z)) = item? '/' ('/' :: (v ++ z')) := by
  have hkind : commentKind ('/' :: '/' :: (v ++ z)) = commentKind ('/' :: '/' :: (v ++ z')) := by
    rcases v with _ | ⟨e, _ | ⟨f, v⟩⟩
    · cases hv
    · obtain rfl := List.mem_singleton.1 hv
      rfl
    · exact commentKind_take ..
  have hu : '\n' ∈ '/' :: '/' :: v := List.mem_cons_of_mem _ (List.mem_cons_of_mem _ hv)
  have hline : lineLength ('/' :: '/' :: v ++ z) = lineLength ('/' :: '/' :: v ++ z') := by
    rw [lineLength, takeWhile_line hu, lineLength, takeWhile_line hu]
  have hdoc := docLine?_append hu 3 z z'
  simp only [List.cons_append] at hline hdoc
  rw [item?_comment (.inl rfl), item?_comment (.inl rfl), hkind, hline, hdoc]
  rfl

theorem docLine?_length {marker : Nat} (h : docLine? marker u = some n) : n = lineLength u := by
  simp only [docLine?, Option.ite_none_left_eq_some] at h
  exact (Option.some.inj h.2).symm

theorem docBlock?_le (h : docBlock? u = some n) : ∃ m, blockComment? u = some m ∧ m = n := by
  obtain ⟨m, hm, h⟩ := Option.bind_eq_some_iff.1 h
  rw [Option.ite_none_left_eq_some] at h
  exact ⟨m, hm, Option.some.inj h.2⟩

/-- A comment to the end of its line. -/
theorem item?_line_length (h : item? '/' ('/' :: u) = some i) :
    i.length = lineLength ('/' :: '/' :: u) ∧ i.isLeaf = false := by
  have hblock : blockComment? ('/' :: '/' :: u) = none := rfl
  have hdocBlock : docBlock? ('/' :: '/' :: u) = none := rfl
  have hempty : commentKind ('/' :: '/' :: u) ≠ .empty := by
    generalize hs : '/' :: '/' :: u = s
    fun_cases commentKind s <;> simp_all
  rw [item?_comment (.inl rfl), hblock, hdocBlock] at h
  split at h
  · cases h
    exact ⟨rfl, rfl⟩
  · exact absurd ‹_› hempty
  · cases h
  · obtain ⟨m, hm, rfl⟩ := Option.map_eq_some_iff.1 h
    exact ⟨docLine?_length hm, rfl⟩
  · cases h
  · cases h

theorem item?_block_cases (h : item? '/' ('*' :: u) = some i) :
    (commentKind ('/' :: '*' :: u) = .empty ∧ i = .space 4) ∨
    (commentKind ('/' :: '*' :: u) = .block ∧
      ∃ n, blockRest? 1 2 u = some n ∧ i = .space n) ∨
    ∃ inner n, commentKind ('/' :: '*' :: u) = .docBlock inner ∧ blockRest? 1 2 u = some n ∧
      docBlock? ('/' :: '*' :: u) = some n ∧ i = .doc inner n := by
  have hline : commentKind ('/' :: '*' :: u) ≠ .line := by
    generalize hs : '/' :: '*' :: u = s
    fun_cases commentKind s <;> simp_all
  have hdocLine (b : Bool) : commentKind ('/' :: '*' :: u) ≠ .docLine b := by
    generalize hs : '/' :: '*' :: u = s
    fun_cases commentKind s <;> simp_all
  rw [item?_comment (.inr rfl)] at h
  split at h
  · exact absurd ‹_› hline
  · cases h
    exact .inl ⟨‹_›, rfl⟩
  · obtain ⟨n, hn, rfl⟩ := Option.map_eq_some_iff.1 h
    exact .inr (.inl ⟨‹_›, n, hn, rfl⟩)
  · exact absurd ‹_› (hdocLine _)
  · obtain ⟨n, hn, rfl⟩ := Option.map_eq_some_iff.1 h
    obtain ⟨m, hm, rfl⟩ := docBlock?_le hn
    exact .inr (.inr ⟨_, m, ‹_›, hm, hn, rfl⟩)
  · cases h

theorem item?_block_length (h : item? '/' ('*' :: u) = some i) :
    4 ≤ i.length ∧ i.isLeaf = false := by
  rcases item?_block_cases h with ⟨-, rfl⟩ | ⟨-, n, hn, rfl⟩ | ⟨inner, n, -, hn, -, rfl⟩
  · exact ⟨Nat.le_refl _, rfl⟩
  · exact ⟨blockRest?_le hn, rfl⟩
  · exact ⟨blockRest?_le hn, rfl⟩

theorem item?_block_local (h : item? '/' ('*' :: (v ++ z)) = some i)
    (hi : i.length ≤ v.length + 2) (z' : List Char) :
    item? '/' ('*' :: (v ++ z')) = some i := by
  have hle := (item?_block_length h).1
  have hkind : commentKind ('/' :: '*' :: (v ++ z)) = commentKind ('/' :: '*' :: (v ++ z')) := by
    rcases v with _ | ⟨e, _ | ⟨f, v⟩⟩
    · simp at hi
      omega
    · simp at hi
      omega
    · exact commentKind_take ..
  rw [item?_comment (.inr rfl)]
  rcases item?_block_cases h with ⟨hk, rfl⟩ | ⟨hk, n, hn, rfl⟩ | ⟨inner, n, hk, hn, hdoc, rfl⟩
  · rw [← hkind, hk]
  · rw [← hkind, hk]
    have := blockRest?_local z' hn (by simpa [Item.length, Nat.add_comm] using hi)
    exact Option.map_eq_some_iff.2 ⟨n, this, rfl⟩
  · rw [← hkind, hk]
    have hrest := blockRest?_local z' hn (by simpa [Item.length, Nat.add_comm] using hi)
    refine Option.map_eq_some_iff.2 ⟨n, ?_, rfl⟩
    obtain ⟨m, hm, hdoc⟩ := Option.bind_eq_some_iff.1 hdoc
    obtain rfl : n = m := Option.some.inj (hn.symm.trans hm)
    refine Option.bind_eq_some_iff.2 ⟨n, hrest, ?_⟩
    have htake (z : List Char) :
        ('/' :: '*' :: (v ++ z)).take (n - 2) = ('/' :: '*' :: v).take (n - 2) := by
      rw [← List.cons_append, ← List.cons_append, List.take_append_of_le_length]
      simp only [Item.length, List.length_cons] at hi ⊢
      omega
    rw [htake] at hdoc ⊢
    exact hdoc

theorem item?_comment_local (hx : Exchange z z') (hd : d = '/' ∨ d = '*')
    (h : item? '/' (d :: (v ++ z)) = some i) (hi : i.length ≤ v.length + 2)
    (hfeed : i.length = v.length + 2 → z.head? = some '\n' → z'.head? = some '\n') :
    item? '/' (d :: (v ++ z')) = some i := by
  rcases hd with rfl | rfl
  · by_cases hv : '\n' ∈ v
    · rwa [item?_line hv z' z]
    · -- the comment goes up to the end, so a line feed follows it
      have hline := (item?_line_length h).1
      have htake : ('/' :: '/' :: (v ++ z)).takeWhile (· ≠ '\n') =
          '/' :: '/' :: (v ++ z.takeWhile (· ≠ '\n')) := by
        have hall : ∀ c ∈ '/' :: '/' :: v, (decide (c ≠ '\n')) = true := by
          intro c hc
          rw [decide_eq_true_eq]
          rintro rfl
          simp [hv] at hc
        have happend : ('/' :: '/' :: v ++ z).takeWhile (fun c => decide (c ≠ '\n')) = _ :=
          List.takeWhile_append_of_pos hall
        simpa using happend
      obtain ⟨c, z, rfl⟩ := List.exists_cons_of_ne_nil hx.ne_nil
      have hc : c = '\n' := by
        by_contra hc
        rw [lineLength, htake, List.takeWhile_cons_of_pos (by simpa using hc)] at hline
        simp at hline
        omega
      subst hc
      rw [lineLength, htake] at hline
      obtain ⟨z', rfl⟩ := List.head?_eq_some_iff.1 (hfeed (by simpa using hline) rfl)
      have := item?_line (v := v ++ ['\n']) (by simp) z z'
      simp only [List.append_assoc, List.singleton_append] at this
      rwa [← this]
  · exact item?_block_local h hi z'

theorem item?_of_none (hc : c ≠ '/') (u : List Char) :
    plainComment? (c :: u) = none ∧ docComment? (c :: u) = none := by
  have hkind : commentKind (c :: u) = .none := by simp [commentKind, hc]
  have hplain : plainComment? (c :: u) = none := by rw [plainComment?_eq, hkind]
  exact ⟨hplain, by rw [docComment?_eq hplain, hkind]⟩

theorem item?_of_isSpace (hc : isSpace c = true) (u : List Char) :
    item? c u = some (.space 1) := by
  have hne : c ≠ '/' := by
    rintro rfl
    cases hc
  unfold item?
  rw [(item?_of_none hne u).1, hc]
  rfl

theorem ofOpening?_cases {d : Delimiter} (h : Delimiter.ofOpening? c = some d) :
    c = '(' ∨ c = '[' ∨ c = '\x7b' := by
  unfold Delimiter.ofOpening? at h
  split at h <;> simp_all

theorem ofClosing?_cases {d : Delimiter} (h : Delimiter.ofClosing? c = some d) :
    c = ')' ∨ c = ']' ∨ c = '\x7d' := by
  unfold Delimiter.ofClosing? at h
  split at h <;> simp_all

theorem item?_of_opening {d : Delimiter} (hd : Delimiter.ofOpening? c = some d) (u : List Char) :
    item? c u = if hasPrefix errorText (c :: u) then some (.leaf (.literal errorText) 11)
      else some (.opening d) := by
  obtain ⟨hc, hspace⟩ : c ≠ '/' ∧ isSpace c = false := by
    rcases ofOpening?_cases hd with rfl | rfl | rfl <;> decide
  unfold item?
  rw [(item?_of_none hc u).1, (item?_of_none hc u).2, hspace, hd]
  simp only [Bool.false_eq_true, if_false]
  refine if_ctx_congr Iff.rfl (fun herror => ?_) fun _ => rfl
  obtain ⟨r, hr⟩ := Option.isSome_iff_exists.1 herror
  rw [dropPrefix?_eq_some.1 hr, leaf?_of_error]
  rfl

theorem item?_of_closing {d : Delimiter} (hd : Delimiter.ofClosing? c = some d) (u : List Char) :
    item? c u = some (.closing d) := by
  rcases ofClosing?_cases hd with rfl | rfl | rfl <;> cases hd <;> rfl

theorem item?_of_leaf (hc : c ≠ '/') (hspace : isSpace c = false)
    (hopening : Delimiter.ofOpening? c = none) (hclosing : Delimiter.ofClosing? c = none)
    (u : List Char) : item? c u = (leaf? (c :: u)).map fun x => .leaf x.1 x.2 := by
  unfold item?
  rw [(item?_of_none hc u).1, (item?_of_none hc u).2, hspace, hopening, hclosing]
  rfl

theorem leaf_local (hx : Exchange z z')
    (h : (leaf? (c :: (v ++ z))).map (fun x => Item.leaf x.1 x.2) = some i)
    (hi : i.length ≤ v.length + 1) :
    (leaf? (c :: (v ++ z'))).map (fun x => Item.leaf x.1 x.2) = some i ∨
      ∃ d, i = .leaf (.mark d (markChar? (v ++ z)).isSome) 1 ∧
        (leaf? (c :: (v ++ z'))).map (fun x => Item.leaf x.1 x.2) =
          some (.leaf (.mark d (markChar? (v ++ z')).isSome) 1) := by
  obtain ⟨⟨l, n⟩, hl, rfl⟩ := Option.map_eq_some_iff.1 h
  rcases leaf?_local (u := c :: v) hx.edge hx.edge' hx.slash hl hi with
    h' | ⟨d, w, hw, rfl, rfl, h'⟩
  · exact .inl (Option.map_eq_some_iff.2 ⟨_, h', rfl⟩)
  · cases hw
    exact .inr ⟨_, rfl, Option.map_eq_some_iff.2 ⟨_, h', rfl⟩⟩

/-- A slash opens a comment or is a mark. -/
theorem item?_slash_local (hx : Exchange z z') (h : item? '/' (v ++ z) = some i)
    (hi : i.length ≤ v.length + 1)
    (hfeed : i.isLeaf = false → i.length = v.length + 1 → z.head? = some '\n' →
      z'.head? = some '\n') :
    item? '/' (v ++ z') = some i ∨ ∃ d, i = .leaf (.mark d (markChar? (v ++ z)).isSome) 1 ∧
      item? '/' (v ++ z') = some (.leaf (.mark d (markChar? (v ++ z')).isSome) 1) := by
  by_cases hd : ∃ d w, v ++ z = d :: w ∧ (d = '/' ∨ d = '*')
  · obtain ⟨d, w, hw, hd⟩ := hd
    have hlength : 2 ≤ i.length ∧ i.isLeaf = false := by
      rw [hw] at h
      rcases hd with rfl | rfl
      · obtain ⟨hlen, hleaf⟩ := item?_line_length h
        refine ⟨?_, hleaf⟩
        rw [hlen]
        simp [lineLength]
      · obtain ⟨hlen, hleaf⟩ := item?_block_length h
        exact ⟨by omega, hleaf⟩
    obtain ⟨v, rfl, rfl⟩ := Literal.cons_of_append hw (by omega)
    left
    rw [List.cons_append] at h ⊢
    rw [List.length_cons] at hi hfeed
    exact item?_comment_local hx hd h hi (hfeed hlength.2)
  · right
    have hold : ∀ d ∈ (v ++ z).head?, d ≠ '/' ∧ d ≠ '*' := by
      intro d hd'
      obtain ⟨w, hw⟩ := List.head?_eq_some_iff.1 hd'
      exact not_or.1 fun h => hd ⟨d, w, hw, h⟩
    have hnew : ∀ d ∈ (v ++ z').head?, d ≠ '/' ∧ d ≠ '*' := by
      cases v with
      | nil =>
        intro d hd'
        obtain ⟨w, rfl⟩ := List.head?_eq_some_iff.1 hd'
        refine ⟨?_, ne_of_isEdge (edge_cons.1 hx.edge') (by decide)⟩
        rintro rfl
        exact (hold _ (hx.slash rfl)).1 rfl
      | cons e v => exact hold
    rw [item?_slash hold] at h
    cases h
    exact ⟨'/', rfl, item?_slash hnew⟩

/-- What an item is can be told before an edge, but for whether a mark touches the next. -/
theorem item?_local (hx : Exchange z z') (h : item? c (v ++ z) = some i)
    (hbracket : i.isBracket = false) (hi : i.length ≤ v.length + 1)
    (hfeed : i.isLeaf = false → i.length = v.length + 1 → z.head? = some '\n' →
      z'.head? = some '\n') :
    item? c (v ++ z') = some i ∨ ∃ d, i = .leaf (.mark d (markChar? (v ++ z)).isSome) 1 ∧
      item? c (v ++ z') = some (.leaf (.mark d (markChar? (v ++ z')).isSome) 1) := by
  by_cases hc : c = '/'
  · subst hc
    exact item?_slash_local hx h hi hfeed
  cases hspace : isSpace c with
  | true =>
    rw [item?_of_isSpace hspace] at h ⊢
    exact .inl h
  | false =>
    cases hopening : Delimiter.ofOpening? c with
    | some d =>
      rw [item?_of_opening hopening] at h ⊢
      split_ifs at h with herror
      · cases h
        obtain ⟨r, hr⟩ := Option.isSome_iff_exists.1 herror
        obtain ⟨w, hw⟩ : errorText <+: c :: v :=
          List.prefix_of_prefix_length_le ⟨r, (dropPrefix?_eq_some.1 hr).symm⟩ ⟨z, rfl⟩ hi
        have : hasPrefix errorText (c :: (v ++ z')) = true :=
          Option.isSome_iff_exists.2 ⟨w ++ z', dropPrefix?_eq_some.2 (by
            rw [← List.append_assoc, hw, List.cons_append])⟩
        exact .inl (if_pos this)
      · cases h
        cases hbracket
    | none =>
      cases hclosing : Delimiter.ofClosing? c with
      | some d =>
        rw [item?_of_closing hclosing] at h
        cases h
        cases hbracket
      | none =>
        rw [item?_of_leaf hc hspace hopening hclosing] at h ⊢
        exact leaf_local hx h hi

theorem bracket_of_item? {d : Delimiter} (h : item? c u = some i) :
    (i = .opening d → Delimiter.ofOpening? c = some d ∧ hasPrefix errorText (c :: u) = false) ∧
      (i = .closing d → Delimiter.ofClosing? c = some d) := by
  have hleaf (h : (leaf? (c :: u)).map (fun x => Item.leaf x.1 x.2) = some i) :
      i ≠ .opening d ∧ i ≠ .closing d := by
    obtain ⟨x, -, rfl⟩ := Option.map_eq_some_iff.1 h
    simp
  unfold item? at h
  split at h
  · cases h
    simp
  split at h
  · cases h
    simp
  split at h
  · cases h
    simp
  split at h
  · rename_i hd
    split at h
    · have := hleaf h
      simp [this]
    · rename_i herror
      cases h
      simp only [Item.opening.injEq, reduceCtorEq, false_implies, and_true]
      rintro rfl
      exact ⟨hd, by simpa using herror⟩
  · rename_i hopening hclosing
    cases h
    simp only [Item.closing.injEq, reduceCtorEq, false_implies, true_and]
    rintro rfl
    exact hclosing
  · have := hleaf h
    simp [this]

end

end Notebook.Syntax.Lexer
