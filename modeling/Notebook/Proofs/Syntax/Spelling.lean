import Mathlib.Data.List.Basic
import Notebook.Proofs.Syntax.Literal
import Notebook.Syntax.Lexer

/-!
Where the trees of a text stand in it: every token at its place, with blanks and plain comments
between.
-/

namespace Notebook.Syntax.Lexer

open Notebook.Text
open Literal (Stops stops_takeWhile length?_stops plainIdentLength?_stops)

/-! ### Comments -/

section

variable {s t : List Char} {c : Char} {n k : Nat}

theorem blockRest?_ends {depth : Nat} (h : blockRest? depth n s = some k) (hs : t.drop n = s) :
    ∃ u v, t = u ++ '*' :: '/' :: v ∧ k = u.length + 2 := by
  have hnext {m : Nat} {a b : Char} {r : List Char} (hr : t.drop m = a :: b :: r) :
      t.drop (m + 2) = r := by
    rw [← List.drop_drop, hr]
    rfl
  fun_induction blockRest? depth n s with
  | case1 depth n s ih => exact ih h (hnext hs)
  | case2 depth n s hd =>
    cases h
    have hlen : n ≤ t.length := by
      by_contra hn
      rw [List.drop_of_length_le (by omega)] at hs
      cases hs
    exact ⟨t.take n, s, by rw [← hs, List.take_append_drop], by rw [List.length_take_of_le hlen]⟩
  | case3 depth n s _ ih => exact ih h (hnext hs)
  | case4 depth n c s _ _ ih => exact ih h (Literal.drop_succ hs)
  | case5 => cases h

theorem blockComment?_ends (h : blockComment? s = some n) :
    ∃ u v, s = u ++ '*' :: '/' :: v ∧ n = u.length + 2 := by
  unfold blockComment? at h
  split at h
  · exact blockRest?_ends h rfl
  · cases h

theorem lineLength_stops (h : c ≠ '\n') : Stops (c :: s) (lineLength (c :: s)) :=
  stops_takeWhile (by simp) (by simp [h])

/-- A comment goes up to the end of its line, or it ends with its mark. -/
theorem plainComment?_ends (h : plainComment? s = some n) : n = lineLength s ∧ Stops s n ∨
    ∃ u v, s = u ++ '*' :: '/' :: v ∧ n = u.length + 2 := by
  unfold plainComment? at h
  split at h
  · cases h
    exact .inl ⟨rfl, lineLength_stops (by decide)⟩
  · cases h
  · cases h
  · cases h
    exact .inl ⟨rfl, lineLength_stops (by decide)⟩
  · cases h
    exact .inr ⟨['/', '*'], _, rfl, rfl⟩
  · exact .inr (blockComment?_ends h)
  · cases h
  · cases h
  · exact .inr (blockComment?_ends h)
  · cases h

theorem plainComment?_pos (h : plainComment? s = some n) : 0 < n := by
  rcases plainComment?_ends h with ⟨-, h⟩ | ⟨u, v, -, rfl⟩
  · exact h.pos
  · omega

/-- No comment takes the end of a text that is a closing brace on a line of its own. -/
theorem plainComment?_le {z : List Char} {d : Char} (hd : d ≠ '/')
    (h : plainComment? (z ++ ['\n', d]) = some n) : n ≤ z.length := by
  rcases plainComment?_ends h with ⟨rfl, -⟩ | ⟨u, v, heq, rfl⟩
  · rw [lineLength, List.takeWhile_append]
    split
    · simp
    · exact ( List.takeWhile_prefix _).length_le
  · have hrev := congrArg List.reverse heq
    simp only [List.reverse_append, List.reverse_cons, List.reverse_nil, List.nil_append,
      List.append_assoc, List.cons_append] at hrev
    rcases hv : v.reverse with _ | ⟨a, _ | ⟨b, w⟩⟩
    · rw [hv] at hrev
      exact absurd (List.cons.inj hrev).1 hd
    · rw [hv] at hrev
      simp at hrev
    · rw [hv] at hrev
      have := congrArg List.length hrev
      simp at this
      omega

theorem dropSpace_of_comment (h : plainComment? (c :: s) = some n) :
    dropSpace (c :: s) = dropSpace (s.drop (n - 1)) := by
  rw [dropSpace]
  simp only [h]

theorem dropSpace_of_none (h : plainComment? (c :: s) = none) :
    dropSpace (c :: s) = if isSpace c then dropSpace s else c :: s := by
  rw [dropSpace]
  simp only [h]

theorem dropSpace_ne_nil {d : Char} (hd : d ≠ '/') (hspace : isSpace d = false) (z : List Char) :
    dropSpace (z ++ ['\n', d]) ≠ [] := by
  -- a comment takes many characters at once, so the induction is on the length
  induction hlen : z.length using Nat.strong_induction_on generalizing z with
  | _ l ih =>
    cases z with
    | nil =>
      have hfeed : plainComment? ['\n', d] = none := by simp [plainComment?]
      have hlast : plainComment? [d] = none := by
        unfold plainComment?
        split <;> simp_all
      rw [List.nil_append, dropSpace_of_none hfeed, if_pos (by rfl), dropSpace_of_none hlast]
      simp [hspace]
    | cons c z =>
      rw [List.cons_append]
      cases hn : plainComment? (c :: (z ++ ['\n', d])) with
      | some n =>
        have hpos := plainComment?_pos hn
        have hle := plainComment?_le (z := c :: z) hd hn
        rw [List.length_cons] at hle hlen
        rw [dropSpace_of_comment hn, List.drop_append_of_le_length (by omega)]
        exact ih _ (by rw [List.length_drop]; omega) _ rfl
      | none =>
        rw [dropSpace_of_none hn]
        split
        · exact ih _ (by simp [← hlen]) z rfl
        · simp

end

/-! ### Items -/

section

variable {s : List Char} {c : Char} {n : Nat} {i : Item}

theorem docComment?_stops {inner : Bool} (h : docComment? s = some (n, inner)) : Stops s n := by
  have hline {m k : Nat} {c : Char} {r : List Char} (hc : c ≠ '\n')
      (h : docLine? m (c :: r) = some k) : Stops (c :: r) k := by
    simp only [docLine?, Option.ite_none_left_eq_some] at h
    rw [← Option.some.inj h.2]
    exact lineLength_stops hc
  have hblock {k : Nat} (h : docBlock? s = some k) : Stops s k := by
    obtain ⟨m, hm, h⟩ := Option.bind_eq_some_iff.1 h
    rw [Option.ite_none_left_eq_some] at h
    obtain ⟨u, v, rfl, rfl⟩ := blockComment?_ends hm
    rw [← Option.some.inj h.2]
    exact ⟨u ++ ['*'], '/', v, by simp, by simp, by decide⟩
  have hfst {o : Option Nat} {b : Bool} (h : o.map (·, b) = some (n, inner)) : o = some n := by
    obtain ⟨m, hm, h⟩ := Option.map_eq_some_iff.1 h
    cases h
    exact hm
  unfold docComment? at h
  split at h
  · exact hline (by decide) (hfst h)
  · exact hblock (hfst h)
  · cases h
  · exact hline (by decide) (hfst h)
  · cases h
  · exact hblock (hfst h)
  · cases h

theorem identLength?_stops (h : identLength? s = some n) : Stops s n := by
  unfold identLength? at h
  split at h
  · obtain ⟨m, hm, h⟩ := Option.bind_eq_some_iff.1 h
    rw [Option.ite_none_left_eq_some] at h
    rw [← Option.some.inj h.2, Nat.add_comm]
    exact Stops.add (plainIdentLength?_stops hm)
  · exact plainIdentLength?_stops h

theorem markChar?_eq_some (h : markChar? s = some c) : (∃ r, s = c :: r) ∧ isMark c = true := by
  unfold markChar? at h
  split at h
  · cases h
  · cases h
  · rw [Option.ite_none_right_eq_some] at h
    cases h.2
    exact ⟨⟨_, rfl⟩, h.1⟩
  · cases h

theorem quoteMark?_eq {l : Leaf} (h : quoteMark? s = some (l, n)) :
    l = .mark '\'' true ∧ n = 1 := by
  obtain ⟨m, -, h⟩ := Option.bind_eq_some_iff.1 h
  split at h
  · cases h
  · split at h <;> cases h
    exact ⟨rfl, rfl⟩
  · cases h
    exact ⟨rfl, rfl⟩

theorem leaf?_stops {l : Leaf} (h : leaf? s = some (l, n)) : Stops s n := by
  have hmark {c : Char} (hs : markChar? s = some c) : Stops s 1 := by
    obtain ⟨⟨r, rfl⟩, hc⟩ := markChar?_eq_some hs
    refine ⟨[], c, r, rfl, rfl, ?_⟩
    rintro rfl
    cases hc
  unfold leaf? at h
  split at h
  · rename_i m hm
    cases h
    exact length?_stops hm
  · dsimp only at h
    split at h
    · rename_i hs
      rw [Option.or_eq_some_iff] at h
      rcases h with h | ⟨-, h⟩
      · rw [(quoteMark?_eq h).2]
        exact hmark hs
      · -- a quote starts no word
        obtain ⟨⟨r, rfl⟩, -⟩ := markChar?_eq_some hs
        have hword : identLength? ('\'' :: r) = none := rfl
        have herror : hasPrefix errorText ('\'' :: r) = false := rfl
        rw [hword, herror] at h
        simp at h
    · rename_i hs
      cases h
      exact hmark hs
    · rw [Option.ite_none_left_eq_some] at h
      split at h
      · rename_i m hm
        cases h.2
        exact identLength?_stops hm
      · rw [Option.ite_none_right_eq_some] at h
        obtain ⟨-, hp, h⟩ := h
        cases h
        obtain ⟨r, hr⟩ := Option.isSome_iff_exists.1 hp
        exact ⟨"(/*ERROR*/".toList, ')', r, by rw [dropPrefix?_eq_some.1 hr]; rfl, rfl, by decide⟩

theorem item?_stops (h : item? c s = some i) (hi : ∀ n, i ≠ .space n) :
    isSpace c = false ∧ Stops (c :: s) i.length := by
  have hleaf (h : (leaf? (c :: s)).map (fun x => Item.leaf x.1 x.2) = some i) :
      Stops (c :: s) i.length := by
    obtain ⟨⟨l, n⟩, hl, rfl⟩ := Option.map_eq_some_iff.1 h
    exact leaf?_stops hl
  unfold item? at h
  split at h
  · cases h
    exact absurd rfl (hi _)
  · split at h
    · cases h
      exact absurd rfl (hi 1)
    · rename_i hspace
      refine ⟨by simpa using hspace, ?_⟩
      have hfeed : c ≠ '\n' := by
        rintro rfl
        exact hspace rfl
      split at h
      · rename_i n inner hdoc
        cases h
        exact docComment?_stops hdoc
      · split at h
        · split at h
          · exact hleaf h
          · cases h
            exact ⟨[], c, s, rfl, rfl, hfeed⟩
        · cases h
          exact ⟨[], c, s, rfl, rfl, hfeed⟩
        · exact hleaf h

theorem item?_space (h : item? c s = some (.space n)) :
    0 < n ∧ dropSpace (c :: s) = dropSpace (s.drop (n - 1)) := by
  unfold item? at h
  split at h
  · rename_i m hm
    cases h
    exact ⟨plainComment?_pos hm, dropSpace_of_comment hm⟩
  · rename_i hm
    split at h
    · rename_i hspace
      cases h
      refine ⟨by omega, ?_⟩
      rw [dropSpace_of_none hm, if_pos hspace]
      rfl
    · split at h
      · cases h
      · split at h
        · split at h
          · obtain ⟨⟨l, n⟩, hl, h⟩ := Option.map_eq_some_iff.1 h
            cases h
          · cases h
        · cases h
        · obtain ⟨⟨l, n⟩, hl, h⟩ := Option.map_eq_some_iff.1 h
          cases h

theorem item?_pos (h : item? c s = some i) : 0 < i.length := by
  by_cases hi : ∃ n, i = .space n
  · obtain ⟨n, rfl⟩ := hi
    exact (item?_space h).1
  · exact (item?_stops h (by simpa using hi)).2.pos

end

/-! ### Trees in their order -/

/-- The trees that an item stands for by itself. -/
def Item.trees (span : Span) : Item → List Tree
  | .leaf l _ => [l.tree span]
  | .doc inner _ => docTrees inner span
  | _ => []

def Item.isBracket : Item → Bool
  | .opening _ | .closing _ => true
  | _ => false

/-- From a text at one place trees are read up to another place, where a text is left. -/
inductive Spells : Position → List Char → List Tree → Position → List Char → Prop
  | nil {p : Position} {s : List Char} : Spells p s [] p s
  | item {p q : Position} {c : Char} {s r : List Char} {i : Item} {ts : List Tree}
      (h : item? c s = some i) (hi : i.isBracket = false)
      (hs : Spells (p.after ((c :: s).take i.length)) (s.drop (i.length - 1)) ts q r) :
      Spells p (c :: s) (i.trees ⟨p, p.after ((c :: s).take i.length)⟩ ++ ts) q r
  | group {p p' q : Position} {c c' : Char} {s s' r : List Char} {d : Delimiter}
      {inner ts : List Tree} (h : item? c s = some (.opening d))
      (hin : Spells (p.next c) s inner p' (c' :: s')) (h' : item? c' s' = some (.closing d))
      (hs : Spells (p'.next c') s' ts q r) :
      Spells p (c :: s) (.group d inner ⟨p, p'.next c'⟩ :: ts) q r

section

variable {p q here : Position} {s r : List Char} {before ts : List Tree}

theorem read_cons {stack : List Frame} {c : Char} (s : List Char) :
    read here stack before (c :: s) = (item? c s).bind fun item =>
      let stop := here.after ((c :: s).take item.length)
      let rest := s.drop (item.length - 1)
      match item with
      | .space _ => read stop stack before rest
      | .doc inner _ => read stop stack ((docTrees inner ⟨here, stop⟩).reverse ++ before) rest
      | .opening d => read stop (⟨d, here, before⟩ :: stack) [] rest
      | .closing d =>
        match stack with
        | [] => none
        | f :: stack =>
          if f.delimiter = d then
            read stop stack (.group d before.reverse ⟨f.position, stop⟩ :: f.before) rest
          else none
      | .leaf l _ => read stop stack (l.tree ⟨here, stop⟩ :: before) rest :=
  read.eq_2 here stack before c s

/-- How reading goes on where the innermost group or the text ends. -/
def Returns (stack : List Frame) (before inner : List Tree) (p : Position) (r : List Char)
    (ts : List Tree) : Prop :=
  match stack with
  | [] => r = [] ∧ ts = before.reverse ++ inner
  | f :: stack => ∃ c t, r = c :: t ∧ item? c t = some (.closing f.delimiter) ∧
      read (p.next c) stack
        (.group f.delimiter (before.reverse ++ inner) ⟨f.position, p.next c⟩ :: f.before) t =
          some ts

theorem returns_append {stack : List Frame} (ds inner : List Tree) :
    Returns stack (ds.reverse ++ before) inner p r ts ↔
      Returns stack before (ds ++ inner) p r ts := by
  cases stack <;> simp [Returns]

/-- What is read of a text up to the end of the innermost group that is open, or of the text. -/
theorem read_spells {stack : List Frame} (h : read here stack before s = some ts) :
    ∃ inner p r, Spells here s inner p r ∧ r.length ≤ s.length ∧
      Returns stack before inner p r ts := by
  -- a group is read in two parts, its inside and what follows it, and both are shorter
  induction hlen : s.length using Nat.strong_induction_on
    generalizing s here stack before with
  | _ l ih =>
    cases s with
    | nil =>
      refine ⟨[], here, [], .nil, Nat.zero_le _, ?_⟩
      rw [read, Option.ite_none_right_eq_some] at h
      cases stack with
      | nil => exact ⟨rfl, by simpa using h.2.symm⟩
      | cons f stack => cases h.1
    | cons c s =>
      have hshort (n : Nat) : (s.drop n).length < l := by
        rw [← hlen, List.length_drop, List.length_cons]
        omega
      rw [read_cons] at h
      obtain ⟨i, hi, h⟩ := Option.bind_eq_some_iff.1 h
      have htoken (hbracket : i.isBracket = false)
          (h : read (here.after ((c :: s).take i.length)) stack
            ((i.trees ⟨here, here.after ((c :: s).take i.length)⟩).reverse ++ before)
            (s.drop (i.length - 1)) = some ts) :
          ∃ inner p r, Spells here (c :: s) inner p r ∧ r.length ≤ l ∧
            Returns stack before inner p r ts := by
        obtain ⟨inner, p, r, hs, hr, hend⟩ := ih _ (hshort _) h rfl
        exact ⟨_, p, r, .item hi hbracket hs, hr.trans (hshort _).le, (returns_append _ _).1 hend⟩
      cases i with
      | space n => exact htoken rfl h
      | doc inner n => exact htoken rfl h
      | leaf l n => exact htoken rfl h
      | opening d =>
        obtain ⟨inner, p, r, hin, hr, c', t, rfl, hc', h'⟩ := ih _ (hshort 0) h rfl
        have ht : t.length < l := lt_of_lt_of_le (Nat.lt_succ_self _) (hr.trans (hshort 0).le)
        obtain ⟨inner', p', r', hs, hr', hend⟩ := ih _ ht h' rfl
        refine ⟨_, p', r', .group hi hin hc' hs, hr'.trans ht.le, ?_⟩
        rw [← List.singleton_append, ← returns_append]
        exact hend
      | closing d =>
        cases stack with
        | nil => cases h
        | cons f stack =>
          dsimp only at h
          rw [Option.ite_none_right_eq_some] at h
          obtain ⟨rfl, h⟩ := h
          refine ⟨[], here, c :: s, .nil, hlen.le, c, s, rfl, hi, ?_⟩
          rw [List.append_nil]
          exact h

/-- What the trees of a text stand for is all of it. -/
theorem trees?_spells (h : trees? s = some ts) :
    ∃ q, Spells .start ((dropPrefix? ['\uFEFF'] s).getD s) ts q [] := by
  obtain ⟨inner, p, r, hs, -, rfl, rfl⟩ := read_spells h
  exact ⟨p, hs⟩

theorem span_of_mem_trees {i : Item} {span : Span} {t : Tree} (h : t ∈ i.trees span) :
    t.span = span := by
  cases i with
  | leaf l n =>
    rw [List.mem_singleton.1 h]
    cases l <;> rfl
  | doc inner n =>
    cases inner <;> simp [Item.trees, docTrees] at h <;> rcases h with rfl | rfl | rfl <;> rfl
  | _ => cases h

theorem item?_text {c : Char} {i : Item} (h : item? c s = some i) :
    c :: s = (c :: s).take i.length ++ s.drop (i.length - 1) := by
  obtain ⟨n, hn⟩ : ∃ n, i.length = n + 1 := ⟨i.length - 1, by have := item?_pos h; omega⟩
  rw [hn, List.take_succ_cons, Nat.add_sub_cancel, List.cons_append, List.take_append_drop]

theorem Spells.text (h : Spells p s ts q r) : ∃ u, s = u ++ r ∧ q = p.after u := by
  induction h with
  | nil => exact ⟨[], rfl, rfl⟩
  | item h _ _ ih =>
    obtain ⟨u, hu, rfl⟩ := ih
    refine ⟨_ ++ u, ?_, (Position.after_append _ _ _).symm⟩
    rw [List.append_assoc, ← hu]
    exact item?_text h
  | @group p p' q c c' s s' r d inner ts _ _ _ _ ihin ih =>
    obtain ⟨u, hu, rfl⟩ := ihin
    obtain ⟨v, hv, rfl⟩ := ih
    exact ⟨c :: (u ++ c' :: v), by rw [hu, hv]; simp, by simp⟩

theorem Spells.dropSpace_eq (h : Spells p s [] q r) : dropSpace s = dropSpace r := by
  generalize hts : ([] : List Tree) = ts at h
  induction h with
  | nil => rfl
  | @item p q c s r i ts h hi _ ih =>
    obtain ⟨htrees, rfl⟩ := List.append_eq_nil_iff.1 hts.symm
    cases i with
    | space n => exact (item?_space h).2.trans (ih rfl)
    | doc inner n => cases inner <;> cases htrees
    | leaf l n => cases htrees
    | opening d => cases hi
    | closing d => cases hi
  | group => cases hts

theorem Spells.group_inv {c : Char} {d d' : Delimiter} {inner : List Tree} {span : Span}
    (h : Spells p (c :: s) [.group d inner span] q r) (hc : item? c s = some (.opening d')) :
    ∃ p' c' t, Spells (p.next c) s inner p' (c' :: t) ∧ item? c' t = some (.closing d) ∧
      dropSpace t = dropSpace r := by
  generalize hts : [Tree.group d inner span] = ts at h
  generalize hcs : c :: s = u at h
  cases h with
  | nil => cases hts
  | item hi hbracket hs =>
    cases hcs
    rw [hc] at hi
    cases hi
    cases hbracket
  | @group _ p' _ _ c' _ t _ _ _ _ _ hin hclose hs =>
    cases hcs
    cases hts
    exact ⟨p', c', t, hin, hclose, hs.dropSpace_eq⟩

/-- The trees `ts` of a text at `p` stand for `m`, and only blanks and plain comments follow it
before `r`. -/
structure Placed (p : Position) (s r : List Char) (ts : List Tree) (a m b : List Char) : Prop where
  text : s = a ++ (m ++ (b ++ r))
  first : ∀ t ∈ ts.head?, t.span.first = p.after a
  last : ∀ t ∈ ts.getLast?, t.span.last = p.after (a ++ m)
  starts : ∀ c ∈ m.head?, isSpace c = false
  stops : Stops m m.length
  rest : dropSpace (b ++ r) = dropSpace r

/-- What neither starts with a blank nor stops at a line feed, and stands between two line ends,
stands on the lines between them. -/
theorem between_lines {z a m b : List Char}
    (htext : '\n' :: (z ++ '\n' :: r) = a ++ (m ++ (b ++ r)))
    (hstarts : ∀ c ∈ m.head?, isSpace c = false) (hstops : Stops m m.length) :
    ∃ pre post, a = '\n' :: pre ∧ b = post ++ ['\n'] ∧ z = pre ++ (m ++ post) := by
  have htext : '\n' :: z ++ ['\n'] = a ++ (m ++ b) := by
    refine (List.append_left_inj r).1 ?_
    simpa using htext
  obtain ⟨post, rfl, hz⟩ : ∃ post, b = post ++ ['\n'] ∧ '\n' :: z = a ++ (m ++ post) := by
    rcases List.eq_nil_or_concat' b with rfl | ⟨post, d, rfl⟩
    · obtain ⟨u, c, rfl, hc⟩ := hstops.concat_eq
      rw [List.append_nil, ← List.append_assoc] at htext
      exact absurd (List.append_singleton_inj.1 htext).2.symm hc
    · rw [← List.append_assoc m, ← List.append_assoc a] at htext
      obtain ⟨hz, hd⟩ := List.append_singleton_inj.1 htext
      exact ⟨post, by rw [hd], hz⟩
  cases a with
  | nil =>
    cases m with
    | nil => cases hstops.pos
    | cons d m =>
      cases hz
      cases hstarts _ rfl
  | cons d a =>
    cases hz
    exact ⟨a, post, rfl, rfl, rfl⟩

theorem Placed.between {z a m b : List Char} (h : Placed p ('\n' :: (z ++ '\n' :: r)) r ts a m b) :
    ∃ pre post, a = '\n' :: pre ∧ b = post ++ ['\n'] ∧ z = pre ++ (m ++ post) :=
  between_lines h.text h.starts h.stops

/-- All the trees `ds` at `p` stand for the text `w`. -/
structure Whole (p : Position) (w : List Char) (ds : List Tree) : Prop where
  span : ∀ t ∈ ds, t.span = ⟨p, p.after w⟩
  starts : ∀ c ∈ w.head?, isSpace c = false
  stops : Stops w w.length

section

variable {w s a m b u : List Char} {ds ds' ts before mid : List Tree}

theorem Whole.of_append (h : Whole p w (ds ++ ds')) : Whole p w ds' :=
  ⟨fun t ht => h.span t (List.mem_append_right _ ht), h.starts, h.stops⟩

theorem Whole.first (h : Whole p w ds) (hds : ds ≠ []) :
    ∀ t ∈ (ds ++ ts).head?, t.span.first = p.after [] := by
  intro t ht
  rw [List.head?_append_of_ne_nil _ hds] at ht
  rw [h.span t (List.mem_of_mem_head? ht)]
  rfl

theorem Whole.placed (h : Whole p w ds) (hds : ds ≠ []) (hu : dropSpace (u ++ r) = dropSpace r) :
    Placed p (w ++ (u ++ r)) r ds [] w u := by
  refine ⟨rfl, ?_, ?_, h.starts, h.stops, hu⟩
  · rw [← List.append_nil ds]
    exact h.first hds
  · intro t ht
    rw [h.span t (List.mem_of_getLast? ht)]
    rfl

theorem Whole.placed_append (h : Whole p w ds) (hds : ds ≠ []) (hts : ts ≠ [])
    (hp : Placed (p.after w) s r ts a m b) :
    Placed p (w ++ s) r (ds ++ ts) [] (w ++ (a ++ m)) b := by
  refine ⟨by rw [hp.text]; simp, h.first hds, ?_, ?_, (hp.stops.append a).append w, hp.rest⟩
  · intro t ht
    rw [List.getLast?_append_of_ne_nil _ hts] at ht
    rw [hp.last t ht, List.nil_append, Position.after_append p]
  · intro c hc
    have hw : w ≠ [] := by
      rintro rfl
      cases h.stops.pos
    rw [List.head?_append_of_ne_nil _ hw] at hc
    exact h.starts c hc

theorem Placed.later (hp : Placed (p.after w) s r ts a m b) :
    Placed p (w ++ s) r ts (w ++ a) m b := by
  refine ⟨by rw [hp.text]; simp, ?_, ?_, hp.starts, hp.stops, hp.rest⟩
  · intro t ht
    rw [hp.first t ht, Position.after_append]
  · intro t ht
    rw [hp.last t ht, List.append_assoc, Position.after_append p]

theorem Placed.step (hw : ds ≠ [] → Whole p w ds) (hs : ∃ u, s = u ++ r)
    (hnil : ts = [] → dropSpace s = dropSpace r)
    (ih : ∀ before mid, ts = before ++ mid → mid ≠ [] →
      ∃ a m b, Placed (p.after w) s r mid a m b)
    (heq : ds ++ ts = before ++ mid) (hmid : mid ≠ []) :
    ∃ a m b, Placed p (w ++ s) r mid a m b := by
  -- `mid` may start in the middle of `ds`, as a documentation comment stands for several trees
  rcases List.append_eq_append_iff.1 heq with ⟨ds', -, h⟩ | ⟨ds', rfl, rfl⟩
  · obtain ⟨a, m, b, hp⟩ := ih ds' mid h hmid
    exact ⟨_, _, _, hp.later⟩
  · by_cases hds : ds' = []
    · subst hds
      obtain ⟨a, m, b, hp⟩ := ih [] ts rfl hmid
      exact ⟨_, _, _, hp.later⟩
    have hwhole := (hw (List.append_ne_nil_of_right_ne_nil _ hds)).of_append
    by_cases hts : ts = []
    · subst hts
      obtain ⟨u, rfl⟩ := hs
      rw [List.append_nil]
      exact ⟨_, _, _, hwhole.placed hds (hnil rfl)⟩
    · obtain ⟨a, m, b, hp⟩ := ih [] ts rfl hts
      exact ⟨_, _, _, hwhole.placed_append hds hts hp⟩

end

theorem item?_whole {c : Char} {i : Item} (h : item? c s = some i)
    (hi : i.trees ⟨p, p.after ((c :: s).take i.length)⟩ ≠ []) :
    Whole p ((c :: s).take i.length) (i.trees ⟨p, p.after ((c :: s).take i.length)⟩) := by
  obtain ⟨hspace, hstops⟩ := item?_stops h (by rintro n rfl; exact hi rfl)
  refine ⟨fun t ht => span_of_mem_trees ht, ?_, hstops.take⟩
  intro d hd
  obtain ⟨n, hn⟩ : ∃ n, i.length = n + 1 := ⟨i.length - 1, by have := item?_pos h; omega⟩
  rw [hn] at hd
  cases hd
  exact hspace

/-- A group stands for what is between its brackets and for these. -/
theorem Whole.group {c c' : Char} {u t : List Char} {d : Delimiter} {inner : List Tree}
    (h : item? c (u ++ c' :: t) = some (.opening d)) (h' : item? c' t = some (.closing d)) :
    Whole p (c :: (u ++ [c'])) [.group d inner ⟨p, p.after (c :: (u ++ [c']))⟩] := by
  have hfeed : c' ≠ '\n' := by
    rintro rfl
    cases (item?_stops h' (by simp)).1
  refine ⟨?_, ?_, c :: u, c', [], by simp, by simp, hfeed⟩
  · intro t ht
    rw [List.mem_singleton.1 ht]
    rfl
  · intro d hd
    cases hd
    exact (item?_stops h (by simp)).1

theorem Spells.placed (h : Spells p s ts q r) {before mid : List Tree} (heq : ts = before ++ mid)
    (hmid : mid ≠ []) : ∃ a m b, Placed p s r mid a m b := by
  induction h generalizing before mid with
  | nil => exact absurd (List.append_eq_nil_iff.1 heq.symm).2 hmid
  | @item p q c s r i ts h hi hs ih =>
    obtain ⟨u, hu, -⟩ := hs.text
    have hstep := Placed.step (item?_whole h) ⟨u, hu⟩
      (fun hts => Spells.dropSpace_eq (hts ▸ hs)) (fun before mid h hm => ih h hm) heq hmid
    rwa [← item?_text h] at hstep
  | @group p p' q c c' s s' r d inner ts h hin h' hs ihin ih =>
    obtain ⟨u, rfl, rfl⟩ := hin.text
    obtain ⟨v, rfl, -⟩ := hs.text
    have hafter : ((p.next c).after u).next c' = p.after (c :: (u ++ [c'])) := by simp
    rw [hafter] at ih hs heq
    rw [← List.singleton_append] at heq
    have hstep := Placed.step (fun _ => Whole.group h h') ⟨v, rfl⟩
      (fun hts => Spells.dropSpace_eq (hts ▸ hs)) (fun before mid h hm => ih h hm) heq hmid
    simpa using hstep

end

/-! ### Trees at any depth -/

/-- The tree is one of `ts` or stands in a group among them, at any depth. -/
inductive Within (t : Tree) : List Tree → Prop
  | here {ts : List Tree} (h : t ∈ ts) : Within t ts
  | inside {d : Delimiter} {inner ts : List Tree} {span : Span} (h : .group d inner span ∈ ts)
      (hin : Within t inner) : Within t ts

section

variable {p q : Position} {s r : List Char} {t : Tree} {ts us : List Tree}

theorem within_append : Within t (ts ++ us) ↔ Within t ts ∨ Within t us := by
  constructor
  · rintro (h | ⟨h, hin⟩)
    · exact (List.mem_append.1 h).imp .here .here
    · exact (List.mem_append.1 h).imp (.inside · hin) (.inside · hin)
  · rintro ((h | ⟨h, hin⟩) | (h | ⟨h, hin⟩))
    · exact .here (List.mem_append_left _ h)
    · exact .inside (List.mem_append_left _ h) hin
    · exact .here (List.mem_append_right _ h)
    · exact .inside (List.mem_append_right _ h) hin

theorem within_group {d : Delimiter} {inner : List Tree} {span : Span} :
    Within t [.group d inner span] ↔ t = .group d inner span ∨ Within t inner := by
  constructor
  · rintro (h | ⟨h, hin⟩)
    · exact .inl (List.mem_singleton.1 h)
    · cases List.mem_singleton.1 h
      exact .inr hin
  · rintro (rfl | h)
    · exact .here (List.mem_singleton_self _)
    · exact .inside (List.mem_singleton_self _) h

theorem not_within_nil : ¬ Within t [] := by
  rintro (h | ⟨h, -⟩) <;> cases h

/-- The trees of a documentation comment stand at its place, those of its note too. -/
theorem span_of_within_trees {i : Item} {span : Span} (h : Within t (i.trees span)) :
    t.span = span := by
  cases h with
  | here h => exact span_of_mem_trees h
  | @inside d inner _ span' h hin =>
    cases i with
    | doc outer n =>
      have hinner : inner = [.word "doc" span, .mark '=' false span, .literal ['"', '"'] span] := by
        cases outer <;>
          simp only [Item.trees, docTrees, Bool.false_eq_true, if_true, if_false, List.mem_cons,
            Tree.group.injEq, List.not_mem_nil, reduceCtorEq, or_false, false_or] at h <;>
          exact h.2.1
      subst hinner
      rcases hin with h | ⟨h, -⟩
      · simp only [List.mem_cons, List.not_mem_nil, or_false] at h
        rcases h with rfl | rfl | rfl <;> rfl
      · simp only [List.mem_cons, List.not_mem_nil, or_false, reduceCtorEq] at h
    | leaf l n => cases l <;> cases List.mem_singleton.1 h
    | _ => cases h

theorem trees_of_within {i : Item} {span : Span} (h : Within t (i.trees span)) :
    i.trees span = [t] ∨ ∃ outer, i.trees span = docTrees outer t.span := by
  cases i with
  | doc outer n => exact .inr ⟨outer, by rw [span_of_within_trees h]; rfl⟩
  | leaf l n =>
    left
    cases h with
    | here h => rw [List.mem_singleton.1 h]; rfl
    | inside h _ => cases l <;> cases List.mem_singleton.1 h
  | _ => exact absurd h not_within_nil

/-- The text `m` at `p` is read as the tree `t` when `rest` follows, or as a documentation comment
that `t` is a part of. -/
structure Stands (p : Position) (t : Tree) (m rest : List Char) : Prop where
  whole : Whole p m [t]
  reads : ∃ ts, Spells p (m ++ rest) ts (p.after m) rest ∧ Within t ts ∧
    (ts = [t] ∨ ∃ outer, ts = docTrees outer t.span)

/-- Every tree that is read, however deep, stands for a part of the text, at the place where that
part is. -/
theorem Spells.stands (h : Spells p s ts q r) (ht : Within t ts) :
    ∃ a m b, s = a ++ (m ++ (b ++ r)) ∧ Stands (p.after a) t m (b ++ r) := by
  induction h with
  | nil => exact absurd ht not_within_nil
  | @item p q c s r i ts h hi hs ih =>
    rcases within_append.1 ht with ht | ht
    · obtain ⟨u, hu, -⟩ := hs.text
      have hne : i.trees ⟨p, p.after ((c :: s).take i.length)⟩ ≠ [] := by
        intro hnil
        rw [hnil] at ht
        exact not_within_nil ht
      have hwhole := item?_whole h hne
      have htext : c :: s = (c :: s).take i.length ++ (u ++ r) := by
        rw [← hu]
        exact item?_text h
      have hread := Spells.item (p := p) h hi .nil
      rw [List.append_nil, hu] at hread
      have hstands : Stands p t ((c :: s).take i.length) (u ++ r) := by
        refine ⟨⟨?_, hwhole.starts, hwhole.stops⟩, _, ?_, ht, trees_of_within ht⟩
        · intro t' ht'
          rw [List.mem_singleton.1 ht']
          exact span_of_within_trees ht
        · rw [← htext]
          exact hread
      exact ⟨[], _, u, htext, hstands⟩
    · obtain ⟨a, m, b, hs', hstands⟩ := ih ht
      refine ⟨(c :: s).take i.length ++ a, m, b, ?_, by rwa [Position.after_append]⟩
      rw [List.append_assoc, ← hs']
      exact item?_text h
  | @group p p' q c c' s s' r d inner ts h hin h' hs ihin ih =>
    obtain ⟨u, rfl, rfl⟩ := hin.text
    obtain ⟨v, rfl, -⟩ := hs.text
    have hafter : ((p.next c).after u).next c' = p.after (c :: (u ++ [c'])) := by simp
    have hgroup := Spells.group h hin h' .nil
    rw [hafter] at ih ht hgroup
    rw [← List.singleton_append, within_append, within_group] at ht
    rcases ht with (rfl | ht) | ht
    · exact ⟨[], _, v, by simp, Whole.group h h', _, by simpa using hgroup,
        .here (List.mem_singleton_self _), .inl rfl⟩
    · obtain ⟨a, m, b, hu, hstands⟩ := ihin ht
      exact ⟨c :: a, m, b ++ c' :: v, by rw [hu]; simp, by simpa using hstands⟩
    · obtain ⟨a, m, b, hv, hstands⟩ := ih ht
      exact ⟨c :: (u ++ [c']) ++ a, m, b, by rw [hv]; simp, by rwa [Position.after_append]⟩

end

end Notebook.Syntax.Lexer
