import Mathlib.Data.List.Forall2
import Notebook.Proofs.Syntax.Exchange

/-!
A text as the pieces that it is read in. Its trees stay the same where what follows it is exchanged.
-/

namespace Notebook.Syntax

namespace Tree

theorem shapes_eq_of_same {x y : List Tree} (h : List.Forall₂ Same x y) :
    shape.shapes x = shape.shapes y := by
  induction h with
  | nil => rfl
  | cons h _ ih => rw [shape.shapes, shape.shapes, same_iff.1 h, ih]

mutual

theorem size_eq_of_shape (t u : Tree) (h : t.shape = u.shape) : t.size = u.size := by
  cases t <;> cases u <;> try cases h
  · rfl
  · rfl
  · rfl
  · rename_i d i s d' i' s'
    rw [shape, shape, Shape.group.injEq] at h
    rw [size, size, sizes_eq_of_shapes i i' h.2]

theorem sizes_eq_of_shapes (x y : List Tree) (h : shape.shapes x = shape.shapes y) :
    size.sizes x = size.sizes y := by
  cases x <;> cases y <;> try cases h
  · rfl
  · rename_i t x u y
    rw [shape.shapes, shape.shapes, List.cons.injEq] at h
    rw [size.sizes, size.sizes, size_eq_of_shape t u h.1, sizes_eq_of_shapes x y h.2]

end

theorem sizes_append (x y : List Tree) :
    size.sizes (x ++ y) = size.sizes x + size.sizes y := by
  induction x with
  | nil => simp [size.sizes]
  | cons t x ih => rw [List.cons_append, size.sizes, size.sizes, ih, Nat.add_assoc]

end Tree

theorem Track.sizes_eq {x y : List Tree} (h : Track [] [] x y) :
    Tree.size.sizes x = Tree.size.sizes y := by
  induction h with
  | ends => rfl
  | @last t u h =>
    have : t.size = u.size := by
      cases h with
      | same h => exact Tree.size_eq_of_shape t u (Tree.same_iff.1 h)
      | mark => rfl
    simp only [Tree.size.sizes, this]
  | @cons t u x y h _ ih =>
    rw [Tree.size.sizes, Tree.size.sizes, Tree.size_eq_of_shape t u (Tree.same_iff.1 h), ih]

namespace Lexer

open Notebook.Text
open Literal (Edge edge_cons ne_of_isEdge Stops)

section

variable {p q q' : Position} {c d : Char} {s t r m u v w z z' : List Char} {i : Item}
  {x y ts : List Tree}

theorem same_trees (i : Item) (a b : Span) : List.Forall₂ Tree.Same (i.trees a) (i.trees b) := by
  cases i with
  | leaf l n =>
    cases l with
    | word => exact .cons .word .nil
    | mark => exact .cons .mark .nil
    | literal => exact .cons .literal .nil
  | doc inner n =>
    cases inner
    · exact .cons .mark (.cons (.group rfl) .nil)
    · exact .cons .mark (.cons .mark (.cons (.group rfl) .nil))
  | _ => exact .nil

theorem item?_space_cases {n : Nat} (h : item? c s = some (.space n)) :
    plainComment? (c :: s) = some n ∨ isSpace c = true ∧ n = 1 := by
  have hleaf (h : (leaf? (c :: s)).map (fun x => Item.leaf x.1 x.2) = some (.space n)) : False := by
    obtain ⟨x, -, h⟩ := Option.map_eq_some_iff.1 h
    cases h
  unfold item? at h
  split at h
  · rename_i m hm
    cases h
    exact .inl hm
  split at h
  · cases h
    exact .inr ⟨‹_›, rfl⟩
  split at h
  · cases h
  split at h
  · split at h
    · exact (hleaf h).elim
    · cases h
  · cases h
  · exact (hleaf h).elim

/-- An item is what stands in the text up to its length, and the rest follows it. -/
theorem item?_parts (h : item? c s = some i) :
    ∃ v t, s = v ++ t ∧ i.length = v.length + 1 ∧ s.drop (i.length - 1) = t ∧
      (c :: s).take i.length = c :: v := by
  have hpos := item?_pos h
  have hle : i.length ≤ (c :: s).length := by
    by_cases hi : ∃ n, i = .space n
    · obtain ⟨n, rfl⟩ := hi
      rcases item?_space_cases h with hn | ⟨-, rfl⟩
      · rcases plainComment?_ends hn with ⟨-, hstops⟩ | ⟨u, v, heq, rfl⟩
        · exact hstops.le
        · rw [heq]
          simp [Item.length]
      · simp [Item.length]
    · exact (item?_stops h (by simpa using hi)).2.le
  obtain ⟨n, hn⟩ : ∃ n, i.length = n + 1 := ⟨i.length - 1, by omega⟩
  rw [List.length_cons] at hle
  refine ⟨s.take n, s.drop n, (List.take_append_drop n s).symm, ?_, ?_, ?_⟩
  · rw [List.length_take, hn]
    omega
  · rw [hn, Nat.add_sub_cancel]
  · rw [hn, List.take_succ_cons]

theorem Spells.of_item (h : item? c (v ++ t) = some i) (hi : i.isBracket = false)
    (hv : i.length = v.length + 1) (hs : Spells (p.after (c :: v)) t ts q r) :
    Spells p (c :: (v ++ t)) (i.trees ⟨p, p.after (c :: v)⟩ ++ ts) q r := by
  have htake : (c :: (v ++ t)).take i.length = c :: v := by simp [hv]
  have hdrop : (v ++ t).drop (i.length - 1) = t := by simp [hv]
  have hs' : Spells (p.after ((c :: (v ++ t)).take i.length)) ((v ++ t).drop (i.length - 1)) ts q
      r := by rwa [htake, hdrop]
  have hitem := Spells.item h hi hs'
  rwa [htake] at hitem

theorem Spells.append (h : Spells p s x q t) (h' : Spells q t y q' r) :
    Spells p s (x ++ y) q' r := by
  induction h with
  | nil => exact h'
  | item hi hbracket _ ih =>
    rw [List.append_assoc]
    exact .item hi hbracket (ih h')
  | group h hin hclose _ _ ih => exact .group h hin hclose (ih h')

theorem Spells.length_le (h : Spells p s ts q r) : r.length ≤ s.length := by
  obtain ⟨u, rfl, -⟩ := h.text
  simp

theorem Spells.eq_of_length_le (h : Spells p s ts q r) (hs : s.length ≤ r.length) :
    s = r ∧ ts = [] := by
  cases h with
  | nil => exact ⟨rfl, rfl⟩
  | item _ _ h =>
    have := h.length_le
    rw [List.length_drop] at this
    rw [List.length_cons] at hs
    omega
  | group _ hin _ h =>
    have := hin.length_le
    have := h.length_le
    simp only [List.length_cons] at *
    omega

/-! ### Ends that are exchanged -/

theorem markChar?_isSome_iff : (markChar? (c :: s)).isSome = true ↔
    isMark c = true ∧ (c = '/' → s.head? ≠ some '/' ∧ s.head? ≠ some '*') := by
  have hplain (hslash : c = '/' → s.head? ≠ some '/' ∧ s.head? ≠ some '*') :
      markChar? (c :: s) = if isMark c then some c else none := by
    rw [markChar?.eq_3]
    · rintro t hc rfl
      exact (hslash hc).1 rfl
    · rintro t hc rfl
      exact (hslash hc).2 rfl
  by_cases hslash : c = '/' → s.head? ≠ some '/' ∧ s.head? ≠ some '*'
  · rw [hplain hslash, and_iff_left hslash]
    split <;> simp_all
  · refine iff_of_false (fun h => hslash ?_) fun h => hslash h.2
    rintro rfl
    constructor <;>
    · intro hs
      obtain ⟨t, rfl⟩ := List.head?_eq_some_iff.1 hs
      cases h

/-- The first two characters tell whether a mark is ahead. -/
theorem markChar?_cons_cons (c d : Char) (s t : List Char) :
    (markChar? (c :: d :: s)).isSome = (markChar? (c :: d :: t)).isSome := by
  rw [Bool.eq_iff_iff, markChar?_isSome_iff, markChar?_isSome_iff]
  rfl

theorem markChar?_of_not_isMark (hc : isMark c = false) (s : List Char) :
    (markChar? (c :: s)).isSome = false := by
  rw [← Bool.not_eq_true, markChar?_isSome_iff, hc]
  simp

theorem Spells.markChar?_eq (hx : Exchange z z')
    (h : Spells p (c :: u ++ (w ++ z)) ts q (w ++ z)) :
    (markChar? (c :: u ++ (w ++ z))).isSome = (markChar? (c :: u ++ (w ++ z'))).isSome := by
  by_cases hnil : u ++ w = []
  · obtain ⟨rfl, rfl⟩ := List.append_eq_nil_iff.1 hnil
    obtain ⟨d, z, rfl⟩ := List.exists_cons_of_ne_nil hx.ne_nil
    simp only [List.nil_append, List.cons_append] at h ⊢
    have hstar : d ≠ '*' := ne_of_isEdge (edge_cons.1 hx.edge) (by decide)
    have hstar' : z'.head? ≠ some '*' :=
      fun h => ne_of_isEdge (hx.edge' _ h) (d := '*') (by decide) rfl
    rw [Bool.eq_iff_iff, markChar?_isSome_iff, markChar?_isSome_iff]
    refine and_congr_right fun _ => forall_congr' ?_
    rintro rfl
    have hd : d ≠ '/' := by
      -- the two would be a comment, but it is read up to the second
      rintro rfl
      cases h with
      | item h _ hs =>
        have hlen := (item?_line_length h).1
        rw [lineLength] at hlen
        have := hs.length_le
        simp [hlen] at this
        omega
      | group h =>
        have := (item?_line_length h).1
        simp [Item.length, lineLength] at this
    have hslash : z'.head? ≠ some '/' := fun h => hd (Option.some.inj (hx.slash h))
    simp [hd, hstar, hslash, hstar']
  · obtain ⟨d, v, hv⟩ := List.exists_cons_of_ne_nil hnil
    rw [List.cons_append, List.cons_append, ← List.append_assoc, ← List.append_assoc, hv]
    exact markChar?_cons_cons ..

theorem errorText_local {d' : Delimiter} (hd : Delimiter.ofClosing? d = some d')
    (h : hasPrefix errorText (c :: (u ++ d :: s)) = false) (t : List Char) :
    hasPrefix errorText (c :: (u ++ d :: t)) = false := by
  have hmem : errorText.dropLast.all (fun d => (Delimiter.ofClosing? d).isNone) = true := by decide
  rw [← Bool.not_eq_true] at h ⊢
  refine fun h' => h ?_
  obtain ⟨r, hr⟩ := Option.isSome_iff_exists.1 h'
  rw [dropPrefix?_eq_some] at hr
  have hsplit : c :: (u ++ [d]) ++ t = errorText ++ r := by simpa using hr
  rcases List.append_eq_append_iff.1 hsplit with ⟨a, ha, -⟩ | ⟨a, ha, -⟩
  · rcases List.eq_nil_or_concat' a with rfl | ⟨a, e, rfl⟩
    · rw [List.append_nil] at ha
      exact Option.isSome_iff_exists.2 ⟨s, dropPrefix?_eq_some.2 (by rw [ha]; simp)⟩
    · -- the bracket would stand inside of the text
      have hin : d ∈ errorText.dropLast := by
        rw [ha, ← List.append_assoc, List.dropLast_concat]
        simp
      have hnone := List.all_eq_true.1 hmem d hin
      rw [hd] at hnone
      cases hnone
  · refine Option.isSome_iff_exists.2 ⟨a ++ s, dropPrefix?_eq_some.2 ?_⟩
    rw [← List.append_assoc, ← ha]
    simp

theorem Exchange.of_closing {d' : Delimiter} (hd : Delimiter.ofClosing? d = some d')
    (s t : List Char) : Exchange (d :: s) (d :: t) ∧ isMark d = false := by
  have hedge : Literal.isEdge d = true ∧ isMark d = false := by
    rcases ofClosing?_cases hd with rfl | rfl | rfl <;> decide
  exact ⟨⟨edge_cons.2 hedge.1, edge_cons.2 hedge.1, by simp, id⟩, hedge.2⟩

theorem item?_exchange (hx : Exchange z z') (h : item? c (v ++ (w ++ z)) = some i)
    (hi : i.isBracket = false) (hlen : i.length = v.length + 1)
    (hfeed : w = [] → z.head? = some '\n' → z'.head? = some '\n')
    (hmark : (markChar? (w ++ z)).isSome = (markChar? (w ++ z')).isSome) :
    item? c (v ++ (w ++ z')) = some i := by
  have hlength : i.length ≤ (v ++ w).length + 1 := by
    rw [List.length_append]
    omega
  have hend (_ : i.isLeaf = false) (h : i.length = (v ++ w).length + 1) :
      z.head? = some '\n' → z'.head? = some '\n' := by
    rw [List.length_append] at h
    exact hfeed (List.eq_nil_of_length_eq_zero (by omega))
  have hlocal := item?_local (v := v ++ w) hx (by simpa using h) hi hlength hend
  rw [List.append_assoc, List.append_assoc] at hlocal
  rcases hlocal with h' | ⟨d, rfl, h'⟩
  · exact h'
  · obtain rfl : v = [] := by simpa [Item.length] using hlen
    rw [List.nil_append] at h' ⊢
    rw [h', ← hmark]
    rfl

/-- The trees of a text are the same before another end, wherever the text stands. What comes
between the text and the end is the same. -/
theorem Spells.exchange (hx : Exchange z z')
    (hfeed : w = [] → z.head? = some '\n' → z'.head? = some '\n')
    (hmark : (markChar? (w ++ z)).isSome = (markChar? (w ++ z')).isSome)
    (h : Spells p (u ++ (w ++ z)) ts q (w ++ z)) (p' : Position) :
    ∃ ts', Spells p' (u ++ (w ++ z')) ts' (p'.after u) (w ++ z') ∧
      List.Forall₂ Tree.Same ts ts' := by
  generalize hs : u ++ (w ++ z) = s at h
  generalize hr : w ++ z = r at h
  induction h generalizing u w z z' p' with
  | nil =>
    obtain rfl : u = [] := List.append_left_eq_self.1 (hs.trans hr.symm)
    exact ⟨[], .nil, .nil⟩
  | @item p q c s r i ts h hi hs' ih =>
    subst hr
    obtain ⟨v, t, rfl, hlen, ht, htake⟩ := item?_parts h
    rw [htake] at hs' ⊢
    rw [ht] at hs' ih
    obtain ⟨u', rfl, -⟩ := hs'.text
    obtain rfl : u = c :: (v ++ u') := by
      refine (List.append_left_inj (w ++ z)).1 ?_
      rw [hs]
      simp
    obtain ⟨ts', hts', hsame⟩ := ih hx hfeed hmark (p'.after (c :: v)) rfl rfl
    have hall := List.rel_append (same_trees i ⟨p, p.after (c :: v)⟩ ⟨p', p'.after (c :: v)⟩) hsame
    have hjoint : (markChar? (u' ++ (w ++ z))).isSome = (markChar? (u' ++ (w ++ z'))).isSome := by
      cases u' with
      | nil => exact hmark
      | cons => exact hs'.markChar?_eq hx
    have hitem : item? c (v ++ (u' ++ w ++ z')) = some i :=
      item?_exchange hx (by simpa using h) hi hlen
        (fun hnil => hfeed (List.append_eq_nil_iff.1 hnil).2) (by simpa using hjoint)
    rw [List.append_assoc] at hitem
    exact ⟨_, by simpa using Spells.of_item hitem hi hlen hts', hall⟩
  | @group p p₁ q c c' s s' r d inner ts h hin h' hs' ihin ih =>
    subst hr
    obtain ⟨u₁, rfl, rfl⟩ := hin.text
    obtain ⟨u₂, rfl, -⟩ := hs'.text
    obtain rfl : u = c :: (u₁ ++ c' :: u₂) := by
      refine (List.append_left_inj (w ++ z)).1 ?_
      rw [hs]
      simp
    obtain ⟨hopening, herror⟩ := (bracket_of_item? h).1 rfl
    have hclosing := (bracket_of_item? h').2 rfl
    obtain ⟨hx', hbracket⟩ := Exchange.of_closing hclosing (u₂ ++ (w ++ z)) (u₂ ++ (w ++ z'))
    obtain ⟨inner', hin', hsame⟩ := ihin (u := u₁) (w := []) hx' (fun _ h => h)
      (by simp [markChar?_of_not_isMark hbracket]) (p'.next c) rfl rfl
    obtain ⟨ts', hts', hall⟩ := ih hx hfeed hmark (((p'.next c).after u₁).next c') rfl rfl
    have hopen : item? c (u₁ ++ c' :: (u₂ ++ (w ++ z'))) = some (.opening d) := by
      rw [item?_of_opening hopening, errorText_local hclosing herror]
      rfl
    exact ⟨_, by simpa using Spells.group hopen hin' (item?_of_closing hclosing _) hts',
      .cons (.group (Tree.shapes_eq_of_same hsame)) hall⟩

/-! ### Pieces -/

/-- At the front of a text, the piece `m` before `r` is read as `ds`. -/
inductive Piece : Position → List Char → List Char → List Tree → Prop
  | item {p : Position} {c : Char} {v r : List Char} {i : Item} (h : item? c (v ++ r) = some i)
      (hi : i.isBracket = false) (hv : i.length = v.length + 1) :
      Piece p (c :: v) r (i.trees ⟨p, p.after (c :: v)⟩)
  | group {p : Position} {c c' : Char} {v r : List Char} {d : Delimiter} {inner : List Tree}
      (h : item? c (v ++ c' :: r) = some (.opening d))
      (hin : Spells (p.next c) (v ++ c' :: r) inner ((p.next c).after v) (c' :: r))
      (h' : item? c' r = some (.closing d)) :
      Piece p (c :: (v ++ [c'])) r [.group d inner ⟨p, p.after (c :: (v ++ [c']))⟩]

theorem Piece.spells (h : Piece p m r ts) : Spells p (m ++ r) ts (p.after m) r := by
  cases h with
  | item h hi hv => simpa using Spells.of_item h hi hv (.nil (p := p.after _))
  | group h hin h' => simpa using Spells.group h hin h' .nil

theorem Piece.length_pos (h : Piece p m r ts) : 0 < m.length := by
  generalize ts = ds at h
  cases h <;> exact Nat.succ_pos _

theorem Spells.uncons (h : Spells p s ts q r) (hs : s ≠ r) :
    ∃ m t ds x, s = m ++ t ∧ ts = ds ++ x ∧ Piece p m t ds ∧ Spells (p.after m) t x q r := by
  cases h with
  | nil => exact absurd rfl hs
  | item h hi hs' =>
    obtain ⟨v, t, rfl, hlen, ht, htake⟩ := item?_parts h
    rw [htake] at hs' ⊢
    rw [ht] at hs'
    exact ⟨_, t, _, _, rfl, rfl, .item h hi hlen, hs'⟩
  | @group p p₁ q c c' s s' r d inner ts h hin h' hs' =>
    obtain ⟨v, rfl, rfl⟩ := hin.text
    have hafter : ((p.next c).after v).next c' = p.after (c :: (v ++ [c'])) := by simp
    rw [hafter] at hs' ⊢
    exact ⟨_, s', _, ts, by simp, rfl, .group h hin h', hs'⟩

theorem Spells.concat (h : Spells p s ts q r) (hs : s ≠ r) :
    ∃ u m x ds, s = u ++ (m ++ r) ∧ ts = x ++ ds ∧ Spells p s x (p.after u) (m ++ r) ∧
      Piece (p.after u) m r ds := by
  induction hlen : s.length using Nat.strong_induction_on generalizing p s ts with
  | _ l ih =>
    obtain ⟨m, t, ds, x, rfl, rfl, hm, ht⟩ := h.uncons hs
    have hpos := hm.length_pos
    by_cases htr : t = r
    · subst htr
      obtain ⟨-, rfl⟩ := ht.eq_of_length_le (Nat.le_refl _)
      exact ⟨[], m, [], ds, rfl, by simp, .nil, hm⟩
    · rw [List.length_append] at hlen
      obtain ⟨u, m', y, ds', rfl, rfl, hy, hm'⟩ := ih _ (by omega) ht htr rfl
      refine ⟨m ++ u, m', ds ++ y, ds', by simp, by simp, ?_, by simpa using hm'⟩
      rw [Position.after_append]
      exact hm.spells.append hy

/-- The last piece that stands for trees, and blanks and plain comments after it. -/
theorem Spells.last (h : Spells p s ts q r) (hts : ts ≠ []) :
    ∃ u m b x ds, s = u ++ (m ++ (b ++ r)) ∧ ts = x ++ ds ∧ ds ≠ [] ∧
      Spells p s x (p.after u) (m ++ (b ++ r)) ∧ Piece (p.after u) m (b ++ r) ds ∧
      Spells (p.after (u ++ m)) (b ++ r) [] q r := by
  induction hlen : s.length - r.length using Nat.strong_induction_on generalizing q r ts with
  | _ l ih =>
    have hne : s ≠ r := by
      rintro rfl
      exact hts (h.eq_of_length_le (Nat.le_refl _)).2
    obtain ⟨w, hw, rfl⟩ := h.text
    obtain ⟨u, m, x, ds, hs, rfl, hx, hm⟩ := h.concat hne
    obtain rfl : w = u ++ m := by
      rw [hw, ← List.append_assoc] at hs
      exact List.append_cancel_right hs
    by_cases hds : ds = []
    · subst hds
      rw [List.append_nil] at hts ⊢
      have hpos := hm.length_pos
      obtain ⟨u', m', b, y, ds, htext, rfl, hds, hy, hm', hb⟩ := ih _
        (by rw [hw] at hlen ⊢; simp at hlen ⊢; omega) hx hts rfl
      refine ⟨u', m', b ++ m, y, ds, by simpa using htext, rfl, hds, by simpa using hy,
        by simpa using hm', ?_⟩
      have hm := hm.spells
      simpa using hb.append hm
    · exact ⟨u, m, [], x, ds, hs, rfl, hds, hx, hm, by simpa using .nil⟩

theorem Piece.span (h : Piece p m r ts) {t : Tree} (ht : t ∈ ts) : t.span = ⟨p, p.after m⟩ := by
  cases h with
  | item => exact span_of_mem_trees ht
  | group =>
    rw [List.mem_singleton.1 ht]
    rfl

/-- A line end is read alone. -/
theorem Piece.of_feed (h : Piece p m r ts) (hm : m.getLast? = some '\n') :
    m = ['\n'] ∧ ts = [] := by
  have hstops (h : Stops (m ++ r) m.length) : False := by
    obtain ⟨u, c, hu, hc⟩ := h.take.concat_eq
    rw [List.take_left] at hu
    rw [hu, List.getLast?_concat] at hm
    exact hc (Option.some.inj hm)
  cases h with
  | @item c v r i h hi hv =>
    by_cases hspace : ∃ n, i = .space n
    · obtain ⟨n, rfl⟩ := hspace
      obtain rfl : n = v.length + 1 := hv
      rcases item?_space_cases h with hn | ⟨-, hn⟩
      · rcases plainComment?_ends hn with ⟨-, hs⟩ | ⟨u, w, hu, hlen⟩
        · exact (hstops hs).elim
        · refine (hstops ⟨u ++ ['*'], '/', w, by simpa using hu, ?_, by decide⟩).elim
          rw [List.length_cons, hlen]
          simp
      · obtain rfl : v = [] := List.eq_nil_of_length_eq_zero (Nat.succ.inj hn)
        exact ⟨by simpa using hm, rfl⟩
    · refine (hstops ?_).elim
      have := (item?_stops h (by simpa using hspace)).2
      rwa [hv] at this
  | @group c c' v r d inner h hin h' =>
    rw [← List.cons_append, List.getLast?_concat] at hm
    obtain rfl : c' = '\n' := Option.some.inj hm
    have hclosing := (bracket_of_item? h').2 rfl
    cases hclosing

theorem Spells.before_feed (h : Spells p (u ++ '\n' :: r) ts q r) :
    Spells p (u ++ '\n' :: r) ts (p.after u) ('\n' :: r) := by
  have hne : u ++ '\n' :: r ≠ r := by
    intro h
    have := congrArg List.length h
    simp at this
    omega
  obtain ⟨v, m, x, ds, htext, rfl, hx, hm⟩ := h.concat hne
  have htext : u ++ ['\n'] = v ++ m := by
    refine (List.append_left_inj r).1 ?_
    simpa using htext
  have hlast : m.getLast? = some '\n' := by
    have hm' : m ≠ [] := List.ne_nil_of_length_pos hm.length_pos
    rw [← List.getLast?_append_of_ne_nil v hm', ← htext, List.getLast?_concat]
  obtain ⟨rfl, rfl⟩ := hm.of_feed hlast
  obtain ⟨rfl, -⟩ := List.append_singleton_inj.1 htext
  simpa using hx

/-! ### Ends after a last piece -/

/-- A group is the same before any end. -/
theorem Piece.of_group {c' : Char} {d : Delimiter} (h : item? c (v ++ c' :: r) = some (.opening d))
    (hin : Spells (p.next c) (v ++ c' :: r) x ((p.next c).after v) (c' :: r))
    (h' : item? c' r = some (.closing d)) (p' : Position) (r' : List Char) :
    ∃ x', Piece p' (c :: (v ++ [c'])) r' [.group d x' ⟨p', p'.after (c :: (v ++ [c']))⟩] ∧
      Tree.shape.shapes x = Tree.shape.shapes x' := by
  obtain ⟨hopening, herror⟩ := (bracket_of_item? h).1 rfl
  have hclosing := (bracket_of_item? h').2 rfl
  obtain ⟨hx, hbracket⟩ := Exchange.of_closing hclosing r r'
  obtain ⟨x', hin', hsame⟩ := Spells.exchange (w := []) hx (fun _ h => h)
    (by simp [markChar?_of_not_isMark hbracket]) hin (p'.next c)
  have hopen : item? c (v ++ c' :: r') = some (.opening d) := by
    rw [item?_of_opening hopening, errorText_local hclosing herror]
    rfl
  exact ⟨x', .group hopen hin' (item?_of_closing hclosing _), Tree.shapes_eq_of_same hsame⟩

/-- The last piece before an end is the same before another end, but for whether a mark touches
it. -/
theorem Piece.exchange (hx : Exchange z z') (h : Piece p m z ts) (hts : ts ≠ [])
    (hdoc : ∀ inner span, ts ≠ docTrees inner span) (p' : Position) :
    ∃ ts', Piece p' m z' ts' ∧ Track [] [] ts ts' := by
  cases h with
  | @item c v _ i h hi hv =>
    have hleaf : i.isLeaf = true := by
      cases i with
      | leaf => rfl
      | doc inner n => exact absurd rfl (hdoc inner _)
      | space => exact absurd rfl hts
      | _ => cases hi
    rcases item?_local hx h hi (Nat.le_of_eq hv) (fun h => by rw [hleaf] at h; cases h) with
      h' | ⟨d, rfl, h'⟩
    · exact ⟨_, .item h' hi hv, .of_same (same_trees i _ _)⟩
    · exact ⟨_, .item h' rfl hv, .last .mark⟩
  | group h hin h' =>
    obtain ⟨x', hm, hsame⟩ := Piece.of_group h hin h' p' z'
    exact ⟨_, hm, .cons (.group hsame) .ends⟩

theorem Spells.exchange_last (hx : Exchange z z')
    (h : Spells p (u ++ (m ++ z)) x (p.after u) (m ++ z)) (hm : Piece (p.after u) m z y)
    (hy : y ≠ []) (hdoc : ∀ inner span, y ≠ docTrees inner span) (p' : Position) :
    ∃ ts', Spells p' (u ++ (m ++ z')) ts' (p'.after (u ++ m)) z' ∧ Track [] [] (x ++ y) ts' := by
  obtain ⟨c, v, rfl⟩ := List.exists_cons_of_ne_nil (List.ne_nil_of_length_pos hm.length_pos)
  have hmark := Spells.markChar?_eq (w := []) hx hm.spells
  obtain ⟨x', hx', hsame⟩ := h.exchange hx (by simp) hmark p'
  obtain ⟨y', hm', htrack⟩ := hm.exchange hx hy hdoc (p'.after u)
  refine ⟨x' ++ y', ?_, htrack.append hsame⟩
  rw [Position.after_append]
  exact hx'.append hm'.spells

/-! ### Ends that a last piece does not look at -/

theorem item?_cases (h : item? c s = some i) (hi : i.isBracket = false) :
    (c = '/' ∧ ∃ d t, s = d :: t ∧ (d = '/' ∨ d = '*')) ∨ (isSpace c = true ∧ i = .space 1) ∨
      ∃ l n, leaf? (c :: s) = some (l, n) ∧ i = .leaf l n := by
  have hleaf (h : (leaf? (c :: s)).map (fun x => Item.leaf x.1 x.2) = some i) :
      ∃ l n, leaf? (c :: s) = some (l, n) ∧ i = .leaf l n := by
    obtain ⟨x, hx, rfl⟩ := Option.map_eq_some_iff.1 h
    exact ⟨x.1, x.2, hx, rfl⟩
  by_cases hcomment : c = '/' ∧ ∃ d t, s = d :: t ∧ (d = '/' ∨ d = '*')
  · exact .inl hcomment
  have hnone : plainComment? (c :: s) = none ∧ docComment? (c :: s) = none := by
    have hkind : commentKind (c :: s) = .none := by
      generalize hs : c :: s = t
      fun_cases commentKind t <;> cases hs <;> simp_all
    have hplain : plainComment? (c :: s) = none := by rw [plainComment?_eq, hkind]
    exact ⟨hplain, by rw [docComment?_eq hplain, hkind]⟩
  unfold item? at h
  rw [hnone.1, hnone.2] at h
  dsimp only at h
  split at h
  · cases h
    exact .inr (.inl ⟨‹_›, rfl⟩)
  split at h
  · split at h
    · exact .inr (.inr (hleaf h))
    · cases h
      cases hi
  · cases h
    cases hi
  · exact .inr (.inr (hleaf h))

/-- What a piece ends with that may be followed by anything: a semicolon or a bracket. -/
def isEnd : Tree → Bool
  | .mark c _ _ => c == ';'
  | .group .. => true
  | _ => false

theorem isSpace_of_isMark (h : isMark c = true) : isSpace c = false := by
  simpa using of_isMark (P := fun d => !isSpace d) (by decide) h

theorem eq_feed_of_lineLength (h : lineLength (u ++ d :: r) = u.length) : d = '\n' := by
  induction u with
  | nil => simpa [lineLength] using h
  | cons e u ih =>
    by_cases he : e = '\n'
    · simp [lineLength, he] at h
    · exact ih (by simpa [lineLength, he] using h)

theorem leaf?_semicolon {j : Bool} {n : Nat} (h : leaf? (c :: s) = some (.mark ';' j, n)) :
    c = ';' ∧ n = 1 := by
  rcases leaf?_cases h with ⟨-, hl⟩ | ⟨t, -, hquote⟩ | ⟨d, t, ht, -, -, -, hl, rfl⟩ | ⟨-, -, hl⟩ |
    ⟨r, -, hl, -⟩
  · cases hl
  · cases (quoteMark?_eq hquote).1
  · cases hl
    cases ht
    exact ⟨rfl, rfl⟩
  · cases hl
  · cases hl

theorem Piece.alone (h : Piece p m r ts) (hr : ∃ d ∈ r.head?, d ≠ '\n')
    (hts : ∀ t ∈ ts.getLast?, isEnd t = true) (p' : Position) (r' : List Char) :
    (∃ ts', Piece p' m r' ts' ∧ Track [] [] ts ts') ∧ Exchange (m ++ r) (m ++ r') ∧
      (markChar? (m ++ r)).isSome = (markChar? (m ++ r')).isSome := by
  have hexchange {c : Char} {v : List Char} (hc : Literal.isEdge c = true) :
      Exchange (c :: v ++ r) (c :: v ++ r') := ⟨edge_cons.2 hc, edge_cons.2 hc, by simp, id⟩
  have hsame (i : Item) (a b : Span) : Track [] [] (i.trees a) (i.trees b) :=
    .of_same (same_trees i a b)
  cases h with
  | @item c v _ i h hi hv =>
    rcases item?_cases h hi with ⟨rfl, d, t, ht, hd⟩ | ⟨hspace, rfl⟩ | ⟨l, n, hl, rfl⟩
    · have hitem : ∃ v', v = d :: v' ∧ item? '/' (v ++ r') = some i := by
        rcases hd with rfl | rfl
        · -- a comment that goes up to a line end
          rw [ht] at h
          have hlen := (item?_line_length h).1
          obtain ⟨d, hd, hfeed⟩ := hr
          obtain ⟨r₀, rfl⟩ := List.head?_eq_some_iff.1 hd
          rw [← ht, ← List.cons_append, hv] at hlen
          exact absurd (eq_feed_of_lineLength hlen.symm) hfeed
        · have hlen := (item?_block_length (ht ▸ h)).1
          obtain ⟨v', rfl, rfl⟩ := Literal.cons_of_append ht (by omega)
          exact ⟨v', rfl, item?_block_local h hv.le r'⟩
      obtain ⟨v', rfl, h'⟩ := hitem
      exact ⟨⟨_, .item h' hi hv, hsame ..⟩, hexchange (by decide), markChar?_cons_cons ..⟩
    · obtain rfl : v = [] := by simpa [Item.length] using hv
      have hmark : isMark c = false := by
        by_contra hc
        rw [isSpace_of_isMark (by simpa using hc)] at hspace
        cases hspace
      refine ⟨⟨_, .item (item?_of_isSpace hspace _) hi hv, hsame ..⟩,
        hexchange (isEdge_of_isSpace hspace), ?_⟩
      simp [markChar?_of_not_isMark hmark]
    · obtain ⟨j, rfl⟩ : ∃ j, l = .mark ';' j := by
        have hend := hts _ rfl
        cases l with
        | mark c j => exact ⟨j, by rw [eq_of_beq hend]⟩
        | _ => cases hend
      obtain ⟨rfl, rfl⟩ := leaf?_semicolon hl
      obtain rfl : v = [] := by simpa [Item.length] using hv
      have hitem : item? ';' r' = some (.leaf (.mark ';' (markChar? r').isSome) 1) := by
        rw [item?_of_leaf (by decide) rfl rfl rfl, leaf?_of_isMark rfl (by decide) rfl]
        rfl
      exact ⟨⟨_, .item hitem rfl rfl, .last .mark⟩, hexchange (by decide), rfl⟩
  | @group c _ _ _ _ _ h hin h' =>
    obtain ⟨x', hm, hsame⟩ := Piece.of_group h hin h' p' r'
    have hc : Literal.isEdge c = true ∧ isMark c = false := by
      rcases ofOpening?_cases ((bracket_of_item? h).1 rfl).1 with rfl | rfl | rfl <;> decide
    refine ⟨⟨_, hm, .cons (.group hsame) .ends⟩, hexchange hc.1, ?_⟩
    simp [markChar?_of_not_isMark hc.2]

theorem Spells.cut (h : Spells p (u ++ t) x q t) (hu : u ≠ []) (ht : ∃ d ∈ t.head?, d ≠ '\n')
    (hx : ∀ a ∈ x.getLast?, isEnd a = true) (p' : Position) (t' : List Char) :
    ∃ x', Spells p' (u ++ t') x' (p'.after u) t' ∧ Track [] [] x x' := by
  obtain ⟨v, m, y, ds, htext, rfl, hy, hm⟩ := h.concat fun h => hu (List.append_left_eq_self.1 h)
  obtain rfl : u = v ++ m := by
    rw [← List.append_assoc] at htext
    exact List.append_cancel_right htext
  rw [List.append_assoc] at hy
  obtain ⟨⟨ds', hm', htrack⟩, hexchange, hmark⟩ := hm.alone ht (fun a ha => hx a (by
    rw [List.getLast?_append, ha]
    rfl)) (p'.after v) t'
  obtain ⟨y', hy', hsame⟩ := Spells.exchange (w := []) hexchange
    (fun _ h => by
      obtain ⟨c, w, rfl⟩ := List.exists_cons_of_ne_nil (List.ne_nil_of_length_pos hm.length_pos)
      exact h) hmark hy p'
  refine ⟨y' ++ ds', ?_, htrack.append hsame⟩
  rw [List.append_assoc, Position.after_append]
  exact hy'.append hm'.spells

/-! ### Texts parted between trees -/

theorem Piece.starts (h : Piece p m r ts) (hts : ts ≠ []) : ∃ d ∈ m.head?, isSpace d = false := by
  cases h with
  | @item c v _ i h hi hv =>
    refine ⟨c, rfl, (item?_stops h ?_).1⟩
    rintro n rfl
    exact hts rfl
  | @group c _ _ _ _ _ h => exact ⟨c, rfl, (item?_stops h (by simp)).1⟩

theorem isEnd_of_docTrees {inner : Bool} {span : Span} (h : x ++ y = docTrees inner span)
    (hx : x ≠ []) (hy : y ≠ []) : ∃ t ∈ x.getLast?, isEnd t = false := by
  cases inner <;> rcases x with _ | ⟨_, _ | ⟨_, _ | ⟨_, x⟩⟩⟩ <;> simp_all [docTrees, isEnd]

/-- Only a documentation comment stands for more than one tree. -/
theorem Piece.isEnd_of_parted (h : Piece p m r (x ++ y)) (hx : x ≠ []) (hy : y ≠ []) :
    ∃ t ∈ x.getLast?, isEnd t = false := by
  have hlength : 2 ≤ (x ++ y).length := by
    have := List.length_pos_of_ne_nil hx
    have := List.length_pos_of_ne_nil hy
    rw [List.length_append]
    omega
  generalize hts : x ++ y = ts at h hlength
  cases h with
  | @item c v _ i h hi hv =>
    cases i with
    | doc inner n => exact isEnd_of_docTrees hts hx hy
    | _ => simp [Item.trees] at hlength
  | group => simp at hlength

/-- A text is parted where a tree starts, unless it is the middle of a documentation comment. -/
theorem Spells.split (h : Spells p s (x ++ y) q r) (hy : y ≠ [])
    (hx : ∀ t ∈ x.getLast?, isEnd t = true) :
    ∃ u t, s = u ++ t ∧ Spells p s x (p.after u) t ∧ Spells (p.after u) t y q r ∧
      (∀ a ∈ y.head?, a.span.first = p.after u) ∧ ∃ d ∈ t.head?, isSpace d = false := by
  induction hlen : s.length using Nat.strong_induction_on generalizing p s x with
  | _ l ih =>
    have hne : s ≠ r := by
      rintro rfl
      exact hy (List.append_eq_nil_iff.1 (h.eq_of_length_le (Nat.le_refl _)).2).2
    obtain ⟨m, t, ds, z, rfl, hts, hm, ht⟩ := h.uncons hne
    have hpos := hm.length_pos
    rw [List.length_append] at hlen
    have hlater (x' : List Tree) (hx' : x = ds ++ x') (hz : z = x' ++ y) :
        ∃ u t', m ++ t = u ++ t' ∧ Spells p (m ++ t) x (p.after u) t' ∧
          Spells (p.after u) t' y q r ∧ (∀ a ∈ y.head?, a.span.first = p.after u) ∧
          ∃ d ∈ t'.head?, isSpace d = false := by
      subst hx' hz
      obtain ⟨u, t', rfl, hu, hy', hfirst, hd⟩ := ih _ (by omega) ht (fun a ha => hx a (by
        rw [List.getLast?_append, ha]
        rfl)) rfl
      refine ⟨m ++ u, t', by simp, ?_, by simpa using hy', by simpa using hfirst, hd⟩
      rw [Position.after_append]
      exact hm.spells.append hu
    rcases List.append_eq_append_iff.1 hts with ⟨a, rfl, rfl⟩ | ⟨a, rfl, rfl⟩
    · by_cases ha : a = []
      · subst ha
        exact hlater [] (by simp) rfl
      by_cases hnil : x = []
      · subst hnil
        obtain ⟨d, hd, hspace⟩ := hm.starts ha
        refine ⟨[], m ++ t, rfl, .nil, h, ?_, d, ?_, hspace⟩
        · intro b hb
          rw [List.head?_append_of_ne_nil _ ha] at hb
          rw [hm.span (List.mem_of_mem_head? hb)]
          rfl
        · rw [List.head?_append_of_ne_nil _ (List.ne_nil_of_length_pos hpos)]
          exact hd
      · obtain ⟨t, ht, hend⟩ := hm.isEnd_of_parted hnil ha
        rw [hx t ht] at hend
        cases hend
    · exact hlater _ rfl rfl

/-! ### Reading pieces -/

theorem Spells.read_eq (h : Spells p s ts q r) (stack : List Frame) (before : List Tree) :
    read p stack before s = read q stack (ts.reverse ++ before) r := by
  induction h generalizing stack before with
  | nil => rfl
  | @item p q c s r i ts h hi _ ih =>
    rw [read_cons, h, Option.bind_some, List.reverse_append, List.append_assoc, ← ih]
    cases i <;> first | rfl | cases hi
  | @group p p' q c c' s s' r d inner ts h _ h' _ ihin ih =>
    calc read p stack before (c :: s)
      _ = read (p.next c) (⟨d, p, before⟩ :: stack) [] s := by rw [read_cons, h]; rfl
      _ = read p' (⟨d, p, before⟩ :: stack) inner.reverse (c' :: s') := by
        rw [ihin, List.append_nil]
      _ = read (p'.next c') stack (.group d inner ⟨p, p'.next c'⟩ :: before) s' := by
        rw [read_cons, h']
        simp [Item.length]
      _ = read q stack ((.group d inner ⟨p, p'.next c'⟩ :: ts).reverse ++ before) r := by
        rw [ih]
        simp

theorem Spells.trees? (h : Spells .start s ts q []) (hs : s.head? ≠ some '\uFEFF') :
    trees? s = some ts := by
  have hmark : dropPrefix? ['\uFEFF'] s = none := by
    rcases s with _ | ⟨c, s⟩
    · rfl
    · have hc : '\uFEFF' ≠ c := fun hc => hs (by rw [hc]; rfl)
      simp [dropPrefix?, hc]
  rw [Lexer.trees?, hmark, Option.getD_none, h.read_eq [] [], read]
  simp

end

end Lexer

end Notebook.Syntax
