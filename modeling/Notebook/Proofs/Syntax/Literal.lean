import Mathlib.Data.List.TakeWhile
import Notebook.Syntax.Literal

/-!
A literal or an identifier is not empty, and its last character ends no line.
-/

namespace Notebook.Syntax.Literal

open Notebook.Text

/-- The first `n` characters of a text are there, and the last of them ends no line. -/
def Stops (t : List Char) (n : Nat) : Prop :=
  ∃ u c v, t = u ++ c :: v ∧ n = u.length + 1 ∧ c ≠ '\n'

section

variable {t s : List Char} {n k : Nat} {q : Quoted}

theorem Stops.pos (h : Stops t n) : 0 < n := by
  obtain ⟨u, c, v, -, rfl, -⟩ := h
  omega

theorem Stops.add (h : Stops (t.drop n) k) : Stops t (n + k) := by
  obtain ⟨u, c, v, heq, rfl, hc⟩ := h
  have hlen : n ≤ t.length := by
    by_contra hn
    rw [List.drop_of_length_le (by omega)] at heq
    simp at heq
  refine ⟨t.take n ++ u, c, v, ?_, ?_, hc⟩
  · rw [List.append_assoc, ← heq, List.take_append_drop]
  · rw [List.length_append, List.length_take_of_le hlen]
    omega

theorem Stops.append (h : Stops s s.length) (t : List Char) : Stops (t ++ s) (t ++ s).length := by
  obtain ⟨u, c, v, rfl, hlen, hc⟩ := h
  refine ⟨t ++ u, c, v, by simp, ?_, hc⟩
  rw [List.length_append, hlen, List.length_append]
  rfl

theorem Stops.take (h : Stops t n) : Stops (t.take n) (t.take n).length := by
  obtain ⟨u, c, v, rfl, rfl, hc⟩ := h
  have htake : (u ++ c :: v).take (u.length + 1) = u ++ [c] := by
    rw [List.take_append, List.take_of_length_le (Nat.le_succ _), Nat.add_sub_cancel_left]
    rfl
  rw [htake]
  exact ⟨u, c, [], by simp, by simp, hc⟩

theorem Stops.concat_eq (h : Stops s s.length) : ∃ u c, s = u ++ [c] ∧ c ≠ '\n' := by
  obtain ⟨u, c, v, rfl, hlen, hc⟩ := h
  have hv : v = [] := by simpa using hlen
  exact ⟨u, c, by rw [hv], hc⟩

theorem stops_of_drop {c : Char} (h : t.drop n = c :: s) (hc : c ≠ '\n') : Stops t (n + 1) :=
  Stops.add (k := 1) (h ▸ ⟨[], c, s, rfl, rfl, hc⟩)

theorem drop_succ {c : Char} (h : t.drop n = c :: s) : t.drop (n + 1) = s := by
  rw [← List.drop_drop, h]
  rfl

theorem stops_takeWhile {p : Char → Bool} (hp : p '\n' = false) (hs : s.takeWhile p ≠ []) :
    Stops s (s.takeWhile p).length := by
  obtain ⟨u, c, hu⟩ := (List.eq_nil_or_concat (s.takeWhile p)).resolve_left hs
  rw [List.concat_eq_append] at hu
  have hc : p c = true := List.mem_takeWhile_imp (p := p) (l := s) (by rw [hu]; simp)
  refine ⟨u, c, s.dropWhile p, ?_, by rw [hu]; simp, ?_⟩
  · calc s = s.takeWhile p ++ s.dropWhile p := List.takeWhile_append_dropWhile.symm
      _ = u ++ c :: s.dropWhile p := by rw [hu]; simp
  · rintro rfl
    rw [hp] at hc
    cases hc

theorem plainIdentLength?_stops (h : plainIdentLength? s = some n) : Stops s n := by
  cases s with
  | nil => cases h
  | cons c s =>
    rw [plainIdentLength?, Option.ite_none_right_eq_some] at h
    obtain ⟨hc, h⟩ := h
    have htake : (c :: s).takeWhile isIdentContinue = c :: identTail s :=
      List.takeWhile_cons_of_pos (isIdentContinue_of_isIdentStart hc)
    have := stops_takeWhile (s := c :: s) (p := isIdentContinue) rfl (by rw [htake]; simp)
    rw [htake, List.length_cons] at this
    rw [← Option.some.inj h, Nat.add_comm]
    exact this

/-- A suffix ends like an identifier. -/
theorem Stops.withSuffix (h : Stops t n) : Stops t (withSuffix n (t.drop n)) := by
  rw [Literal.withSuffix]
  cases hs : plainIdentLength? (t.drop n) with
  | none => exact h
  | some m => exact (plainIdentLength?_stops hs).add

/-! ### Texts and characters -/

theorem quotedLength?_stops {fuel : Nat} (h : quotedLength? q fuel n s = some k)
    (hs : t.drop n = s) : Stops t k := by
  fun_induction quotedLength? q fuel n s with
  | case1 | case2 | case5 | case10 => cases h
  | case3 fuel n s =>
    cases h
    rw [← drop_succ hs]
    exact (stops_of_drop hs (by decide)).withSuffix
  | case4 fuel n s _ ih => exact ih h (drop_succ (drop_succ hs))
  | case6 fuel n s _ _ ih | case7 fuel n s _ _ ih =>
    obtain ⟨m, -, h⟩ := Option.bind_eq_some_iff.1 h
    exact ih m h (by rw [← List.drop_drop, drop_succ (drop_succ hs)])
  | case8 fuel n s _ _ _ _ ih =>
    obtain ⟨m, -, h⟩ := Option.bind_eq_some_iff.1 h
    exact ih m h (by rw [← List.drop_drop, drop_succ hs])
  | case9 fuel n c s _ _ _ _ ih => exact ih h (drop_succ hs)

theorem stops_hashes {hashes : Nat} (h : hasPrefix (List.replicate hashes '#') s = true)
    (hs : t.drop n = s) (hn : Stops t n) : Stops t (n + hashes) := by
  cases hashes with
  | zero => exact hn
  | succ hashes =>
    obtain ⟨r, hr⟩ := Option.isSome_iff_exists.1 h
    refine Stops.add (hs ▸ ⟨List.replicate hashes '#', '#', r, ?_, by simp, by decide⟩)
    rw [dropPrefix?_eq_some.1 hr, List.replicate_succ']
    simp

theorem rawLength?_stops {hashes : Nat} (h : rawLength? q hashes n s = some k)
    (hs : t.drop n = s) : Stops t k := by
  fun_induction rawLength? q hashes n s with
  | case1 | case5 | case7 => cases h
  | case2 n s hp =>
    cases h
    have hend := stops_hashes hp (drop_succ hs) (stops_of_drop hs (by decide))
    rw [← drop_succ hs, List.drop_drop]
    exact hend.withSuffix
  | case3 n s hp ih => exact ih h (drop_succ hs)
  | case4 n s ih => exact ih h (drop_succ (drop_succ hs))
  | case6 n c s _ _ _ _ ih => exact ih h (drop_succ hs)

theorem rawTextLength?_stops (h : rawTextLength? q n s = some k) (hs : t.drop n = s) :
    Stops t k := by
  unfold rawTextLength? at h
  dsimp only at h
  split at h
  · rename_i r hr
    rw [Option.ite_none_right_eq_some] at h
    rw [← hs, List.drop_drop, hs] at hr
    exact rawLength?_stops h.2 (drop_succ hr)
  · cases h

theorem textLength?_stops (h : textLength? s = some n) : Stops s n := by
  unfold textLength? at h
  split at h
  · exact quotedLength?_stops h rfl
  · exact rawTextLength?_stops h rfl
  · exact quotedLength?_stops h rfl
  · exact rawTextLength?_stops h rfl
  · exact quotedLength?_stops h rfl
  · exact rawTextLength?_stops h rfl
  · cases h

theorem charLength?_stops (h : charLength? q n s = some k) (hs : t.drop n = s) :
    Stops t k := by
  have hclose {m : Nat} {r r' : List Char} (hr : t.drop m = r) (hr' : r = '\'' :: r') :
      Stops t (withSuffix (m + 1) r') := by
    rw [← drop_succ (hr.trans hr')]
    exact (stops_of_drop (hr.trans hr') (by decide)).withSuffix
  unfold charLength? at h
  dsimp only at h
  split at h
  · rename_i s
    obtain ⟨m, -, h⟩ := Option.bind_eq_some_iff.1 h
    split at h <;> cases h
    rename_i r hr
    exact hclose (by rw [← List.drop_drop, drop_succ hs]) hr
  · rename_i c s _
    rw [Option.ite_none_right_eq_some] at h
    obtain ⟨-, h⟩ := h
    split at h <;> cases h
    exact hclose (drop_succ hs) rfl
  · cases h

theorem characterLength?_stops (h : characterLength? s = some n) : Stops s n := by
  unfold characterLength? at h
  split at h
  · exact charLength?_stops h rfl
  · exact charLength?_stops h rfl
  · cases h

/-! ### Numbers -/

theorem ne_feed_of_isDigit {c : Char} (h : c.isDigit = true) : c ≠ '\n' := by
  rintro rfl
  cases h

/-- The mark of an exponent is not the first character of a number. -/
theorem mantissa?_stops {point point' mark : Bool}
    (h : mantissa? n point s = some (k, point', mark)) (hs : t.drop n = s) (hn : Stops t n) :
    Stops t k ∧ (mark = true → Stops t (k - 1)) := by
  fun_induction mantissa? n point s with
  | case1 | case7 | case8 =>
    cases h
    exact ⟨hn, by simp⟩
  | case2 n point _ =>
    cases h
    exact ⟨stops_of_drop hs (by decide), by simp⟩
  | case3 => cases h
  | case4 n point _ c s _ ih => exact ih h (drop_succ hs) (stops_of_drop hs (by decide))
  | case5 n point c s _ hc ih =>
    refine ih h (drop_succ hs) (stops_of_drop hs ?_)
    rintro rfl
    cases hc
  | case6 n point c s _ _ hc =>
    cases h
    refine ⟨stops_of_drop hs ?_, fun _ => hn⟩
    rcases hc with rfl | rfl <;> decide

theorem exponent_stops {sign digit : Bool} (hs : t.drop n = s) (hn : Stops t n) :
    Stops t (exponent n sign digit s).1 := by
  fun_induction exponent n sign digit s with
  | case1 | case2 | case6 | case7 => exact hn
  | case3 n sign digit c s hc _ _ ih =>
    refine ih (drop_succ hs) (stops_of_drop hs ?_)
    rcases hc with rfl | rfl <;> decide
  | case4 n sign digit c s _ hc ih =>
    exact ih (drop_succ hs) (stops_of_drop hs (ne_feed_of_isDigit hc))
  | case5 n sign digit s _ _ ih => exact ih (drop_succ hs) (stops_of_drop hs (by decide))

theorem floatDigits?_stops (h : floatDigits? s = some n) : Stops s n := by
  cases s with
  | nil => cases h
  | cons c s =>
    rw [floatDigits?, Option.ite_none_right_eq_some] at h
    obtain ⟨hc, h⟩ := h
    obtain ⟨⟨m, point, mark⟩, hm, h⟩ := Option.bind_eq_some_iff.1 h
    have hfirst : Stops (c :: s) 1 := ⟨[], c, s, rfl, rfl, ne_feed_of_isDigit hc⟩
    obtain ⟨hmantissa, hmark⟩ := mantissa?_stops hm rfl hfirst
    dsimp only at h
    split at h
    · rename_i hmark'
      split at h
      · rw [Option.ite_none_right_eq_some] at h
        rw [← Option.some.inj h.2]
        exact hmark hmark'
      · rw [← Option.some.inj h]
        exact exponent_stops rfl hmantissa
    · rw [Option.ite_none_right_eq_some] at h
      rw [← Option.some.inj h.2]
      exact hmantissa

theorem baseDigits?_stops {base : Nat} {digit : Bool} (h : baseDigits? base n digit s = some k)
    (hs : t.drop n = s) (hn : digit = true → Stops t n) : Stops t k := by
  fun_induction baseDigits? base n digit s with
  | case1 | case4 | case7 | case9 => cases h
  | case2 n digit c s hc _ ih =>
    exact ih h (drop_succ hs) fun _ => stops_of_drop hs (ne_feed_of_isDigit hc)
  | case3 n digit c s _ hc ih =>
    refine ih h (drop_succ hs) fun _ => stops_of_drop hs ?_
    rintro rfl
    cases hc
  | case5 n digit s _ _ _ ih => exact ih h (drop_succ hs) fun _ => stops_of_drop hs (by decide)
  | case6 | case8 =>
    cases h
    exact hn rfl

theorem intDigits?_stops (h : intDigits? s = some n) : Stops s n := by
  unfold intDigits? at h
  split at h <;> exact baseDigits?_stops h rfl (by simp)

theorem endNumber?_stops (h : endNumber? s n = some k) (hn : Stops s n) : Stops s k := by
  unfold endNumber? at h
  dsimp only at h
  split at h
  · split at h <;> cases h
    exact hn.withSuffix
  · cases h
    exact hn.withSuffix

theorem numberLength?_stops (h : numberLength? s = some n) : Stops s n := by
  rw [numberLength?, Option.or_eq_some_iff] at h
  rcases h with h | ⟨-, h⟩
  · obtain ⟨m, hm, h⟩ := Option.bind_eq_some_iff.1 h
    exact endNumber?_stops h (floatDigits?_stops hm)
  · obtain ⟨m, hm, h⟩ := Option.bind_eq_some_iff.1 h
    exact endNumber?_stops h (intDigits?_stops hm)

theorem length?_stops (h : length? s = some n) : Stops s n := by
  rw [length?, Option.or_eq_some_iff, Option.or_eq_some_iff] at h
  rcases h with h | ⟨-, h | ⟨-, h⟩⟩
  · exact textLength?_stops h
  · exact characterLength?_stops h
  · exact numberLength?_stops h

end

end Notebook.Syntax.Literal
