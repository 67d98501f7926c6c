import Mathlib.Data.List.Induction
import Mathlib.Data.List.TakeWhile
import Notebook.Syntax.Position
import Notebook.Text.Blank
import Notebook.Text.Utf8

/-!
Lines and columns against characters and bytes.
-/

namespace Notebook

namespace Text.Utf8

/-- The text before a byte and the text from it on, if a character starts there or the text ends. -/
def split? : Nat → List Char → Option (List Char × List Char)
  | 0, s => some ([], s)
  | _ + 1, [] => none
  | n + 1, c :: s =>
    if c.utf8Size ≤ n + 1 then (split? (n + 1 - c.utf8Size) s).map fun (a, b) => (c :: a, b)
    else none

theorem split?_append (s t : List Char) : split? (size s) (s ++ t) = some (s, t) := by
  induction s with
  | nil =>
    cases t <;> rfl
  | cons c s ih =>
    obtain ⟨n, hn⟩ : ∃ n, c.utf8Size + size s = n + 1 :=
      ⟨c.utf8Size + size s - 1, by have := c.utf8Size_pos; omega⟩
    have hrest : n + 1 - c.utf8Size = size s := by omega
    rw [size_cons, hn, List.cons_append, split?, if_pos (by omega), hrest, ih]
    rfl

theorem split?_take (n : Nat) (s : List Char) :
    split? (size (s.take n)) s = some (s.take n, s.drop n) := by
  have h := split?_append (s.take n) (s.drop n)
  rwa [List.take_append_drop] at h

theorem split?_eq_some_iff {n : Nat} {s a b : List Char} :
    split? n s = some (a, b) ↔ s = a ++ b ∧ n = size a := by
  constructor
  · intro h
    fun_induction split? n s generalizing a with
    | case1 s =>
      cases h
      exact ⟨rfl, rfl⟩
    | case2 => cases h
    | case3 n c s hle ih =>
      obtain ⟨⟨a, b⟩, hab, h⟩ := Option.map_eq_some_iff.1 h
      cases h
      obtain ⟨rfl, hn⟩ := ih hab
      refine ⟨rfl, ?_⟩
      rw [size_cons, ← hn]
      omega
    | case4 => cases h
  · rintro ⟨rfl, rfl⟩
    exact split?_append a b

/-- A place in the text or its end, by bytes, that is not inside a character. -/
def IsBoundary (s : List Char) (p : Nat) : Prop :=
  (⟨p⟩ : String.Pos.Raw).IsValid (String.ofList s)

theorem utf8ByteSize_ofList (s : List Char) : (String.ofList s).utf8ByteSize = size s := by
  induction s with
  | nil => rfl
  | cons c s ih =>
    rw [String.ofList_cons, String.utf8ByteSize_append, String.utf8ByteSize_singleton, ih,
      size_cons]

theorem isBoundary_append (s t : List Char) : IsBoundary (s ++ t) (size s) :=
  String.Pos.Raw.isValid_ofList.2 ⟨s.length, by rw [List.take_left, utf8ByteSize_ofList]⟩

/-- The text can be parted at its boundaries and nowhere else. -/
theorem isBoundary_iff {s : List Char} {p : Nat} :
    IsBoundary s p ↔ ∃ a b, split? p s = some (a, b) := by
  constructor
  · intro h
    obtain ⟨n, hn⟩ := String.Pos.Raw.isValid_ofList.1 h
    rw [utf8ByteSize_ofList] at hn
    cases hn
    exact ⟨_, _, split?_take n s⟩
  · rintro ⟨a, b, h⟩
    obtain ⟨rfl, rfl⟩ := split?_eq_some_iff.1 h
    exact isBoundary_append a b

end Text.Utf8

namespace Syntax

open Text Utf8

section

variable {s t : List Char} {c : Char}

/-- The length of the last line that was started. -/
def lastColumn (s : List Char) : Nat := (s.reverse.takeWhile (· ≠ '\n')).length

theorem lastColumn_concat (s : List Char) (c : Char) :
    lastColumn (s ++ [c]) = if c = '\n' then 0 else lastColumn s + 1 := by
  by_cases hc : c = '\n' <;> simp [lastColumn, hc]

theorem lastColumn_of_not_mem (h : '\n' ∉ s) : lastColumn s = s.length := by
  have htake : s.reverse.takeWhile (· ≠ '\n') = s.reverse := by
    rw [List.takeWhile_eq_self_iff]
    intro c hc
    simp only [ne_eq, decide_not, Bool.not_eq_true', decide_eq_false_iff_not]
    rintro rfl
    exact h (List.mem_reverse.1 hc)
  rw [lastColumn, htake, List.length_reverse]

theorem lastColumn_cons (h : c = '\n' ∨ '\n' ∈ s) : lastColumn (c :: s) = lastColumn s := by
  induction s using List.reverseRecOn with
  | nil =>
    obtain rfl := h.resolve_right (by simp)
    rfl
  | append_singleton s d ih =>
    rw [← List.cons_append, lastColumn_concat, lastColumn_concat]
    by_cases hd : d = '\n'
    · rw [if_pos hd, if_pos hd]
    · rw [if_neg hd, if_neg hd, ih (by simpa [Ne.symm hd] using h)]

theorem Position.after_eq (line : Nat) (s : List Char) :
    (⟨line, 0⟩ : Position).after s = ⟨line + s.count '\n', lastColumn s⟩ := by
  induction s using List.reverseRecOn with
  | nil => rfl
  | append_singleton s c ih =>
    rw [after_append, ih, lastColumn_concat, List.count_append]
    by_cases hc : c = '\n' <;> simp [next, hc, Nat.add_assoc]

theorem Position.line_lt_or_column (p : Position) (s : List Char) : p.line < (p.after s).line ∨
    (p.after s).line = p.line ∧ (p.after s).column = p.column + s.length := by
  induction s generalizing p with
  | nil => exact .inr ⟨rfl, rfl⟩
  | cons c s ih =>
    have hs := ih (p.next c)
    rw [after_cons, List.length_cons]
    by_cases hc : c = '\n'
    · have hnext : (p.next c).line = p.line + 1 := by simp [next, hc]
      left
      omega
    · have hnext : p.next c = ⟨p.line, p.column + 1⟩ := by simp [next, hc]
      rw [hnext] at hs ⊢
      dsimp only at hs
      omega

/-- No two places in a text are the same. -/
theorem Position.after_inj {p : Position} {a b r r' : List Char} (h : a ++ r = b ++ r')
    (hp : p.after a = p.after b) : a = b := by
  have hnil {q : Position} {s : List Char} (hq : q.after s = q) : s = [] := by
    have := q.line_lt_or_column s
    rw [hq] at this
    exact List.eq_nil_of_length_eq_zero (by omega)
  rcases List.append_eq_append_iff.1 h with ⟨t, rfl, -⟩ | ⟨t, rfl, -⟩
  · rw [after_append] at hp
    rw [hnil hp.symm, List.append_nil]
  · rw [after_append] at hp
    rw [hnil hp, List.append_nil]

/-- The line ends of a text and the length of its last line tell how long it is. -/
theorem offsetOf?_append (s t : List Char) :
    offsetOf? (s ++ t) (s.count '\n') (lastColumn s) = some s.length := by
  induction s with
  | nil => simp [offsetOf?, lastColumn]
  | cons c s ih =>
    by_cases hfeed : c = '\n' ∨ '\n' ∈ s
    · rw [lastColumn_cons hfeed, List.cons_append]
      by_cases hc : c = '\n'
      · subst hc
        rw [List.count_cons_self, offsetOf?, if_pos rfl, ih]
        rfl
      · obtain ⟨n, hn⟩ : ∃ n, s.count '\n' = n + 1 := by
          have := List.count_pos_iff.2 (hfeed.resolve_left hc)
          exact ⟨s.count '\n' - 1, by omega⟩
        rw [hn] at ih
        rw [List.count_cons_of_ne hc, hn, offsetOf?, if_neg hc, ih]
        rfl
    · obtain ⟨hc, hs⟩ := not_or.1 hfeed
      have hmem : '\n' ∉ c :: s := by simp [hs, Ne.symm hc]
      have hle : (c :: s).length ≤ ((c :: s ++ t).takeWhile (· ≠ '\n')).length := by
        rw [List.takeWhile_append_of_pos, List.length_append]
        · exact Nat.le_add_right _ _
        · intro d hd
          simp only [ne_eq, decide_not, Bool.not_eq_true', decide_eq_false_iff_not]
          rintro rfl
          exact hmem hd
      rw [List.count_eq_zero.2 hmem, lastColumn_of_not_mem hmem, offsetOf?, Nat.min_eq_left hle]

/-! ### Bytes -/

/-- The byte at a column of a line, found line by line. A line feed is one byte. -/
def byteOffsetFrom (start : Nat) : List (List Char) → Nat → Nat → Option Nat
  | [], _, _ => none
  | l :: _, 0, column => some (start + size (l.take column))
  | l :: ls, line + 1, column => byteOffsetFrom (start + size l + 1) ls line column

def byteOffsetOf? (s : List Char) (line column : Nat) : Option Nat :=
  byteOffsetFrom 0 (splitLines s) line column

theorem splitLines_eq_cons (s : List Char) :
    ∃ ls, splitLines s = s.takeWhile (· ≠ '\n') :: ls := by
  induction s with
  | nil => exact ⟨[], rfl⟩
  | cons c s ih =>
    obtain ⟨ls, hls⟩ := ih
    by_cases hc : c = '\n'
    · exact ⟨s.takeWhile (· ≠ '\n') :: ls, by simp [splitLines, hls, hc]⟩
    · exact ⟨ls, by simp [splitLines, hls, hc]⟩

theorem byteOffsetFrom_splitLines (start : Nat) (s : List Char) (line column : Nat) :
    byteOffsetFrom start (splitLines s) line column =
      (offsetOf? s line column).map fun n => start + size (s.take n) := by
  induction s generalizing start line with
  | nil => cases line <;> simp [splitLines, byteOffsetFrom, offsetOf?]
  | cons c s ih =>
    obtain ⟨ls, hls⟩ := splitLines_eq_cons s
    rw [hls] at ih
    by_cases hc : c = '\n'
    · subst hc
      have hlines : splitLines ('\n' :: s) = [] :: s.takeWhile (· ≠ '\n') :: ls := by
        simp [splitLines, hls]
      have hsize : '\n'.utf8Size = 1 := rfl
      cases line with
      | zero => simp [hlines, byteOffsetFrom, offsetOf?]
      | succ line =>
        rw [hlines, byteOffsetFrom, ih, offsetOf?, if_pos rfl, Option.map_map]
        congr 1
        funext n
        simp [hsize, Nat.add_assoc]
    · have hlines : splitLines (c :: s) = (c :: s.takeWhile (· ≠ '\n')) :: ls := by
        simp [splitLines, hls, hc]
      cases line with
      | zero =>
        have hline : (c :: s).takeWhile (· ≠ '\n') = c :: s.takeWhile (· ≠ '\n') := by simp [hc]
        have htake := List.prefix_iff_eq_take.1 ( List.takeWhile_prefix (l := c :: s) (· ≠ '\n'))
        rw [hlines, byteOffsetFrom, offsetOf?, ← hline, Option.map_some, ← List.take_take,
          ← htake]
      | succ line =>
        have hrest := ih (start + c.utf8Size) (line + 1)
        rw [byteOffsetFrom, Nat.add_assoc start, ← size_cons] at hrest
        rw [hlines, byteOffsetFrom, hrest, offsetOf?, if_neg hc, Option.map_map]
        congr 1
        funext n
        simp [Nat.add_assoc]

theorem byteOffsetOf?_eq (s : List Char) (line column : Nat) :
    byteOffsetOf? s line column = (offsetOf? s line column).map fun n => size (s.take n) := by
  rw [byteOffsetOf?, byteOffsetFrom_splitLines]
  simp

end

end Syntax

end Notebook
