import Notebook.Document.Markdown
import Notebook.Proofs.Markdown.Fence

/-!
A cell of code as it is written: one closed block of Rust, whose code is the text of the cell.
-/

namespace Notebook

open Markdown

namespace Cell

/-! ### Runs of backticks -/

/-- The length of the last run, and of the longest one. -/
def countRun (p : Nat × Nat) (c : Char) : Nat × Nat :=
  if c = '`' then (p.1 + 1, max p.2 (p.1 + 1)) else (0, p.2)

theorem longestRun_eq (s : List Char) : longestRun s = (s.foldl countRun (0, 0)).2 := rfl

theorem le_countRun (s : List Char) (p : Nat × Nat) : p.2 ≤ (s.foldl countRun p).2 := by
  induction s generalizing p with
  | nil => exact le_rfl
  | cons c s ih =>
    refine le_trans ?_ (ih _)
    rw [countRun]
    split
    · exact le_max_left _ _
    · exact le_rfl

theorem countRun_ticks (n : Nat) (p : Nat × Nat) (hp : p.1 ≤ p.2) :
    p.1 + n ≤ ((List.replicate n '`').foldl countRun p).2 := by
  induction n generalizing p with
  | zero => exact hp
  | succ n ih =>
    have := ih (p.1 + 1, max p.2 (p.1 + 1)) (le_max_right _ _)
    simp only [List.replicate_succ, List.foldl_cons, countRun, if_true]
    simp only at this
    omega

theorem countRun_le {s : List Char} {p : Nat × Nat} (hp : p.1 ≤ p.2) :
    (s.foldl countRun p).1 ≤ (s.foldl countRun p).2 := by
  induction s generalizing p with
  | nil => exact hp
  | cons c s ih =>
    refine ih ?_
    rw [countRun]
    split
    · exact le_max_right _ _
    · exact Nat.zero_le _

theorem le_longestRun {s : List Char} {n : Nat} (h : List.replicate n '`' <:+: s) :
    n ≤ longestRun s := by
  obtain ⟨a, b, rfl⟩ := h
  rw [longestRun_eq, List.foldl_append, List.foldl_append]
  have hrun : (a.foldl countRun (0, 0)).1 ≤ (a.foldl countRun (0, 0)).2 := countRun_le le_rfl
  refine le_trans ?_ (le_countRun b _)
  exact le_trans (Nat.le_add_left _ _) (countRun_ticks n _ hrun)

/-! ### The written block -/

/-- The length of the fences around a text. -/
def fenceWidth (body : List Char) : Nat := max (longestRun body) 2 + 1

theorem fenced_eq (body : List Char) : fenced body =
    List.replicate (fenceWidth body) '`' ++
      ("rust\n".toList ++ ((body ++ ['\n']) ++ List.replicate (fenceWidth body) '`')) := by
  simp [fenced, fenceWidth]

theorem replicate_fenceWidth (body : List Char) :
    ∃ m, 2 ≤ m ∧ fenceWidth body = m + 1 := ⟨_, le_max_right _ _, rfl⟩

theorem fenced_cons (body : List Char) : ∃ s, fenced body = '`' :: s := by
  obtain ⟨m, -, hm⟩ := replicate_fenceWidth body
  exact ⟨_, by rw [fenced_eq, hm, List.replicate_succ]; rfl⟩

theorem getLast?_fenced (body : List Char) : (fenced body).getLast? = some '`' := by
  obtain ⟨m, -, hm⟩ := replicate_fenceWidth body
  rw [fenced_eq, hm, List.replicate_succ', ← List.append_assoc, ← List.append_assoc,
    ← List.append_assoc, List.getLast?_concat]

theorem not_infix_fence (body : List Char) :
    ¬ List.replicate (fenceWidth body) '`' <:+: body ++ ['\n'] := by
  intro h
  have hpos : List.replicate (fenceWidth body) '`' ≠ [] := by
    rw [fenceWidth]
    simp
  have := le_longestRun (Text.infix_of_append hpos (by simp) h)
  rw [fenceWidth] at this
  omega

section

variable (body : List Char) {t : List Char}

theorem fence?_fenced (t : List Char) :
    fence? (fenced body ++ t) = some ('`', fenceWidth body) := by
  have htake := takeWhile_fence (fenceWidth body) (c := '`')
    (t := "rust\n".toList ++ ((body ++ ['\n']) ++ List.replicate (fenceWidth body) '`') ++ t)
    (by simp)
  rw [← List.append_assoc, ← fenced_eq] at htake
  have hdrop : (fenced body ++ t).drop (fenceWidth body) =
      "rust\n".toList ++ ((body ++ ['\n']) ++ List.replicate (fenceWidth body) '`') ++ t := by
    rw [fenced_eq, List.append_assoc, List.drop_append_of_le_length (by simp)]
    simp
  obtain ⟨s, hs⟩ := fenced_cons body
  obtain ⟨m, hm, hwidth⟩ := replicate_fenceWidth body
  rw [hs, List.cons_append] at htake hdrop ⊢
  simp only [fence?, htake, List.length_replicate, hdrop]
  rw [if_pos]
  have hline (r : List Char) : lineWithEnd ("rust\n".toList ++ r) = "rust\n".toList := rfl
  have hthree : 3 ≤ fenceWidth body := by omega
  rw [List.append_assoc, hline]
  simp [hthree]

theorem opens_fenced (t : List Char) : Opens (fenced body ++ t) := by
  refine opens_of_fence (fence?_fenced body t) ?_
  rw [fenced_eq, List.append_assoc, List.drop_append_of_le_length (by simp)]
  simp [ends_cons, isLineBreak]

theorem fencedBlock_fenced (ht : Ends t) :
    fencedBlock [] 0 '`' (fenceWidth body) (fenced body ++ t) =
      ⟨fenced body ++ t, t, "rust".toList, lineFeeds (body ++ ['\n'])⟩ := by
  have hline : ((fenced body ++ t).drop (fenceWidth body)).dropWhile isInlineBlank =
      "rust\n".toList ++
        ((body ++ ['\n']) ++ (List.replicate (fenceWidth body) '`' ++ t)) := by
    rw [fenced_eq, List.append_assoc, List.drop_append_of_le_length (by simp)]
    simp [isInlineBlank]
  have hread := readOn_code (s := body ++ ['\n']) (n := fenceWidth body) (t := t) (by simp [Lines])
    (not_infix_fence body) (by simp [fenceWidth]) ht
  have hinfo (r : List Char) : lineWithEnd ("rust\n".toList ++ r) = "rust\n".toList := rfl
  have hafter (r : List Char) : afterLine ("rust\n".toList ++ r) = r := rfl
  simp only [fencedBlock, hline, hinfo, hafter, fencedCode, hread]
  rfl

theorem blocksFrom_fenced (ht : Ends t) : blocksFrom [] false (fenced body ++ t) =
    ⟨fenced body ++ t, t, "rust".toList, lineFeeds (body ++ ['\n'])⟩ :: blocksFrom [] false t := by
  rw [blocksFrom_fence (fence?_fenced body t), fencedEnd, fencedBlock_fenced body ht]

end

end Cell

namespace Document

theorem language_rust : language "rust".toList = "rust".toList := by
  have h : unescape "rust".toList = "rust".toList := by
    simp [unescape]
  rw [language, h]
  rfl

theorem partBefore_append (s t : List Char) : partBefore (s ++ t) t = s := by
  simp [partBefore]

theorem splitLines_append (s t : List Char) :
    Text.splitLines (s ++ '\n' :: t) = Text.splitLines s ++ Text.splitLines t := by
  induction s with
  | nil =>
    cases h : Text.splitLines t with
    | nil => exact absurd h (Text.splitLines_ne_nil t)
    | cons l ls => simp [Text.splitLines, h]
  | cons c s ih =>
    cases h : Text.splitLines s with
    | nil => exact absurd h (Text.splitLines_ne_nil s)
    | cons l ls =>
      rw [h] at ih
      by_cases hc : c = '\n' <;> simp [Text.splitLines, ih, h, hc]

theorem splitLines_line {s : List Char} (h : '\n' ∉ s) : Text.splitLines s = [s] := by
  induction s with
  | nil => rfl
  | cons c s ih =>
    obtain ⟨hc, hs⟩ := not_or.1 (List.mem_cons.not.1 h)
    simp [Text.splitLines, ih hs, Ne.symm hc]

theorem dropEndWhile_concat {p : Char → Bool} (s : List Char) {c : Char} (h : p c = false) :
    Text.dropEndWhile p (s ++ [c]) = s ++ [c] := by
  simp [Text.dropEndWhile, h]

theorem dropEndWhile_of_last {p : Char → Bool} {s : List Char}
    (h : ∀ c ∈ s.getLast?, p c = false) : Text.dropEndWhile p s = s := by
  rcases List.eq_nil_or_concat s with rfl | ⟨s, c, rfl⟩
  · rfl
  · rw [List.concat_eq_append] at h ⊢
    exact dropEndWhile_concat s (h c (by simp))

theorem dropWhile_of_head {p : Char → Bool} {s : List Char}
    (h : ∀ c ∈ s.head?, p c = false) : s.dropWhile p = s := by
  cases s with
  | nil => rfl
  | cons c s => rw [List.dropWhile_cons_of_neg (by simp [h c (by simp)])]

theorem trim_ticks {n : Nat} : Text.trim (List.replicate n '`') = List.replicate n '`' := by
  have hblank {c : Char} (hc : c ∈ List.replicate n '`') : Text.isBlank c = false := by
    rw [List.eq_of_mem_replicate hc]
    rfl
  rw [Text.trim, Text.trimWhile, dropWhile_of_head fun c hc => hblank (List.mem_of_mem_head? hc)]
  exact dropEndWhile_of_last fun c hc => hblank (List.mem_of_getLast? hc)

/-- A written block is closed. -/
theorem isClosed_fenced (body t info code : List Char) :
    isClosed ⟨Cell.fenced body ++ t, t, info, code⟩ = true := by
  obtain ⟨s, hs⟩ := Cell.fenced_cons body
  have htrim : Text.trimEnd (partBefore (Cell.fenced body ++ t) t) = Cell.fenced body := by
    rw [partBefore_append]
    refine dropEndWhile_of_last fun c hc => ?_
    rw [Cell.getLast?_fenced, Option.mem_some] at hc
    rw [← hc]
    rfl
  have hhead : (Cell.fenced body).dropWhile Text.isBlank = Cell.fenced body := by
    rw [hs]
    rfl
  have htake : (Cell.fenced body).takeWhile (· = '`') =
      List.replicate (Cell.fenceWidth body) '`' := by
    rw [Cell.fenced_eq]
    exact takeWhile_fence _ (by simp)
  obtain ⟨l, ls, hl⟩ := List.exists_cons_of_ne_nil (Text.splitLines_ne_nil body)
  have hlines : Text.splitLines (Cell.fenced body) =
      (List.replicate (Cell.fenceWidth body) '`' ++ "rust".toList) ::
        l :: (ls ++ [List.replicate (Cell.fenceWidth body) '`']) := by
    have heq : Cell.fenced body = (List.replicate (Cell.fenceWidth body) '`' ++ "rust".toList) ++
        '\n' :: (body ++ '\n' :: List.replicate (Cell.fenceWidth body) '`') := by
      rw [Cell.fenced_eq]
      simp
    rw [heq, splitLines_append, splitLines_append, hl, splitLines_line, splitLines_line]
    · rfl
    · simp
    · simp
  have hlast : (l :: (ls ++ [List.replicate (Cell.fenceWidth body) '`'])).getLast (by simp) =
      List.replicate (Cell.fenceWidth body) '`' := by simp
  rw [hs] at htrim hhead htake hlines
  simp only [isClosed, hs, htrim, hhead, htake, hlines, hlast, trim_ticks]
  simp

end Document

end Notebook
