import Mathlib.Logic.Relation
import Notebook.Proofs.Document.Recording

/-!
Changes of a notebook that leave the code up to a cell alone: what is built for the cell stays the
same, wherever it stands afterwards.
-/

namespace Notebook

open Program (Manifest Prepared Shape)

/-- What is built of the code of cells. -/
def Program.Prepared.ofCode (shape : Shape) (m : Manifest) (cells : List (List Char)) : Prepared :=
  ⟨Text.joinLines cells, .derive (Text.joinLines cells) m, Program.ofCells shape cells⟩

namespace Document

/-- The code of the cells up to the one at `i`. -/
def codeUpTo (d : Document) (i : Nat) : List (List Char) :=
  (d.cells.take (i + 1)).filterMap Cell.source?

/-- The cell at `i` is one of code. -/
def HasCode (d : Document) (i : Nat) : Prop := ∃ c, d.cells[i]? = some c ∧ c.isCode = true

/-- A notebook with a cell in it is changed, and the cell may move. Markup comes, goes or changes
anywhere, a result is kept in any cell of code, and below the cell anything may happen. -/
inductive Edit : Document × Nat → Document × Nat → Prop where
  | insert {xs ys : List Cell} {t : List Char} {i : Nat} (h : xs.length ≤ i) :
      Edit (⟨xs ++ ys⟩, i) (⟨xs ++ .markup t :: ys⟩, i + 1)
  | remove {xs ys : List Cell} {t : List Char} {i : Nat} (h : xs.length ≤ i) :
      Edit (⟨xs ++ .markup t :: ys⟩, i + 1) (⟨xs ++ ys⟩, i)
  | rewrite {xs ys : List Cell} {t t' : List Char} {i : Nat} :
      Edit (⟨xs ++ .markup t :: ys⟩, i) (⟨xs ++ .markup t' :: ys⟩, i)
  | keep {xs ys : List Cell} {c : Cell} {s o r : List Char} {i : Nat} (h : c.source? = some s) :
      Edit (⟨xs ++ c :: ys⟩, i) (⟨xs ++ .evaluated s o r :: ys⟩, i)
  | below {xs ys zs : List Cell} {i : Nat} (h : xs.length = i + 1) :
      Edit (⟨xs ++ ys⟩, i) (⟨xs ++ zs⟩, i)

variable {d e : Document} {i j : Nat}

theorem prepare_of_hasCode (h : d.HasCode i) (shape : Shape) (m : Manifest) :
    Program.prepare shape m d i = .ok (.ofCode shape m (d.codeUpTo i)) := by
  obtain ⟨c, hc, hcode⟩ := h
  have hcell : d.cell i = .ok c := by rw [cell, hc]
  have hsources : d.sources i = .ok (d.codeUpTo i) :=
    if_pos (List.getElem?_eq_some_iff.1 hc).1
  simp [Program.prepare, hcell, hsources, hcode, bind, Except.bind, Prepared.ofCode]

section

variable {xs ys zs : List Cell} {c c' : Cell}

theorem codeUpTo_insert {t : List Char} (h : xs.length ≤ i) :
    codeUpTo ⟨xs ++ .markup t :: ys⟩ (i + 1) = codeUpTo ⟨xs ++ ys⟩ i := by
  have hleft : xs.take (i + 1 + 1) = xs.take (i + 1) := by
    rw [List.take_of_length_le (by omega), List.take_of_length_le (by omega)]
  have hright : i + 1 + 1 - xs.length = i + 1 - xs.length + 1 := by omega
  rw [codeUpTo, codeUpTo, List.take_append, List.take_append, hleft, hright, List.take_succ_cons,
    List.filterMap_append, List.filterMap_append, List.filterMap_cons_none rfl]

theorem hasCode_insert {t : List Char} (h : xs.length ≤ i) :
    HasCode ⟨xs ++ .markup t :: ys⟩ (i + 1) ↔ HasCode ⟨xs ++ ys⟩ i := by
  have hright : i + 1 - xs.length = i - xs.length + 1 := by omega
  rw [HasCode, HasCode, List.getElem?_append_right h, List.getElem?_append_right (by omega), hright,
    List.getElem?_cons_succ]

/-- A cell may be replaced by one that has the same code, or has none as well. -/
theorem codeUpTo_replace (h : c'.source? = c.source?) :
    codeUpTo ⟨xs ++ c' :: ys⟩ i = codeUpTo ⟨xs ++ c :: ys⟩ i := by
  have hcell (n : Nat) : ((c' :: ys).take n).filterMap Cell.source? =
      ((c :: ys).take n).filterMap Cell.source? := by
    cases n with
    | zero => rfl
    | succ n => simp only [List.take_succ_cons, List.filterMap_cons, h]
  rw [codeUpTo, codeUpTo, List.take_append, List.take_append, List.filterMap_append,
    List.filterMap_append, hcell]

theorem hasCode_replace (h : c'.source? = c.source?) :
    HasCode ⟨xs ++ c' :: ys⟩ i ↔ HasCode ⟨xs ++ c :: ys⟩ i := by
  have hcode : c'.isCode = c.isCode := by rw [Cell.isCode, Cell.isCode, h]
  rcases Nat.lt_trichotomy i xs.length with hi | rfl | hi
  · rw [HasCode, HasCode, List.getElem?_append_left hi, List.getElem?_append_left hi]
  · simp [HasCode, hcode]
  · obtain ⟨n, rfl⟩ := Nat.exists_eq_add_of_lt hi
    rw [HasCode, HasCode, List.getElem?_append_right (by omega),
      List.getElem?_append_right (by omega), show xs.length + n + 1 - xs.length = n + 1 by omega,
      List.getElem?_cons_succ, List.getElem?_cons_succ]

theorem codeUpTo_below (h : xs.length = i + 1) :
    codeUpTo ⟨xs ++ ys⟩ i = xs.filterMap Cell.source? := by
  rw [codeUpTo, ← h, List.take_left]

theorem hasCode_below (h : xs.length = i + 1) :
    HasCode ⟨xs ++ ys⟩ i ↔ HasCode ⟨xs⟩ i := by
  rw [HasCode, HasCode, List.getElem?_append_left (by omega)]

end

/-- A change keeps the code up to the cell, and whether the cell is one of code. -/
theorem Edit.same {p q : Document × Nat} (h : Edit p q) :
    q.1.codeUpTo q.2 = p.1.codeUpTo p.2 ∧ (q.1.HasCode q.2 ↔ p.1.HasCode p.2) := by
  cases h with
  | insert h => exact ⟨codeUpTo_insert h, hasCode_insert h⟩
  | remove h => exact ⟨(codeUpTo_insert h).symm, (hasCode_insert h).symm⟩
  | rewrite => exact ⟨codeUpTo_replace rfl, hasCode_replace rfl⟩
  | keep h => exact ⟨codeUpTo_replace h.symm, hasCode_replace h.symm⟩
  | below h =>
    exact ⟨(codeUpTo_below h).trans (codeUpTo_below h).symm,
      (hasCode_below h).trans (hasCode_below h).symm⟩

theorem same_of_edits {p q : Document × Nat} (h : Relation.ReflTransGen Edit p q) :
    q.1.codeUpTo q.2 = p.1.codeUpTo p.2 ∧ (q.1.HasCode q.2 ↔ p.1.HasCode p.2) := by
  induction h with
  | refl => exact ⟨rfl, .rfl⟩
  | tail _ hstep ih => exact ⟨hstep.same.1.trans ih.1, hstep.same.2.trans ih.2⟩

/-- To keep an outcome in its cell is such a change for every cell. -/
theorem edit_of_record {o : Except Failure Execution.Output} (h : d.record j o = .ok e) (i : Nat) :
    Edit (d, i) (e, i) := by
  obtain ⟨c, s, hc, hs, hcells⟩ := record_ok h
  obtain ⟨hlt, rfl⟩ := List.getElem?_eq_some_iff.1 hc
  obtain ⟨out, r, heq⟩ := evaluation_eq s o
  have hd : d = ⟨d.cells.take j ++ d.cells[j] :: d.cells.drop (j + 1)⟩ := by
    rw [List.getElem_cons_drop, List.take_append_drop]
  have he : e = ⟨d.cells.take j ++ .evaluated s out r :: d.cells.drop (j + 1)⟩ := by
    refine congrArg Document.mk (hcells.trans ?_)
    rw [heq, List.set_eq_take_append_cons_drop, if_pos hlt]
  rw [he]
  nth_rewrite 1 [hd]
  exact .keep hs

theorem edits_of_recordAll (d : Document) (calls : List (Nat × Except Failure Execution.Output))
    (i : Nat) : Relation.ReflTransGen Edit (d, i) ((d.recordAll calls).1, i) := by
  induction calls generalizing d with
  | nil => exact .refl
  | cons call calls ih =>
    rw [recordAll]
    split
    · rename_i e he
      exact .head (edit_of_record he i) (ih e)
    · exact ih d

/-- What is built for a cell of code is told by the code of the cells up to it. So it stays the same
along all changes that leave this code alone, whatever happens to markup, to results and to the
cells below, and to keep the outcomes of any runs is such a change. -/
theorem built_from_code_above (shape : Shape) (m : Manifest) :
    (∀ d e i j, HasCode d i → HasCode e j → d.codeUpTo i = e.codeUpTo j →
      ∃ q, Program.prepare shape m d i = .ok q ∧ Program.prepare shape m e j = .ok q) ∧
    (∀ d e i j, HasCode d i → Relation.ReflTransGen Edit (d, i) (e, j) →
      ∃ q, Program.prepare shape m d i = .ok q ∧ Program.prepare shape m e j = .ok q) ∧
    ∀ d i calls, Relation.ReflTransGen Edit (d, i) ((d.recordAll calls).1, i) := by
  have hcode {d e : Document} {i j : Nat} (hd : d.HasCode i) (he : e.HasCode j)
      (h : d.codeUpTo i = e.codeUpTo j) :
      ∃ q, Program.prepare shape m d i = .ok q ∧ Program.prepare shape m e j = .ok q :=
    ⟨_, prepare_of_hasCode hd shape m, h ▸ prepare_of_hasCode he shape m⟩
  refine ⟨fun d e i j => hcode, fun d e i j hd hedits => ?_,
    fun d i calls => edits_of_recordAll d calls i⟩
  obtain ⟨hsame, hiff⟩ := same_of_edits hedits
  exact hcode hd (hiff.2 hd) hsame.symm

/-! A notebook gets a title, its first cell a result, and the cells below the second one go. -/

theorem built_from_code_above_titled : ∃ q,
    Program.prepare .evaluate .standard ⟨[.code ['1'], .code ['2'], .code ['3']]⟩ 1 = .ok q ∧
    Program.prepare .evaluate .standard
      ⟨[.markup ['#'], .evaluated ['1'] ['1'] [], .code ['2']]⟩ 2 = .ok q := by
  refine (built_from_code_above .evaluate .standard).2.1 _ _ 1 2 ⟨_, rfl, rfl⟩ ?_
  have hkeep : Edit (⟨[.code ['1'], .code ['2'], .code ['3']]⟩, 1)
      (⟨[.evaluated ['1'] ['1'] [], .code ['2'], .code ['3']]⟩, 1) :=
    @Edit.keep [] _ _ _ _ _ _ rfl
  have htitle : Edit (⟨[.evaluated ['1'] ['1'] [], .code ['2'], .code ['3']]⟩, 1)
      (⟨[.markup ['#'], .evaluated ['1'] ['1'] [], .code ['2'], .code ['3']]⟩, 2) :=
    @Edit.insert [] _ _ _ (Nat.zero_le _)
  have hbelow : Edit (⟨[.markup ['#'], .evaluated ['1'] ['1'] [], .code ['2'], .code ['3']]⟩, 2)
      (⟨[.markup ['#'], .evaluated ['1'] ['1'] [], .code ['2']]⟩, 2) :=
    @Edit.below [.markup ['#'], .evaluated ['1'] ['1'] [], .code ['2']] _ _ _ rfl
  exact ((Relation.ReflTransGen.single hkeep).tail htitle).tail hbelow

end Document

end Notebook
