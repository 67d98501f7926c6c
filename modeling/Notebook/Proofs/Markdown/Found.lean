import Notebook.Proofs.Markdown.Run

/-!
Where the first block of a kind stands, and what is read after it.
-/

namespace Notebook.Markdown

open LineStart

/-! ### Blank lines -/

section

variable {s : List Char}

theorem itemMark?_of_blank (h : (blankLine? s).isSome = true) : itemMark? s = none := by
  cases s with
  | nil => rfl
  | cons c s =>
    by_cases hc : isInlineBlank c = true
    · simp only [isInlineBlank, Bool.or_eq_true, decide_eq_true_eq] at hc
      rcases hc with ((rfl | rfl) | rfl) | rfl <;> simp [itemMark?, Char.isDigit]
    · rw [blankLine?, List.dropWhile_cons_of_neg hc, lineEnd?_isSome] at h
      exact itemMark?_of_ends h

theorem head?_of_blank (h : (blankLine? s).isSome = true) : s.head? ≠ some '>' := by
  intro hc
  obtain ⟨t, rfl⟩ := List.head?_eq_some_iff.1 hc
  cases h

theorem blankLine?_blanksFrom (n : Nat) (s : List Char) (read base spare : Nat) :
    blankLine? (blanksFrom n s read base spare).2.rest = blankLine? s := by
  induction n, s, read, base, spare using blanksFrom.induct with
  | case1 s read base spare => simp [blanksFrom]
  | case2 n s read base spare ih =>
    simp only [blanksFrom, ih]
    rfl
  | case3 spare n s read base width ih =>
    rw [blanksFrom]
    exact ih
  | case4 n s read base spare h1 h2 =>
    unfold blanksFrom
    split <;> simp_all

theorem openContainers_of_blank {l : LineStart} (h : (blankLine? l.rest).isSome = true) (n : Nat)
    (stack : List Container) : openContainers n stack l = .text stack l := by
  cases n with
  | zero => rfl
  | succ n =>
    have hb := blankLine?_blanksFrom (4 - l.spare) l.rest l.read l.tabBase (l.spare - 4)
    rw [openContainers]
    rcases hl : l.blanks 4 with ⟨_ | missing, inner⟩
    · rfl
    · rw [blanks] at hl
      rw [hl] at hb
      have hinner : (blankLine? inner.rest).isSome = true := by rw [hb]; exact h
      have hq : inner.quote? = none := by
        have hhead := head?_of_blank hinner
        rw [quote?, char?]
        split
        · rename_i c t hr
          rw [hr] at hhead
          rw [if_neg (by rintro rfl; exact hhead rfl)]
          rfl
        · rfl
      simp only [itemStart?, itemMark?_of_blank hinner, hq]

/-- A blank line in no container leaves no block. -/
theorem blocksFrom_blankLine? {r : List Char} (h : blankLine? s = some r) :
    blocksFrom [] false s = blocksFrom [] false r := by
  by_cases hne : s = []
  · subst hne
    cases h
    rfl
  · have hblank : (blankLine? (LineStart.of s).rest).isSome = true := by
      show (blankLine? s).isSome = true
      rw [h]
      rfl
    have hstep : step [] false s = ⟨[], false, none, r⟩ :=
      step_of_blank (openContainers_of_blank hblank _ _) h
    rw [blocksFrom_step hne, hstep]
    rfl

theorem blocksFrom_pastBlank (s : List Char) :
    blocksFrom [] false (pastBlank s) = blocksFrom [] false s := by
  rw [pastBlank]
  cases h : blankLine? s with
  | none => rfl
  | some r => exact (blocksFrom_blankLine? h).symm

/-- Line ends at the start of a text leave no block. -/
theorem blocksFrom_breaks {l : List Char} (hl : ∀ c ∈ l, isLineBreak c = true)
    (hs : s.head? ≠ some '\n') : blocksFrom [] false (l ++ s) = blocksFrom [] false s := by
  induction hn : l.length using Nat.strong_induction_on generalizing l with
  | _ n ih =>
    cases l with
    | nil => rfl
    | cons c l =>
      have hc := hl c (by simp)
      have hends : lineEnd? (c :: l ++ s) = some (afterEnd (c :: l) ++ s) := by
        rcases isLineBreak_iff.1 hc with rfl | rfl
        · rfl
        · cases l with
          | nil =>
            cases s with
            | nil => rfl
            | cons d s =>
              have hd : d ≠ '\n' := fun h => hs (by rw [h]; rfl)
              simp [lineEnd?, afterEnd, hd]
          | cons d l => by_cases hd : d = '\n' <;> simp [lineEnd?, afterEnd, hd]
      have hblank : blankLine? (c :: l ++ s) = some (afterEnd (c :: l) ++ s) := by
        rw [blankLine?, List.cons_append, List.dropWhile_cons_of_neg
          (by simp [isInlineBlank_of_break hc]), ← List.cons_append, hends]
      have hlater : Later (afterEnd (c :: l)) (c :: l) :=
        lineEnd?_later (lineEnd?_of_ends (ends_cons.2 hc))
      rw [blocksFrom_blankLine? hblank]
      exact ih _ (hn ▸ hlater.2) (fun d hd => hl d (hlater.1.subset hd)) rfl

end

/-! ### The first block -/

/-- The text before a block: lines, and at most three spaces on the line of its fence. -/
structure Stands (s y : List Char) (k : Nat) (b : FencedBlock) : Prop where
  place : s = y ++ (List.replicate k ' ' ++ b.opening)
  narrow : k ≤ 3
  lined : ∀ c ∈ y.getLast?, isLineBreak c = true
  fence : ∃ c n, fence? b.opening = some (c, n) ∧ b = fencedBlock [] k c n b.opening

section

variable {p : List Char → Bool} {stack : List Container} {emptyItem : Bool} {s y : List Char}
variable {k : Nat} {b : FencedBlock} {bs : List FencedBlock}

theorem blankLine?_of_fence (k : Nat) {q : List Char} (hq : (fence? q).isSome = true) :
    blankLine? (List.replicate k ' ' ++ q) = none := by
  rw [blankLine?, List.dropWhile_append_of_pos (by
    intro c hc
    rw [List.eq_of_mem_replicate hc]
    rfl)]
  cases q with
  | nil => cases hq
  | cons c q =>
    have hc : isInlineBlank c = false ∧ isLineBreak c = false := by
      rcases eq_of_isSome_fence? hq with rfl | rfl <;> exact ⟨rfl, rfl⟩
    rw [List.dropWhile_cons_of_neg (by simp [hc.1]), ← Option.not_isSome_iff_eq_none,
      lineEnd?_isSome, ends_cons, hc.2]
    simp

/-- The place of a block in what a step leaves is one in the whole text. -/
theorem Stands.of_left {r : List Char} (h : Stands r y k b) (hr : Left s r) :
    ∃ z, Stands s z k b := by
  obtain ⟨c, n, hf, hb⟩ := h.fence
  have hnot : ¬ (blankLine? r).isSome = true ∨ y ≠ [] := by
    by_cases hy : y = []
    · rw [h.place, hy, List.nil_append, blankLine?_of_fence k (by rw [hf]; rfl)]
      exact .inl (by simp)
    · exact .inr hy
  by_cases hy : y = []
  · obtain ⟨z, d, hd, hs⟩ := hr.lined.resolve_right (hnot.resolve_right (not_not.2 hy))
    refine ⟨z ++ [d], ?_, h.narrow, ?_, c, n, hf, hb⟩
    · rw [hs, h.place, hy]
      simp
    · simpa using hd
  · obtain ⟨z, hz⟩ := hr.later.1
    refine ⟨z ++ y, by rw [← hz, List.append_assoc, ← h.place], h.narrow, ?_, c, n, hf, hb⟩
    intro d hd
    refine h.lined d ?_
    rwa [List.getLast?_append_of_ne_nil _ hy] at hd

/-- The first block of a kind, and the blocks after it. -/
theorem blocksFrom_first (h : ofKind p (blocksFrom stack emptyItem s) = b :: bs) :
    (∃ y k, Stands s y k b) ∧ p b.info = true ∧ Later b.closing b.opening ∧
      bs = ofKind p (blocksFrom [] false b.closing) := by
  induction hn : s.length using Nat.strong_induction_on generalizing stack emptyItem s with
  | _ n ih =>
    by_cases hne : s = []
    · subst hne
      rw [blocksFrom_nil] at h
      cases h
    have hleft := step_left stack emptyItem hne
    rw [blocksFrom_step hne, ofKind_append] at h
    cases hfound : (step stack emptyItem s).found with
    | nil =>
      rw [hfound] at h
      obtain ⟨⟨y, k, hst⟩, hrest⟩ := ih _ (hn ▸ hleft.later.2) h rfl
      obtain ⟨z, hz⟩ := hst.of_left hleft
      exact ⟨⟨z, k, hz⟩, hrest⟩
    | cons b' bs' =>
      have hmem : b' ∈ (step stack emptyItem s).found := by simp [hfound]
      obtain ⟨k, c, m, hk, hs, hf, hb, hstep⟩ := found_cases hne hmem
      have hone : (step stack emptyItem s).found = [b'] := by rw [Step.found, hstep]; rfl
      rw [hone] at h
      by_cases hp : p b'.info = true
      · have hkind : ofKind p [b'] = [b'] := by simp [ofKind, hp]
        rw [hkind, List.singleton_append, List.cons.injEq] at h
        obtain ⟨rfl, rfl⟩ := h
        refine ⟨⟨[], k, by simpa using hs, hk, by simp, c, m, hf, hb⟩, hp, ?_, ?_⟩
        · rw [hb]
          exact (fencedEnd_left hf).later
        · rw [hstep, blocksFrom_pastBlank]
      · have hkind : ofKind p [b'] = [] := by simp [ofKind, hp]
        rw [hkind] at h
        obtain ⟨⟨y, k, hst⟩, hrest⟩ := ih _ (hn ▸ hleft.later.2) h rfl
        obtain ⟨z, hz⟩ := hst.of_left hleft
        exact ⟨⟨z, k, hz⟩, hrest⟩

end

end Notebook.Markdown
