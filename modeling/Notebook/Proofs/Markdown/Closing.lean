import Notebook.Proofs.Markdown.Fence

/-!
Where a fenced block that stands in no container ends: with the first line that closes its fence, or
with the text.
-/

namespace Notebook.Markdown

open LineStart

/-- A line that starts at `s` closes a fence of `n` marks `c`: at most three spaces, as many marks
or more, and nothing but characters of `p` up to the end of the line, at `t`. -/
def ClosesFence (p : Char → Prop) (c : Char) (n : Nat) (s t : List Char) : Prop :=
  ∃ k m w, k ≤ 3 ∧ n ≤ m ∧ (∀ d ∈ w, p d) ∧ Ends t ∧
    s = List.replicate k ' ' ++ (List.replicate m c ++ (w ++ t))

/-- A line of `s` after its first starts at `r`. -/
def LineIn (s r : List Char) : Prop := ∃ y, s = y ++ '\n' :: r

/-- The code of a block stops at a fence that closes it. -/
def FencedBlock.ClosedBy (p : Char → Prop) (b : FencedBlock) : Prop :=
  ∃ c n r t, fence? b.opening = some (c, n) ∧ LineIn b.opening r ∧ ClosesFence p c n r t

/-! ### Lines -/

section

variable {s r : List Char}

theorem lineIn_afterLine (h : '\n' ∈ s) : LineIn s (afterLine s) := by
  induction s with
  | nil => cases h
  | cons c s ih =>
    by_cases hc : c = '\n'
    · exact ⟨[], by simp [afterLine, hc]⟩
    · obtain ⟨y, hy⟩ := ih (by simpa [Ne.symm hc] using h)
      refine ⟨c :: y, ?_⟩
      rw [afterLine, if_neg hc, List.cons_append, ← hy]

theorem LineIn.mem (h : LineIn s r) : '\n' ∈ s := by
  obtain ⟨y, rfl⟩ := h
  simp

/-- The lines after the first are the one after it and those after that one. -/
theorem lineIn_iff (h : '\n' ∈ s) : LineIn s r ↔ r = afterLine s ∨ LineIn (afterLine s) r := by
  constructor
  · rintro ⟨y, rfl⟩
    by_cases hy : '\n' ∈ y
    · rw [afterLine_append hy]
      exact .inr ⟨afterLine y, rfl⟩
    · left
      rw [afterLine_of_not_mem hy]
      simp [afterLine]
  · obtain ⟨y, hy⟩ := lineIn_afterLine h
    rintro (rfl | ⟨z, hz⟩)
    · exact ⟨y, hy⟩
    · refine ⟨y ++ '\n' :: z, ?_⟩
      rw [List.append_assoc, List.cons_append, ← hz]
      exact hy

end

/-! ### Indentation -/

section

variable {s r t : List Char} {c : Char} {k n : Nat}

/-- Blanks that are read in two parts are read as a whole. -/
theorem blanksFrom_add (m n : Nat) (s : List Char) (read base spare : Nat) (h : n = 0 ∨ spare = 0) :
    blanksFrom (n + m - spare) s read base (spare - m) =
        ((blanksFrom n s read base spare).1 + ((blanksFrom n s read base spare).2.blanks m).1,
          ((blanksFrom n s read base spare).2.blanks m).2) ∧
      ((blanksFrom n s read base spare).1 ≠ 0 →
        ((blanksFrom n s read base spare).2.blanks m).1 = m) := by
  induction n, s, read, base, spare using blanksFrom.induct with
  | case1 s read base spare => simp [blanksFrom, blanks]
  | case2 n s read base spare ih =>
    obtain rfl : spare = 0 := by omega
    have hsum : n + 1 + m - 0 = (n + m) + 1 := by omega
    have := ih (.inr rfl)
    simp only [Nat.sub_zero, Nat.zero_sub] at this
    rw [hsum, Nat.zero_sub]
    simpa only [blanksFrom] using this
  | case3 spare n s read base width ih =>
    obtain rfl : spare = 0 := by omega
    have hsum : n + 1 + m - 0 = (n + m) + 1 := by omega
    have hleft : n + 1 - width + m - (width - (n + 1)) = n + m + 1 - width := by omega
    have hspare : width - (n + 1) - m = width - (n + m + 1) := by omega
    have := ih (by omega)
    rw [hleft, hspare] at this
    rw [hsum, Nat.zero_sub]
    simpa only [blanksFrom] using this
  | case4 n s read base spare h1 h2 =>
    obtain rfl : spare = 0 := by omega
    have hsum : n + 1 + m - 0 = (n + m) + 1 := by omega
    have hstay (j : Nat) : blanksFrom j s read base 0 = (j, ⟨s, read, base, 0⟩) := by
      cases j with
      | zero => rw [blanksFrom]
      | succ j =>
        unfold blanksFrom
        split <;> simp_all
    rw [hsum, Nat.zero_sub, hstay, hstay]
    simp only [blanks, Nat.sub_zero, Nat.zero_sub, hstay]
    refine ⟨?_, fun _ => trivial⟩
    congr 1
    omega

/-- A line of code closes its block as if the fences were not indented. -/
theorem closing?_codeStart (hk : k ≤ 3) :
    closing? k c n (codeStart [] k s) = closing? 0 c n (.of s) := by
  have hadd := blanksFrom_add (4 - k) k s 0 0 0 (.inr rfl)
  have hsum : k + (4 - k) - 0 = 4 := by omega
  rw [hsum, Nat.zero_sub] at hadd
  obtain ⟨heq, hmiss⟩ := hadd
  have hcode : codeStart [] k s = (blanksFrom k s 0 0 0).2 := by
    simp [codeStart, Container.enterAll, blanks, LineStart.of]
  have hof : (LineStart.of s).blanks 4 = blanksFrom 4 s 0 0 0 := rfl
  rw [closing?, closing?, hcode, Nat.sub_zero, hof, heq]
  rcases hp : (blanksFrom k s 0 0 0).2.blanks (4 - k) with ⟨_ | missing, l⟩
  · rw [hp] at hmiss
    obtain hzero : (blanksFrom k s 0 0 0).1 = 0 := by
      by_contra hne
      have := hmiss hne
      simp only at this
      omega
    rw [hzero]
    rfl
  · rfl

theorem eq_of_blanksFrom (n : Nat) (s : List Char) (read base spare : Nat) :
    ∃ w, s = w ++ (blanksFrom n s read base spare).2.rest ∧ '\n' ∉ w := by
  induction n, s, read, base, spare using blanksFrom.induct with
  | case1 s read base spare => exact ⟨[], by simp [blanksFrom], by simp⟩
  | case2 n s read base spare ih =>
    obtain ⟨w, hw, hn⟩ := ih
    refine ⟨' ' :: w, ?_, by simpa using hn⟩
    rw [blanksFrom, List.cons_append, ← hw]
  | case3 spare n s read base width ih =>
    obtain ⟨w, hw, hn⟩ := ih
    refine ⟨'\t' :: w, ?_, by simpa using hn⟩
    rw [blanksFrom, List.cons_append, ← hw]
  | case4 n s read base spare h1 h2 =>
    refine ⟨[], ?_, by simp⟩
    unfold blanksFrom
    split <;> simp_all

theorem afterLine_codeStart (k : Nat) (s : List Char) :
    afterLine (codeStart [] k s).rest = afterLine s := by
  obtain ⟨w, hw, hn⟩ := eq_of_blanksFrom k s 0 0 0
  have hcode : codeStart [] k s = (blanksFrom k s 0 0 0).2 := by
    simp [codeStart, Container.enterAll, blanks, LineStart.of]
  rw [hcode]
  nth_rewrite 2 [hw]
  rw [afterLine_of_not_mem hn]

end

/-! ### The line that closes a block -/

section

variable {s r t : List Char} {c : Char} {k n : Nat}

theorem takeWhile_mark (c : Char) (s : List Char) :
    s.takeWhile (· = c) = s.take (s.takeWhile (· = c)).length ∧
      s.takeWhile (· = c) = List.replicate (s.takeWhile (· = c)).length c := by
  constructor
  · exact List.prefix_iff_eq_take.1 ( List.takeWhile_prefix _)
  · refine List.eq_replicate_of_mem fun d hd => ?_
    simpa using List.mem_takeWhile_imp hd

theorem take_of_fence (hf : fence? s = some (c, n)) : s.take n = List.replicate n c := by
  obtain ⟨htake, hmarks⟩ := takeWhile_mark c s
  rw [(fence?_eq_some hf).2.2, ← hmarks]
  exact htake.symm

theorem closingFence?_eq_some (hc : c = '`' ∨ c = '~') {q : List Char} (hq : q ≠ []) :
    closingFence? c n q = some t ↔ ∃ m w, n ≤ m ∧ (∀ d ∈ w, d = ' ') ∧ Ends t ∧
      q = List.replicate m c ++ (w ++ t) := by
  have hne : q.isEmpty = false := by simpa using hq
  simp only [closingFence?, hne, Bool.false_eq_true, if_false]
  constructor
  · intro h
    split at h
    · rename_i hfence
      simp only [Bool.and_eq_true, decide_eq_true_eq, lineEnd?_isSome] at hfence
      obtain ⟨hm, hends⟩ := hfence
      cases h
      refine ⟨(q.takeWhile (· = c)).length,
        (q.drop (q.takeWhile (· = c)).length).takeWhile (· = ' '), hm, ?_, hends, ?_⟩
      · intro d hd
        simpa using List.mem_takeWhile_imp hd
      · obtain ⟨htake, hmarks⟩ := takeWhile_mark c q
        rw [List.takeWhile_append_dropWhile, ← hmarks]
        nth_rewrite 1 [htake]
        rw [List.take_append_drop]
    · cases h
  · rintro ⟨m, w, hm, hw, ht, rfl⟩
    have hmark {d : Char} (hd : isLineBreak d = true ∨ d = ' ') : d ≠ c := by
      rintro rfl
      rcases hc with rfl | rfl <;> simp [isLineBreak] at hd
    have hhead : (w ++ t).head? ≠ some c := by
      intro h
      rw [List.head?_append, Option.or_eq_some_iff] at h
      rcases h with h | ⟨-, h⟩
      · exact hmark (.inr (hw c (List.mem_of_head? h))) rfl
      · exact hmark (.inl (ht c h)) rfl
    have hspace : (w ++ t).dropWhile (· = ' ') = t := by
      rw [List.dropWhile_append_of_pos (by simpa using hw)]
      cases t with
      | nil => rfl
      | cons d t => rcases isLineBreak_iff.1 (ends_cons.1 ht) with rfl | rfl <;> rfl
    have hdrop : (List.replicate m c ++ (w ++ t)).drop m = w ++ t := by
      rw [List.drop_append_of_le_length (by simp)]
      simp
    simp [takeWhile_fence m hhead, hdrop, hspace, hm, lineEnd?_of_ends ht]

/-- A line of code closes the block with a fence and nothing but spaces after it, or as the blank
end of the text. -/
theorem closing?_eq_some (hc : c = '`' ∨ c = '~') (hn : 0 < n) :
    closing? 0 c n (.of s) = some t ↔
      ClosesFence (· = ' ') c n s t ∨ (t = [] ∧ ∃ j ≤ 3, s = List.replicate j ' ') := by
  constructor
  · intro h
    rw [closing?] at h
    split at h
    · cases h
    · rename_i l hmiss hl
      have hnarrow := blanks_narrow_of (s := s) (by rw [hl]; exact hmiss)
      have hindent := indent_le (s := s) (by rw [hl]; exact hmiss)
      have hrest : ((LineStart.of s).blanks 4).2.rest = l.rest := by
        rw [Nat.sub_zero] at hl
        rw [hl]
      rw [hrest] at hnarrow
      by_cases hq : l.rest = []
      · rw [hq] at h hnarrow
        cases h
        exact .inr ⟨rfl, _, hindent, hnarrow.trans (List.append_nil _)⟩
      · obtain ⟨m, w, hm, hw, ht, heq⟩ := (closingFence?_eq_some hc hq).1 h
        exact .inl ⟨_, m, w, hindent, hm, hw, ht, by rw [← heq]; exact hnarrow⟩
  · have hb {j : Nat} {q : List Char} (hj : j ≤ 3) (hq : Solid q) :
        closing? 0 c n (.of (List.replicate j ' ' ++ q)) = closingFence? c n q := by
      have := blanksFrom_spaces hq 4 j 0 0
      obtain ⟨i, hi⟩ : ∃ i, 4 - j = i + 1 := ⟨3 - j, by omega⟩
      have hzero : j - 4 = 0 := by omega
      rw [hi, hzero] at this
      simp only [closing?, blanks, LineStart.of, Nat.sub_zero, Nat.zero_sub, this]
      rfl
    rintro (⟨k, m, w, hk, hm, hw, ht, rfl⟩ | ⟨rfl, j, hj, rfl⟩)
    · obtain ⟨i, rfl⟩ : ∃ i, m = i + 1 := ⟨m - 1, by omega⟩
      have hsolid : Solid (List.replicate (i + 1) c ++ (w ++ t)) := by
        intro d hd
        obtain rfl : c = d := by simpa [List.replicate_succ] using hd
        rcases hc with rfl | rfl <;> decide
      rw [hb hk hsolid]
      exact (closingFence?_eq_some hc (by simp [List.replicate_succ])).2
        ⟨i + 1, w, hm, hw, ht, rfl⟩
    · have := hb hj (q := []) (by simp [Solid])
      rw [List.append_nil] at this
      rw [this]
      rfl

/-- Code that starts with a line goes up to the first line that closes it, or to the end of the
text. -/
theorem endOf_code (hc : c = '`' ∨ c = '~') (hn : 0 < n) (hk : k ≤ 3) (s : List Char) :
    (∃ r, (r = s ∨ LineIn s r) ∧
        ClosesFence (· = ' ') c n r (endOf (codeLine [] k c n) s)) ∨
      (endOf (codeLine [] k c n) s = [] ∧
        ∀ r t, (r = s ∨ LineIn s r) → ¬ ClosesFence (· = ' ') c n r t) := by
  induction hlen : s.length using Nat.strong_induction_on generalizing s with
  | _ l ih =>
    cases hclose : closing? k c n (codeStart [] k s) with
    | some t =>
      rw [endOf_stop (codeLine_closed rfl hclose)]
      rw [closing?_codeStart hk, closing?_eq_some hc hn] at hclose
      rcases hclose with hclose | ⟨rfl, j, hj, rfl⟩
      · exact .inl ⟨s, .inl rfl, hclose⟩
      · refine .inr ⟨rfl, ?_⟩
        rintro r t (rfl | hr) ⟨i, m, w, -, hm, -, -, heq⟩
        · have hmem : c ∈ List.replicate j ' ' := by
            rw [heq]
            have : m ≠ 0 := by omega
            simp [this]
          rw [List.eq_of_mem_replicate hmem] at hc
          rcases hc with hc | hc <;> cases hc
        · simpa using hr.mem
    | none =>
      have hdepth : (Container.enterAll [] (.of s)).1 = [] := rfl
      have hopen := codeLine_open hdepth hclose
      have hfirst (t : List Char) : ¬ ClosesFence (· = ' ') c n s t := by
        intro h
        have := (closing?_eq_some hc hn).2 (.inl h)
        rw [← closing?_codeStart hk, hclose] at this
        cases this
      rw [afterLine_codeStart] at hopen
      by_cases hs : s = []
      · subst hs
        refine .inr ⟨endOf_codeLine_nil, ?_⟩
        rintro r t (rfl | hr)
        · exact hfirst t
        · cases hr.mem
      · have hlater := (afterLine_later hs).2
        rw [endOf_go hopen hlater]
        by_cases hfeed : '\n' ∈ s
        · rcases ih _ (hlen ▸ hlater) (afterLine s) rfl with ⟨r, hr, hcl⟩ | ⟨hend, hall⟩
          · exact .inl ⟨r, .inr ((lineIn_iff hfeed).2 hr), hcl⟩
          · refine .inr ⟨hend, ?_⟩
            rintro r t (rfl | hr)
            · exact hfirst t
            · exact hall r t ((lineIn_iff hfeed).1 hr)
        · rw [afterLine_nil hfeed]
          refine .inr ⟨endOf_codeLine_nil, ?_⟩
          rintro r t (rfl | hr)
          · exact hfirst t
          · exact absurd hr.mem hfeed

theorem afterLine_fenceLine (hf : fence? s = some (c, n)) :
    afterLine (fenceLine n s) = afterLine s := by
  obtain ⟨hc, -, -⟩ := fence?_eq_some hf
  have hblank : '\n' ∉ (s.drop n).takeWhile isInlineBlank := by
    intro h
    have := List.mem_takeWhile_imp h
    cases this
  have hmarks : '\n' ∉ s.take n := by
    rw [take_of_fence hf]
    intro h
    rw [← List.eq_of_mem_replicate h] at hc
    rcases hc with h | h <;> cases h
  calc afterLine (fenceLine n s)
      = afterLine ((s.drop n).takeWhile isInlineBlank ++ fenceLine n s) :=
        (afterLine_of_not_mem hblank _).symm
    _ = afterLine (s.drop n) := by rw [fenceLine, List.takeWhile_append_dropWhile]
    _ = afterLine (s.take n ++ s.drop n) := (afterLine_of_not_mem hmarks _).symm
    _ = afterLine s := by rw [List.take_append_drop]

/-- A block in no container ends with the first line that closes its fence, or with the text. -/
theorem fencedEnd_cases (hf : fence? s = some (c, n)) (hk : k ≤ 3) :
    (∃ r, LineIn s r ∧ ClosesFence (· = ' ') c n r (fencedEnd [] k c n s)) ∨
      (fencedEnd [] k c n s = [] ∧ ∀ r t, LineIn s r → ¬ ClosesFence (· = ' ') c n r t) := by
  obtain ⟨hc, hn, -⟩ := fence?_eq_some hf
  rw [fencedEnd_eq, afterLine_fenceLine hf]
  by_cases hfeed : '\n' ∈ s
  · simpa only [lineIn_iff hfeed] using endOf_code hc (by omega) hk (afterLine s)
  · rw [afterLine_nil hfeed]
    exact .inr ⟨endOf_codeLine_nil, fun r t hr => absurd hr.mem hfeed⟩

end

end Notebook.Markdown
