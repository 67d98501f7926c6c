import Notebook.Proofs.Markdown.Step

/-!
The blocks of a text with empty lines and a fence after it. If the fence is the first that is found
there, then it is so whatever else comes after the text.
-/

namespace Notebook.Markdown

open LineStart

section

variable {stack : List Container} {s : List Char}

/-! ### Progress -/

theorem rule?_left {r : List Char} (h : rule? s = some r) : Left s r := by
  unfold rule? at h
  split at h
  · rename_i c t
    simp only at h
    split at h
    · rename_i hr
      simp only [Bool.and_eq_true, decide_eq_true_eq] at hr
      have hlen := le_trans hr.2 List.count_le_length
      refine ⟨⟨(lineEnd?_suffix h).trans (List.drop_suffix _ _), ?_⟩,
        (lined_lineEnd? h).suffix (List.drop_suffix _ _)⟩
      refine lt_of_le_of_lt (lineEnd?_suffix h).length_le ?_
      rw [List.length_drop, List.length_cons]
      omega
    · cases h
  · cases h

theorem indentedCode_left {blank : Bool} {done r : List Char} (hr : r ≠ []) (hrs : r <:+ s)
    (hd : blank = true → Left s done) : Left s (indentedCode stack blank done r) := by
  induction hlen : r.length using Nat.strong_induction_on generalizing blank done r with
  | _ k ih =>
    have hnext := (left_afterLine hr).suffix hrs
    have hdone : Left s (if blank then done else afterLine r) := by
      cases blank with
      | true => exact hd rfl
      | false => exact hnext
    by_cases hstop : (Container.enterAll stack (.of (afterLine r))).1 = stack →
        (indentStart stack (afterLine r)).1 ≠ 0 ∧ (indentStart stack (afterLine r)).2.atEnd = false ∨
          (indentStart stack (afterLine r)).2.rest = []
    · rwa [indentedCode_done rfl hstop]
    · obtain ⟨hin, hcont⟩ := Classical.not_imp.1 hstop
      obtain ⟨h1, h2⟩ := not_or.1 hcont
      have hlater := (afterLine_later hr).of_suffix (indentStart_suffix stack _)
      have hgo : (indentStart stack (afterLine r)).1 = 0 ∨
          (indentStart stack (afterLine r)).2.atEnd = true := by
        by_contra h
        simp only [not_or, Bool.not_eq_true] at h
        exact h1 h
      rw [indentedCode_go rfl hin rfl h2 hlater.2 hgo]
      exact ih _ (hlen ▸ hlater.2) h2 (hlater.1.trans hrs) (fun _ => hdone) rfl

theorem endOf_markedLine_lined (stack : List Container) (mark : String) (s : List Char) :
    Lined s (endOf (markedLine stack mark) s) := by
  refine endOf_lined (fun s => (markedLine_suffix s).trans (afterLine_suffix s)) ?_ ?_ s
  · intro s r h
    by_cases hs : (Container.enterAll stack (.of (afterLine s))).1 ≠ stack ∨ lineHas mark s = true
    · rw [markedLine_stop hs] at h
      cases h
      exact lined_afterLine s
    · obtain ⟨h1, h2⟩ := not_or.1 hs
      rw [markedLine_go (not_not.1 h1) (by simpa using h2)] at h
      split at h <;> cases h
      exact lined_nil s
  · intro s line r h
    have hsuf : (markedLine stack mark s).rest <:+ afterLine s := markedLine_suffix s
    rw [h] at hsuf
    refine length_lt_of_suffix_afterLine hsuf ?_
    by_cases hs : (Container.enterAll stack (.of (afterLine s))).1 ≠ stack ∨ lineHas mark s = true
    · rw [markedLine_stop hs] at h
      cases h
    · obtain ⟨h1, h2⟩ := not_or.1 hs
      rw [markedLine_go (not_not.1 h1) (by simpa using h2)] at h
      split at h <;> cases h
      assumption

theorem endOf_plainLine_lined (stack : List Container) (s : List Char) :
    Lined s (endOf (plainLine stack) s) := by
  refine endOf_lined (fun s => (plainLine_suffix stack s).trans (afterLine_suffix s)) ?_ ?_ s
  · intro s r h
    simp only [plainLine] at h
    split at h
    · cases h
      exact lined_afterLine s
    · split at h
      · rename_i hb
        cases h
        exact .inr hb
      · cases h
  · intro s line r h
    have hsuf := plainLine_suffix stack s
    rw [h] at hsuf
    refine length_lt_of_suffix_afterLine hsuf ?_
    rintro rfl
    simp only [plainLine] at h
    split at h
    · cases h
    · split at h
      · cases h
      · rename_i hb
        simp only [Next.go.injEq] at h
        rw [h.2] at hb
        exact hb rfl

theorem html?_left {r : List Char} (h : html? stack s = some r) : Left s r := by
  have hne : s ≠ [] := by rintro rfl; cases h
  rcases html?_append stack s with ⟨mark, -, hm⟩ | hp | hn
  · have := hm [] ends_nil
    rw [List.append_nil, h] at this
    cases this
    exact ⟨.of_suffix (endOf_markedLine_suffix stack mark s) (afterLine_later hne),
      endOf_markedLine_lined stack mark s⟩
  · have := hp [] ends_nil
    rw [List.append_nil, h] at this
    cases this
    exact ⟨.of_suffix (endOf_suffix_afterLine (plainLine_suffix stack) s) (afterLine_later hne),
      endOf_plainLine_lined stack s⟩
  · have := hn [] ends_nil
    rw [List.append_nil, h] at this
    cases this

theorem underline?_lined {r : List Char} (h : underline? s = some r) : Lined s r := by
  unfold underline? at h
  split at h
  · split at h
    · exact (lined_blankLine? h).suffix (List.dropWhile_suffix _)
    · cases h
  · cases h

theorem paragraph_lined (stack : List Container) (s : List Char) :
    Lined s (paragraph stack s) := by
  refine endOf_lined paragraphLine_suffix ?_ ?_ s
  · intro s r h
    have hl := Container.enterAll_suffix stack (.of (afterBreak s))
    have hsuf := (blanks_suffix 4 _).trans (hl.trans (afterBreak_suffix s))
    simp only [paragraphLine, paragraphNext, paragraphText] at h
    split at h
    · rename_i r' hu
      cases h
      split at hu
      · exact (underline?_lined hu).suffix hsuf
      · cases hu
    · split at h
      · cases h
        exact lined_afterBreak s
      · split at h
        · cases h
          exact lined_afterBreak s
        · cases h
  · intro s line r h
    have hsuf : (paragraphNext stack (afterBreak s)).rest <:+ afterBreak s := paragraphNext_suffix _
    rw [paragraphLine] at h
    rw [h] at hsuf
    have hr : r ≠ [] := by
      rintro rfl
      simp only [paragraphNext, paragraphText] at h
      split at h
      · cases h
      · split at h
        · cases h
        · split at h
          · cases h
          · rename_i hend
            simp only [Next.go.injEq] at h
            rw [h.2] at hend
            exact hend rfl
    have hne : s ≠ [] := by
      rintro rfl
      exact hr (List.suffix_nil.1 hsuf)
    exact ((afterBreak_later hne).of_suffix hsuf).2

theorem prose_left (hne : s ≠ []) : Left s (prose stack s) := by
  unfold prose
  split
  · rename_i r h
    obtain ⟨q, hq⟩ := Option.isSome_iff_exists.1 (definition?_blank h)
    rw [pastBlank, hq]
    exact ⟨(definition?_later h).of_suffix (blankLine?_suffix hq),
      (lined_blankLine? hq).suffix (definition?_later h).1⟩
  · exact ⟨readOn_later paragraphLine_suffix
      ((afterBreak_later hne).of_suffix (paragraphNext_suffix _)), paragraph_lined stack s⟩

theorem heading?_left {r : List Char} (h : heading? s = some r) : Left s (afterBreak r) := by
  simp only [heading?] at h
  split at h <;> cases h
  rename_i hh
  simp only [Bool.and_eq_true, decide_eq_true_eq] at hh
  have := (List.takeWhile_prefix (fun c => decide (c = '#')) (l := s)).length_le
  have hdrop : Later (s.drop (s.takeWhile (· = '#')).length) s := by
    refine ⟨List.drop_suffix _ _, ?_⟩
    rw [List.length_drop]
    omega
  exact ⟨hdrop.of_suffix (afterBreak_suffix _), (lined_afterBreak _).suffix hdrop.1⟩

theorem closing?_lined {indent n : Nat} {c : Char} {l : LineStart} {r : List Char}
    (h : closing? indent c n l = some r) : Lined s r := by
  refine .inr ?_
  simp only [closing?] at h
  split at h
  · cases h
  · simp only [closingFence?] at h
    split at h
    · cases h
      rfl
    · split at h
      · rename_i he
        cases h
        simp only [Bool.and_eq_true, lineEnd?_isSome] at he
        exact blankLine?_of_ends he.2
      · cases h

/-- A block of code ends with a line. -/
theorem fencedEnd_left {indent n : Nat} {c : Char} (hf : fence? s = some (c, n)) :
    Left s (fencedEnd stack indent c n s) := by
  obtain ⟨-, hn, hlen⟩ := fence?_eq_some hf
  have := (List.takeWhile_prefix (fun d => decide (d = c)) (l := s)).length_le
  have hdrop : Later (s.drop n) s := by
    refine ⟨List.drop_suffix _ _, ?_⟩
    rw [List.length_drop]
    omega
  have hline : fenceLine n s <:+ s := fenceLine_suffix n s
  refine ⟨hdrop.of_suffix ((readOn_suffix codeLine_suffix _).trans
    ((afterLine_suffix _).trans (List.dropWhile_suffix _))), ?_⟩
  rw [fencedEnd_eq]
  refine endOf_of_lines (J := fun q => Lined s q ∧ q <:+ s) ?_ ?_
    ⟨(lined_afterLine _).suffix hline, (afterLine_suffix _).trans hline⟩
  · rintro q r ⟨hq, -⟩ h
    by_cases hin : (Container.enterAll stack (.of q)).1 = stack
    · cases hc : closing? indent c n (codeStart stack indent q) with
      | some r' =>
        rw [codeLine_closed hin hc] at h
        cases h
        exact closing?_lined hc
      | none =>
        rw [codeLine_open hin hc] at h
        cases h
    · rw [codeLine_outside hin] at h
      cases h
      exact hq
  · rintro q line r ⟨-, hq⟩ h
    have hr : Lined s r ∧ r <:+ s := by
      by_cases hin : (Container.enterAll stack (.of q)).1 = stack
      · cases hc : closing? indent c n (codeStart stack indent q) with
        | some r' =>
          rw [codeLine_closed hin hc] at h
          cases h
        | none =>
          rw [codeLine_open hin hc] at h
          cases h
          have hstart : (codeStart stack indent q).rest <:+ s := (codeStart_suffix q).trans hq
          exact ⟨(lined_afterLine _).suffix hstart, (afterLine_suffix _).trans hstart⟩
      · rw [codeLine_outside hin] at h
        cases h
    exact ⟨hr, .inr hr.1⟩

theorem Left.pastBlank {r : List Char} (h : Left s r) : Left s (Markdown.pastBlank r) := by
  rw [Markdown.pastBlank]
  cases hb : Markdown.blankLine? r with
  | none => exact h
  | some q =>
    exact ⟨h.later.of_suffix (blankLine?_suffix hb), (lined_blankLine? hb).suffix h.later.1⟩

/-- What a leaf may be: it is a code block, or it is none and leaves the start of a line behind. -/
theorem leaf_cases (stack : List Container) (indent : Nat) (hne : s ≠ []) :
    (∃ r, Left s r ∧ leaf stack indent s = ⟨stack, false, none, r⟩) ∨
      ∃ c n, fence? s = some (c, n) ∧ leaf stack indent s =
        ⟨stack, false, some (fencedBlock stack indent c n s),
          pastBlank (fencedEnd stack indent c n s)⟩ := by
  cases h : html? stack s with
  | some r => exact .inl ⟨r, html?_left h, leaf_of_html h⟩
  | none =>
    cases hr : rule? s with
    | some r => exact .inl ⟨r, rule?_left hr, leaf_of_rule h hr⟩
    | none =>
      cases hh : heading? s with
      | some r => exact .inl ⟨_, heading?_left hh, leaf_of_heading h hr hh⟩
      | none =>
        cases hf : fence? s with
        | some p => exact .inr ⟨p.1, p.2, rfl, leaf_of_fence indent h hr hh hf⟩
        | none => exact .inl ⟨_, prose_left hne, leaf_of_prose h hr hh hf⟩

/-- Less than four blanks at the start of a line are spaces. -/
theorem blanksFrom_narrow {n read : Nat} {s : List Char} (h : read + n = 4)
    (hm : (blanksFrom n s read 0 0).1 ≠ 0) :
    s = List.replicate (n - (blanksFrom n s read 0 0).1) ' ' ++ (blanksFrom n s read 0 0).2.rest ∧
      (blanksFrom n s read 0 0).1 ≤ n := by
  induction n generalizing read s with
  | zero => simp [blanksFrom] at hm
  | succ n ih =>
    rcases s with _ | ⟨c, s⟩
    · simp [blanksFrom]
    by_cases h1 : c = ' '
    · subst h1
      simp only [blanksFrom] at hm ⊢
      have h' : read + 1 + n = 4 := by omega
      obtain ⟨h2, h3⟩ := ih h' hm
      refine ⟨?_, by omega⟩
      rw [Nat.succ_sub h3, List.replicate_succ, List.cons_append]
      exact congrArg _ h2
    by_cases h2 : c = '\t'
    · subst h2
      have hw : n + 1 - (4 - (read - 0) % 4) = 0 := by omega
      simp only [blanksFrom, hw] at hm
      exact absurd rfl hm
    · simp [blanksFrom, h1, h2]

theorem blanks_narrow_of (hm : ((LineStart.of s).blanks 4).1 ≠ 0) :
    s = List.replicate (4 - ((LineStart.of s).blanks 4).1) ' ' ++ ((LineStart.of s).blanks 4).2.rest :=
  (blanksFrom_narrow (by rfl) hm).1

theorem indent_le (hm : ((LineStart.of s).blanks 4).1 ≠ 0) :
    4 - ((LineStart.of s).blanks 4).1 ≤ 3 := by omega

theorem afterBlank_subset {emptyItem : Bool} : (afterBlank stack emptyItem).1 ⊆ stack := by
  unfold afterBlank
  split
  · exact List.dropLast_subset _
  · exact List.Subset.refl _

/-- What a step may be: its block is fenced code, which is indented by spaces if it stands in no
container, or another one. It leaves the start of a line behind. -/
theorem step_cases (stack : List Container) (emptyItem : Bool) (hne : s ≠ []) :
    (∃ st e r, (.item 0 ∉ stack → .item 0 ∉ st) ∧ Left s r ∧
        step stack emptyItem s = ⟨st, e, none, r⟩) ∨
      ∃ st indent q c n, (.item 0 ∉ stack → .item 0 ∉ st) ∧ q <:+ s ∧ fence? q = some (c, n) ∧
        (st = [] → indent ≤ 3 ∧ s = List.replicate indent ' ' ++ q) ∧
        step stack emptyItem s = ⟨st, false, some (fencedBlock st indent c n q),
          pastBlank (fencedEnd st indent c n q)⟩ := by
  have hsuf := Container.enterAll_suffix stack (.of s)
  have hin (h : .item 0 ∉ stack) : .item 0 ∉ (Container.enterAll stack (.of s)).1 := fun h' =>
    h ((Container.enterAll_isOuter stack (.of s)).subset h')
  cases h : openContainers s.length (Container.enterAll stack (.of s)).1
      (Container.enterAll stack (.of s)).2 with
  | emptyItem st r =>
    obtain ⟨h1, h2, -⟩ := openContainers_emptyItem h
    exact .inl ⟨st, true, r, fun h0 => h2 (hin h0), h1.suffix hsuf, step_of_emptyItem h⟩
  | text st l =>
  obtain ⟨hl, h0', hst⟩ := openContainers_text h
  cases hb : blankLine? l.rest with
  | some r =>
    refine .inl ⟨_, _, r, fun h0 hm => h0' (hin h0) (afterBlank_subset hm), ?_, step_of_blank h hb⟩
    by_cases hr : l.rest = []
    · rw [hr] at hb
      cases hb
      exact ⟨⟨List.nil_suffix, List.length_pos_iff.2 hne⟩, lined_nil s⟩
    · exact (left_blankLine? hr hb).suffix (hl.trans hsuf)
  | none =>
  have hm := blanks_suffix 4 l
  have hne' : (l.blanks 4).2.rest ≠ [] := fun hnil => by
    rw [blankLine?_of_blanks hnil] at hb
    cases hb
  have hmsuf := hm.trans (hl.trans hsuf)
  have hstep := step_of_text emptyItem h hb
  by_cases hzero : (l.blanks 4).1 = 0
  · rw [if_pos hzero] at hstep
    refine .inl ⟨st, false, _, fun h0 => h0' (hin h0), ?_, hstep⟩
    exact (indentedCode_left hne' List.suffix_rfl (by simp)).suffix hmsuf
  rw [if_neg hzero] at hstep
  rcases leaf_cases st (4 - (l.blanks 4).1) hne' with
    ⟨r, hr, hleaf⟩ | ⟨c, n, hf, hleaf⟩
  · exact .inl ⟨st, false, r, fun h0 => h0' (hin h0), hr.suffix hmsuf, hstep.trans hleaf⟩
  · refine .inr ⟨st, _, _, c, n, fun h0 => h0' (hin h0), hmsuf, hf, fun hnil => ?_,
      hstep.trans hleaf⟩
    obtain ⟨hentered, rfl⟩ := hst hnil
    rw [Container.enterAll_of_nil hentered] at hzero ⊢
    exact ⟨indent_le hzero, blanks_narrow_of hzero⟩

theorem step_left (stack : List Container) (emptyItem : Bool) (hne : s ≠ []) :
    Left s (step stack emptyItem s).rest := by
  rcases step_cases stack emptyItem hne with
    ⟨st, e, r, -, hr, h⟩ | ⟨st, indent, q, c, n, -, hq, hf, -, h⟩
  · rwa [h]
  · rw [h]
    exact (fencedEnd_left hf).pastBlank.suffix hq

theorem step_stack (emptyItem : Bool) (hne : s ≠ []) (h0 : .item 0 ∉ stack) :
    .item 0 ∉ (step stack emptyItem s).stack := by
  rcases step_cases stack emptyItem hne with
    ⟨st, e, r, hst, -, h⟩ | ⟨st, indent, q, c, n, hst, -, -, -, h⟩
  · rw [h]; exact hst h0
  · rw [h]; exact hst h0

/-! ### Runs -/

/-- The block of a step, if it stands in no container. -/
def Step.found (r : Step) : List FencedBlock := if r.stack.isEmpty then r.fenced.toList else []

/-- A block that stands in no container is indented by at most three spaces. -/
theorem found_cases {emptyItem : Bool} {b : FencedBlock} (hne : s ≠ [])
    (h : b ∈ (step stack emptyItem s).found) :
    ∃ k c n, k ≤ 3 ∧ s = List.replicate k ' ' ++ b.opening ∧ fence? b.opening = some (c, n) ∧
      b = fencedBlock [] k c n b.opening ∧
      step stack emptyItem s = ⟨[], false, some b, pastBlank b.closing⟩ := by
  rcases step_cases stack emptyItem hne with
    ⟨st, e, r, -, -, hs⟩ | ⟨st, k, q, c, n, -, hq, hf, hnil, hs⟩
  · rw [Step.found, hs] at h
    simp at h
  · rw [Step.found, hs] at h
    split at h
    · rename_i hst
      obtain rfl : st = [] := by simpa using hst
      obtain rfl : b = fencedBlock [] k c n q := by simpa using h
      exact ⟨k, c, n, (hnil rfl).1, (hnil rfl).2, hf, rfl, hs⟩
    · cases h

theorem blocksFrom_nil (emptyItem : Bool) : blocksFrom stack emptyItem [] = [] := by
  rw [blocksFrom]
  rfl

theorem blocksFrom_step {emptyItem : Bool} (hne : s ≠ []) : blocksFrom stack emptyItem s =
    (step stack emptyItem s).found ++
      blocksFrom (step stack emptyItem s).stack (step stack emptyItem s).emptyItem
        (step stack emptyItem s).rest := by
  rw [blocksFrom, if_neg (by simpa using hne)]
  simp only
  rw [if_pos (step_left stack emptyItem hne).later.2]
  rfl

theorem opening_suffix {emptyItem : Bool} {b : FencedBlock}
    (h : b ∈ blocksFrom stack emptyItem s) : b.opening <:+ s := by
  induction hlen : s.length using Nat.strong_induction_on generalizing stack emptyItem s with
  | _ k ih =>
    by_cases hne : s = []
    · subst hne
      rw [blocksFrom_nil] at h
      cases h
    have hlater := (step_left stack emptyItem hne).later
    rw [blocksFrom_step hne, List.mem_append] at h
    rcases h with h | h
    · obtain ⟨j, c, n, -, hs, -⟩ := found_cases hne h
      exact ⟨_, hs.symm⟩
    · exact (ih _ (hlen ▸ hlater.2) h rfl).trans hlater.1

end

section

variable {g w : List Char}

theorem openContainers_narrow {q : List Char} (hq : Solid q) (hmark : itemMark? q = none)
    {l : LineStart} (hl : Narrow q l) (n : Nat) (stack : List Container) :
    openContainers n stack l = .text stack l := by
  cases n with
  | zero => rfl
  | succ n =>
    have hr := (blanks_narrow hq hl 4).2.1 (.inr (by omega))
    rw [openContainers]
    rcases hb : l.blanks 4 with ⟨_ | missing, inner⟩
    · rfl
    · rw [hb] at hr
      have hrest : inner.rest = q := hr
      simp only [itemStart?, hrest, hmark, quote?_of_solid hq hrest]

theorem itemMark?_of_ends {q : List Char} (hq : Ends q) : itemMark? q = none :=
  itemMark?_append [] hq

theorem itemMark?_of_fence {q : List Char} (hq : (fence? q).isSome = true) :
    itemMark? q = none := by
  cases q with
  | nil => rfl
  | cons c q =>
    rcases eq_of_isSome_fence? hq with rfl | rfl <;> simp [itemMark?, Char.isDigit]

/-- An empty line leaves no block. -/
theorem step_gap (hg : Gap g) (hne : g ≠ []) (hw : FenceNext w) (stack : List Container)
    (emptyItem : Bool) : ∃ st e g', st ⊆ stack ∧ g' <:+ g ∧ g'.length < g.length ∧
      step stack emptyItem (g ++ w) = ⟨st, e, none, g' ++ w⟩ := by
  obtain ⟨q, hq, -, hl, hplace⟩ := hg.place hne w
  have hl' := enterAll_narrow (solid_of_ends hq) stack hl
  obtain ⟨g', hg', hne', hr⟩ := hplace _ hl' (Container.enterAll_suffix stack _)
  obtain ⟨g'', hg'', hlt, hb⟩ := (hg.suffix hg').blankLine? hw (.inl hne')
  refine ⟨_, _, g'', List.Subset.trans afterBlank_subset
    (Container.enterAll_isOuter stack (.of (g ++ w))).subset, hg''.trans hg',
    lt_of_lt_of_le (hlt hne') hg'.length_le,
    step_of_blank (openContainers_narrow (solid_of_ends hq) (itemMark?_of_ends hq) hl' _ _)
      (by rw [hr, hb])⟩

theorem step_flush (hw : Opens w) {stack : List Container} (h0 : .item 0 ∉ stack)
    (emptyItem : Bool) : step stack emptyItem w = step [] false w := by
  have hopen : openContainers w.length [] (.of w) = .text [] (.of w) :=
    openContainers_narrow (solid_of_fence hw.fence) (itemMark?_of_fence hw.fence)
      (narrow_of (k := 0) (by omega) w) _ _
  have h0' : .item 0 ∉ ([] : List Container) := by simp
  rw [step_of_text _ (by rw [hw.enterAll h0]; exact hopen) hw.blankLine?,
    step_of_text _ (by rw [hw.enterAll h0']; exact hopen) hw.blankLine?]

/-- After empty lines a fence that is not indented is read as at the start of a text. -/
theorem blocksFrom_gap {stack : List Container} (h0 : .item 0 ∉ stack) (hg : Gap g)
    (hw : w = [] ∨ Opens w) (emptyItem : Bool) :
    blocksFrom stack emptyItem (g ++ w) = blocksFrom [] false w := by
  have hnext : FenceNext w := hw.imp id fun h => ⟨0, by omega, w, rfl, h⟩
  induction hlen : g.length using Nat.strong_induction_on generalizing g stack emptyItem with
  | _ k ih =>
    by_cases hne : g = []
    · subst hne
      rcases hw with rfl | hw
      · rw [List.append_nil, blocksFrom_nil, blocksFrom_nil]
      · have hwne : w ≠ [] := by rintro rfl; cases hw.fence
        rw [List.nil_append, blocksFrom_step hwne, step_flush hw h0, ← blocksFrom_step hwne]
    · obtain ⟨st, e, g', hst, hg', hlt, hs⟩ := step_gap hg hne hnext stack emptyItem
      rw [blocksFrom_step (by simp [hne]), hs]
      have := ih _ (hlen ▸ hlt) (fun h => h0 (hst h)) (hg.suffix hg') e rfl
      simpa [Step.found] using this

theorem mem_lost {stack : List Container} {emptyItem : Bool} {r : List Char} {b : FencedBlock}
    (hr : Lost w r) (h : b ∈ blocksFrom stack emptyItem r) : b.opening ≠ w.dropWhile (· = ' ') := by
  rcases hr with rfl | hr
  · rw [blocksFrom_nil] at h
    cases h
  · intro heq
    have := (opening_suffix h).length_le
    rw [heq] at this
    exact absurd hr (Nat.not_lt.2 this)

/-- The blocks whose info string is of the kind `p`. -/
def ofKind (p : List Char → Bool) (bs : List FencedBlock) : List FencedBlock :=
  bs.filter fun b => p b.info

/-- The first block of a kind is the one that opens after the empty lines, if any. -/
def FirstOpens (p : List Char → Bool) (w : List Char) (bs : List FencedBlock) : Prop :=
  (ofKind p bs).head?.map (·.opening) = if w = [] then none else some (w.dropWhile (· = ' '))

theorem ofKind_append (p : List Char → Bool) (bs cs : List FencedBlock) :
    ofKind p (bs ++ cs) = ofKind p bs ++ ofKind p cs := List.filter_append ..

theorem ofKind_found {p : List Char → Bool} {r : Step} : ofKind p r.found = [] ↔
    (r.stack = [] → ∀ i ∈ r.fenced.map (·.info), p i = false) := by
  rw [Step.found]
  by_cases hst : r.stack = []
  · cases hf : r.fenced <;> simp [hst, ofKind]
  · simp [hst, ofKind]

/-- A block that a text has of itself opens before what comes after the text. -/
theorem FirstOpens.found {p : List Char → Bool} {stack : List Container} {emptyItem : Bool}
    {s : List Char} (h0 : .item 0 ∉ stack) (hne : s ≠ []) (hs : Unbroken s) (ht : Tail g w)
    (hfirst : FirstOpens p w (blocksFrom stack emptyItem (s ++ (g ++ w)))) :
    ofKind p (step stack emptyItem s).found = [] := by
  have hlocal := step_local emptyItem h0 hs
  rw [ofKind_found]
  intro hst i hi
  obtain ⟨b, hb, rfl⟩ := Option.map_eq_some_iff.1 hi
  by_contra hp
  have hbf : b ∈ (step stack emptyItem s).found := by simp [Step.found, hst, hb]
  obtain ⟨-, c, n, -, -, hf, -⟩ := found_cases hne hbf
  have hlen : 0 < b.opening.length := by
    rw [List.length_pos_iff]
    rintro hnil
    rw [hnil] at hf
    cases hf
  have hinfo := hlocal.info g w ht
  have hopening := hlocal.opening g w ht
  rw [hb] at hinfo hopening
  obtain ⟨b', hb', hinfo⟩ := Option.map_eq_some_iff.1 hinfo
  rw [hb'] at hopening
  have hopening : b'.opening = b.opening ++ (g ++ w) := by simpa using hopening
  have hwhole : (step stack emptyItem (s ++ (g ++ w))).found = [b'] := by
    simp [Step.found, hlocal.stack g w ht, hst, hb']
  rw [FirstOpens, blocksFrom_step (by simp [hne]), hwhole, ofKind_append] at hfirst
  have hkind : ofKind p [b'] = [b'] := by simpa [ofKind, hinfo] using hp
  rw [hkind] at hfirst
  simp only [List.singleton_append, List.head?_cons, Option.map_some] at hfirst
  split at hfirst
  · cases hfirst
  · have := congrArg List.length (Option.some.inj hfirst)
    have hle := (List.dropWhile_suffix (fun c => decide (c = ' ')) (l := w)).length_le
    rw [hopening] at this
    simp only [List.length_append] at this
    omega

/-- If the first block of a kind opens after the empty lines that follow a text, then the text has
no such block, whatever other empty lines and fence follow it. -/
theorem blocksFrom_tail {p : List Char → Bool} {stack : List Container} {emptyItem : Bool}
    {s g' w' : List Char} (h0 : .item 0 ∉ stack) (hs : Unbroken s) (ht : Tail g w)
    (hc : Clear g' w') (hw : w = [] → w' = [])
    (hfirst : FirstOpens p w (blocksFrom stack emptyItem (s ++ (g ++ w)))) :
    ofKind p (blocksFrom stack emptyItem (s ++ (g' ++ w'))) =
      ofKind p (blocksFrom [] false w') := by
  induction hlen : s.length using Nat.strong_induction_on generalizing stack emptyItem s with
  | _ k ih =>
    by_cases hne : s = []
    · subst hne
      rw [List.nil_append, blocksFrom_gap h0 hc.gap hc.flush]
    have hlocal := step_local emptyItem h0 hs
    have hlater := (step_left stack emptyItem hne).later
    have h0' := step_stack emptyItem hne h0
    have hnone := ofKind_found.1 (hfirst.found h0 hne hs ht)
    have hstep {g w : List Char} (ht : Tail g w) :
        ofKind p (blocksFrom stack emptyItem (s ++ (g ++ w))) =
          ofKind p (blocksFrom (step stack emptyItem s).stack (step stack emptyItem s).emptyItem
            (step stack emptyItem (s ++ (g ++ w))).rest) := by
      rw [blocksFrom_step (by simp [hne]), ofKind_append, ofKind_found.2, List.nil_append,
        hlocal.stack g w ht, hlocal.emptyItem g w ht]
      rw [hlocal.stack g w ht, hlocal.info g w ht]
      exact hnone
    rw [FirstOpens, hstep ht] at hfirst
    have hlost (hl : Lost w (step stack emptyItem (s ++ (g ++ w))).rest) : w = [] := by
      by_contra hwne
      rw [if_neg hwne] at hfirst
      obtain ⟨b, hb, hopening⟩ := Option.map_eq_some_iff.1 hfirst
      have hmem := List.mem_of_head? hb
      exact mem_lost hl (List.mem_of_mem_filter hmem) hopening
    rw [hstep hc.toTail]
    rcases hlocal.rest with ⟨hr, hrest⟩ | ⟨hr, hcloses | hruns⟩
    · have hnew := (hrest g' w' hc.toTail).resolve_right fun h => h.1 hc.wide
      simp only [hnew]
      refine ih _ (hlen ▸ hlater.2) h0' (hs.suffix hlater.1) ?_ rfl
      rcases hrest g w ht with hold | ⟨hwide, hl⟩
      · simp only at hold
        rwa [FirstOpens, ← hold]
      · exact absurd (.inl (hlost hl)) hwide
    · obtain ⟨g'', hg'', hnew⟩ := hcloses g' w' hc
      simp only at hnew
      rw [hnew, blocksFrom_gap h0' (hc.gap.suffix hg'') hc.flush]
    · have hwnil := hlost (hruns g w ht)
      have hwnil' := hw hwnil
      rcases hruns g' w' hc.toTail with hnew | hnew
      · simp only at hnew
        rw [hnew, hwnil', blocksFrom_nil, blocksFrom_nil]
      · rw [Swallowed, hwnil'] at hnew
        cases hnew

end

end Notebook.Markdown
