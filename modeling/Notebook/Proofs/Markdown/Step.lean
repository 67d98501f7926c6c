import Notebook.Proofs.Markdown.Block

/-!
Each block is read locally: its kind and its containers do not depend on what comes after the text.
-/

namespace Notebook.Markdown

open LineStart

section

variable {t : List Char}

/-! ### Containers that start on a line -/

theorem itemText?_append (ht : Ends t) (indent : Nat) (l : LineStart) :
    itemText? indent (l.append t) = (itemText? indent l).map fun p => (p.1, p.2.append t) := by
  simp only [itemText?, blanks_append ht]
  rcases l.blanks 1 with ⟨missing, m⟩
  simp only [atEnd_append ht, rest_append, isSome_blankLine?_append _ ht]
  split
  · rfl
  · split
    · rfl
    · rcases m.blanks 4 with ⟨_ | missing, k⟩ <;> rfl

theorem itemText?_suffix {indent n : Nat} {l m : LineStart}
    (h : itemText? indent l = some (n, m)) : m.rest <:+ l.rest ∧ indent ≤ n := by
  have hb := blanks_suffix 1 l
  simp only [itemText?] at h
  split at h
  · cases h
  · split at h
    · cases h
      exact ⟨hb, le_rfl⟩
    · have hb' := (blanks_suffix 4 _).trans hb
      split at h
      · cases h
        exact ⟨hb, le_rfl⟩
      · rename_i hm
        rw [hm] at hb'
        cases h
        exact ⟨hb', Nat.le_add_right _ _⟩

theorem itemStart?_append (ht : Ends t) (outer : Nat) {l : LineStart} (hl : Unbroken l.rest) :
    itemStart? outer (l.append t) = (itemStart? outer l).map fun p => (p.1, p.2.append t) := by
  simp only [itemStart?, rest_append, itemMark?_append _ ht, rule?_append hl ht, Option.isSome_map]
  cases hm : itemMark? l.rest with
  | none => rfl
  | some m =>
    obtain ⟨number, width⟩ := m
    have hskip : (l.append t).skip width = (l.skip width).append t := by
      simp only [LineStart.skip, LineStart.append,
        List.drop_append_of_le_length (itemMark?_length hm).2.1]
    simp only [hskip]
    split
    · rfl
    · exact itemText?_append ht _ _

theorem itemStart?_later {outer n : Nat} {l m : LineStart} (h : itemStart? outer l = some (n, m)) :
    Later m.rest l.rest ∧ n ≠ 0 := by
  unfold itemStart? at h
  split at h
  · cases h
  · rename_i number width hm
    split at h
    · cases h
    · obtain ⟨hpos, hle, -⟩ := itemMark?_length hm
      obtain ⟨hsuf, hn⟩ := itemText?_suffix h
      refine ⟨Later.of_suffix hsuf ⟨List.drop_suffix _ _, ?_⟩, by omega⟩
      simp only [LineStart.skip, List.length_drop]
      omega

/-- What a line opens with more text after it. -/
def Opening.append (t : List Char) : Opening → Opening
  | text stack l => text stack (l.append t)
  | emptyItem stack r => emptyItem stack (resume t r)

theorem itemStart?_of_nil {l : LineStart} (h : l.rest = []) (outer : Nat) :
    itemStart? outer l = none := by
  simp [itemStart?, h, itemMark?]

theorem quote?_of_nil {l : LineStart} (h : l.rest = []) : l.quote? = none := by
  simp [quote?, char?, h]

theorem openContainers_of_ends {l : LineStart} (h : Ends l.rest) (n : Nat)
    (stack : List Container) : openContainers n stack l = .text stack l := by
  cases n with
  | zero => rfl
  | succ n =>
    have hl : l = ({ l with rest := [] } : LineStart).append l.rest := rfl
    have hb := blanks_suffix 4 ({ l with rest := [] } : LineStart)
    rw [List.suffix_nil] at hb
    rw [openContainers, hl, blanks_append h]
    rcases hl' : ({ l with rest := [] } : LineStart).blanks 4 with ⟨_ | missing, inner⟩
    · rfl
    · have hr : inner.rest = [] := by rwa [hl'] at hb
      simp only [itemStart?_append h _ (hr ▸ unbroken_nil), quote?_append h, itemStart?_of_nil hr,
        quote?_of_nil hr, Option.map_none]

theorem openContainers_append (ht : Ends t) {n m : Nat} {stack : List Container} {l : LineStart}
    (hl : Unbroken l.rest) (hn : l.rest.length ≤ n) (hm : (l.rest ++ t).length ≤ m) :
    openContainers m stack (l.append t) = (openContainers n stack l).append t := by
  induction n generalizing m stack l with
  | zero =>
    have hnil : l.rest = [] := List.length_eq_zero_iff.1 (by omega)
    rw [openContainers_of_ends (by rwa [rest_append, hnil, List.nil_append])]
    rfl
  | succ n ih =>
    cases m with
    | zero =>
      have hnil : l.rest ++ t = [] := List.length_eq_zero_iff.1 (by omega)
      rw [openContainers_of_ends (l := l) (by rw [(List.append_eq_nil_iff.1 hnil).1]; exact ends_nil)]
      rfl
    | succ m =>
      have hb := blanks_suffix 4 l
      rw [openContainers, openContainers, blanks_append ht]
      rcases hl' : l.blanks 4 with ⟨_ | missing, inner⟩
      · rfl
      · rw [hl'] at hb
        have hinner : Unbroken inner.rest := hl.suffix hb
        simp only [itemStart?_append ht _ hinner, quote?_append ht]
        cases hi : itemStart? (4 - (missing + 1)) inner with
        | some p =>
          obtain ⟨indent, item⟩ := p
          have hlater := (itemStart?_later hi).1
          have hitem := hinner.suffix hlater.1
          simp only [Option.map_some, rest_append, blankLine?_append hitem ht]
          cases blankLine? item.rest with
          | some r => rfl
          | none =>
            have hlt := (hlater.suffix hb).2
            refine ih hitem (by omega) ?_
            rw [List.length_append] at hm ⊢
            omega
        | none =>
          cases hq : inner.quote? with
          | none => rfl
          | some quoted =>
            have hlater := quote?_suffix hq
            have hlt := lt_of_lt_of_le hlater.1 hb.length_le
            refine ih (hinner.suffix hlater.2) (by omega) ?_
            rw [List.length_append] at hm ⊢
            omega

/-- What a line opens stands in the containers around it, none of which has no indentation. -/
theorem openContainers_text {n : Nat} {stack st : List Container} {l m : LineStart}
    (h : openContainers n stack l = .text st m) :
    m.rest <:+ l.rest ∧ (.item 0 ∉ stack → .item 0 ∉ st) ∧ (st = [] → stack = [] ∧ m = l) := by
  induction n generalizing stack l with
  | zero =>
    cases h
    exact ⟨List.suffix_rfl, id, fun h => ⟨h, rfl⟩⟩
  | succ n ih =>
    have hb := blanks_suffix 4 l
    rw [openContainers] at h
    rcases hl' : l.blanks 4 with ⟨_ | missing, inner⟩
    · rw [hl'] at h
      cases h
      exact ⟨List.suffix_rfl, id, fun h => ⟨h, rfl⟩⟩
    · simp only [hl'] at h hb
      cases hi : itemStart? (4 - (missing + 1)) inner with
      | some p =>
        obtain ⟨indent, item⟩ := p
        obtain ⟨hlater, hpos⟩ := itemStart?_later hi
        simp only [hi] at h
        cases hbl : blankLine? item.rest with
        | some r => rw [hbl] at h; cases h
        | none =>
          rw [hbl] at h
          obtain ⟨h1, h2, h3⟩ := ih h
          refine ⟨h1.trans (hlater.1.trans hb), fun h0 => h2 ?_, fun hst => ?_⟩
          · simpa [h0] using hpos.symm
          · simpa using (h3 hst).1
      | none =>
        simp only [hi] at h
        cases hq : inner.quote? with
        | none =>
          rw [hq] at h
          cases h
          exact ⟨List.suffix_rfl, id, fun h => ⟨h, rfl⟩⟩
        | some quoted =>
          rw [hq] at h
          obtain ⟨h1, h2, h3⟩ := ih h
          refine ⟨h1.trans ((quote?_suffix hq).2.trans hb), fun h0 => h2 ?_, fun hst => ?_⟩
          · simpa using h0
          · simpa using (h3 hst).1

theorem openContainers_emptyItem {n : Nat} {stack st : List Container} {l : LineStart}
    {r : List Char} (h : openContainers n stack l = .emptyItem st r) :
    Left l.rest r ∧ (.item 0 ∉ stack → .item 0 ∉ st) ∧ st ≠ [] := by
  induction n generalizing stack l with
  | zero => cases h
  | succ n ih =>
    have hb := blanks_suffix 4 l
    rw [openContainers] at h
    rcases hl' : l.blanks 4 with ⟨_ | missing, inner⟩
    · rw [hl'] at h
      cases h
    · simp only [hl'] at h hb
      cases hi : itemStart? (4 - (missing + 1)) inner with
      | some p =>
        obtain ⟨indent, item⟩ := p
        obtain ⟨hlater, hpos⟩ := itemStart?_later hi
        simp only [hi] at h
        cases hbl : blankLine? item.rest with
        | some r' =>
          rw [hbl] at h
          cases h
          refine ⟨⟨(hlater.of_suffix (blankLine?_suffix hbl)).suffix hb, ?_⟩, fun h0 => ?_, by simp⟩
          · exact (lined_blankLine? hbl).suffix (hlater.1.trans hb)
          · simpa [h0] using hpos.symm
        | none =>
          rw [hbl] at h
          obtain ⟨h1, h2, h3⟩ := ih h
          refine ⟨h1.suffix (hlater.1.trans hb), fun h0 => h2 ?_, h3⟩
          simpa [h0] using hpos.symm
      | none =>
        simp only [hi] at h
        cases hq : inner.quote? with
        | none => rw [hq] at h; cases h
        | some quoted =>
          rw [hq] at h
          obtain ⟨h1, h2, h3⟩ := ih h
          exact ⟨h1.suffix ((quote?_suffix hq).2.trans hb), fun h0 => h2 (by simpa using h0), h3⟩

end

/-! ### Blank lines after a block -/

theorem pastBlank_suffix (s : List Char) : pastBlank s <:+ s := by
  rw [pastBlank]
  cases h : blankLine? s with
  | none => exact List.suffix_rfl
  | some r => exact blankLine?_suffix h

theorem Opens.blankLine? {w : List Char} (h : Opens w) : Markdown.blankLine? w = none := by
  have hd : w.dropWhile isInlineBlank = w := by
    cases w with
    | nil => rfl
    | cons c w => rcases eq_of_isSome_fence? h.fence with rfl | rfl <;> rfl
  rw [Markdown.blankLine?, hd, ← Option.not_isSome_iff_eq_none, lineEnd?_isSome]
  exact h.not_ends

theorem Past.pastBlank {g w r : List Char} (hc : Clear g w) (h : Past g w r) :
    Past g w (Markdown.pastBlank r) := by
  obtain ⟨g', hg', rfl⟩ := h
  by_cases hne : g' ≠ [] ∨ w = []
  · obtain ⟨g'', hg'', -, hb⟩ := (hc.gap.suffix hg').blankLine? hc.next hne
    exact ⟨g'', hg''.trans hg', by rw [Markdown.pastBlank, hb]; rfl⟩
  · obtain ⟨hnil, hw⟩ := not_or.1 hne
    obtain rfl := not_not.1 hnil
    rw [List.nil_append, Markdown.pastBlank, (hc.flush.resolve_left hw).blankLine?]
    exact ⟨[], List.nil_suffix, rfl⟩

theorem Local.pastBlank {f : List Char → List Char} {s : List Char} (h : Local f s)
    (hs : Unbroken (f s)) : Local (fun s => Markdown.pastBlank (f s)) s := by
  rcases h with ⟨h1, h2⟩ | ⟨h1, h2⟩
  · cases hb : blankLine? (f s) with
    | none =>
      refine .inl ⟨by simpa [Markdown.pastBlank, hb], fun g w ht => (h2 g w ht).imp (fun h => ?_) ?_⟩
      · simp only [h, Markdown.pastBlank, blankLine?_append hs ht.ends, hb]
        rfl
      · exact fun ⟨hw, h⟩ => ⟨hw, h.suffix (pastBlank_suffix _)⟩
    | some r =>
      by_cases hr : r = []
      · subst hr
        refine .inr ⟨by simp [Markdown.pastBlank, hb], .inl fun g w ht => ?_⟩
        have heq := (h2 g w ht.toTail).resolve_right fun h => h.1 ht.wide
        simp only [heq, Markdown.pastBlank, blankLine?_append hs ht.ends, hb]
        exact ht.past_afterEnd
      · refine .inl ⟨by simpa [Markdown.pastBlank, hb], fun g w ht => ?_⟩
        refine (h2 g w ht).imp (fun h => ?_) fun ⟨hw, h⟩ => ⟨hw, h.suffix (pastBlank_suffix _)⟩
        simp [h, Markdown.pastBlank, blankLine?_append hs ht.ends, hb, resume_of_ne_nil hr]
  · refine .inr ⟨by simp [h1, Markdown.pastBlank, blankLine?, lineEnd?], ?_⟩
    refine h2.imp (fun h g w ht => (h g w ht).pastBlank ht) fun h g w ht => ?_
    exact (h g w ht).suffix (pastBlank_suffix _)

/-! ### Definitions and paragraphs -/

section

variable {stack : List Container} {s : List Char}

theorem blankLine?_of_single {r : List Char} (hr : Single r) (h : (blankLine? r).isSome = true) :
    blankLine? r = some [] := by
  have hs : Single (r.dropWhile isInlineBlank) := hr.suffix (List.dropWhile_suffix _)
  rw [blankLine?, lineEnd?_isSome] at h
  rw [blankLine?]
  cases hd : r.dropWhile isInlineBlank with
  | nil => rfl
  | cons c t =>
    rw [hd] at h hs
    have := hs c (by simp)
    rw [ends_cons.1 h] at this
    cases this

/-- Where no text follows on a line, the line is blank. -/
theorem blankLine?_of_gap? (stack : List Container)
    (h : ∀ t, gap? stack s = some (t, false) → s = []) :
    (blankLine? s).isSome = true := by
  rw [blankLine?]
  cases hl : lineEnd? (s.dropWhile isInlineBlank) with
  | some r => rfl
  | none =>
    have hg : gap? stack s = some (s.dropWhile isInlineBlank, false) := by simp only [gap?, hl]
    obtain rfl := h _ hg
    cases hl

/-- Nothing else stands on the line on which a definition ends. -/
theorem titled?_blank {r : List Char} (h : titled? stack s = some r) :
    (blankLine? r).isSome = true := by
  unfold titled? at h
  split at h
  · rename_i hg
    cases h
    exact blankLine?_of_gap? stack fun t ht => by rw [hg] at ht; cases ht
  · rename_i t broken hg
    have hplain (hb : (broken || s.isEmpty) = true) : (blankLine? s).isSome = true := by
      refine blankLine?_of_gap? stack fun t' ht => ?_
      rw [hg] at ht
      cases ht
      simpa using hb
    simp only at h
    split at h
    · cases h
    · split at h
      · split at h
        · rename_i hb
          cases h
          exact hb
        · split at h
          · rename_i hb
            cases h
            exact hplain hb
          · cases h
      · split at h
        · rename_i hb
          cases h
          exact hplain hb
        · cases h

theorem definition?_blank {r : List Char} (h : definition? stack s = some r) :
    (blankLine? r).isSome = true := by
  unfold definition? at h
  split at h
  · obtain ⟨q, -, h⟩ := Option.bind_eq_some_iff.1 h
    unfold target? at h
    split at h
    · cases h
    · obtain ⟨d, -, h⟩ := Option.bind_eq_some_iff.1 h
      exact titled?_blank h
  · cases h

theorem prose_of_definition {r : List Char} (h : definition? stack s = some r) :
    prose stack s = pastBlank r := by
  rw [prose, h]

theorem prose_of_none (h : definition? stack s = none) : prose stack s = paragraph stack s := by
  rw [prose, h]

theorem prose_local (hne : s ≠ []) (hs : Unbroken s) : Local (prose stack) s := by
  have hpar : Local (paragraph stack) s :=
    endOf_local (fun s hne hs => paragraphLine_local hne hs) hne hs
  have hlost {g w r : List Char} (h : definition? stack (s ++ (g ++ w)) = some r)
      (hr : Swallowed w r) : Lost w (prose stack (s ++ (g ++ w))) := by
    rw [prose_of_definition h]
    exact Lost.suffix (.inr hr) (pastBlank_suffix r)
  have hdef {g w : List Char} (ht : Tail g w) := definition?_append stack hs ht
  cases hd : definition? stack s with
  | none =>
    have hprose := prose_of_none hd
    have hcase {g w : List Char} (ht : Tail g w) :
        prose stack (s ++ (g ++ w)) = paragraph stack (s ++ (g ++ w)) ∨
          ¬ Wide g w ∧ Lost w (prose stack (s ++ (g ++ w))) := by
      rcases hdef ht with h | ⟨hw, ⟨r, hr, h⟩ | ⟨r, hr, -⟩⟩
      · exact .inl (prose_of_none (by rw [h, hd]; rfl))
      · exact .inr ⟨hw, hlost hr h⟩
      · rw [hd] at hr; cases hr
    rcases hpar with ⟨h1, h2⟩ | ⟨h1, h2⟩
    · refine .inl ⟨by rwa [hprose], fun g w ht => ?_⟩
      rcases hcase ht with h | h
      · rw [h, hprose]; exact h2 g w ht
      · exact .inr h
    · refine .inr ⟨by rwa [hprose], h2.imp (fun h g w ht => ?_) fun h g w ht => ?_⟩
      · rw [(hcase ht.toTail).resolve_right fun h => h.1 ht.wide]
        exact h g w ht
      · rcases hcase ht with heq | ⟨-, hl⟩
        · rw [heq]; exact h g w ht
        · exact hl
  | some r =>
    have hprose := prose_of_definition hd
    have hr : Unbroken r := hs.suffix (definition?_later hd).1
    have hblank {g w : List Char} (ht : Tail g w) : pastBlank (r ++ (g ++ w)) =
        ((blankLine? r).map (resume (g ++ w))).getD (r ++ (g ++ w)) := by
      rw [pastBlank, blankLine?_append hr ht.ends]
    -- A definition whose end is not blank up to the end of the text is not on its last line.
    have hcase {g w : List Char} (ht : Tail g w) (hlast : blankLine? r ≠ some []) :
        prose stack (s ++ (g ++ w)) = pastBlank (r ++ (g ++ w)) ∨
          ¬ Wide g w ∧ Lost w (prose stack (s ++ (g ++ w))) := by
      rcases hdef ht with h | ⟨hw, ⟨r', hr', h⟩ | ⟨r', hr', h⟩⟩
      · exact .inl (prose_of_definition (by rw [h, hd]; rfl))
      · exact .inr ⟨hw, hlost hr' h⟩
      · obtain rfl : r = r' := by simpa [hd] using hr'
        exact absurd (blankLine?_of_single h (definition?_blank hd)) hlast
    cases hb : blankLine? r with
    | none =>
      have hne' : r ≠ [] := by rintro rfl; cases hb
      refine .inl ⟨by rwa [hprose, pastBlank, hb], fun g w ht => ?_⟩
      refine (hcase ht (by simp [hb])).imp (fun h => ?_) id
      rw [h, hblank ht, hprose, pastBlank, hb]
      rfl
    | some q =>
      by_cases hq : q = []
      · subst hq
        refine .inr ⟨by simp [hprose, pastBlank, hb], .inl fun g w ht => ?_⟩
        have heq := (hdef ht.toTail).resolve_right fun h => h.1 ht.wide
        rw [prose_of_definition (r := r ++ (g ++ w)) (by rw [heq, hd]; rfl), hblank ht.toTail, hb]
        exact ht.past_afterEnd
      · refine .inl ⟨by simpa [hprose, pastBlank, hb], fun g w ht => ?_⟩
        refine (hcase ht (by simpa [hb])).imp (fun h => ?_) id
        rw [h, hblank ht, hprose, pastBlank, hb]
        simp [resume_of_ne_nil hq]

end

/-! ### HTML and code -/

section

variable {stack : List Container} {s : List Char}

/-- A block of HTML and how it ends are told by its first line. -/
theorem html?_append (stack : List Container) (s : List Char) :
    (∃ mark, EndMark mark ∧ ∀ t, Ends t →
        html? stack (s ++ t) = some (endOf (markedLine stack mark) (s ++ t))) ∨
      (∀ t, Ends t → html? stack (s ++ t) = some (endOf (plainLine stack) (s ++ t))) ∨
      ∀ t, Ends t → html? stack (s ++ t) = none := by
  by_cases h : s.head? = some '<'
  · obtain ⟨s, rfl⟩ := List.head?_eq_some_iff.1 h
    cases hm : endMark? s with
    | some mark =>
      refine .inl ⟨mark, endMark_of_endMark? hm, fun t ht => ?_⟩
      simp only [List.cons_append, html?, endMark?_append s ht, hm]
      rfl
    | none =>
      right
      by_cases hb : (startsBlockElement s || isTagLine s) = true
      · refine .inl fun t ht => ?_
        simp only [List.cons_append, html?, endMark?_append s ht, hm,
          startsBlockElement_append s ht, isTagLine_append s ht, if_pos hb]
        rfl
      · refine .inr fun t ht => ?_
        simp only [List.cons_append, html?, endMark?_append s ht, hm,
          startsBlockElement_append s ht, isTagLine_append s ht, if_neg hb]
  · refine .inr (.inr fun t ht => ?_)
    rw [← head?_append_eq s ht rfl] at h
    unfold html?
    split
    · rename_i heq
      simp [heq] at h
    · rfl

theorem dropEndWhile_append {p : Char → Bool} {s t : List Char} (ht : ∀ c ∈ t, p c = true) :
    Text.dropEndWhile p (s ++ t) = Text.dropEndWhile p s := by
  rw [Text.dropEndWhile, List.reverse_append, List.dropWhile_append_of_pos (by simpa using ht)]
  rfl

theorem Gap.ascii {g : List Char} (hg : Gap g) : ∀ c ∈ g, isAsciiBlank c = true := by
  intro c hc
  rcases hg.blank c hc with rfl | h
  · rfl
  · rcases isLineBreak_iff.1 h with rfl | rfl <;> rfl

/-- The line after the marks of a fence. -/
def fenceLine (n : Nat) (s : List Char) : List Char := (s.drop n).dropWhile isInlineBlank

theorem fenceLine_append {n : Nat} {c : Char} {t : List Char} (hf : fence? s = some (c, n))
    (ht : Ends t) : fenceLine n (s ++ t) = fenceLine n s ++ t := by
  have hn : n ≤ s.length := by
    rw [(fence?_eq_some hf).2.2]
    exact (List.takeWhile_prefix _).length_le
  rw [fenceLine, List.drop_append_of_le_length hn,
    dropWhile_append_ends _ ht fun c => isInlineBlank_of_break, fenceLine]

theorem fenceLine_suffix (n : Nat) (s : List Char) : fenceLine n s <:+ s :=
  (List.dropWhile_suffix _).trans (List.drop_suffix n s)

theorem info_append {g w : List Char} {indent n : Nat} {c : Char} (hf : fence? s = some (c, n))
    (ht : Tail g w) :
    (fencedBlock stack indent c n (s ++ (g ++ w))).info = (fencedBlock stack indent c n s).info := by
  have hline := fenceLine_append hf ht.ends
  simp only [fenceLine] at hline
  simp only [fencedBlock, hline]
  by_cases hm : '\n' ∈ (s.drop n).dropWhile isInlineBlank
  · rw [lineWithEnd_append hm]
  · rw [lineWithEnd_of_not_mem hm, ht.lineWithEnd, dropEndWhile_append]
    · have := lineWithEnd_of_not_mem hm []
      rw [List.append_nil, lineWithEnd, List.append_nil] at this
      rw [this]
    · exact fun c hc => ht.gap.ascii c ((lineWithEnd_isStart g).subset hc)

/-- Where a fenced block ends. -/
def fencedEnd (stack : List Container) (indent : Nat) (c : Char) (n : Nat) (s : List Char) :
    List Char := (fencedBlock stack indent c n s).closing

theorem fencedEnd_eq (indent n : Nat) (c : Char) (s : List Char) :
    fencedEnd stack indent c n s = endOf (codeLine stack indent c n) (afterLine (fenceLine n s)) :=
  rfl

theorem fencedEnd_suffix {indent n : Nat} {c : Char} (s : List Char) :
    fencedEnd stack indent c n s <:+ s :=
  (readOn_suffix codeLine_suffix _).trans ((afterLine_suffix _).trans (fenceLine_suffix n s))

theorem fencedEnd_local {indent n : Nat} {c : Char} (h0 : .item 0 ∉ stack) (hs : Unbroken s)
    (hf : fence? s = some (c, n)) : Local (fencedEnd stack indent c n) s := by
  obtain ⟨hc, hn, -⟩ := fence?_eq_some hf
  have hc : isLineBreak c = false := by rcases hc with rfl | rfl <;> rfl
  have hn : 0 < n := by omega
  by_cases hm : '\n' ∈ fenceLine n s
  · have hu : Unbroken (fenceLine n s) := hs.suffix (fenceLine_suffix n s)
    refine Local.congr (endOf_local (fun s hne hs => codeLine_local h0 hc hn hne hs)
      (hu.afterLine_ne_nil hm) (hu.suffix (afterLine_suffix _))) rfl fun g w ht => ?_
    rw [fencedEnd_eq, fenceLine_append hf ht.ends, afterLine_append hm]
  · have hend {g w : List Char} (ht : Tail g w) : fencedEnd stack indent c n (s ++ (g ++ w)) =
        endOf (codeLine stack indent c n) (afterLine (g ++ w)) := by
      rw [fencedEnd_eq, fenceLine_append hf ht.ends, afterLine_of_not_mem hm]
    refine .inr ⟨by rw [fencedEnd_eq, afterLine_nil hm, endOf_codeLine_nil], ?_⟩
    by_cases hstack : stack = []
    · subst hstack
      exact .inr fun g w ht => by rw [hend ht]; exact codeLine_after_lost hc hn ht
    · exact .inl fun g w ht => by
        rw [hend ht.toTail]; exact codeLine_after_past hstack h0 hc hn ht

end

/-! ### Blocks -/

/-- A step whose block, and what it leaves open, do not depend on what comes after the text. -/
structure StepLocal (f : List Char → Step) (s : List Char) : Prop where
  rest : Local (fun s => (f s).rest) s
  stack : ∀ g w, Tail g w → (f (s ++ (g ++ w))).stack = (f s).stack
  emptyItem : ∀ g w, Tail g w → (f (s ++ (g ++ w))).emptyItem = (f s).emptyItem
  info : ∀ g w, Tail g w →
    (f (s ++ (g ++ w))).fenced.map (·.info) = (f s).fenced.map (·.info)
  opening : ∀ g w, Tail g w →
    (f (s ++ (g ++ w))).fenced.map (·.opening) = (f s).fenced.map (·.opening ++ (g ++ w))

theorem Tail.nil : Tail [] [] := ⟨Gap.nil, .inl rfl, ends_nil, .inl rfl⟩

theorem StepLocal.of_rest {f : List Char → Step} {rest : List Char → List Char} {s : List Char}
    {stack : List Container} {emptyItem : Bool} (h : Local rest s)
    (heq : ∀ g w, Tail g w → f (s ++ (g ++ w)) = ⟨stack, emptyItem, none, rest (s ++ (g ++ w))⟩) :
    StepLocal f s := by
  have halone : f s = ⟨stack, emptyItem, none, rest s⟩ := by simpa using heq [] [] .nil
  refine ⟨h.congr (by rw [halone]) fun g w ht => by rw [heq g w ht], ?_, ?_, ?_, ?_⟩
  all_goals
    intro g w ht
    simp [heq g w ht, halone]

theorem StepLocal.of_resume {f : List Char → Step} {s r : List Char} {stack : List Container}
    {emptyItem : Bool}
    (heq : ∀ g w, Tail g w → f (s ++ (g ++ w)) = ⟨stack, emptyItem, none, resume (g ++ w) r⟩) :
    StepLocal f s := by
  have halone : f s = ⟨stack, emptyItem, none, r⟩ := by
    have h := heq [] [] .nil
    rw [List.append_nil, List.append_nil, resume_of_nil] at h
    exact h
  refine ⟨.of_resume (r := r) (by rw [halone]) fun g w ht => by rw [heq g w ht], ?_, ?_, ?_, ?_⟩
  all_goals
    intro g w ht
    simp [heq g w ht, halone]

theorem StepLocal.congr {f f' : List Char → Step} {s r : List Char} (h : StepLocal f r)
    (heq : ∀ g w, Tail g w → f' (s ++ (g ++ w)) = f (r ++ (g ++ w))) : StepLocal f' s := by
  have halone : f' s = f r := by simpa using heq [] [] .nil
  refine ⟨h.rest.congr (by rw [halone]) fun g w ht => by rw [heq g w ht], ?_, ?_, ?_, ?_⟩
  all_goals
    intro g w ht
    rw [heq g w ht, halone]
  · exact h.stack g w ht
  · exact h.emptyItem g w ht
  · exact h.info g w ht
  · exact h.opening g w ht

section

variable {stack : List Container} {indent : Nat} {s : List Char}

theorem leaf_of_html {r : List Char} (h : html? stack s = some r) :
    leaf stack indent s = ⟨stack, false, none, r⟩ := by
  simp only [leaf, h]

theorem leaf_of_rule {r : List Char} (h : html? stack s = none) (hr : rule? s = some r) :
    leaf stack indent s = ⟨stack, false, none, r⟩ := by
  simp only [leaf, h, hr]

theorem leaf_of_heading {r : List Char} (h : html? stack s = none) (hr : rule? s = none)
    (hh : heading? s = some r) : leaf stack indent s = ⟨stack, false, none, afterBreak r⟩ := by
  simp only [leaf, h, hr, hh]

theorem leaf_of_fence (indent : Nat) {c : Char} {n : Nat} (h : html? stack s = none) (hr : rule? s = none)
    (hh : heading? s = none) (hf : fence? s = some (c, n)) :
    leaf stack indent s = ⟨stack, false, some (fencedBlock stack indent c n s),
      pastBlank (fencedEnd stack indent c n s)⟩ := by
  simp only [leaf, h, hr, hh, hf]
  rfl

theorem leaf_of_prose (h : html? stack s = none) (hr : rule? s = none) (hh : heading? s = none)
    (hf : fence? s = none) : leaf stack indent s = ⟨stack, false, none, prose stack s⟩ := by
  simp only [leaf, h, hr, hh, hf]

theorem leaf_local (indent : Nat) (h0 : .item 0 ∉ stack) (hne : s ≠ []) (hs : Unbroken s) :
    StepLocal (leaf stack indent) s := by
  rcases html?_append stack s with ⟨mark, hmark, h⟩ | h | hhtml
  · exact .of_rest (endOf_local (fun s hne hs => markedLine_local h0 hmark hne hs) hne hs)
      fun g w ht => leaf_of_html (h _ ht.ends)
  · exact .of_rest (endOf_local (fun s hne hs => plainLine_local hne hs) hne hs)
      fun g w ht => leaf_of_html (h _ ht.ends)
  cases hrule : rule? s with
  | some r =>
    refine .of_resume (r := r) fun g w ht => leaf_of_rule (hhtml _ ht.ends) ?_
    rw [rule?_append hs ht.ends, hrule]
    rfl
  | none =>
  have hrule' {g w : List Char} (ht : Tail g w) : rule? (s ++ (g ++ w)) = none := by
    rw [rule?_append hs ht.ends, hrule]
    rfl
  cases hheading : heading? s with
  | some r =>
    have hr := hs.suffix (heading?_suffix hheading)
    have hheading' {g w : List Char} (ht : Tail g w) :
        heading? (s ++ (g ++ w)) = some (r ++ (g ++ w)) := by
      rw [heading?_append s ht.ends, hheading]
      rfl
    exact .of_resume (r := afterBreak r) fun g w ht => by
      rw [← afterBreak_append hr ht.ends]
      exact leaf_of_heading (hhtml _ ht.ends) (hrule' ht) (hheading' ht)
  | none =>
  have hheading' {g w : List Char} (ht : Tail g w) : heading? (s ++ (g ++ w)) = none := by
    rw [heading?_append s ht.ends, hheading]
    rfl
  have hfence {g w : List Char} (ht : Tail g w) : fence? (s ++ (g ++ w)) = fence? s :=
    fence?_append s ht.ends ht.tick
  cases hf : fence? s with
  | some p =>
    obtain ⟨c, n⟩ := p
    have hwhole {g w : List Char} (ht : Tail g w) :=
      leaf_of_fence indent (hhtml _ ht.ends) (hrule' ht) (hheading' ht)
        (by rw [hfence ht, hf])
    have halone := hwhole .nil
    simp only [List.append_nil] at halone
    have hu : Unbroken (fencedEnd stack indent c n s) := hs.suffix (fencedEnd_suffix s)
    refine ⟨((fencedEnd_local h0 hs hf).pastBlank hu).congr (by rw [halone])
      fun g w ht => by rw [hwhole ht], ?_, ?_, ?_, ?_⟩
    all_goals
      intro g w ht
      rw [hwhole ht, halone]
    · simp only [Option.map_some, info_append hf ht]
    · rfl
  | none =>
    exact .of_rest (prose_local hne hs) fun g w ht =>
      leaf_of_prose (hhtml _ ht.ends) (hrule' ht) (hheading' ht) (by rw [hfence ht, hf])

theorem step_of_emptyItem {stack st : List Container} {emptyItem : Bool} {r : List Char}
    (h : openContainers s.length (Container.enterAll stack (.of s)).1
      (Container.enterAll stack (.of s)).2 = .emptyItem st r) :
    step stack emptyItem s = ⟨st, true, none, r⟩ := by
  simp only [step, h]

/-- What is left open after a blank line: an item that has no text yet is not. -/
def afterBlank (stack : List Container) (emptyItem : Bool) : List Container × Bool :=
  match emptyItem, stack.getLast? with
  | true, some (.item _) => (stack.dropLast, false)
  | _, _ => (stack, emptyItem)

theorem step_of_blank {stack st : List Container} {emptyItem : Bool} {l : LineStart} {r : List Char}
    (h : openContainers s.length (Container.enterAll stack (.of s)).1
      (Container.enterAll stack (.of s)).2 = .text st l)
    (hb : blankLine? l.rest = some r) : step stack emptyItem s =
      ⟨(afterBlank st emptyItem).1, (afterBlank st emptyItem).2, none, r⟩ := by
  simp only [step, h, hb, afterBlank]
  split <;> simp_all

theorem step_of_text {stack st : List Container} (emptyItem : Bool) {l : LineStart}
    (h : openContainers s.length (Container.enterAll stack (.of s)).1
      (Container.enterAll stack (.of s)).2 = .text st l)
    (hb : blankLine? l.rest = none) : step stack emptyItem s =
      if (l.blanks 4).1 = 0 then ⟨st, false, none, indentedCode st false [] (l.blanks 4).2.rest⟩
      else leaf st (4 - (l.blanks 4).1) (l.blanks 4).2.rest := by
  simp only [step, h, hb]
  rcases l.blanks 4 with ⟨_ | missing, m⟩ <;> simp

theorem step_local (emptyItem : Bool) (h0 : .item 0 ∉ stack) (hs : Unbroken s) :
    StepLocal (step stack emptyItem) s := by
  have hsuf := Container.enterAll_suffix stack (.of s)
  have hin : .item 0 ∉ (Container.enterAll stack (.of s)).1 := fun h =>
    h0 ((Container.enterAll_isOuter stack (.of s)).subset h)
  have hopen {t : List Char} (ht : Ends t) :
      openContainers (s ++ t).length (Container.enterAll stack (.of (s ++ t))).1
        (Container.enterAll stack (.of (s ++ t))).2 =
      (openContainers s.length (Container.enterAll stack (.of s)).1
        (Container.enterAll stack (.of s)).2).append t := by
    rw [of_append, Container.enterAll_append ht]
    refine openContainers_append ht (hs.suffix hsuf) hsuf.length_le ?_
    exact (List.suffix_append_self_iff.2 hsuf).length_le
  cases h : openContainers s.length (Container.enterAll stack (.of s)).1
      (Container.enterAll stack (.of s)).2 with
  | emptyItem st r =>
    exact .of_resume (r := r) fun g w ht => step_of_emptyItem (by rw [hopen ht.ends, h]; rfl)
  | text st l =>
  obtain ⟨hl, h0', -⟩ := openContainers_text h
  have hl' : Unbroken l.rest := hs.suffix (hl.trans hsuf)
  have hopen' {t : List Char} (ht : Ends t) :
      openContainers (s ++ t).length (Container.enterAll stack (.of (s ++ t))).1
        (Container.enterAll stack (.of (s ++ t))).2 = .text st (l.append t) := by
    rw [hopen ht, h]
    rfl
  cases hb : blankLine? l.rest with
  | some r =>
    exact .of_resume (r := r) fun g w ht => step_of_blank (hopen' ht.ends) (by
      rw [rest_append, blankLine?_append hl' ht.ends, hb]; rfl)
  | none =>
  have hb' {t : List Char} (ht : Ends t) : blankLine? (l.append t).rest = none := by
    rw [rest_append, blankLine?_append hl' ht, hb]
    rfl
  have hm := blanks_suffix 4 l
  have hne : (l.blanks 4).2.rest ≠ [] := fun hnil => by
    rw [blankLine?_of_blanks hnil] at hb
    cases hb
  have hu := hl'.suffix hm
  by_cases hzero : (l.blanks 4).1 = 0
  · have hcode : StepLocal (fun s => ⟨st, false, none, indentedCode st false [] s⟩)
        (l.blanks 4).2.rest := .of_rest (indentedCode_local hne hu) fun g w ht => rfl
    refine hcode.congr fun g w ht => ?_
    rw [step_of_text _ (hopen' ht.ends) (hb' ht.ends), blanks_append ht.ends, if_pos hzero]
    rfl
  · refine (leaf_local (4 - (l.blanks 4).1) (h0' hin) hne hu).congr fun g w ht => ?_
    rw [step_of_text _ (hopen' ht.ends) (hb' ht.ends), blanks_append ht.ends, if_neg hzero]
    rfl

end

end Notebook.Markdown
