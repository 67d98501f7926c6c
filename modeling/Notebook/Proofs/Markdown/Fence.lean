import Notebook.Proofs.Markdown.Found

/-!
A block of code between two fences of backticks. The code is read with line feeds for its line ends
if no line of it has as many backticks as the fences.
-/

namespace Notebook.Markdown

open LineStart

/-! ### Line ends of code -/

/-- The text with line feeds for pairs of a carriage return and a line feed. -/
def lineFeeds : List Char → List Char
  | [] => []
  | '\r' :: '\n' :: s => '\n' :: lineFeeds s
  | c :: s => c :: lineFeeds s

theorem lineFeeds_cons {c : Char} {s : List Char} (h : c = '\r' → s.head? ≠ some '\n') :
    lineFeeds (c :: s) = c :: lineFeeds s := by
  rw [lineFeeds]
  rintro u hc rfl
  exact h hc rfl

theorem lineFeeds_append (s t : List Char) (h : ∀ c ∈ s.getLast?, c = '\r' → t.head? ≠ some '\n') :
    lineFeeds (s ++ t) = lineFeeds s ++ lineFeeds t := by
  induction s using lineFeeds.induct with
  | case1 => rfl
  | case2 s ih =>
    have hs : ∀ c ∈ s.getLast?, c = '\r' → t.head? ≠ some '\n' := fun c hc =>
      h c (by simp [List.getLast?_cons, Option.mem_def.1 hc])
    simp only [List.cons_append, lineFeeds, ih hs]
  | case3 c s hcs ih =>
    have hc : c = '\r' → s.head? ≠ some '\n' := by
      rintro rfl hs
      obtain ⟨u, rfl⟩ := List.head?_eq_some_iff.1 hs
      exact hcs u rfl rfl
    have hct : c = '\r' → (s ++ t).head? ≠ some '\n' := by
      intro hr
      cases s with
      | nil => exact h c (by simp) hr
      | cons d s => exact hc hr
    have hs : ∀ d ∈ s.getLast?, d = '\r' → t.head? ≠ some '\n' := fun d hd =>
      h d (by simp [List.getLast?_cons, Option.mem_def.1 hd])
    rw [List.cons_append, lineFeeds_cons hct, lineFeeds_cons hc, ih hs, List.cons_append]

theorem lineFeeds_concat (s : List Char) : ∃ t, lineFeeds (s ++ ['\n']) = t ++ ['\n'] := by
  induction s using lineFeeds.induct with
  | case1 => exact ⟨[], rfl⟩
  | case2 s ih =>
    obtain ⟨t, ht⟩ := ih
    exact ⟨'\n' :: t, by simp only [List.cons_append, lineFeeds, ht]⟩
  | case3 c s hcs ih =>
    obtain ⟨t, ht⟩ := ih
    by_cases hc : c = '\r' ∧ s = []
    · obtain ⟨rfl, rfl⟩ := hc
      exact ⟨[], rfl⟩
    · refine ⟨c :: t, ?_⟩
      rw [List.cons_append, lineFeeds_cons, ht, List.cons_append]
      rintro rfl
      cases s with
      | nil => exact absurd ⟨rfl, rfl⟩ hc
      | cons d s =>
        intro hd
        obtain rfl : d = '\n' := by simpa using hd
        exact hcs s rfl rfl

theorem lineFeeds_of_not_mem {s : List Char} (h : '\r' ∉ s) : lineFeeds s = s := by
  induction s with
  | nil => rfl
  | cons c s ih =>
    rw [lineFeeds_cons fun hc => absurd (by simp [hc]) h, ih fun hs => h (by simp [hs])]

theorem lineFeeds_isSublist (s : List Char) : (lineFeeds s).Sublist s := by
  induction s using lineFeeds.induct with
  | case1 => exact .slnil
  | case2 s ih =>
    rw [lineFeeds]
    exact (ih.cons_cons '\n').cons '\r'
  | case3 c s hcs ih =>
    rw [lineFeeds]
    · exact ih.cons_cons c
    · exact hcs

/-- Nothing but carriage returns gets lost. -/
theorem filter_lineFeeds (s : List Char) :
    (lineFeeds s).filter (· ≠ '\r') = s.filter (· ≠ '\r') := by
  induction s using lineFeeds.induct with
  | case1 => rfl
  | case2 s ih => simpa [lineFeeds] using ih
  | case3 c s hcs ih =>
    rw [lineFeeds]
    · simp only [List.filter_cons, ih]
    · exact hcs

theorem lineFeeds_eq_self_iff {s : List Char} : lineFeeds s = s ↔ ¬ ['\r', '\n'] <:+: s := by
  induction s using lineFeeds.induct with
  | case1 => simp [lineFeeds]
  | case2 s ih =>
    have hlt := (lineFeeds_isSublist s).length_le
    refine iff_of_false (fun h => ?_) fun h => h (List.prefix_append ['\r', '\n'] s).isInfix
    have := congrArg List.length h
    simp only [lineFeeds, List.length_cons] at this
    omega
  | case3 c s hcs ih =>
    have hno : ¬ ['\r', '\n'] <+: c :: s := by
      rintro ⟨u, hu⟩
      simp only [List.cons_append, List.nil_append, List.cons.injEq] at hu
      exact hcs u hu.1.symm hu.2.symm
    rw [lineFeeds]
    · simp [List.infix_cons_iff, hno, ih]
    · exact hcs

theorem plainEnd_line {l : List Char} (h : '\n' ∉ l) :
    plainEnd (l ++ ['\n']) = lineFeeds (l ++ ['\n']) := by
  rcases List.eq_nil_or_concat l with rfl | ⟨m, d, rfl⟩
  · rfl
  rw [List.concat_eq_append] at h ⊢
  obtain ⟨hm, hd⟩ : '\n' ∉ m ∧ d ≠ '\n' := by simpa [eq_comm] using h
  have hplain : ∀ s : List Char, '\n' ∉ s → lineFeeds s = s := fun s hs => by
    rw [lineFeeds_eq_self_iff]
    exact fun hi => hs (hi.subset (by simp))
  by_cases hr : d = '\r'
  · subst hr
    rw [List.append_assoc, lineFeeds_append m _ (by simp), hplain m hm]
    simp [plainEnd, lineFeeds, show Char.utf8Size '\n' = 1 by rfl]
  · rw [lineFeeds_append _ ['\n'] (by simp [hr]), hplain _ h]
    simp [plainEnd, lineFeeds, hr]

/-! ### Carriage returns -/

theorem lineWithEnd_eq_concat {s : List Char} (h : '\n' ∈ s) :
    ∃ l, '\n' ∉ l ∧ lineWithEnd s = l ++ ['\n'] := by
  induction s with
  | nil => cases h
  | cons c s ih =>
    rw [lineWithEnd]
    by_cases hc : c = '\n'
    · exact ⟨[], by simp, by rw [if_pos hc, hc]; rfl⟩
    · obtain ⟨l, hl, heq⟩ := ih (by simpa [Ne.symm hc] using h)
      exact ⟨c :: l, by simp [Ne.symm hc, hl], by rw [if_neg hc, heq]; rfl⟩

theorem lineFeeds_line {s : List Char} (h : '\n' ∈ s) :
    lineFeeds s = plainEnd (lineWithEnd s) ++ lineFeeds (afterLine s) := by
  obtain ⟨l, hl, heq⟩ := lineWithEnd_eq_concat h
  rw [heq, plainEnd_line hl, ← lineFeeds_append _ _ (by simp), ← heq,
    lineWithEnd_append_afterLine]

/-- Each carriage return is followed by a line feed. -/
def Paired (s : List Char) : Prop := ∀ a b, s = a ++ '\r' :: b → b.head? = some '\n'

theorem Paired.suffix {s r : List Char} (h : Paired s) (hr : r <:+ s) : Paired r := by
  obtain ⟨q, rfl⟩ := hr
  intro a b hab
  exact h (q ++ a) b (by rw [hab, List.append_assoc])

theorem paired_of_not_mem {s : List Char} (h : '\r' ∉ s) : Paired s := by
  rintro a b rfl
  simp at h

theorem not_mem_lineFeeds {s : List Char} (h : Paired s) : '\r' ∉ lineFeeds s := by
  induction s using lineFeeds.induct with
  | case1 => simp [lineFeeds]
  | case2 s ih =>
    have := ih (h.suffix ((List.suffix_cons _ _).trans (List.suffix_cons _ _)))
    simpa [lineFeeds] using this
  | case3 c s hcs ih =>
    have hs := ih (h.suffix (List.suffix_cons _ _))
    have hc : '\r' ≠ c := by
      rintro rfl
      obtain ⟨u, rfl⟩ := List.head?_eq_some_iff.1 (h [] s rfl)
      exact hcs u rfl rfl
    rw [lineFeeds]
    · simp [hc, hs]
    · exact hcs

theorem plainEnd_subset (s : List Char) : plainEnd s ⊆ s := by
  intro c hc
  unfold plainEnd at hc
  split at hc
  · rename_i d t hs
    split at hc
    · rw [← List.mem_reverse, hs]
      rcases List.mem_cons.1 (List.mem_reverse.1 hc) with rfl | h
      · simp
      · simp [h]
    · exact hc
  · exact hc

theorem not_mem_plainEnd {s : List Char} (h : Paired s) : '\r' ∉ plainEnd (lineWithEnd s) := by
  by_cases hm : '\n' ∈ s
  · have hline := lineFeeds_line hm
    have hall := not_mem_lineFeeds h
    rw [hline, List.mem_append, not_or] at hall
    exact hall.1
  · intro hc
    have hcs := (lineWithEnd_isStart s).subset (plainEnd_subset _ hc)
    obtain ⟨a, b, rfl⟩ := List.append_of_mem hcs
    have hb := List.mem_of_mem_head? (h a b rfl)
    exact hm (by simp [hb])

/-- What holds of the characters of each line holds of those of all lines. -/
theorem readOn_forall (next : List Char → Next) {s : List Char} {q : Char → Prop}
    (hsuf : ∀ r, (next r).rest <:+ r)
    (h : ∀ r line rest, r <:+ s → next r = .go line rest → ∀ c ∈ line, q c) :
    ∀ c ∈ (readOn next s).1, q c := by
  induction hn : s.length using Nat.strong_induction_on generalizing s with
  | _ n ih =>
    cases hnext : next s with
    | stop r => simp [readOn_stop hnext]
    | go line r =>
      have hline := h s line r List.suffix_rfl hnext
      have hrs := hsuf s
      rw [hnext] at hrs
      by_cases hlt : r.length < s.length
      · have hrest := ih _ (hn ▸ hlt) (fun r' l rest hr' => h r' l rest (hr'.trans hrs)) rfl
        rw [readOn_go hnext hlt]
        intro c hc
        rcases List.mem_append.1 hc with hc | hc
        · exact hline c hc
        · exact hrest c hc
      · rw [readOn, hnext]
        simp only [if_neg hlt]
        exact hline

/-- Code of a text in which no carriage return stands alone has none. -/
theorem not_mem_code {s : List Char} (h : Paired s) (stack : List Container) (k n : Nat)
    (c : Char) : '\r' ∉ (fencedBlock stack k c n s).code := by
  have hstart : afterLine (fenceLine n s) <:+ s :=
    (afterLine_suffix _).trans (fenceLine_suffix n s)
  have hall := readOn_forall (codeLine stack k c n) (s := afterLine (fenceLine n s))
    (q := (· ≠ '\r')) codeLine_suffix ?_
  · intro hc
    exact hall '\r' hc rfl
  · intro r line rest hr hgo d hd
    by_cases hin : (Container.enterAll stack (.of r)).1 = stack
    · cases hclose : closing? k c n (codeStart stack k r) with
      | some r' =>
        rw [codeLine_closed hin hclose] at hgo
        cases hgo
      | none =>
        rw [codeLine_open hin hclose] at hgo
        cases hgo
        have hpaired : Paired (codeStart stack k r).rest :=
          h.suffix ((codeStart_suffix r).trans (hr.trans hstart))
        rintro rfl
        rcases List.mem_append.1 hd with hd | hd
        · have := List.eq_of_mem_replicate hd
          cases this
        · exact not_mem_plainEnd hpaired hd
    · rw [codeLine_outside hin] at hgo
      cases hgo

/-! ### Code between fences -/

/-- Whole lines. -/
def Lines (s : List Char) : Prop := ∀ c ∈ s.getLast?, c = '\n'

theorem Lines.feed_mem {s : List Char} (h : Lines s) (hne : s ≠ []) : '\n' ∈ s := by
  have hl := List.getLast?_eq_some_getLast hne
  rw [← h _ hl]
  exact List.getLast_mem hne

theorem Lines.suffix {s r : List Char} (h : Lines s) (hr : r <:+ s) : Lines r := by
  obtain ⟨q, rfl⟩ := hr
  intro c hc
  refine h c ?_
  rw [List.getLast?_append]
  simp_all

/-- A line that closes a block is blank or starts with a fence that is long enough. -/
theorem closing?_start {n : Nat} {c : Char} {s r : List Char}
    (h : closing? 0 c n (.of s) = some r) :
    (∀ d ∈ s, d = ' ' ∨ d = '\t') ∨ ∃ k, List.replicate k ' ' ++ List.replicate n c <+: s := by
  unfold closing? at h
  split at h
  · cases h
  · rename_i l' hmiss hl'
    have hnarrow := blanks_narrow_of (s := s) (by rw [hl']; exact hmiss)
    have hrest : ((LineStart.of s).blanks 4).2.rest = l'.rest := by rw [hl']
    rw [hrest] at hnarrow
    unfold closingFence? at h
    split at h
    · rename_i hnil
      exact .inl (blank_of_blanks (hrest.trans (List.isEmpty_iff.1 hnil)))
    · simp only [Bool.and_eq_true, decide_eq_true_eq] at h
      split at h
      · rename_i hlong
        refine .inr ⟨4 - ((LineStart.of s).blanks 4).1, ?_⟩
        nth_rewrite 2 [hnarrow]
        rw [List.prefix_append_right_inj]
        have hrun : l'.rest.takeWhile (· = c) =
            List.replicate (l'.rest.takeWhile (· = c)).length c := by
          rw [List.eq_replicate_iff]
          exact ⟨rfl, fun d hd => by simpa using List.mem_takeWhile_imp hd⟩
        refine List.IsPrefix.trans ?_ (List.takeWhile_prefix (· = c))
        rw [hrun]
        exact ⟨List.replicate ((l'.rest.takeWhile (· = c)).length - n) c, by
          rw [List.replicate_append_replicate]
          congr 1
          omega⟩
      · cases h

theorem codeStart_nil (s : List Char) : codeStart [] 0 s = .of s := by
  simp [codeStart, Container.enterAll, blanks, blanksFrom, LineStart.of]

section

variable {n : Nat} {t : List Char}

theorem takeWhile_fence (n : Nat) {c : Char} {t : List Char} (ht : t.head? ≠ some c) :
    (List.replicate n c ++ t).takeWhile (· = c) = List.replicate n c := by
  have hhead : t.takeWhile (· = c) = [] := by
    cases t with
    | nil => rfl
    | cons d t => simpa using ht
  rw [List.takeWhile_append_of_pos (by simp), hhead, List.append_nil]

theorem closingFence?_fence (hn : 0 < n) (ht : Ends t) :
    closingFence? '`' n (List.replicate n '`' ++ t) = some t := by
  have hhead : t.head? ≠ some '`' := by
    intro h
    cases ht '`' h
  have hspace : t.dropWhile (· = ' ') = t := by
    cases t with
    | nil => rfl
    | cons c t =>
      rcases isLineBreak_iff.1 (ends_cons.1 ht) with rfl | rfl <;> rfl
  have hne : (List.replicate n '`' ++ t).isEmpty = false := by
    obtain ⟨m, rfl⟩ := Nat.exists_eq_succ_of_ne_zero (Nat.pos_iff_ne_zero.1 hn)
    rfl
  have hdrop : (List.replicate n '`' ++ t).drop n = t := by
    rw [List.drop_append_of_le_length (by simp)]
    simp
  simp [closingFence?, hne, takeWhile_fence n hhead, hdrop, hspace, lineEnd?_of_ends ht]

theorem codeLine_fence (hn : 0 < n) (ht : Ends t) :
    codeLine [] 0 '`' n (List.replicate n '`' ++ t) = .stop t := by
  obtain ⟨m, rfl⟩ := Nat.exists_eq_succ_of_ne_zero (Nat.pos_iff_ne_zero.1 hn)
  have hb : (LineStart.of (List.replicate (m + 1) '`' ++ t)).blanks 4 =
      (4, .of (List.replicate (m + 1) '`' ++ t)) := rfl
  refine codeLine_closed rfl ?_
  rw [codeStart_nil, closing?, Nat.sub_zero, hb]
  exact closingFence?_fence hn ht

/-- A line of code does not close a block with longer fences. -/
theorem codeLine_code {s : List Char} (hs : Lines s) (hne : s ≠ [])
    (hrun : ¬ List.replicate n '`' <:+: s) (t : List Char) :
    codeLine [] 0 '`' n (s ++ t) = .go (plainEnd (lineWithEnd s)) (afterLine s ++ t) := by
  have hfeed := hs.feed_mem hne
  have hclose : closing? 0 '`' n (.of (s ++ t)) = none := by
    rw [Option.eq_none_iff_forall_not_mem]
    intro r hr
    rcases closing?_start hr with hblank | ⟨k, hk⟩
    · rcases hblank '\n' (by simp [hfeed]) with h | h <;> cases h
    · rcases List.prefix_or_prefix_of_prefix hk (List.prefix_append s t) with h | h
      · exact hrun (List.infix_append_right.trans h.isInfix)
      · have := h.subset hfeed
        simp at this
  rw [codeLine_open rfl (by rw [codeStart_nil]; exact hclose), codeStart_nil]
  show Next.go (plainEnd (lineWithEnd (s ++ t))) (afterLine (s ++ t)) = _
  rw [lineWithEnd_append hfeed, afterLine_append hfeed]

/-- Code is read up to its closing fence. -/
theorem readOn_code {s : List Char} (hs : Lines s) (hrun : ¬ List.replicate n '`' <:+: s)
    (hn : 0 < n) (ht : Ends t) :
    readOn (codeLine [] 0 '`' n) (s ++ (List.replicate n '`' ++ t)) = (lineFeeds s, t) := by
  induction hlen : s.length using Nat.strong_induction_on generalizing s with
  | _ k ih =>
    by_cases hne : s = []
    · subst hne
      exact readOn_stop (codeLine_fence hn ht)
    · have hlater := afterLine_later hne
      have hrest := ih _ (hlen ▸ hlater.2) (hs.suffix hlater.1)
        (fun h => hrun (h.trans hlater.1.isInfix)) rfl
      rw [readOn_go (codeLine_code hs hne hrun _) (by simpa using hlater.2), hrest,
        lineFeeds_line (hs.feed_mem hne)]

end

/-! ### An opening fence -/

section

variable {q : List Char} {c : Char} {n : Nat}

theorem opens_of_fence (hf : fence? q = some (c, n))
    (hrest : ¬ Ends ((q.drop n).dropWhile (· = ' '))) : Opens q := by
  obtain ⟨hc, hn, hlen⟩ := fence?_eq_some hf
  refine ⟨by rw [hf]; rfl, fun d m => ?_⟩
  cases q with
  | nil => cases hf
  | cons e q =>
    obtain rfl : e = c := by
      by_contra he
      simp [he] at hlen
      omega
    unfold closingFence?
    simp only [List.isEmpty_cons, Bool.false_eq_true, if_false]
    by_cases hd : e = d
    · subst hd
      rw [← hlen]
      have hnone : (lineEnd? (((e :: q).drop n).dropWhile fun x => decide (x = ' '))).isSome = false := by
        rw [Bool.eq_false_iff, Ne, lineEnd?_isSome]
        exact hrest
      rw [hnone, Bool.and_false]
      simp
    · have hends : ¬ Ends (e :: q) := by
        rw [ends_cons]
        rcases hc with rfl | rfl <;> decide
      have hspace : (e :: q).dropWhile (fun x => decide (x = ' ')) = e :: q := by
        rcases hc with rfl | rfl <;> rfl
      have hnone : (lineEnd? (e :: q)).isSome = false := by
        rw [Bool.eq_false_iff, Ne, lineEnd?_isSome]
        exact hends
      simp [List.takeWhile_cons_of_neg, hd, hspace, hnone]

theorem rule?_of_fence (hf : (fence? q).isSome = true) : rule? q = none := by
  cases q with
  | nil => rfl
  | cons c q => rcases eq_of_isSome_fence? hf with rfl | rfl <;> simp [rule?]

theorem heading?_of_fence (hf : (fence? q).isSome = true) : heading? q = none := by
  cases q with
  | nil => rfl
  | cons c q => rcases eq_of_isSome_fence? hf with rfl | rfl <;> rfl

theorem html?_of_fence (stack : List Container) (hf : (fence? q).isSome = true) :
    html? stack q = none := by
  cases q with
  | nil => rfl
  | cons c q => rcases eq_of_isSome_fence? hf with rfl | rfl <;> rfl

/-- A fence that is not indented opens the first block of a text. -/
theorem blocksFrom_fence (hf : fence? q = some (c, n)) : blocksFrom [] false q =
    fencedBlock [] 0 c n q :: blocksFrom [] false (fencedEnd [] 0 c n q) := by
  have hsome : (fence? q).isSome = true := by rw [hf]; rfl
  have hne : q ≠ [] := by rintro rfl; cases hf
  have hsolid := solid_of_fence hsome
  have hl : Narrow q (.of q) := narrow_of (k := 0) (by omega) q
  have hopen : openContainers q.length (Container.enterAll [] (.of q)).1
      (Container.enterAll [] (.of q)).2 = .text [] (.of q) :=
    openContainers_narrow hsolid (itemMark?_of_fence hsome) hl _ _
  have hblank : blankLine? (LineStart.of q).rest = none := by
    have := blankLine?_of_fence 0 hsome
    rwa [List.replicate_zero, List.nil_append] at this
  have hb : (LineStart.of q).blanks 4 = (4, .of q) := by
    have := blanksFrom_spaces hsolid 4 0 0 0
    simpa [blanks, LineStart.of] using this
  have hstep : step [] false q =
      ⟨[], false, some (fencedBlock [] 0 c n q), pastBlank (fencedEnd [] 0 c n q)⟩ := by
    rw [step_of_text _ hopen hblank, hb]
    exact leaf_of_fence _ (html?_of_fence [] hsome) (rule?_of_fence hsome)
      (heading?_of_fence hsome) hf
  rw [blocksFrom_step hne, hstep, blocksFrom_pastBlank]
  rfl

end

end Notebook.Markdown
