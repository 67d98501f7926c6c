import Notebook.Proofs.Document.Reading

/-!
What the cells of a text are like. If no carriage return stands alone in the text, then its markup
is read as it is wherever it is written before code.
-/

namespace Notebook

open Markdown

namespace Document

section

variable {text s : List Char} {cells : List Cell}

/-- What holds of markup alone, and of a block if it holds of what follows, holds of all cells. -/
theorem read_induction {P : List Char → List Cell → Prop}
    (hnone : ∀ s, ofKind isRustInfo (blocksFrom [] false s) = [] → P s (markup? s).toList)
    (hfirst : ∀ s b bs rest, ofKind isRustInfo (blocksFrom [] false s) = b :: bs →
      isClosed b = true → P b.closing rest →
      P s ((markup? (partBefore s b.opening)).toList ++ Cell.ofBlock b.code :: rest))
    (h : read text s = .ok cells) : P s cells := by
  induction hn : s.length using Nat.strong_induction_on generalizing s cells with
  | _ n ih =>
    rcases read_cases h with ⟨hb, rfl⟩ | ⟨b, bs, rest, hb, hclosed, hrest, rfl⟩
    · exact hnone s hb
    · exact hfirst s b bs rest hb hclosed (ih _ (hn ▸ (opening_of_first hb).1.2) hrest rfl)

theorem tail_breaks {z : List Char} (hz : Breaks z) : Tail z [] where
  gap := .of_breaks hz
  next := .inl rfl
  ends := by
    intro c hc
    rw [List.append_nil] at hc
    exact hz c (List.mem_of_mem_head? hc)
  fed := .inl rfl

theorem Trimmed.head?_append {m : List Char} (hm : Trimmed m) (t : List Char) :
    (m ++ t).head? ≠ some '\n' := by
  obtain ⟨c, m, rfl⟩ := List.exists_cons_of_ne_nil hm.ne_nil
  have hc := hm.started c (by simp)
  rintro h
  obtain rfl : c = '\n' := by simpa using h
  cases hc

/-- Markup of a text without blocks has none when it is written alone. -/
theorem quiet_of_none {a m z : List Char} (ha : Breaks a) (hz : Breaks z) (hm : Trimmed m)
    (h : ofKind isRustInfo (blocksFrom [] false (a ++ m ++ z)) = []) : Quiet m := by
  rw [List.append_assoc, blocksFrom_breaks ha (hm.head?_append z)] at h
  have hfirst : FirstOpens isRustInfo [] (blocksFrom [] false (m ++ (z ++ []))) := by
    rw [FirstOpens, List.append_nil, h]
    rfl
  have hsame := blocksFrom_tail (by simp) hm.unbroken (tail_breaks hz) clear_feed id hfirst
  rw [blocksFrom_nil] at hsame
  exact hsame

/-- Reading gives markup and code in turns, with the marks of results where they are written. -/
theorem formed_of_read (h : read text s = .ok cells) : Formed cells ∧ ∀ c ∈ cells, c.Marked := by
  refine read_induction (P := fun _ cells => Formed cells ∧ ∀ c ∈ cells, c.Marked) ?_ ?_ h
  · intro s hb
    cases hm : markup? s with
    | none => exact ⟨.nil, by simp⟩
    | some c =>
      obtain ⟨a, m, z, rfl, ha, hz, ht, rfl⟩ := markup?_eq_some hm
      exact ⟨.last ht (quiet_of_none ha hz ht hb), by simp [Cell.Marked]⟩
  · rintro s b bs rest hb - ⟨hf, hmarked⟩
    have hcode := Cell.ofBlock_isCode b.code
    have hblock : ∀ c ∈ Cell.ofBlock b.code :: rest, c.Marked := by
      intro c hc
      rcases List.mem_cons.1 hc with rfl | hc
      · exact Cell.ofBlock_marked _
      · exact hmarked c hc
    cases hm : markup? (partBefore s b.opening) with
    | none => exact ⟨.code hcode hf, hblock⟩
    | some c =>
      obtain ⟨a, m, z, -, -, -, ht, rfl⟩ := markup?_eq_some hm
      refine ⟨.markup ht hcode (.code hcode hf), fun c hc => ?_⟩
      rcases List.mem_cons.1 hc with rfl | hc
      · trivial
      · exact hblock c hc

/-! ### Carriage returns -/

theorem language_nil : language [] = [] := by
  have h : unescape [] = [] := by simp [unescape]
  rw [language, h]
  rfl

theorem info_ne_nil {info : List Char} (h : isRustInfo info = true) : info ≠ [] := by
  rintro rfl
  rw [isRustInfo, language_nil] at h
  cases h

theorem lineWithEnd_of_break {s : List Char} (hp : Paired s) (hs : Ends s) :
    ∀ c ∈ lineWithEnd s, isAsciiBlank c = true := by
  cases s with
  | nil => simp [lineWithEnd]
  | cons c s =>
    rcases isLineBreak_iff.1 (ends_cons.1 hs) with rfl | rfl
    · simp [lineWithEnd, isAsciiBlank]
    · obtain ⟨t, rfl⟩ := List.head?_eq_some_iff.1 (hp [] s rfl)
      simp [lineWithEnd, isAsciiBlank]

theorem dropEndWhile_eq_nil {p : Char → Bool} {s : List Char} (h : ∀ c ∈ s, p c = true) :
    Text.dropEndWhile p s = [] := by
  rw [Text.dropEndWhile, List.dropWhile_eq_nil_iff.2 (by simpa using h)]
  rfl

/-- A fence of Rust has its language on its line. -/
theorem opens_of_info {q : List Char} {c : Char} {n : Nat} (hp : Paired q)
    (hf : fence? q = some (c, n)) {k : Nat}
    (hinfo : isRustInfo (fencedBlock [] k c n q).info = true) : Opens q := by
  refine opens_of_fence hf fun hends => info_ne_nil hinfo ?_
  have hspaces := List.takeWhile_append_dropWhile (p := (· = ' ')) (l := q.drop n)
  have hline : (q.drop n).dropWhile isInlineBlank = (q.drop n).dropWhile (· = ' ') := by
    nth_rewrite 1 [← hspaces]
    rw [List.dropWhile_append_of_pos]
    · refine dropWhile_of_head fun d hd => ?_
      exact isInlineBlank_of_break (hends d hd)
    · intro d hd
      rw [show d = ' ' by simpa using List.mem_takeWhile_imp hd]
      rfl
  have hpaired : Paired ((q.drop n).dropWhile (· = ' ')) :=
    hp.suffix ((List.dropWhile_suffix _).trans (List.drop_suffix n q))
  show Text.dropEndWhile isAsciiBlank (lineWithEnd ((q.drop n).dropWhile isInlineBlank)) = []
  rw [hline]
  exact dropEndWhile_eq_nil (lineWithEnd_of_break hpaired hends)

theorem fed_of_paired {z q : List Char} {k : Nat} (hz : Breaks z)
    (hp : Paired (z ++ (List.replicate k ' ' ++ q))) (hq : Opens q) :
    Fed z (List.replicate k ' ' ++ q) := by
  refine .inr fun c hc => ?_
  rcases isLineBreak_iff.1 (hz c (List.mem_of_getLast? hc)) with h | rfl
  · exact h
  · obtain ⟨z, rfl⟩ := List.getLast?_eq_some_iff.1 hc
    have hnext := hp z (List.replicate k ' ' ++ q) (by simp)
    have hw : FenceNext (List.replicate 0 ' ' ++ q) := .inr ⟨0, by omega, q, rfl, hq⟩
    cases k with
    | zero =>
      have := break_of_fenceNext hw '\n' hnext
      cases this
    | succ k => simp [List.replicate_succ] at hnext

/-- The line ends and spaces between markup and an indented fence, before empty lines. -/
theorem clear_spaces {z : List Char} {k : Nat} (hz : Breaks z) (hne : z ≠ []) (hk : k ≤ 3) :
    Clear (z ++ List.replicate k ' ' ++ ['\n', '\n']) rustFence := by
  have hends : Ends (z ++ List.replicate k ' ' ++ ['\n', '\n'] ++ rustFence) := by
    obtain ⟨c, z, rfl⟩ := List.exists_cons_of_ne_nil hne
    exact ends_cons.2 (hz c (by simp))
  have hnarrow : ¬ List.replicate 4 ' ' <:+: z ++ List.replicate k ' ' ++ ['\n', '\n'] := by
    intro h
    have hspaces := Text.infix_of_append (by simp) (by simp) h
    have hcount := hspaces.sublist.count_le ' '
    have hzero : z.count ' ' = 0 := List.count_eq_zero.2 fun hm => by
      have := hz ' ' hm
      cases this
    simp [hzero] at hcount
    omega
  have hlast : (z ++ List.replicate k ' ' ++ ['\n', '\n']).getLast? = some '\n' := by simp
  refine ⟨⟨⟨?_, hnarrow, ?_⟩, ?_, hends, ?_⟩, ?_, ?_⟩
  · intro c hc
    simp only [List.mem_append, List.mem_replicate, List.mem_cons, List.not_mem_nil, or_false,
      or_self] at hc
    rcases hc with (hc | ⟨-, rfl⟩) | rfl
    · exact .inr (hz c hc)
    · exact .inl rfl
    · exact .inr rfl
  · rw [hlast]
    simp [isLineBreak]
  · exact .inr ⟨0, by omega, rustFence, rfl, rustFence_opens⟩
  · exact .inr (by rw [hlast]; simp)
  · refine .inr ?_
    by_cases hm : '\n' ∈ z ++ List.replicate k ' '
    · rw [afterLine_append hm]
      simp
    · rw [afterLine_of_not_mem hm]
      simp [afterLine]
  · exact .inr rustFence_opens

/-- Markup before a block of a text in which no carriage return stands alone is sealed. -/
theorem sealed_of_first {b : FencedBlock} {bs : List FencedBlock} {m : List Char} (hp : Paired s)
    (hb : ofKind isRustInfo (blocksFrom [] false s) = b :: bs)
    (hm : markup? (partBefore s b.opening) = some (.markup m)) : Sealed m := by
  obtain ⟨⟨y, k, hst⟩, hinfo, -, -⟩ := blocksFrom_first hb
  obtain ⟨c, n, hf, heq⟩ := hst.fence
  have hsplit : s = (y ++ List.replicate k ' ') ++ b.opening := by
    rw [List.append_assoc]
    exact hst.place
  have hpart : partBefore s b.opening = y ++ List.replicate k ' ' := by
    nth_rewrite 1 [hsplit]
    exact partBefore_append _ _
  have hopens : Opens b.opening :=
    opens_of_info (hp.suffix ⟨_, hsplit.symm⟩) hf (heq ▸ hinfo)
  rw [hpart] at hm
  obtain ⟨a, x, z, rfl, ha, hz, hx1, hx2⟩ := exists_surrounded y
  -- The markup has text before the line ends at which the block starts.
  have hxne : x ≠ [] := by
    rintro rfl
    obtain ⟨a', m', z', heq, -, -, ht, h⟩ := markup?_eq_some hm
    have hblank : Text.allBlank (a ++ [] ++ z ++ List.replicate k ' ') = true := by
      have hspaces : Text.allBlank (List.replicate k ' ') = true := by
        rw [Text.allBlank, List.all_eq_true]
        intro c hc
        rw [List.eq_of_mem_replicate hc]
        rfl
      simp only [allBlank_append, ha.blank, hz.blank, hspaces]
      rfl
    rw [heq, allBlank_append, allBlank_append, ht.text] at hblank
    simp at hblank
  have hzne : z ≠ [] := by
    rintro rfl
    have hlast := List.getLast?_eq_some_getLast hxne
    have hbreak := hst.lined (x.getLast hxne) (by
      rw [List.append_nil, List.getLast?_append_of_ne_nil _ hxne, hlast]
      rfl)
    rw [hx2 _ hlast] at hbreak
    cases hbreak
  have hnext : FenceNext (List.replicate k ' ' ++ b.opening) :=
    .inr ⟨k, hst.narrow, b.opening, rfl, hopens⟩
  have hwhole : s = a ++ (x ++ (z ++ (List.replicate k ' ' ++ b.opening))) := by
    rw [hst.place]
    simp only [List.append_assoc]
  have htail : Tail z (List.replicate k ' ' ++ b.opening) := by
    refine ⟨.of_breaks hz, hnext, ?_, fed_of_paired hz (hp.suffix ⟨a ++ x, ?_⟩) hopens⟩
    · obtain ⟨d, z, rfl⟩ := List.exists_cons_of_ne_nil hzne
      exact ends_cons.2 (hz d (by simp))
    · rw [hwhole, List.append_assoc]
  have hstart : (x ++ (z ++ (List.replicate k ' ' ++ b.opening))).head? ≠ some '\n' := by
    obtain ⟨d, x, rfl⟩ := List.exists_cons_of_ne_nil hxne
    have hd := hx1 d (by simp)
    intro h
    obtain rfl : d = '\n' := by simpa using h
    cases hd
  have hfirst : FirstOpens isRustInfo (List.replicate k ' ' ++ b.opening)
      (blocksFrom [] false (x ++ (z ++ (List.replicate k ' ' ++ b.opening)))) := by
    have hne : List.replicate k ' ' ++ b.opening ≠ [] := by
      intro h
      have := (List.append_eq_nil_iff.1 h).2
      rw [this] at hf
      cases hf
    rw [← blocksFrom_breaks ha hstart, ← hwhole, FirstOpens, hb, if_neg hne,
      dropWhile_fence k hopens.fence]
    rfl
  have hrust : rustFence ≠ [] := by decide
  have hsame {g' : List Char} (hc : Clear g' rustFence) :
      FirstOpens isRustInfo rustFence (blocksFrom [] false (x ++ (g' ++ rustFence))) := by
    have hne : List.replicate k ' ' ++ b.opening = [] → rustFence = [] := by
      intro h
      have := (List.append_eq_nil_iff.1 h).2
      rw [this] at hf
      cases hf
    rw [FirstOpens, blocksFrom_tail (by simp) hx2 htail hc hne hfirst]
    exact rustFence_first
  cases k with
  | zero =>
    have hxt : Text.trimWhile isLineBreak (a ++ x ++ z ++ List.replicate 0 ' ') = x := by
      rw [List.replicate_zero, List.append_nil]
      exact trimWhile_surrounded ha hz hx1 hx2
    rw [markup?_eq, hxt] at hm
    split at hm
    · cases hm
    · obtain rfl : x = m := by simpa using hm
      exact (sealed_iff x).2 (hsame (clear_feeds rustFence_opens))
  | succ k =>
    have hmid : Started (x ++ (z ++ List.replicate (k + 1) ' ')) := by
      obtain ⟨d, x, rfl⟩ := List.exists_cons_of_ne_nil hxne
      exact hx1
    have hend : Unbroken (x ++ (z ++ List.replicate (k + 1) ' ')) := by
      rw [List.replicate_succ', ← List.append_assoc, ← List.append_assoc]
      simp [Unbroken, isLineBreak]
    have hxt : Text.trimWhile isLineBreak (a ++ x ++ z ++ List.replicate (k + 1) ' ') =
        x ++ (z ++ List.replicate (k + 1) ' ') := by
      have := trimWhile_surrounded (z := []) ha (by simp [Breaks]) hmid hend
      simpa only [List.append_assoc, List.append_nil] using this
    rw [markup?_eq, hxt] at hm
    split at hm
    · cases hm
    · obtain rfl : x ++ (z ++ List.replicate (k + 1) ' ') = m := by simpa using hm
      have := hsame (clear_spaces hz hzne hst.narrow)
      rw [sealed_iff]
      simpa only [List.append_assoc] using this

end

end Document

end Notebook
