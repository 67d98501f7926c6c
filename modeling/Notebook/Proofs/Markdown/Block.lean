import Notebook.Proofs.Markdown.Local
import Notebook.Proofs.Text.Split

/-!
The lines of code, HTML and paragraphs are read locally. A block of code or HTML that is open at
the end of a text goes on after it, unless containers end it.
-/

namespace Notebook.Markdown

open LineStart

section

variable {g w : List Char}

/-! ### Lines of a tail -/

theorem FenceNext.lost {r : List Char} (hw : FenceNext w) (hr : r <:+ afterLine w) : Lost w r := by
  rcases hw with rfl | ⟨k, -, q, rfl, hq⟩
  · exact .inl (List.suffix_nil.1 hr)
  · right
    have hq' : q ≠ [] := by rintro rfl; cases hq.fence
    rw [afterLine_of_not_mem (by simp)] at hr
    rw [Swallowed, dropWhile_fence k hq.fence]
    exact ((afterLine_later hq').of_suffix hr).2

/-! ### Code -/

section

variable {stack : List Container} {indent n : Nat} {c : Char}

theorem closingFence?_suffix {s r : List Char} (h : closingFence? c n s = some r) : r <:+ s := by
  unfold closingFence? at h
  split at h
  · cases h; exact List.nil_suffix
  · simp only at h
    split at h <;> cases h
    exact (List.dropWhile_suffix _).trans (List.drop_suffix _ _)

theorem closing?_suffix {l : LineStart} {r : List Char} (h : closing? indent c n l = some r) :
    r <:+ l.rest := by
  have hb := blanks_suffix (4 - indent) l
  unfold closing? at h
  split at h
  · cases h
  · rename_i l' hl
    rw [hl] at hb
    exact (closingFence?_suffix h).trans hb

/-- Where the code of a line starts, if the line stands in the containers of its block. -/
def codeStart (stack : List Container) (indent : Nat) (s : List Char) : LineStart :=
  ((Container.enterAll stack (.of s)).2.blanks indent).2

theorem codeStart_suffix (s : List Char) : (codeStart stack indent s).rest <:+ s :=
  (blanks_suffix indent _).trans (Container.enterAll_suffix stack (.of s))

theorem codeLine_outside {s : List Char} (h : (Container.enterAll stack (.of s)).1 ≠ stack) :
    codeLine stack indent c n s = .stop s := by
  simp [codeLine, h]

theorem codeLine_closed {s r : List Char} (h : (Container.enterAll stack (.of s)).1 = stack)
    (hc : closing? indent c n (codeStart stack indent s) = some r) :
    codeLine stack indent c n s = .stop r := by
  rw [codeStart] at hc
  simp [codeLine, h, hc]

theorem codeLine_open {s : List Char} (h : (Container.enterAll stack (.of s)).1 = stack)
    (hc : closing? indent c n (codeStart stack indent s) = none) :
    codeLine stack indent c n s =
      .go (List.replicate (codeStart stack indent s).spare ' ' ++
        plainEnd (lineWithEnd (codeStart stack indent s).rest))
        (afterLine (codeStart stack indent s).rest) := by
  rw [codeStart] at hc
  simp [codeLine, h, hc, codeStart]

theorem codeLine_suffix (s : List Char) : (codeLine stack indent c n s).rest <:+ s := by
  by_cases h : (Container.enterAll stack (.of s)).1 = stack
  · cases hc : closing? indent c n (codeStart stack indent s) with
    | some r =>
      rw [codeLine_closed h hc]
      exact (closing?_suffix hc).trans (codeStart_suffix s)
    | none =>
      rw [codeLine_open h hc]
      exact (afterLine_suffix _).trans (codeStart_suffix s)
  · rw [codeLine_outside h]
    exact List.suffix_rfl

theorem endOf_codeLine_nil : endOf (codeLine stack indent c n) [] = [] :=
  List.suffix_nil.1 (readOn_suffix codeLine_suffix [])

theorem closingFence?_of_ends {q : List Char} (hq : Ends q) (hne : q ≠ [])
    (hc : isLineBreak c = false) (hn : 0 < n) : closingFence? c n q = none := by
  obtain ⟨d, q, rfl⟩ := List.exists_cons_of_ne_nil hne
  have hd : d ≠ c := by rintro rfl; rw [ends_cons.1 hq] at hc; cases hc
  simp [closingFence?, hd, Nat.pos_iff_ne_zero.1 hn]

/-- No fence closes a block on a line whose first character closes none. -/
theorem closing?_narrow (indent : Nat) {q : List Char} (hq : Solid q) {l : LineStart} (hl : Narrow q l)
    (hc : closingFence? c n q = none) : closing? indent c n l = none := by
  have hb := (blanks_narrow hq hl (4 - indent)).2.1
  unfold closing?
  split
  · rfl
  · rename_i l' hmiss hl'
    rw [hl'] at hb
    rw [hb (.inl hmiss), hc]

/-- An empty line does not close a block. -/
theorem closing?_gap (stack : List Container) (indent : Nat) (w : List Char) (hg : Gap g) (hne : g ≠ []) (hc : isLineBreak c = false) (hn : 0 < n) :
    closing? indent c n (codeStart stack indent (g ++ w)) = none ∧
      ∃ g', g' <:+ g ∧ g' ≠ [] ∧ (codeStart stack indent (g ++ w)).rest = g' ++ w := by
  obtain ⟨q, hq, hqne, hl, hplace⟩ := hg.place hne w
  have hsolid := solid_of_ends hq
  have hstart : Narrow q (codeStart stack indent (g ++ w)) :=
    (blanks_narrow hsolid (enterAll_narrow hsolid stack hl) indent).1
  exact ⟨closing?_narrow indent hsolid hstart (closingFence?_of_ends hq hqne hc hn),
    hplace _ hstart (codeStart_suffix _)⟩

/-- Code in containers ends with them, before a fence that stands in none. -/
theorem codeLine_past (hs : stack ≠ []) (h0 : .item 0 ∉ stack) (hc : isLineBreak c = false)
    (hn : 0 < n) (hg : Gap g) (hw : w = [] ∨ Opens w) (hf : Fed g w) :
    Past g w (endOf (codeLine stack indent c n) (g ++ w)) := by
  induction hlen : g.length using Nat.strong_induction_on generalizing g with
  | _ k ih =>
    by_cases hne : g = []
    · subst hne
      rcases hw with rfl | hw
      · exact ⟨[], List.suffix_rfl, endOf_codeLine_nil⟩
      · refine ⟨[], List.suffix_rfl, endOf_stop (codeLine_outside ?_)⟩
        rw [List.nil_append, hw.enterAll h0]
        exact hs.symm
    · by_cases hin : (Container.enterAll stack (.of (g ++ w))).1 = stack
      · obtain ⟨hopen, g', hg', hne', hr⟩ :=
          closing?_gap stack indent w hg hne hc hn
        have hgo := codeLine_open hin hopen
        have hlater := (afterLine_later hne').suffix hg'
        rw [hr, (hf.suffix hg').afterLine (.inl hne')] at hgo
        rw [endOf_go hgo (by simpa using hlater.2)]
        exact (ih _ (hlen ▸ hlater.2) (hg.suffix hlater.1) (hf.suffix hlater.1) rfl).suffix hlater.1
      · exact ⟨g, List.suffix_rfl, endOf_stop (codeLine_outside hin)⟩

/-- Code outside of containers goes on through an opening fence. -/
theorem codeLine_lost (hc : isLineBreak c = false) (hn : 0 < n) (hg : Gap g) (hw : FenceNext w) :
    Lost w (endOf (codeLine [] indent c n) (g ++ w)) := by
  induction hlen : g.length using Nat.strong_induction_on generalizing g with
  | _ k ih =>
    have hin : (Container.enterAll [] (.of (g ++ w))).1 = [] := rfl
    by_cases hne : g = []
    · subst hne
      rcases hw with rfl | ⟨j, hj, q, rfl, hq⟩
      · exact .inl endOf_codeLine_nil
      · have hsolid := solid_of_fence hq.fence
        have hstart : Narrow q (codeStart [] indent (List.replicate j ' ' ++ q)) :=
          (blanks_narrow hsolid (narrow_of hj q) indent).1
        have hopen := closing?_narrow indent hsolid hstart (hq.unclosing c n)
        obtain ⟨i, -, hr, -⟩ := hstart
        have hgo := codeLine_open hin hopen
        rw [List.nil_append, hr, afterLine_of_not_mem (by simp)] at hgo
        have hlater := (afterLine_later (by rintro rfl; cases hq.fence)).suffix
          (List.suffix_append (List.replicate j ' ') q)
        rw [List.nil_append, endOf_go hgo hlater.2]
        refine FenceNext.lost (.inr ⟨j, hj, q, rfl, hq⟩) ?_
        rw [afterLine_of_not_mem (by simp)]
        exact readOn_suffix codeLine_suffix _
    · obtain ⟨hopen, g', hg', hne', hr⟩ :=
        closing?_gap [] indent w hg hne hc hn
      have hgo := codeLine_open hin hopen
      have hlater := (afterLine_later (s := g' ++ w) (by simp [hne'])).suffix
        (List.suffix_append_self_iff.2 hg')
      rw [hr] at hgo
      rw [endOf_go hgo hlater.2]
      by_cases hm : '\n' ∈ g'
      · have hlater' := (afterLine_later hne').suffix hg'
        rw [afterLine_append hm]
        exact ih _ (hlen ▸ hlater'.2) (hg.suffix hlater'.1) rfl
      · rw [afterLine_of_not_mem hm]
        exact hw.lost (readOn_suffix codeLine_suffix _)

/-- Code that is open after the first line of a tail, which is its own in containers only. -/
theorem codeLine_after_past (hs : stack ≠ []) (h0 : .item 0 ∉ stack) (hc : isLineBreak c = false)
    (hn : 0 < n) (ht : Clear g w) :
    Past g w (endOf (codeLine stack indent c n) (afterLine (g ++ w))) := by
  rw [ht.fed.afterLine ht.ne_nil]
  exact (codeLine_past hs h0 hc hn (ht.gap.suffix (afterLine_suffix g)) ht.flush
    (ht.fed.suffix (afterLine_suffix g))).suffix (afterLine_suffix g)

theorem codeLine_after_lost (hc : isLineBreak c = false) (hn : 0 < n) (ht : Tail g w) :
    Lost w (endOf (codeLine [] indent c n) (afterLine (g ++ w))) := by
  rw [ht.fed.afterLine ht.ne_nil]
  exact codeLine_lost hc hn (ht.gap.suffix (afterLine_suffix g)) ht.next

/-- Code that is open after the last line of a text. -/
theorem codeLine_last (h0 : .item 0 ∉ stack) (hc : isLineBreak c = false) (hn : 0 < n)
    {s : List Char} (hs : s ≠ []) (hend : endOf (codeLine stack indent c n) s = [])
    (h : ∀ g w, Tail g w → g ≠ [] →
      ∃ line, codeLine stack indent c n (s ++ (g ++ w)) = .go line (afterLine (g ++ w))) :
    LineLocal (codeLine stack indent c n) s := by
  have hend' (g w : List Char) (ht : Tail g w) (hg : g ≠ []) :
      endOf (codeLine stack indent c n) (s ++ (g ++ w)) =
        endOf (codeLine stack indent c n) (afterLine (g ++ w)) := by
    obtain ⟨line, hgo⟩ := h g w ht hg
    refine endOf_go hgo (lt_of_le_of_lt (afterLine_suffix _).length_le ?_)
    simpa [List.length_pos_iff] using hs
  refine .inr (.inr ⟨hend, ?_⟩)
  by_cases hstack : stack = []
  · right
    intro g w ht
    by_cases hg : g = []
    · obtain rfl : w = [] := ht.ne_nil.resolve_left (by simp [hg])
      simpa [hg] using .inl hend
    · rw [hend' g w ht hg]
      subst hstack
      exact codeLine_after_lost hc hn ht
  · left
    intro g w ht
    by_cases hg : g = []
    · obtain rfl : w = [] := ht.ne_nil.resolve_left (by simp [hg])
      exact ⟨[], List.nil_suffix, by simpa [hg] using hend⟩
    · rw [hend' g w ht.toTail hg]
      exact codeLine_after_past hstack h0 hc hn ht

theorem closingFence?_append {s t : List Char} (hs : s ≠ []) (ht : Ends t)
    (hc : isLineBreak c = false) :
    closingFence? c n (s ++ t) = (closingFence? c n s).map (· ++ t) := by
  have hb : ∀ d, isLineBreak d = true → decide (d = c) = false := by
    intro d hd
    simp only [decide_eq_false_iff_not]
    rintro rfl
    rw [hd] at hc
    cases hc
  have hd : (s ++ t).drop (s.takeWhile (· = c)).length =
      s.drop (s.takeWhile (· = c)).length ++ t :=
    List.drop_append_of_le_length (List.takeWhile_prefix _).length_le
  have hspace : ∀ d, isLineBreak d = true → decide (d = ' ') = false := by
    intro d hd
    rcases isLineBreak_iff.1 hd with rfl | rfl <;> rfl
  have hempty : s.isEmpty = false ∧ (s ++ t).isEmpty = false := by
    obtain ⟨d, s, rfl⟩ := List.exists_cons_of_ne_nil hs
    exact ⟨rfl, rfl⟩
  simp only [closingFence?, hempty, takeWhile_append_ends s ht hb, hd,
    dropWhile_append_ends _ ht hspace, isSome_lineEnd?_append _ ht, Bool.false_eq_true, if_false]
  split <;> rfl

/-- A line of nothing but blanks, which ends code at the end of a text only. -/
def BlankStart (indent : Nat) (l : LineStart) : Prop :=
  (l.blanks (4 - indent)).1 ≠ 0 ∧ (l.blanks (4 - indent)).2.rest = []

theorem closing?_append {t : List Char} {l : LineStart} (hl : ¬ BlankStart indent l)
    (ht : Ends t) (hc : isLineBreak c = false) :
    closing? indent c n (l.append t) = (closing? indent c n l).map (· ++ t) := by
  rw [closing?, blanks_append ht, closing?]
  rw [BlankStart] at hl
  rcases hb : l.blanks (4 - indent) with ⟨_ | missing, m⟩
  · rfl
  · rw [hb] at hl
    have hm : m.rest ≠ [] := fun h => hl ⟨by simp, h⟩
    exact closingFence?_append hm ht hc

theorem closing?_blankStart {l : LineStart} (hl : BlankStart indent l) :
    closing? indent c n l = some [] := by
  obtain ⟨h1, h2⟩ := hl
  rw [closing?]
  split
  · simp_all
  · rename_i hm
    rw [hm] at h2
    rw [h2]
    rfl

theorem closing?_append_blankStart {t : List Char} {l : LineStart} (hl : BlankStart indent l)
    (ht : Ends t) (hne : t ≠ []) (hc : isLineBreak c = false) (hn : 0 < n) :
    closing? indent c n (l.append t) = none := by
  obtain ⟨h1, h2⟩ := hl
  rw [closing?, blanks_append ht]
  split
  · rfl
  · rename_i hm
    have := congrArg (·.2.rest) hm
    simp only [rest_append, h2, List.nil_append] at this
    rw [← this]
    exact closingFence?_of_ends ht hne hc hn

theorem codeLine_local (h0 : .item 0 ∉ stack) (hc : isLineBreak c = false) (hn : 0 < n)
    {s : List Char} (hne : s ≠ []) (hs : Unbroken s) :
    LineLocal (codeLine stack indent c n) s := by
  have hin {t : List Char} (ht : Ends t) :
      (Container.enterAll stack (.of (s ++ t))).1 = (Container.enterAll stack (.of s)).1 := by
    rw [of_append, Container.enterAll_append ht]
  have hstart {t : List Char} (ht : Ends t) :
      codeStart stack indent (s ++ t) = (codeStart stack indent s).append t := by
    rw [codeStart, of_append, Container.enterAll_append ht, blanks_append ht, codeStart]
  have hsuf : (codeStart stack indent s).rest <:+ s := codeStart_suffix s
  by_cases h : (Container.enterAll stack (.of s)).1 = stack
  case neg =>
    exact .inl ⟨s, hne, codeLine_outside h, fun g w ht =>
      codeLine_outside (by rwa [hin ht.ends])⟩
  by_cases hb : BlankStart indent (codeStart stack indent s)
  case pos =>
    refine codeLine_last h0 hc hn hne (endOf_stop (codeLine_closed h (closing?_blankStart hb))) ?_
    intro g w ht hg
    have hopen : closing? indent c n (codeStart stack indent (s ++ (g ++ w))) = none := by
      rw [hstart ht.ends]
      exact closing?_append_blankStart hb ht.ends (by simp [hg]) hc hn
    have hsingle : '\n' ∉ (codeStart stack indent s).rest := by
      intro hm
      have := single_of_blanks hb.2 _ hm
      cases this
    have hgo := codeLine_open (by rwa [hin ht.ends]) hopen
    rw [hstart ht.ends, rest_append, afterLine_of_not_mem hsingle] at hgo
    exact ⟨_, hgo⟩
  have hclose {t : List Char} (ht : Ends t) :
      closing? indent c n (codeStart stack indent (s ++ t)) =
        (closing? indent c n (codeStart stack indent s)).map (· ++ t) := by
    rw [hstart ht, closing?_append hb ht hc]
  cases hcl : closing? indent c n (codeStart stack indent s) with
  | some r =>
    have hwhole (g w : List Char) (ht : Tail g w) :
        codeLine stack indent c n (s ++ (g ++ w)) = .stop (r ++ (g ++ w)) :=
      codeLine_closed (by rwa [hin ht.ends]) (by rw [hclose ht.ends, hcl]; rfl)
    by_cases hr : r = []
    · subst hr
      refine .inr (.inr ⟨endOf_stop (codeLine_closed h hcl), .inl fun g w ht => ?_⟩)
      exact ⟨g, List.suffix_rfl, endOf_stop (hwhole g w ht.toTail)⟩
    · exact .inl ⟨r, hr, codeLine_closed h hcl, hwhole⟩
  | none =>
    have hgo := codeLine_open h hcl
    have hwhole (g w : List Char) (ht : Tail g w) := codeLine_open (c := c) (n := n)
      (by rwa [hin ht.ends]) (by rw [hclose ht.ends, hcl]; rfl)
    by_cases hm : '\n' ∈ (codeStart stack indent s).rest
    · refine .inr (.inl ⟨_, _, ?_, ?_, hgo, fun g w ht => ?_⟩)
      · exact (hs.suffix hsuf).afterLine_ne_nil hm
      · exact (afterLine_later (List.ne_nil_of_mem hm)).suffix hsuf
      · rw [hwhole g w ht, hstart ht.ends, rest_append, lineWithEnd_append hm, afterLine_append hm]
        rfl
    · have hnil : afterLine (codeStart stack indent s).rest = [] := by
        simpa [afterLine] using afterLine_of_not_mem hm []
      rw [hnil] at hgo
      refine codeLine_last h0 hc hn hne ?_ fun g w ht hg => ?_
      · rw [endOf_go hgo (by simpa [List.length_pos_iff] using hne), endOf_codeLine_nil]
      · have hlast := hwhole g w ht
        rw [hstart ht.ends, rest_append, afterLine_of_not_mem hm] at hlast
        exact ⟨_, hlast⟩

end

/-! ### Indented code -/

section

variable {stack : List Container}

theorem blankLine?_of_ends {q : List Char} (hq : Ends q) : (blankLine? q).isSome = true := by
  rw [blankLine?, lineEnd?_isSome]
  cases q with
  | nil => exact ends_nil
  | cons c q =>
    have hc := ends_cons.1 hq
    rw [List.dropWhile_cons_of_neg (by simp [isInlineBlank_of_break hc])]
    exact ends_cons.2 hc

/-- Where the text of a line starts, if the line is indented like code. -/
def indentStart (stack : List Container) (next : List Char) : Nat × LineStart :=
  (Container.enterAll stack (.of next)).2.blanks 4

theorem indentStart_suffix (stack : List Container) (next : List Char) : (indentStart stack next).2.rest <:+ next :=
  (blanks_suffix 4 _).trans (Container.enterAll_suffix stack (.of next))

theorem indentedCode_done {blank : Bool} {done s next : List Char} (hn : afterLine s = next)
    (h : (Container.enterAll stack (.of next)).1 = stack →
      (indentStart stack next).1 ≠ 0 ∧ (indentStart stack next).2.atEnd = false ∨
        (indentStart stack next).2.rest = []) :
    indentedCode stack blank done s = if blank then done else next := by
  rw [indentedCode, hn]
  simp only
  split
  · rfl
  · rename_i hin
    rcases h (not_not.1 hin) with ⟨h1, h2⟩ | h1
    · rw [indentStart] at h1 h2
      rw [if_pos (by simp [h1, h2])]
    · rw [indentStart] at h1
      simp [h1]

theorem indentedCode_go {blank : Bool} {done s next r : List Char} (hn : afterLine s = next)
    (hin : (Container.enterAll stack (.of next)).1 = stack)
    (hr : (indentStart stack next).2.rest = r) (hne : r ≠ []) (hlt : r.length < s.length)
    (h : (indentStart stack next).1 = 0 ∨ (indentStart stack next).2.atEnd = true) :
    indentedCode stack blank done s =
      indentedCode stack (blankLine? r).isSome (if blank then done else next) r := by
  rw [indentedCode, hn]
  rw [indentStart] at hr h
  simp only [hr]
  rw [if_neg (by simpa using hin), if_neg (by rcases h with h | h <;> simp [h]),
    if_neg (by simpa using hne), if_pos hlt]

/-- Empty lines after indented code are not part of it. -/
theorem indentedCode_gap (hg : Gap g) (hw : FenceNext w) (hf : Fed g w) {blank : Bool}
    {done s : List Char} (hs : s ≠ []) (hafter : afterLine s = g ++ w) :
    indentedCode stack blank done s = if blank then done else g ++ w := by
  induction hlen : g.length using Nat.strong_induction_on generalizing g s blank done with
  | _ k ih =>
    by_cases hgne : g = []
    · subst hgne
      refine indentedCode_done hafter fun _ => ?_
      rcases hw with rfl | ⟨j, hj, q, rfl, hq⟩
      · exact .inr (List.suffix_nil.1 (indentStart_suffix stack []))
      · left
        have hsolid := solid_of_fence hq.fence
        obtain ⟨-, hrest, hmiss⟩ :=
          blanks_narrow hsolid (enterAll_narrow hsolid stack (narrow_of hj q)) 4
        refine ⟨hmiss (by omega), ?_⟩
        rw [Bool.eq_false_iff, ne_eq, atEnd_iff, List.nil_append, indentStart,
          hrest (.inr (by omega))]
        exact hq.not_ends
    · obtain ⟨q, hq, hqne, hl, hplace⟩ := hg.place hgne w
      have hsolid := solid_of_ends hq
      obtain ⟨hstart, hrest, -⟩ := blanks_narrow hsolid (enterAll_narrow hsolid stack hl) 4
      have hr : (indentStart stack (g ++ w)).2.rest = q := hrest (.inr (by omega))
      obtain ⟨g', hg', hne', hr'⟩ := hplace _ hstart (indentStart_suffix stack _)
      have hqg : q = g' ++ w := hr.symm.trans hr'
      by_cases hin : (Container.enterAll stack (.of (g ++ w))).1 = stack
      case neg => exact indentedCode_done hafter fun h => absurd h hin
      have hlt : q.length < s.length := by
        refine lt_of_le_of_lt ?_ (afterLine_later hs).2
        rw [hafter, hqg]
        exact (List.suffix_append_self_iff.2 hg').length_le
      have hlater := (afterLine_later hne').suffix hg'
      rw [indentedCode_go hafter hin hr hqne hlt (.inr ((atEnd_iff _).2 (by rwa [hr]))),
        blankLine?_of_ends hq]
      refine ih _ (hlen ▸ hlater.2) (hg.suffix hlater.1) (hf.suffix hlater.1) hqne ?_ rfl
      rw [hqg, (hf.suffix hg').afterLine (.inl hne')]

theorem indentedCode_append (stack : List Container) (blank : Bool) (done : List Char)
    {s : List Char} (hne : s ≠ []) (hs : Unbroken s)
    (hd : blank = true → done ≠ []) (ht : Tail g w) :
    (indentedCode stack blank done s ≠ [] ∧
        indentedCode stack blank (done ++ (g ++ w)) (s ++ (g ++ w)) =
          indentedCode stack blank done s ++ (g ++ w)) ∨
      indentedCode stack blank done s = [] ∧
        indentedCode stack blank (done ++ (g ++ w)) (s ++ (g ++ w)) = afterLine g ++ w := by
  induction hlen : s.length using Nat.strong_induction_on generalizing s blank done with
  | _ k ih =>
    have hgap := ht.gap.suffix (afterLine_suffix g)
    have hfed := ht.fed.suffix (afterLine_suffix g)
    by_cases hmem : '\n' ∈ s
    case neg =>
      have halone : indentedCode stack blank done s = if blank then done else [] :=
        indentedCode_gap Gap.nil (.inl rfl) (.inl rfl) hne (by rw [afterLine_nil hmem]; rfl)
      have hwhole : indentedCode stack blank (done ++ (g ++ w)) (s ++ (g ++ w)) =
          if blank then done ++ (g ++ w) else afterLine g ++ w :=
        indentedCode_gap hgap ht.next hfed (by simp [hne])
          (by rw [afterLine_of_not_mem hmem, ht.fed.afterLine ht.ne_nil])
      rw [halone, hwhole]
      cases blank with
      | true => exact .inl ⟨hd rfl, rfl⟩
      | false => exact .inr ⟨rfl, rfl⟩
    have hafter : afterLine (s ++ (g ++ w)) = afterLine s ++ (g ++ w) := afterLine_append hmem _
    have hp := hs.afterLine_ne_nil hmem
    have hsuf : (indentStart stack (afterLine s)).2.rest <:+ afterLine s := indentStart_suffix stack _
    have hin : (Container.enterAll stack (.of (afterLine s ++ (g ++ w)))).1 =
        (Container.enterAll stack (.of (afterLine s))).1 := by
      rw [of_append, Container.enterAll_append ht.ends]
    have hstart : indentStart stack (afterLine s ++ (g ++ w)) =
        ((indentStart stack (afterLine s)).1,
          (indentStart stack (afterLine s)).2.append (g ++ w)) := by
      rw [indentStart, of_append, Container.enterAll_append ht.ends, blanks_append ht.ends,
        indentStart]
    have hdone : (if blank then done ++ (g ++ w) else afterLine s ++ (g ++ w)) =
        (if blank then done else afterLine s) ++ (g ++ w) := by
      cases blank <;> rfl
    have hdne : (if blank then done else afterLine s) ≠ [] := by
      cases blank with
      | true => exact hd rfl
      | false => exact hp
    by_cases hstop : (Container.enterAll stack (.of (afterLine s))).1 = stack →
        (indentStart stack (afterLine s)).1 ≠ 0 ∧ (indentStart stack (afterLine s)).2.atEnd = false
    · rw [indentedCode_done rfl fun h => .inl (hstop h),
        indentedCode_done hafter fun h => .inl ?_, hdone]
      · exact .inl ⟨hdne, rfl⟩
      · rw [hstart]
        rw [hin] at h
        exact ⟨(hstop h).1, by rw [atEnd_append ht.ends]; exact (hstop h).2⟩
    obtain ⟨hentered, hcont⟩ := Classical.not_imp.1 hstop
    have hcont : (indentStart stack (afterLine s)).1 = 0 ∨
        (indentStart stack (afterLine s)).2.atEnd = true := by
      by_contra h
      simp only [not_or, Bool.not_eq_true] at h
      exact hcont h
    have hcont' : (indentStart stack (afterLine s ++ (g ++ w))).1 = 0 ∨
        (indentStart stack (afterLine s ++ (g ++ w))).2.atEnd = true := by
      rwa [hstart, atEnd_append ht.ends]
    have hlater := (afterLine_later hne).of_suffix hsuf
    have hlt : ((indentStart stack (afterLine s)).2.rest ++ (g ++ w)).length <
        (s ++ (g ++ w)).length := by simpa using hlater.2
    have hrest : (indentStart stack (afterLine s ++ (g ++ w))).2.rest =
        (indentStart stack (afterLine s)).2.rest ++ (g ++ w) := by rw [hstart, rest_append]
    by_cases hr : (indentStart stack (afterLine s)).2.rest = []
    · rw [indentedCode_done rfl fun _ => .inr hr]
      refine .inl ⟨hdne, ?_⟩
      by_cases hnil : g ++ w = []
      · rw [indentedCode_done hafter fun _ => .inr (by rw [hrest, hr, hnil]; rfl), hdone]
      · rw [hr, List.nil_append] at hrest hlt
        rw [indentedCode_go hafter (by rw [hin]; exact hentered) hrest hnil hlt hcont',
          blankLine?_of_ends ht.ends, hdone,
          indentedCode_gap hgap ht.next hfed hnil (ht.fed.afterLine ht.ne_nil), if_pos rfl]
    · rw [indentedCode_go rfl hentered rfl hr hlater.2 hcont,
        indentedCode_go hafter (by rw [hin]; exact hentered) hrest (by simp [hr]) hlt hcont', hdone,
        isSome_blankLine?_append _ ht.ends]
      exact ih _ (hlen ▸ hlater.2) _ _ hr (hs.suffix hlater.1) (fun _ => hdne) rfl

theorem indentedCode_local {s : List Char} (hne : s ≠ []) (hs : Unbroken s) :
    Local (indentedCode stack false []) s := by
  have hdone (t : List Char) :
      indentedCode stack false [] (s ++ t) = indentedCode stack false ([] ++ t) (s ++ t) := by
    rw [indentedCode]
    conv_rhs => rw [indentedCode]
    rfl
  by_cases h : indentedCode stack false [] s = []
  · refine .inr ⟨h, .inl fun g w ht => ⟨afterLine g, afterLine_suffix g, ?_⟩⟩
    rw [hdone]
    rcases indentedCode_append stack false [] hne hs (by simp)
      ht.toTail with ⟨h1, -⟩ | ⟨-, h1⟩
    · exact absurd h h1
    · exact h1
  · refine .inl ⟨h, fun g w ht => .inl ?_⟩
    rw [hdone]
    rcases indentedCode_append stack false [] hne hs (by simp) ht
      with ⟨-, h1⟩ | ⟨h1, -⟩
    · exact h1
    · exact absurd h1 h

end

/-! ### HTML -/

/-- An end mark that has no blank in it. -/
structure EndMark (mark : String) : Prop where
  ne_nil : mark.toList ≠ []
  solid : ∀ c ∈ mark.toList, c ≠ ' ' ∧ isLineBreak c = false

theorem EndMark.of_all {mark : String} (hne : mark.toList ≠ [])
    (h : mark.toList.all (fun c => c != ' ' && !isLineBreak c) = true) : EndMark mark :=
  ⟨hne, by simpa using h⟩

theorem endMark_of_endMark? {s : List Char} {mark : String} (h : endMark? s = some mark) :
    EndMark mark := by
  unfold endMark? at h
  repeat' split at h
  all_goals cases h
  all_goals exact .of_all (by decide) (by decide)

theorem lineHas_iff {mark : String} {s : List Char} :
    lineHas mark s = true ↔ mark.toList <:+: lineWithEnd s := Text.isSome_splitFirst?

theorem Gap.not_mem {mark : String} (hm : EndMark mark) (hg : Gap g) :
    ∀ c ∈ mark.toList, c ∉ g := by
  intro c hc hcg
  obtain ⟨h1, h2⟩ := hm.solid c hc
  rcases hg.blank c hcg with h | h
  · exact h1 h
  · rw [h] at h2; cases h2

theorem Tail.lineWithEnd (ht : Tail g w) :
    Markdown.lineWithEnd (g ++ w) = Markdown.lineWithEnd g := by
  rcases ht.feed with rfl | h
  · simp
  · exact lineWithEnd_append h w

theorem lineHas_append {mark : String} (hm : EndMark mark) (s : List Char) (ht : Tail g w) :
    lineHas mark (s ++ (g ++ w)) = lineHas mark s := by
  by_cases h : '\n' ∈ s
  · rw [lineHas, lineWithEnd_append h]; rfl
  · have hs : lineWithEnd s = s := by simpa [lineWithEnd] using lineWithEnd_of_not_mem h []
    have hd : ∀ c ∈ mark.toList, c ∉ lineWithEnd g := fun c hc hcg =>
      ht.gap.not_mem hm c hc ((lineWithEnd_isStart g).subset hcg)
    rw [Bool.eq_iff_iff, lineHas_iff, lineHas_iff, lineWithEnd_of_not_mem h, ht.lineWithEnd, hs]
    exact ⟨Text.infix_of_append hm.ne_nil hd, fun h => h.trans List.infix_append_left⟩

section

variable {stack : List Container} {mark : String}

theorem markedLine_stop {s : List Char}
    (h : (Container.enterAll stack (.of (afterLine s))).1 ≠ stack ∨ lineHas mark s = true) :
    markedLine stack mark s = .stop (afterLine s) := by
  simp only [markedLine]
  rw [if_pos (by simpa using h)]

theorem markedLine_go {s : List Char}
    (h : (Container.enterAll stack (.of (afterLine s))).1 = stack) (hm : lineHas mark s = false) :
    markedLine stack mark s =
      if (Container.enterAll stack (.of (afterLine s))).2.rest = [] then .stop []
      else .go [] (Container.enterAll stack (.of (afterLine s))).2.rest := by
  simp only [markedLine]
  rw [if_neg (by simp [h, hm])]
  simp only [List.isEmpty_iff]
  split
  · rename_i h; rw [h]
  · rfl

theorem markedLine_suffix (s : List Char) : (markedLine stack mark s).rest <:+ afterLine s := by
  by_cases h : (Container.enterAll stack (.of (afterLine s))).1 ≠ stack ∨ lineHas mark s = true
  · rw [markedLine_stop h]
    exact List.suffix_rfl
  · obtain ⟨h1, h2⟩ := not_or.1 h
    rw [markedLine_go (not_not.1 h1) (by simpa using h2)]
    split
    · exact List.nil_suffix
    · exact Container.enterAll_suffix stack (.of (afterLine s))

theorem endOf_markedLine_suffix (stack : List Container) (mark : String) (s : List Char) :
    endOf (markedLine stack mark) s <:+ afterLine s := endOf_suffix_afterLine markedLine_suffix s

/-- HTML in containers ends with them, before a fence that stands in none. -/
theorem markedLine_past (hs : stack ≠ []) (h0 : .item 0 ∉ stack) (hg : Gap g)
    (hw : w = [] ∨ Opens w) (hf : Fed g w) {s : List Char} (hne : s ≠ [])
    (hafter : afterLine s = g ++ w) : Past g w (endOf (markedLine stack mark) s) := by
  induction hlen : g.length using Nat.strong_induction_on generalizing g s with
  | _ k ih =>
    by_cases hstop : (Container.enterAll stack (.of (afterLine s))).1 ≠ stack ∨ lineHas mark s = true
    · exact ⟨g, List.suffix_rfl, by rw [endOf_stop (markedLine_stop hstop), hafter]⟩
    obtain ⟨hin, hmark⟩ := not_or.1 hstop
    have hgo := markedLine_go (not_not.1 hin) (by simpa using hmark)
    rw [hafter] at hin hgo
    by_cases hgne : g = []
    · subst hgne
      rcases hw with rfl | hw
      · have : endOf (markedLine stack mark) s <:+ [] := by
          have := endOf_markedLine_suffix stack mark s
          rwa [hafter] at this
        exact ⟨[], List.suffix_rfl, List.suffix_nil.1 this⟩
      · rw [List.nil_append, hw.enterAll h0] at hin
        exact absurd hs.symm (by simpa using hin)
    · obtain ⟨g', hg', hne', hr⟩ := hg.enterAll hgne w stack
      have hlater := (afterLine_later hne').suffix hg'
      rw [hr, if_neg (by simp [hne'])] at hgo
      have hlt : (g' ++ w).length < s.length := by
        refine lt_of_le_of_lt ?_ (afterLine_later hne).2
        rw [hafter]
        exact (List.suffix_append_self_iff.2 hg').length_le
      rw [endOf_go hgo hlt]
      exact (ih _ (hlen ▸ hlater.2) (hg.suffix hlater.1) (hf.suffix hlater.1)
        (by simp [hne']) ((hf.suffix hg').afterLine (.inl hne')) rfl).suffix hlater.1

/-- HTML outside of containers goes on through an opening fence. -/
theorem markedLine_lost (hm : EndMark mark) (hg : Gap g) (hw : FenceNext w) {s : List Char}
    (hne : s ≠ []) (hs : lineHas mark s = false) (hafter : afterLine s = g ++ w) :
    Lost w (endOf (markedLine [] mark) s) := by
  induction hlen : g.length using Nat.strong_induction_on generalizing g s with
  | _ k ih =>
    have hin : (Container.enterAll [] (.of (afterLine s))).1 = [] := rfl
    have hgo := markedLine_go hin hs
    have hlt : (g ++ w).length < s.length := by
      rw [← hafter]
      exact (afterLine_later hne).2
    simp only [Container.enterAll, LineStart.of, hafter] at hgo
    by_cases hnil : g ++ w = []
    · rw [if_pos hnil] at hgo
      exact .inl (endOf_stop hgo)
    rw [if_neg hnil] at hgo
    rw [endOf_go hgo hlt]
    by_cases hmem : '\n' ∈ g
    · have hlater := afterLine_later (List.ne_nil_of_mem hmem)
      refine ih _ (hlen ▸ hlater.2) (hg.suffix hlater.1) hnil ?_ (afterLine_append hmem w) rfl
      rw [Bool.eq_false_iff, ne_eq, lineHas_iff, lineWithEnd_append hmem]
      intro h
      obtain ⟨c, hc⟩ := List.exists_mem_of_ne_nil _ hm.ne_nil
      exact hg.not_mem hm c hc ((lineWithEnd_isStart g).subset (h.subset hc))
    · have := endOf_markedLine_suffix [] mark (g ++ w)
      rw [afterLine_of_not_mem hmem] at this
      exact hw.lost this

theorem markedLine_last (h0 : .item 0 ∉ stack) (hm : EndMark mark) {s : List Char} (hne : s ≠ [])
    (hs : '\n' ∉ s) : LineLocal (markedLine stack mark) s := by
  have hend : endOf (markedLine stack mark) s = [] := by
    have := endOf_markedLine_suffix stack mark s
    rwa [afterLine_nil hs, List.suffix_nil] at this
  have hafter (g w : List Char) : afterLine (s ++ (g ++ w)) = afterLine (g ++ w) :=
    afterLine_of_not_mem hs _
  refine .inr (.inr ⟨hend, ?_⟩)
  by_cases hclosed : lineHas mark s = true
  · left
    intro g w ht
    refine ⟨afterLine g, afterLine_suffix g, ?_⟩
    rw [endOf_stop (markedLine_stop (.inr (by rwa [lineHas_append hm s ht.toTail]))), hafter,
      ht.fed.afterLine ht.ne_nil]
  by_cases hstack : stack = []
  · right
    intro g w ht
    subst hstack
    by_cases hmem : '\n' ∈ g
    · exact markedLine_lost hm (ht.gap.suffix (afterLine_suffix g)) ht.next (by simp [hne])
        (by rw [lineHas_append hm s ht]; simpa using hclosed) (by rw [hafter, afterLine_append hmem])
    · have := endOf_markedLine_suffix [] mark (s ++ (g ++ w))
      rw [hafter, afterLine_of_not_mem hmem] at this
      exact ht.next.lost this
  · left
    intro g w ht
    exact (markedLine_past hstack h0 (ht.gap.suffix (afterLine_suffix g)) ht.flush
      (ht.fed.suffix (afterLine_suffix g)) (by simp [hne])
      (by rw [hafter, ht.fed.afterLine ht.ne_nil])).suffix (afterLine_suffix g)

theorem markedLine_local (h0 : .item 0 ∉ stack) (hm : EndMark mark) {s : List Char} (hne : s ≠ [])
    (hs : Unbroken s) : LineLocal (markedLine stack mark) s := by
  by_cases hmem : '\n' ∈ s
  case neg => exact markedLine_last h0 hm hne hmem
  have hafter (t : List Char) : afterLine (s ++ t) = afterLine s ++ t := afterLine_append hmem t
  have hin {t : List Char} (ht : Ends t) : Container.enterAll stack (.of (afterLine (s ++ t))) =
      ((Container.enterAll stack (.of (afterLine s))).1,
        (Container.enterAll stack (.of (afterLine s))).2.append t) := by
    rw [hafter, of_append, Container.enterAll_append ht]
  by_cases hstop : (Container.enterAll stack (.of (afterLine s))).1 ≠ stack ∨ lineHas mark s = true
  · refine .inl ⟨afterLine s, hs.afterLine_ne_nil hmem, markedLine_stop hstop, fun g w ht => ?_⟩
    rw [← hafter, markedLine_stop]
    rwa [hin ht.ends, lineHas_append hm s ht]
  obtain ⟨h1, h2⟩ := not_or.1 hstop
  have hgo := markedLine_go (not_not.1 h1) (by simpa using h2)
  have hsuf := (Container.enterAll_suffix stack (.of (afterLine s)))
  have hwhole (g w : List Char) (ht : Tail g w) :
      markedLine stack mark (s ++ (g ++ w)) =
        if (Container.enterAll stack (.of (afterLine s))).2.rest ++ (g ++ w) = [] then .stop []
        else .go [] ((Container.enterAll stack (.of (afterLine s))).2.rest ++ (g ++ w)) := by
    rw [markedLine_go (by rw [hin ht.ends]; exact not_not.1 h1)
      (by rw [lineHas_append hm s ht]; simpa using h2), hin ht.ends, rest_append]
  by_cases hr : (Container.enterAll stack (.of (afterLine s))).2.rest = []
  · rw [if_pos hr] at hgo
    refine .inr (.inr ⟨endOf_stop hgo, .inl fun g w ht => ?_⟩)
    have hstack : stack ≠ [] := by
      rintro rfl
      exact hs.afterLine_ne_nil hmem hr
    have hlast := hwhole g w ht.toTail
    rw [hr, List.nil_append] at hlast
    by_cases hnil : g ++ w = []
    · rw [if_pos hnil] at hlast
      obtain ⟨rfl, rfl⟩ := List.append_eq_nil_iff.1 hnil
      exact ⟨[], List.suffix_rfl, endOf_stop hlast⟩
    · rw [if_neg hnil] at hlast
      have hlt : (g ++ w).length < (s ++ (g ++ w)).length := by
        simpa [List.length_pos_iff] using hne
      rw [endOf_go hlast hlt]
      exact (markedLine_past hstack h0 (ht.gap.suffix (afterLine_suffix g)) ht.flush
        (ht.fed.suffix (afterLine_suffix g)) hnil
        (ht.fed.afterLine ht.ne_nil)).suffix (afterLine_suffix g)
  · rw [if_neg hr] at hgo
    refine .inr (.inl ⟨[], _, hr, (afterLine_later hne).of_suffix hsuf, hgo, fun g w ht => ?_⟩)
    rw [hwhole g w ht, if_neg (by simp [hr])]

theorem plainLine_suffix (stack : List Container) (s : List Char) : (plainLine stack s).rest <:+ afterLine s := by
  have hsuf := (Container.enterAll_suffix stack (.of (afterLine s)))
  simp only [plainLine]
  split
  · exact List.suffix_rfl
  · split
    · exact hsuf
    · exact hsuf

/-- A block of HTML up to a blank line ends with the next one. -/
theorem plainLine_local {s : List Char} (hne : s ≠ []) (hs : Unbroken s) :
    LineLocal (plainLine stack) s := by
  by_cases hmem : '\n' ∈ s
  · have hafter (t : List Char) : afterLine (s ++ t) = afterLine s ++ t := afterLine_append hmem t
    have hpne := hs.afterLine_ne_nil hmem
    have hp : Unbroken (afterLine s) := hs.suffix (afterLine_suffix s)
    have hsuf := (Container.enterAll_suffix stack (.of (afterLine s)))
    have hin {t : List Char} (ht : Ends t) : Container.enterAll stack (.of (afterLine s ++ t)) =
        ((Container.enterAll stack (.of (afterLine s))).1,
          (Container.enterAll stack (.of (afterLine s))).2.append t) := by
      rw [of_append, Container.enterAll_append ht]
    generalize hl : Container.enterAll stack (.of (afterLine s)) = e at hin hsuf
    obtain ⟨entered, l⟩ := e
    by_cases hout : (decide (entered ≠ stack) || l.atEnd) = true
    · refine .inl ⟨afterLine s, hpne, ?_, fun g w ht => ?_⟩
      · simp only [plainLine, hl, if_pos hout]
      · simp only [plainLine, hafter, hin ht.ends, atEnd_append ht.ends, if_pos hout]
    have hr : l.rest ≠ [] := by
      intro hn
      exact hout (by simp [LineStart.atEnd, hn])
    by_cases hb : (blankLine? l.rest).isSome = true
    · refine .inl ⟨l.rest, hr, ?_, fun g w ht => ?_⟩
      · simp only [plainLine, hl, if_neg hout, if_pos hb]
      · simp only [plainLine, hafter, hin ht.ends, atEnd_append ht.ends, if_neg hout, rest_append,
          isSome_blankLine?_append _ ht.ends, if_pos hb]
    · refine .inr (.inl ⟨[], l.rest, hr, (afterLine_later hne).of_suffix hsuf, ?_, fun g w ht => ?_⟩)
      · simp only [plainLine, hl, if_neg hout, if_neg hb]
      · simp only [plainLine, hafter, hin ht.ends, atEnd_append ht.ends, if_neg hout, rest_append,
          isSome_blankLine?_append _ ht.ends, if_neg hb]
  · have hend : endOf (plainLine stack) s = [] := by
      have := endOf_suffix_afterLine (plainLine_suffix stack) s
      rwa [afterLine_nil hmem, List.suffix_nil] at this
    refine .inr (.inr ⟨hend, .inl fun g w ht => ?_⟩)
    have hafter : afterLine (s ++ (g ++ w)) = afterLine g ++ w := by
      rw [afterLine_of_not_mem hmem, ht.fed.afterLine ht.ne_nil]
    have hgap := ht.gap.suffix (afterLine_suffix g)
    by_cases hout : (decide ((Container.enterAll stack (.of (afterLine g ++ w))).1 ≠ stack) ||
        (Container.enterAll stack (.of (afterLine g ++ w))).2.atEnd) = true
    · refine ⟨afterLine g, afterLine_suffix g, endOf_stop ?_⟩
      simp only [plainLine, hafter, if_pos hout]
    · have hgne : afterLine g ≠ [] := by
        rcases ht.wide with rfl | h
        · intro hnil
          have := Container.enterAll_suffix stack (.of [])
          exact hout (by simp [hnil, LineStart.atEnd, List.suffix_nil.1 this])
        · exact List.ne_nil_of_mem h
      obtain ⟨g', hg', hne', hr⟩ := hgap.enterAll hgne w stack
      refine ⟨g', hg'.trans (afterLine_suffix g), endOf_stop ?_⟩
      have hblank := (hgap.suffix hg').isSome_blankLine? ht.next (.inl hne')
      simp only [plainLine, hafter, if_neg hout, hr, if_pos hblank]

end

/-! ### Paragraphs -/

section

variable {stack : List Container}

theorem paragraphText_suffix {narrow same : Bool} {p s : List Char} (h : s <:+ p) :
    (paragraphText narrow same p s).rest <:+ p := by
  simp only [paragraphText]
  split
  · rename_i r hr
    refine List.IsSuffix.trans ?_ h
    split at hr
    · exact underline?_suffix hr
    · cases hr
  · split
    · exact List.suffix_rfl
    · split
      · exact List.suffix_rfl
      · exact (List.dropWhile_suffix _).trans h

theorem paragraphNext_suffix (p : List Char) : (paragraphNext stack p).rest <:+ p :=
  paragraphText_suffix ((blanks_suffix 4 _).trans (Container.enterAll_suffix stack (.of p)))

theorem paragraphLine_suffix (s : List Char) : (paragraphLine stack s).rest <:+ s :=
  (paragraphNext_suffix _).trans (afterBreak_suffix s)

/-- A paragraph ends with an empty line or a fence. -/
theorem Breaking.paragraphNext {p : List Char} (h : Breaking p) :
    paragraphNext stack p = .stop p := by
  obtain ⟨hm, hi, hu⟩ := h.enterAll stack
  simp [Markdown.paragraphNext, paragraphText, hi, hu, hm]

theorem paragraphLine_last (stack : List Container) {s : List Char} (hs : Unbroken s) (h : afterBreak s = []) :
    endOf (paragraphLine stack) s = [] ∧ Closes (endOf (paragraphLine stack)) s := by
  refine ⟨endOf_stop ?_, fun g w ht => ⟨afterEnd g, afterEnd_suffix g, endOf_stop ?_⟩⟩
  · rw [paragraphLine, h]
    exact (Gap.nil.breaking (.inl rfl)).paragraphNext
  · rw [paragraphLine, afterBreak_append hs ht.ends, h, resume_nil, ht.breaking_afterEnd.paragraphNext,
      afterEnd_gap ht.next ht.ends]

theorem dropWhile_blank_append (s : List Char) {t : List Char} (ht : Ends t) :
    (s ++ t).dropWhile (fun c => c = ' ' || c = '\t') =
      s.dropWhile (fun c => c = ' ' || c = '\t') ++ t := by
  refine dropWhile_append_ends s ht fun c hc => ?_
  rcases isLineBreak_iff.1 hc with rfl | rfl <;> rfl

theorem paragraphText_underlined {narrow same : Bool} {p s r : List Char}
    (h : (narrow && same) = true) (hu : underline? s = some r) :
    paragraphText narrow same p s = .stop r := by
  simp only [paragraphText, if_pos h, hu]

theorem paragraphText_stop {narrow same : Bool} {p s : List Char}
    (hu : (narrow && same) = true → underline? s = none)
    (h : (narrow && interrupts same s) = true ∨
      (lineEnd? (s.dropWhile fun c => c = ' ' || c = '\t')).isSome = true) :
    paragraphText narrow same p s = .stop p := by
  have hn : (if (narrow && same) = true then underline? s else none) = none := by
    split
    · exact hu ‹_›
    · rfl
  simp only [paragraphText, hn]
  by_cases hi : (narrow && interrupts same s) = true
  · rw [if_pos hi]
  · rw [if_neg hi, if_pos (h.resolve_left hi)]

theorem paragraphText_go {narrow same : Bool} {p s : List Char}
    (hu : (narrow && same) = true → underline? s = none)
    (hi : ¬ (narrow && interrupts same s) = true)
    (h : ¬ (lineEnd? (s.dropWhile fun c => c = ' ' || c = '\t')).isSome = true) :
    paragraphText narrow same p s = .go [] (s.dropWhile fun c => c = ' ' || c = '\t') := by
  have hn : (if (narrow && same) = true then underline? s else none) = none := by
    split
    · exact hu ‹_›
    · rfl
  simp only [paragraphText, hn, if_neg hi, if_neg h]

theorem paragraphLine_local {s : List Char} (hne : s ≠ []) (hs : Unbroken s) :
    LineLocal (paragraphLine stack) s := by
  by_cases hp : afterBreak s = []
  · obtain ⟨h1, h2⟩ := paragraphLine_last stack hs hp
    exact .inr (.inr ⟨h1, .inl h2⟩)
  have hafter {t : List Char} (ht : Ends t) : afterBreak (s ++ t) = afterBreak s ++ t := by
    rw [afterBreak_append hs ht, resume_of_ne_nil hp]
  have hlater := afterBreak_later hne
  obtain ⟨narrow, same, r, hr, halone, hwhole⟩ : ∃ narrow same r, r <:+ afterBreak s ∧
      paragraphLine stack s = paragraphText narrow same (afterBreak s) r ∧
      ∀ t, Ends t →
        paragraphLine stack (s ++ t) = paragraphText narrow same (afterBreak s ++ t) (r ++ t) := by
    refine ⟨_, _, _, (blanks_suffix 4 _).trans (Container.enterAll_suffix stack _), rfl, ?_⟩
    intro t ht
    simp only [paragraphLine, hafter ht, paragraphNext, of_append, Container.enterAll_append ht,
      blanks_append ht, rest_append]
    rfl
  have hu : Unbroken r := hs.suffix (hr.trans (afterBreak_suffix s))
  have htext := List.dropWhile_suffix (fun c => decide (c = ' ') || decide (c = '\t')) (l := r)
  by_cases hunder : (narrow && same) = true ∧ (underline? r).isSome = true
  · obtain ⟨hns, hsome⟩ := hunder
    obtain ⟨q, hq⟩ := Option.isSome_iff_exists.1 hsome
    have hlast (g w : List Char) (ht : Tail g w) :
        paragraphLine stack (s ++ (g ++ w)) = .stop (resume (g ++ w) q) := by
      rw [hwhole _ ht.ends, paragraphText_underlined hns]
      rw [underline?_append hu ht.ends, hq]
      rfl
    have hstop : paragraphLine stack s = .stop q := by rw [halone, paragraphText_underlined hns hq]
    by_cases hqne : q = []
    · subst hqne
      refine .inr (.inr ⟨endOf_stop hstop, .inl fun g w ht => ⟨afterEnd g, afterEnd_suffix g, ?_⟩⟩)
      rw [endOf_stop (hlast g w ht.toTail), resume_nil, afterEnd_gap ht.next ht.ends]
    · exact .inl ⟨q, hqne, hstop, fun g w ht => by rw [hlast g w ht, resume_of_ne_nil hqne]⟩
  have hplain : (narrow && same) = true → underline? r = none := fun h =>
    Option.not_isSome_iff_eq_none.1 fun hsome => hunder ⟨h, hsome⟩
  have hplain' {t : List Char} (ht : Ends t) (h : (narrow && same) = true) :
      underline? (r ++ t) = none := by rw [underline?_append hu ht, hplain h]; rfl
  by_cases hend : (lineEnd? (r.dropWhile fun c => c = ' ' || c = '\t')).isSome = true
  · refine .inl ⟨_, hp, by rw [halone, paragraphText_stop hplain (.inr hend)], fun g w ht => ?_⟩
    rw [hwhole _ ht.ends, paragraphText_stop (hplain' ht.ends)]
    right
    rwa [dropWhile_blank_append r ht.ends, isSome_lineEnd?_append _ ht.ends]
  by_cases hi : (narrow && interrupts same r) = true
  · refine .inl ⟨_, hp, by rw [halone, paragraphText_stop hplain (.inl hi)], fun g w ht => ?_⟩
    rw [hwhole _ ht.ends, paragraphText_stop (hplain' ht.ends)]
    left
    obtain ⟨hn, hi⟩ := Bool.and_eq_true_iff.1 hi
    rcases interrupts_append same hu ht with h | ⟨-, -, h, -⟩
    · rw [hn, h, hi]; rfl
    · rw [h] at hi; cases hi
  have hgo := halone.trans (paragraphText_go hplain hi hend)
  have htne : (r.dropWhile fun c => c = ' ' || c = '\t') ≠ [] := by
    intro h
    rw [h] at hend
    exact hend rfl
  have hlt := Later.of_suffix (htext.trans hr) hlater
  have hgo' {g w : List Char} (ht : Tail g w)
      (h : interrupts same (r ++ (g ++ w)) = interrupts same r) :
      paragraphLine stack (s ++ (g ++ w)) =
        .go [] (r.dropWhile (fun c => c = ' ' || c = '\t') ++ (g ++ w)) := by
    rw [hwhole _ ht.ends, paragraphText_go (hplain' ht.ends), dropWhile_blank_append r ht.ends]
    · rwa [h]
    · rwa [dropWhile_blank_append r ht.ends, isSome_lineEnd?_append _ ht.ends]
  -- An item that is not interrupted by one empty line stands on the last line.
  by_cases h1 : Single r
  · obtain ⟨hnil, hcloses⟩ := paragraphLine_last stack (hu.suffix htext)
      (afterBreak_of_single (h1.suffix htext))
    refine .inr (.inr ⟨by rw [endOf_go hgo hlt.2, hnil], .inl fun g w ht => ?_⟩)
    have heq : interrupts same (r ++ (g ++ w)) = interrupts same r := by
      rcases interrupts_append same hu ht.toTail with h | ⟨h, -⟩
      · exact h
      · exact absurd ht.wide h
    rw [endOf_go (hgo' ht.toTail heq) (by simpa using hlt.2)]
    exact hcloses g w ht
  · refine .inr (.inl ⟨_, _, htne, hlt, hgo, fun g w ht => hgo' ht ?_⟩)
    rcases interrupts_append same hu ht with h | ⟨-, -, -, h⟩
    · exact h
    · exact absurd h h1

end

end

end Notebook.Markdown
