import Notebook.Proofs.Markdown.Gap

/-!
What ends a paragraph and what defines a reference, when empty lines come after the text. One such
line is not always enough: an item without text ends a paragraph unless two of them follow, and a
backslash may take the end of its line along.
-/

namespace Notebook.Markdown

open LineStart

/-- The fence in `w` is not part of what is left. -/
def Swallowed (w r : List Char) : Prop := r.length < (w.dropWhile (· = ' ')).length

theorem dropWhile_fence (k : Nat) {q : List Char} (hq : (fence? q).isSome = true) :
    (List.replicate k ' ' ++ q).dropWhile (· = ' ') = q := by
  rw [List.dropWhile_append_of_pos (by simp)]
  cases q with
  | nil => rfl
  | cons c q => rcases eq_of_isSome_fence? hq with rfl | rfl <;> rfl

section

variable {g w : List Char}

/-! ### The ends of paragraphs -/

theorem blankTwice_append {s : List Char} (hs : Unbroken s) (ht : Tail g w) :
    blankTwice (s ++ (g ++ w)) = blankTwice s ∨
      ¬ Wide g w ∧ blankTwice s = true ∧ blankLine? s = some [] := by
  simp only [blankTwice, blankLine?_append hs ht.ends]
  cases h : blankLine? s with
  | none => left; rfl
  | some r =>
    by_cases hr : r = []
    · subst hr
      by_cases hw : Wide g w
      · left
        simp only [Option.map_some, Option.bind_some, resume_nil, 
          afterEnd_gap ht.next ht.ends,
          (ht.gap.suffix (afterEnd_suffix g)).isSome_blankLine? ht.next (ht.wide_afterEnd hw)]
        rfl
      · exact .inr ⟨hw, rfl, rfl⟩
    · left
      simp only [Option.map_some, Option.bind_some, resume_of_ne_nil hr,
        isSome_blankLine?_append r ht.ends]

theorem single_append {s r : List Char} (hs : Single s) (hr : Single r) : Single (s ++ r) := by
  intro c hc
  rcases List.mem_append.1 hc with h | h
  · exact hs c h
  · exact hr c h

theorem itemInterrupts_append (b : Bool) {s : List Char} (hs : Unbroken s) (ht : Tail g w) :
    itemInterrupts b (s ++ (g ++ w)) = itemInterrupts b s ∨
      ¬ Wide g w ∧ itemInterrupts b s = false ∧ Single s := by
  simp only [itemInterrupts, itemMark?_append s ht.ends]
  cases h : itemMark? s with
  | none => left; rfl
  | some m =>
    obtain ⟨number, n⟩ := m
    obtain ⟨-, hn, h1⟩ := itemMark?_length h
    simp only [List.drop_append_of_le_length hn, isSome_lineEnd?_append _ ht.ends,
      head?_append_eq (c := ' ') _ ht.ends rfl, head?_append_eq (c := '\t') _ ht.ends rfl]
    rcases blankTwice_append (hs.drop n) ht with hb | ⟨hw, htwice, hb⟩
    · left; rw [hb]
    · have hsingle : Single s := by
        rw [← List.take_append_drop n s]
        exact single_append h1 (single_of_blankLine? (hs.drop n) hb)
      rw [htwice]
      cases b
      · left; simp
      · exact .inr ⟨hw, by simp, hsingle⟩

/-- The lines above empty ones are interrupted by what interrupts them alone. -/
theorem interrupts_append (b : Bool) {s : List Char} (hs : Unbroken s) (ht : Tail g w) :
    interrupts b (s ++ (g ++ w)) = interrupts b s ∨
      ¬ Wide g w ∧ interrupts b (s ++ (g ++ w)) = true ∧ interrupts b s = false ∧ Single s := by
  have heq (h : itemInterrupts b (s ++ (g ++ w)) = itemInterrupts b s) :
      interrupts b (s ++ (g ++ w)) = interrupts b s := by
    simp only [interrupts, isSome_lineEnd?_append s ht.ends, rule?_append hs ht.ends,
      heading?_append s ht.ends, fence?_append s ht.ends ht.tick, Option.isSome_map, h,
      head?_append_eq (c := '>') s ht.ends rfl, startsHtml_append s ht.ends]
  rcases itemInterrupts_append b hs ht with hi | ⟨hw, hi, h1⟩
  · exact .inl (heq hi)
  · cases hn : itemInterrupts b (s ++ (g ++ w)) with
    | false => exact .inl (heq (by rw [hn, hi]))
    | true =>
      have ht : interrupts b (s ++ (g ++ w)) = true := by simp [interrupts, hn]
      cases h : interrupts b s with
      | false => exact .inr ⟨hw, ht, rfl, h1⟩
      | true => exact .inl ht

/-- What is read from a text alone and with `g ++ w` after it. Only a tail that is not wide may
change it: either nothing is read alone and part of the fence with the tail, or the last line is
read alone and nothing with the tail. -/
def ReadsAlike (g w : List Char) (alone whole : Option (List Char)) : Prop :=
  whole = alone.map (· ++ (g ++ w)) ∨
    ¬ Wide g w ∧ (alone = none ∧ (∃ r ∈ whole, Swallowed w r) ∨
      whole = none ∧ ∃ r ∈ alone, Single r)

theorem ReadsAlike.none {alone whole : Option (List Char)} (ha : alone = none)
    (hw : whole = none) : ReadsAlike g w alone whole := by
  left; rw [ha, hw]; rfl

theorem ReadsAlike.of_single {alone whole : Option (List Char)} {s : List Char} (hw : ¬ Wide g w)
    (hs : Single s) (ha : ∀ r ∈ alone, r <:+ s) (hwhole : whole = Option.none) :
    ReadsAlike g w alone whole := by
  cases alone with
  | none => exact .none rfl hwhole
  | some r => exact .inr ⟨hw, .inr ⟨hwhole, r, rfl, hs.suffix (ha r rfl)⟩⟩

/-! ### Line ends within a definition -/

theorem Breaking.continued? {r : List Char} (h : Breaking r) (stack : List Container)
    (strict : Bool) : continued? stack strict r = none := by
  obtain ⟨hm, hi, -⟩ := h.enterAll stack
  rw [Markdown.continued?]
  rcases hl : Container.enterAll stack (.of r) with ⟨entered, l⟩
  rw [hl] at hm hi
  rcases hb : l.blanks 4 with ⟨_ | missing, l'⟩
  · simp [hb] at hm
  · simp only [hb] at hi
    simp [hb, hi]

theorem continued?_suffix {stack : List Container} {strict : Bool} {s r : List Char}
    (h : continued? stack strict s = some r) : r <:+ s := by
  have hsuf := Container.enterAll_suffix stack (.of s)
  unfold continued? at h
  generalize Container.enterAll stack (.of s) = e at hsuf h
  obtain ⟨entered, l⟩ := e
  have hb := (blanks_suffix 4 l).trans hsuf
  simp only at h
  split at h
  · simp_all [LineStart.of]
  · split at h <;> simp_all [LineStart.of]

theorem continued?_append (stack : List Container) (strict : Bool) {s : List Char}
    (hs : Unbroken s) (ht : Tail g w) : continued? stack strict (s ++ (g ++ w)) =
        (continued? stack strict s).map (· ++ (g ++ w)) ∨
      ¬ Wide g w ∧ continued? stack strict (s ++ (g ++ w)) = none ∧
        ∃ r ∈ continued? stack strict s, Single r := by
  have hsuf := Container.enterAll_suffix stack (.of s)
  simp only [continued?, of_append, Container.enterAll_append ht.ends, blanks_append ht.ends]
  generalize Container.enterAll stack (.of s) = e at hsuf ⊢
  obtain ⟨entered, l⟩ := e
  have hsuf' := (blanks_suffix 4 l).trans hsuf
  rcases hb : l.blanks 4 with ⟨_ | missing, m⟩
  · left; simp
  · rw [hb] at hsuf'
    have hm : Unbroken m.rest := hs.suffix hsuf'
    simp only [rest_append, underline?_append hm ht.ends, Option.isSome_map]
    rcases interrupts_append (entered = stack) hm ht with hi | ⟨hw, hi, ha, h1⟩
    · left
      rw [hi]
      split <;> rfl
    · rw [hi, ha]
      by_cases hu : ((strict || decide (entered = stack)) && (underline? m.rest).isSome) = true
      · left; simp [hu]
      · right; simp [hw, hu, h1]

/-- The next line is read from what is above empty lines as it is alone. -/
theorem nextLine_append (stack : List Container) (strict : Bool) {c : Char} {s : List Char}
    (hs : Unbroken (c :: s)) (ht : Tail g w) :
    (lineEnd? (c :: (s ++ (g ++ w)))).bind (continued? stack strict) =
        ((lineEnd? (c :: s)).bind (continued? stack strict)).map (· ++ (g ++ w)) ∨
      ¬ Wide g w ∧ (lineEnd? (c :: (s ++ (g ++ w)))).bind (continued? stack strict) = none ∧
        ∃ r ∈ (lineEnd? (c :: s)).bind (continued? stack strict), Single r := by
  have happ := lineEnd?_append hs ht.ends
  rw [List.cons_append] at happ
  rw [happ]
  cases h : lineEnd? (c :: s) with
  | none => left; rfl
  | some r =>
    have hr : r ≠ [] := by
      rintro rfl
      have := eq_nil_of_lineEnd? hs h
      cases this
    simp only [Option.map_some, resume_of_ne_nil hr, Option.bind_some]
    exact continued?_append stack strict (hs.suffix (lineEnd?_suffix h)) ht

theorem gap?_append (stack : List Container) {s : List Char} (hs : Unbroken s) (ht : Tail g w) :
    gap? stack (s ++ (g ++ w)) = (gap? stack s).map (fun p => (p.1 ++ (g ++ w), p.2)) ∨
      ¬ Wide g w ∧ gap? stack (s ++ (g ++ w)) = none ∧
        ∃ r, gap? stack s = some (r, true) ∧ Single r := by
  have hd := hs.dropWhile isInlineBlank
  simp only [gap?, dropWhile_append_ends s ht.ends fun c => isInlineBlank_of_break,
    lineEnd?_append hd ht.ends]
  cases h : lineEnd? (s.dropWhile isInlineBlank) with
  | none => left; rfl
  | some t =>
    by_cases hr : t = []
    · left
      subst hr
      have hnil := (Gap.nil.breaking (.inl rfl)).continued? stack true
      simp only [Option.map_some, resume_nil, ht.breaking_afterEnd.continued?]
      rw [List.nil_append] at hnil
      simp [hnil]
    · have hunb : Unbroken t := hd.suffix (lineEnd?_suffix h)
      simp only [Option.map_some, resume_of_ne_nil hr]
      rcases continued?_append stack true hunb ht with hc | ⟨hw, hc, r, hr, h1⟩
      · left
        rw [hc]
        cases continued? stack true t with
        | none => rfl
        | some r =>
          simp only [Option.map_some,
            dropWhile_append_ends r ht.ends fun c => isInlineBlank_of_break,
            isSome_lineEnd?_append _ ht.ends]
          split <;> rfl
      · rw [hc, Option.mem_def.1 hr]
        have h2 : Single (r.dropWhile isInlineBlank) := h1.suffix (List.dropWhile_suffix _)
        by_cases he : (lineEnd? (r.dropWhile isInlineBlank)).isSome = true
        · left; simp [he]
        · right; simp [hw, he, h2]

/-! ### Labels -/

theorem ne_backslash {c : Char} {s : List Char} (h : c = '\\' → s = [] → False)
    (h' : ∀ d t, c = '\\' → s = d :: t → False) : c ≠ '\\' := by
  intro hc
  cases s with
  | nil => exact h hc rfl
  | cons d t => exact h' d t hc rfl

section

variable {stack : List Container} {length : Nat} {blank broken : Bool}

theorem afterLabel?_of_long (h : 1000 ≤ length) (s : List Char) :
    afterLabel? stack length blank broken s = none := by
  unfold afterLabel?
  simp [h]

theorem afterLabel?_nil : afterLabel? stack length blank broken [] = none := by
  unfold afterLabel?
  simp

theorem afterLabel?_backslash (h : length < 1000) (c : Char) (s : List Char) :
    afterLabel? stack length blank broken ('\\' :: c :: s) =
      afterLabel? stack (length + 2) false false s := by
  rw [afterLabel?]
  simp [Nat.not_le.2 h]

theorem afterLabel?_break (h : length < 1000) {c : Char} (hc : isLineBreak c = true)
    (s : List Char) : afterLabel? stack length blank broken (c :: s) =
      if broken then none
      else
        match (lineEnd? (c :: s)).bind (continued? stack false) with
        | none => none
        | some r =>
          if r.length < (c :: s).length then
            afterLabel? stack (length + ((c :: s).length - r.length)) blank true r
          else none := by
  rw [afterLabel?]
  · exact (if_neg (Nat.not_le.2 h)).trans (if_pos hc)
  · rintro rfl; cases hc
  · rintro rfl; cases hc
  · rintro rfl; cases hc
  · rintro d t rfl; cases hc

theorem afterLabel?_char (h : length < 1000) {c : Char} (hc : isLineBreak c = false)
    (h1 : c ≠ '[') (h2 : c ≠ ']') (h3 : c ≠ '\\') (s : List Char) :
    afterLabel? stack length blank broken (c :: s) =
      if isInlineBlank c then afterLabel? stack (length + 1) blank broken s
      else afterLabel? stack (length + 1) false false s := by
  rw [afterLabel?]
  · simp [Nat.not_le.2 h, hc]
  · exact h1
  · exact h2
  all_goals simp [h3]

/-- No label goes on after an empty line. -/
theorem afterLabel?_gap {length : Nat} {blank broken : Bool} (hg : Gap g) (hw : FenceNext w)
    (h : g ≠ [] ∨ w = []) : afterLabel? stack length blank broken (g ++ w) = none := by
  induction g generalizing length blank with
  | nil => rw [h.resolve_left (by simp)]; exact afterLabel?_nil
  | cons c g ih =>
    by_cases hl : 1000 ≤ length
    · exact afterLabel?_of_long hl _
    · rw [Nat.not_le] at hl
      rcases hg.blank c (by simp) with rfl | hc
      · have hne : g ≠ [] := by
          rintro rfl
          have := hg.ended ' ' (by simp)
          cases this
        rw [List.cons_append, afterLabel?_char hl rfl (by decide) (by decide) (by decide)]
        exact ih (hg.suffix (List.suffix_cons _ _)) (.inl hne)
      · have he : Ends (c :: (g ++ w)) := ends_cons.2 hc
        have hb : Breaking (afterEnd (c :: (g ++ w))) := hg.breaking_afterEnd hw he
        rw [List.cons_append, afterLabel?_break hl hc, lineEnd?_of_ends he, Option.bind_some,
          hb.continued?]
        simp

theorem afterLabel?_later {s r : List Char}
    (h : afterLabel? stack length blank broken s = some r) : Later r s := by
  fun_induction afterLabel? stack length blank broken s with
  | case5 length blank broken hl t hb => cases h; exact later_cons ']' r
  | case7 length blank broken hl c t ih =>
    exact ((ih h).trans (later_cons c t)).trans (later_cons _ _)
  | case10 length blank broken hl c t h1 h2 h3 h4 hc hb r' hr hlt ih =>
    obtain ⟨t', ht, hr'⟩ := Option.bind_eq_some_iff.1 hr
    exact (ih h).suffix ((continued?_suffix hr').trans (lineEnd?_suffix ht))
  | case12 length blank broken hl c t h1 h2 h3 h4 hc hb ih => exact (ih h).trans (later_cons c t)
  | case13 length blank broken hl c t h1 h2 h3 h4 hc hb ih => exact (ih h).trans (later_cons c t)
  | _ => cases h

theorem afterLabel?_fence (hw : FenceNext w) : ∀ r ∈ afterLabel? stack length blank broken w,
    Swallowed w r := by
  rcases hw with rfl | ⟨k, -, q, rfl, hq⟩
  · rw [afterLabel?_nil]; simp
  · intro r hr
    rw [Swallowed, dropWhile_fence k hq.fence]
    induction k generalizing length with
    | zero => exact (afterLabel?_later hr).2
    | succ k ih =>
      by_cases hl : 1000 ≤ length
      · rw [afterLabel?_of_long hl] at hr; cases hr
      · rw [List.replicate_succ, List.cons_append,
          afterLabel?_char (Nat.not_le.1 hl) rfl (by decide) (by decide) (by decide)] at hr
        exact ih hr

theorem afterLabel?_append {s : List Char} (hs : Unbroken s) (ht : Tail g w) :
    ReadsAlike g w (afterLabel? stack length blank broken s)
      (afterLabel? stack length blank broken (s ++ (g ++ w))) := by
  fun_induction afterLabel? stack length blank broken s with
  | case1 length blank broken s hl => exact .none rfl (afterLabel?_of_long hl _)
  | case2 length blank broken hl =>
    exact .none rfl (by simpa using afterLabel?_gap ht.gap ht.next ht.ne_nil)
  | case3 length blank broken hl t => exact .none rfl (by unfold afterLabel?; simp)
  | case4 length broken hl t => exact .none rfl (by unfold afterLabel?; simp)
  | case5 length blank broken hl t hb => left; unfold afterLabel?; simp [hl, hb]
  | case6 length blank broken hl =>
    cases g with
    | nil => exact .none rfl (by rw [ht.ne_nil.resolve_left (by simp)]; unfold afterLabel?; simp)
    | cons c g =>
      rw [List.cons_append, List.cons_append, List.nil_append,
        afterLabel?_backslash (Nat.not_le.1 hl)]
      have hg := ht.gap.suffix (List.suffix_cons c g)
      by_cases hne : g ≠ [] ∨ w = []
      · exact .none rfl (afterLabel?_gap hg ht.next hne)
      · obtain ⟨rfl, hw⟩ := by simpa using hne
        cases h : afterLabel? stack (length + 2) false false w with
        | none => exact .none rfl h
        | some r =>
          refine .inr ⟨?_, .inl ⟨rfl, r, h, afterLabel?_fence ht.next r h⟩⟩
          rintro (h | h)
          · exact hw h
          · simp [afterLine] at h
  | case7 length blank broken hl c t ih =>
    rw [List.cons_append, List.cons_append, afterLabel?_backslash (Nat.not_le.1 hl)]
    exact ih hs.tail.tail
  | case8 length blank hl c t h1 h2 h3 h4 hc =>
    refine .none rfl ?_
    rw [List.cons_append, afterLabel?_break (Nat.not_le.1 hl) hc, if_pos rfl]
  | case9 length blank broken hl c t h1 h2 h3 h4 hc hb hr =>
    refine .none rfl ?_
    rw [List.cons_append, afterLabel?_break (Nat.not_le.1 hl) hc, if_neg hb]
    rcases nextLine_append stack false hs ht with hn | ⟨-, hn, -⟩ <;> simp [hn, hr]
  | case10 length blank broken hl c t h1 h2 h3 h4 hc hb r hr hlt ih =>
    obtain ⟨t', ht', hr'⟩ := Option.bind_eq_some_iff.1 hr
    have hs' := hs.suffix ((continued?_suffix hr').trans (lineEnd?_suffix ht'))
    rw [List.cons_append, afterLabel?_break (Nat.not_le.1 hl) hc, if_neg hb]
    rcases nextLine_append stack false hs ht with hn | ⟨hw, hn, r', hr'', h1⟩
    · have hlen : (r ++ (g ++ w)).length < (c :: (t ++ (g ++ w))).length := by
        simp only [List.length_append, List.length_cons] at hlt ⊢
        omega
      have hsub : (c :: (t ++ (g ++ w))).length - (r ++ (g ++ w)).length =
          (c :: t).length - r.length := by
        simp only [List.length_append, List.length_cons] at hlt ⊢
        omega
      simp only [hn, hr, Option.map_some, if_pos hlen, hsub]
      exact ih hs'
    · obtain rfl : r = r' := by simpa [hr] using hr''
      rw [hn]
      exact .of_single hw h1 (fun r' h => (afterLabel?_later h).1) rfl
  | case11 length blank broken hl c t h1 h2 h3 h4 hc hb r hr hlt =>
    obtain ⟨t', ht', hr'⟩ := Option.bind_eq_some_iff.1 hr
    have := Later.of_suffix (continued?_suffix hr') (lineEnd?_later ht')
    exact absurd this.2 hlt
  | case12 length blank broken hl c t h1 h2 h3 h4 hc hb ih =>
    rw [List.cons_append, afterLabel?_char (Nat.not_le.1 hl) (by simpa using hc) h1 h2, if_pos hb]
    · exact ih hs.tail
    · exact ne_backslash h3 h4
  | case13 length blank broken hl c t h1 h2 h3 h4 hc hb ih =>
    rw [List.cons_append, afterLabel?_char (Nat.not_le.1 hl) (by simpa using hc) h1 h2, if_neg hb]
    · exact ih hs.tail
    · exact ne_backslash h3 h4

end

/-! ### Titles -/

section

variable {stack : List Container} {close : Char}

theorem afterTitle?_break (hclose : isLineBreak close = false) {c : Char}
    (hc : isLineBreak c = true) (s : List Char) : afterTitle? stack close (c :: s) =
      match (lineEnd? (c :: s)).bind (continued? stack false) with
      | none => none
      | some r => if r.length < (c :: s).length then afterTitle? stack close r else none := by
  have hne : c ≠ close := by rintro rfl; rw [hc] at hclose; cases hclose
  have hpar : c ≠ '(' := by rintro rfl; cases hc
  rw [afterTitle?]
  · refine (if_neg hne).trans ((if_neg ?_).trans (if_pos hc))
    simp [hpar]
  · rintro rfl; cases hc
  · rintro d t rfl; cases hc

theorem afterTitle?_char {c : Char} (hc : isLineBreak c = false) (h1 : c ≠ close)
    (h2 : ¬ (c = '(' ∧ close = ')')) (h3 : c ≠ '\\') (s : List Char) :
    afterTitle? stack close (c :: s) = afterTitle? stack close s := by
  rw [afterTitle?]
  · simp [h1, h2, hc]
  all_goals simp [h3]

theorem afterTitle?_gap (hclose : isLineBreak close = false) (hspace : close ≠ ' ') (hg : Gap g)
    (hw : FenceNext w) (h : g ≠ [] ∨ w = []) : afterTitle? stack close (g ++ w) = none := by
  induction g with
  | nil => rw [h.resolve_left (by simp)]; unfold afterTitle?; rfl
  | cons c g ih =>
    rcases hg.blank c (by simp) with rfl | hc
    · have hne : g ≠ [] := by
        rintro rfl
        have := hg.ended ' ' (by simp)
        cases this
      rw [List.cons_append, afterTitle?_char rfl hspace.symm (by simp) (by decide)]
      exact ih (hg.suffix (List.suffix_cons _ _)) (.inl hne)
    · have he : Ends (c :: (g ++ w)) := ends_cons.2 hc
      have hb : Breaking (afterEnd (c :: (g ++ w))) := hg.breaking_afterEnd hw he
      rw [List.cons_append, afterTitle?_break hclose hc, lineEnd?_of_ends he, Option.bind_some,
        hb.continued?]

theorem afterTitle?_later {s r : List Char} (h : afterTitle? stack close s = some r) :
    Later r s := by
  fun_induction afterTitle? stack close s with
  | case3 c t ih => exact ((ih h).trans (later_cons c t)).trans (later_cons _ _)
  | case4 t h1 h2 => cases h; exact later_cons close r
  | case7 c t h1 h2 h3 h4 hc r' hr hlt ih =>
    obtain ⟨t', ht, hr'⟩ := Option.bind_eq_some_iff.1 hr
    exact (ih h).suffix ((continued?_suffix hr').trans (lineEnd?_suffix ht))
  | case9 c t h1 h2 h3 h4 hc ih => exact (ih h).trans (later_cons c t)
  | _ => cases h

theorem afterTitle?_fence (hspace : close ≠ ' ') (hw : FenceNext w) :
    ∀ r ∈ afterTitle? stack close w, Swallowed w r := by
  rcases hw with rfl | ⟨k, -, q, rfl, hq⟩
  · unfold afterTitle?; simp
  · intro r hr
    rw [Swallowed, dropWhile_fence k hq.fence]
    induction k with
    | zero => exact (afterTitle?_later hr).2
    | succ k ih =>
      rw [List.replicate_succ, List.cons_append,
        afterTitle?_char rfl hspace.symm (by simp) (by decide)] at hr
      exact ih hr

theorem afterTitle?_append (hclose : isLineBreak close = false) (hspace : close ≠ ' ')
    {s : List Char} (hs : Unbroken s) (ht : Tail g w) :
    ReadsAlike g w (afterTitle? stack close s) (afterTitle? stack close (s ++ (g ++ w))) := by
  fun_induction afterTitle? stack close s with
  | case1 =>
    exact .none rfl (by simpa using afterTitle?_gap hclose hspace ht.gap ht.next ht.ne_nil)
  | case2 =>
    cases g with
    | nil => exact .none rfl (by rw [ht.ne_nil.resolve_left (by simp)]; unfold afterTitle?; simp)
    | cons c g =>
      have hskip : afterTitle? stack close (['\\'] ++ (c :: g ++ w)) =
          afterTitle? stack close (g ++ w) := by
        rw [List.cons_append, List.cons_append, List.nil_append, afterTitle?]
      rw [hskip]
      have hg := ht.gap.suffix (List.suffix_cons c g)
      by_cases hne : g ≠ [] ∨ w = []
      · exact .none rfl (afterTitle?_gap hclose hspace hg ht.next hne)
      · obtain ⟨rfl, hw⟩ := by simpa using hne
        cases h : afterTitle? stack close w with
        | none => exact .none rfl h
        | some r =>
          refine .inr ⟨?_, .inl ⟨rfl, r, h, afterTitle?_fence hspace ht.next r h⟩⟩
          rintro (h | h)
          · exact hw h
          · simp [afterLine] at h
  | case3 c t ih =>
    rw [List.cons_append, List.cons_append, afterTitle?]
    exact ih hs.tail.tail
  | case4 t h1 h2 =>
    have hb := ne_backslash h1 h2
    left
    rw [List.cons_append, afterTitle?]
    · simp
    all_goals simp [hb]
  | case5 c t h1 h2 h3 h4 =>
    have hb := ne_backslash h1 h2
    refine .none rfl ?_
    rw [List.cons_append, afterTitle?]
    · simp only [if_neg h3, h4, if_true]
    all_goals simp [hb]
  | case6 c t h1 h2 h3 h4 hc hr =>
    refine .none rfl ?_
    rw [List.cons_append, afterTitle?_break hclose hc]
    rcases nextLine_append stack false hs ht with hn | ⟨-, hn, -⟩ <;> simp [hn, hr]
  | case7 c t h1 h2 h3 h4 hc r hr hlt ih =>
    obtain ⟨t', ht', hr'⟩ := Option.bind_eq_some_iff.1 hr
    have hs' := hs.suffix ((continued?_suffix hr').trans (lineEnd?_suffix ht'))
    rw [List.cons_append, afterTitle?_break hclose hc]
    rcases nextLine_append stack false hs ht with hn | ⟨hw, hn, r', hr'', h1⟩
    · have hlen : (r ++ (g ++ w)).length < (c :: (t ++ (g ++ w))).length := by
        simp only [List.length_append, List.length_cons] at hlt ⊢
        omega
      simp only [hn, hr, Option.map_some, if_pos hlen]
      exact ih hs'
    · obtain rfl : r = r' := by simpa [hr] using hr''
      rw [hn]
      exact .of_single hw h1 (fun r' h => (afterTitle?_later h).1) rfl
  | case8 c t h1 h2 h3 h4 hc r hr hlt =>
    obtain ⟨t', ht', hr'⟩ := Option.bind_eq_some_iff.1 hr
    have := Later.of_suffix (continued?_suffix hr') (lineEnd?_later ht')
    exact absurd this.2 hlt
  | case9 c t h1 h2 h3 h4 hc ih =>
    rw [List.cons_append, afterTitle?_char (by simpa using hc) h3]
    · exact ih hs.tail
    · simpa using h4
    · exact ne_backslash h1 h2

end

theorem title?_append (stack : List Container) {s : List Char} (hs : Unbroken s) (ht : Tail g w) :
    ReadsAlike g w (title? stack s) (title? stack (s ++ (g ++ w))) := by
  cases s with
  | nil =>
    refine .none rfl ?_
    have := ht.ends
    rw [List.nil_append]
    cases htt : g ++ w with
    | nil => rfl
    | cons c t =>
      rw [htt, ends_cons] at this
      rcases isLineBreak_iff.1 this with rfl | rfl <;> rfl
  | cons c s =>
    by_cases h1 : c = '"'
    · subst h1
      exact afterTitle?_append rfl (by decide) hs.tail ht
    by_cases h2 : c = '\''
    · subst h2
      exact afterTitle?_append rfl (by decide) hs.tail ht
    by_cases h3 : c = '('
    · subst h3
      exact afterTitle?_append rfl (by decide) hs.tail ht
    exact .none (by simp [title?, h1, h2, h3]) (by simp [title?, h1, h2, h3])

theorem title?_later {stack : List Container} {s r : List Char} (h : title? stack s = some r) :
    Later r s := by
  unfold title? at h
  split at h
  · exact (afterTitle?_later h).trans (later_cons _ _)
  · exact (afterTitle?_later h).trans (later_cons _ _)
  · exact (afterTitle?_later h).trans (later_cons _ _)
  · cases h

/-! ### Destinations -/

theorem isPunctuation_of_break {c : Char} (h : isLineBreak c = true) : isPunctuation c = false := by
  rcases isLineBreak_iff.1 h with rfl | rfl <;> rfl

/-- A backslash at the end of the text escapes nothing. -/
theorem afterAngled?_char {c : Char} {s t : List Char} (hc : c ≠ '>')
    (h : ∀ d r, c = '\\' → s = d :: r → False) (ht : Ends t) : afterAngled? (c :: (s ++ t)) =
      if isLineBreak c || c = '<' then none else afterAngled? (s ++ t) := by
  by_cases hb : c = '\\'
  · subst hb
    cases s with
    | cons d r => exact absurd rfl (h d r rfl)
    | nil =>
      cases t with
      | nil => rfl
      | cons d t =>
        simp [afterAngled?, isPunctuation_of_break (ends_cons.1 ht), isLineBreak]
  · rw [afterAngled?]
    · exact hc
    · exact fun d r h _ => hb h

theorem afterAngled?_append {t : List Char} (s : List Char) (ht : Ends t) :
    afterAngled? (s ++ t) = (afterAngled? s).map (· ++ t) := by
  fun_induction afterAngled? s with
  | case1 =>
    cases t with
    | nil => rfl
    | cons c t =>
      rcases isLineBreak_iff.1 (ends_cons.1 ht) with rfl | rfl <;> simp [afterAngled?, isLineBreak]
  | case2 s => simp [afterAngled?]
  | case3 c s hc ih => simpa [afterAngled?, hc] using ih
  | case4 c s hc ih => simpa [afterAngled?, hc] using ih
  | case5 c s h1 h2 hc => rw [List.cons_append, afterAngled?_char h1 h2 ht, if_pos hc]; rfl
  | case6 c s h1 h2 hc ih => rw [List.cons_append, afterAngled?_char h1 h2 ht, if_neg hc, ih]

theorem afterBare?_char {nest : Nat} {c : Char} {s t : List Char}
    (h : ∀ d r, c = '\\' → s = d :: r → False) (ht : Ends t) : afterBare? nest (c :: (s ++ t)) =
      if c.toNat ≤ 32 then (if nest = 0 then some (c :: (s ++ t)) else none)
      else if c = '(' then (if nest > 32 then none else afterBare? (nest + 1) (s ++ t))
      else if c = ')' then (if nest = 0 then some (c :: (s ++ t)) else afterBare? (nest - 1) (s ++ t))
      else afterBare? nest (s ++ t) := by
  by_cases hb : c = '\\'
  · subst hb
    cases s with
    | cons d r => exact absurd rfl (h d r rfl)
    | nil =>
      cases t with
      | nil => rfl
      | cons d t => simp [afterBare?, isPunctuation_of_break (ends_cons.1 ht)]
  · rw [afterBare?]
    exact fun d r h _ => hb h

theorem afterBare?_append {t : List Char} (nest : Nat) (s : List Char) (ht : Ends t) :
    afterBare? nest (s ++ t) = (afterBare? nest s).map (· ++ t) := by
  have hend (nest : Nat) : afterBare? nest t = if nest = 0 then some t else none := by
    cases t with
    | nil => rfl
    | cons c t =>
      rcases isLineBreak_iff.1 (ends_cons.1 ht) with rfl | rfl <;> simp [afterBare?]
  fun_induction afterBare? nest s with
  | case1 => simp [hend]
  | case2 nest hn => simp [hend, hn]
  | case3 nest c s hc ih => simpa [afterBare?, hc] using ih
  | case4 nest c s hc ih => simpa [afterBare?, hc] using ih
  | case5 c s h hc => simp [afterBare?_char h ht, hc]
  | case6 nest c s h hc hn => simp [afterBare?_char h ht, hc, hn]
  | case7 nest s hn h hc => simp [afterBare?_char h ht, hn]
  | case8 nest s hn h hc ih => simp [afterBare?_char h ht, hn, ih]
  | case9 s h hc hp => simp [afterBare?_char h ht, hp]
  | case10 nest s hn h hc hp ih => simp [afterBare?_char h ht, hp, hn, ih]
  | case11 nest c s h h1 h2 h3 ih => simp [afterBare?_char h ht, h1, h2, h3, ih]

theorem bare?_append {t : List Char} (s : List Char) (ht : Ends t) :
    bare? (s ++ t) = (bare? s).map (· ++ t) := by
  rw [bare?, bare?, afterBare?_append 0 s ht]
  cases afterBare? 0 s with
  | none => rfl
  | some r => by_cases h : r.length < s.length <;> simp [Option.filter, h]

theorem destination?_append {t : List Char} (s : List Char) (ht : Ends t) :
    destination? (s ++ t) = (destination? s).map (· ++ t) := by
  by_cases h : s.head? = some '<'
  · obtain ⟨r, rfl⟩ := List.head?_eq_some_iff.1 h
    exact afterAngled?_append r ht
  · have hbare {r : List Char} (h : r.head? ≠ some '<') : destination? r = bare? r := by
      unfold destination?
      split
      · simp at h
      · rfl
    rw [hbare h, hbare (by rw [ne_eq, head?_append_eq s ht rfl]; exact h), bare?_append s ht]

theorem afterAngled?_suffix {s r : List Char} (h : afterAngled? s = some r) : r <:+ s := by
  fun_induction afterAngled? s with
  | case2 s => cases h; exact List.suffix_cons _ _
  | case3 c s hc ih => exact ((ih h).trans (List.suffix_cons _ _)).trans (List.suffix_cons _ _)
  | case4 c s hc ih => exact (ih h).trans (List.suffix_cons _ _)
  | case6 c s h1 h2 hc ih => exact (ih h).trans (List.suffix_cons _ _)
  | _ => cases h

theorem afterBare?_suffix {nest : Nat} {s r : List Char} (h : afterBare? nest s = some r) :
    r <:+ s := by
  fun_induction afterBare? nest s with
  | case1 => cases h; exact List.suffix_rfl
  | case3 nest c s hc ih => exact ((ih h).trans (List.suffix_cons _ _)).trans (List.suffix_cons _ _)
  | case4 nest c s hc ih => exact (ih h).trans (List.suffix_cons _ _)
  | case5 c s h' hc => cases h; exact List.suffix_rfl
  | case8 nest s hn h' hc ih => exact (ih h).trans (List.suffix_cons _ _)
  | case9 s h' hc hp => cases h; exact List.suffix_rfl
  | case10 nest s hn h' hc hp ih => exact (ih h).trans (List.suffix_cons _ _)
  | case11 nest c s h' h1 h2 h3 ih => exact (ih h).trans (List.suffix_cons _ _)
  | _ => cases h

theorem destination?_suffix {s r : List Char} (h : destination? s = some r) : r <:+ s := by
  unfold destination? at h
  split at h
  · exact (afterAngled?_suffix h).trans (List.suffix_cons _ _)
  · exact afterBare?_suffix (Option.filter_eq_some_iff.1 h).1

theorem gap?_suffix {stack : List Container} {s r : List Char} {broken : Bool}
    (h : gap? stack s = some (r, broken)) : r <:+ s := by
  unfold gap? at h
  simp only at h
  split at h
  · cases h; exact List.dropWhile_suffix _
  · rename_i t ht
    split at h
    · cases h
    · rename_i r' hr
      split at h
      · cases h
      · cases h
        obtain ⟨q, hq, rfl⟩ := Option.map_eq_some_iff.1 hr
        exact (List.dropWhile_suffix _).trans ((continued?_suffix hq).trans
          ((lineEnd?_suffix ht).trans (List.dropWhile_suffix _)))

/-! ### Definitions -/

theorem titled?_suffix {stack : List Container} {s r : List Char} (h : titled? stack s = some r) :
    r <:+ s := by
  unfold titled? at h
  split at h
  · cases h; exact List.suffix_rfl
  · rename_i t broken hg
    simp only at h
    split at h
    · cases h
    · split at h
      · rename_i q hq
        split at h
        · cases h
          exact (title?_later hq).1.trans (gap?_suffix hg)
        · split at h <;> cases h
          exact List.suffix_rfl
      · split at h <;> cases h
        exact List.suffix_rfl

/-- Where a definition ends in a text alone and with `g ++ w` after it. Only a tail that is not wide
may change it, for a fence that is then part of the definition or for the last line. -/
def EndsAlike (g w : List Char) (alone whole : Option (List Char)) : Prop :=
  whole = alone.map (· ++ (g ++ w)) ∨
    ¬ Wide g w ∧ ((∃ r ∈ whole, Swallowed w r) ∨ ∃ r ∈ alone, Single r)

theorem gap?_nil (stack : List Container) : gap? stack [] = none := by
  have h := (Gap.nil.breaking (.inl rfl)).continued? stack true
  rw [List.nil_append] at h
  simp [gap?, lineEnd?, h]

theorem titled?_append (stack : List Container) {s : List Char} (hs : Unbroken s)
    (ht : Tail g w) : EndsAlike g w (titled? stack s) (titled? stack (s ++ (g ++ w))) := by
  unfold titled?
  rcases gap?_append stack hs ht with hg | ⟨hw, hg, r, hr, h1⟩
  · rw [hg]
    cases hgap : gap? stack s with
    | none => left; rfl
    | some p =>
      obtain ⟨t, broken⟩ := p
      have hne : s ≠ [] := by rintro rfl; rw [gap?_nil] at hgap; cases hgap
      have hempty : (s ++ (g ++ w)).isEmpty = s.isEmpty := by
        obtain ⟨c, s, rfl⟩ := List.exists_cons_of_ne_nil hne
        rfl
      have hlen : ((t ++ (g ++ w)).length = (s ++ (g ++ w)).length) = (t.length = s.length) := by
        simp only [List.length_append, Nat.add_right_cancel_iff]
      simp only [Option.map_some, hempty, hlen]
      generalize (broken || s.isEmpty) = b
      by_cases hcond : (decide (t.length = s.length) && !b) = true
      · left; simp only [if_pos hcond]; rfl
      simp only [if_neg hcond]
      rcases title?_append stack (hs.suffix (gap?_suffix hgap)) ht with
        h | ⟨hw, ⟨ha, r, hr, hsw⟩ | ⟨hwhole, r, hr, h1⟩⟩
      · left
        rw [h]
        cases title? stack t with
        | none => cases b <;> rfl
        | some r =>
          simp only [Option.map_some, isSome_blankLine?_append r ht.ends]
          cases (blankLine? r).isSome <;> cases b <;> rfl
      · rw [ha, Option.mem_def.1 hr]
        by_cases hb : (blankLine? r).isSome = true
        · exact .inr ⟨hw, .inl ⟨r, by simp [hb], hsw⟩⟩
        · left; simp only [if_neg hb]; cases b <;> rfl
      · rw [hwhole, Option.mem_def.1 hr]
        by_cases hb : (blankLine? r).isSome = true
        · exact .inr ⟨hw, .inr ⟨r, by simp [hb], h1⟩⟩
        · left; simp only [if_neg hb]; cases b <;> rfl
  · rw [hg, hr]
    simp only [Bool.true_or, Bool.not_true, Bool.and_false, Bool.false_eq_true, if_false, if_true]
    cases ht : title? stack r with
    | none => left; rfl
    | some q =>
      by_cases hb : (blankLine? q).isSome = true
      · exact .inr ⟨hw, .inr ⟨q, by simp [hb], h1.suffix (title?_later ht).1⟩⟩
      · left; simp only [if_neg hb]; rfl

theorem target?_suffix {stack : List Container} {s r : List Char} (h : target? stack s = some r) :
    r <:+ s := by
  unfold target? at h
  split at h
  · cases h
  · rename_i r' broken hg
    obtain ⟨p, hp, h⟩ := Option.bind_eq_some_iff.1 h
    exact (titled?_suffix h).trans ((destination?_suffix hp).trans (gap?_suffix hg))

theorem afterColon?_later {s r : List Char} (h : afterColon? s = some r) : Later r s := by
  unfold afterColon? at h
  split at h <;> cases h
  exact later_cons _ _

theorem afterColon?_append {t : List Char} (s : List Char) (ht : Ends t) :
    afterColon? (s ++ t) = (afterColon? s).map (· ++ t) := by
  by_cases h : s.head? = some ':'
  · obtain ⟨r, rfl⟩ := List.head?_eq_some_iff.1 h
    rfl
  · have hnone {r : List Char} (h : r.head? ≠ some ':') : afterColon? r = none := by
      unfold afterColon?
      split
      · simp at h
      · rfl
    rw [hnone h, hnone (by rw [ne_eq, head?_append_eq s ht rfl]; exact h)]
    rfl

/-- The label and the target that are read after the opening bracket. -/
theorem pointed_later {stack : List Container} {label s r : List Char}
    (h : (afterColon? label).bind (target? stack) = some r) (hs : label <:+ s) : Later r s := by
  obtain ⟨t, ht, hr⟩ := Option.bind_eq_some_iff.1 h
  exact ((afterColon?_later ht).suffix hs).of_suffix (target?_suffix hr)

theorem definition?_later {stack : List Container} {s r : List Char}
    (h : definition? stack s = some r) : Later r s := by
  unfold definition? at h
  split at h
  · rw [Option.bind_assoc] at h
    obtain ⟨label, hl, h⟩ := Option.bind_eq_some_iff.1 h
    exact (pointed_later h (afterLabel?_later hl).1).trans (later_cons _ _)
  · cases h

theorem EndsAlike.of_single {alone whole : Option (List Char)} {s : List Char}
    (hw : ¬ Wide g w) (hs : Single s) (ha : ∀ r ∈ alone, r <:+ s) (hwhole : whole = none) :
    EndsAlike g w alone whole := by
  cases alone with
  | none => left; exact hwhole
  | some r => exact .inr ⟨hw, .inr ⟨r, rfl, hs.suffix (ha r rfl)⟩⟩

theorem target?_append (stack : List Container) {s : List Char} (hs : Unbroken s)
    (ht : Tail g w) : EndsAlike g w (target? stack s) (target? stack (s ++ (g ++ w))) := by
  have hsuf (r : List Char) (h : r ∈ target? stack s) := target?_suffix h
  unfold target? at hsuf ⊢
  rcases gap?_append stack hs ht with hg | ⟨hw, hg, r, hr, h1⟩
  · rw [hg]
    cases hgap : gap? stack s with
    | none => left; rfl
    | some p =>
      simp only [Option.map_some, destination?_append _ ht.ends]
      cases hd : destination? p.1 with
      | none => left; rfl
      | some r =>
        exact titled?_append stack
          (hs.suffix ((destination?_suffix hd).trans (gap?_suffix hgap))) ht
  · rw [hg, hr]
    refine .of_single hw h1 (fun q hq => ?_) rfl
    obtain ⟨p, hp, h⟩ := Option.bind_eq_some_iff.1 hq
    exact (titled?_suffix h).trans (destination?_suffix hp)

/-- A definition is the same with a wide tail after it. -/
theorem definition?_append (stack : List Container) {s : List Char} (hs : Unbroken s)
    (ht : Tail g w) :
    EndsAlike g w (definition? stack s) (definition? stack (s ++ (g ++ w))) := by
  by_cases h : s.head? = some '['
  · obtain ⟨s, rfl⟩ := List.head?_eq_some_iff.1 h
    simp only [List.cons_append, definition?, Option.bind_assoc]
    have hlabel : ReadsAlike g w (afterLabel? stack 0 true false s)
        (afterLabel? stack 0 true false (s ++ (g ++ w))) := afterLabel?_append hs.tail ht
    rcases hlabel with
      h | ⟨hw, ⟨ha, r, hr, hsw⟩ | ⟨hwhole, r, hr, h1⟩⟩
    · rw [h]
      cases hl : afterLabel? stack 0 true false s with
      | none => left; rfl
      | some r =>
        simp only [Option.map_some, Option.bind_some, afterColon?_append r ht.ends]
        cases hc : afterColon? r with
        | none => left; rfl
        | some q =>
          have hq := (afterColon?_later hc).1.trans (afterLabel?_later hl).1
          exact target?_append stack (hs.tail.suffix hq) ht
    · rw [ha, Option.mem_def.1 hr]
      simp only [Option.bind_some]
      cases hc : (afterColon? r).bind (target? stack) with
      | none => left; rfl
      | some q =>
        exact .inr ⟨hw, .inl ⟨q, rfl, (pointed_later hc List.suffix_rfl).2.trans hsw⟩⟩
    · rw [hwhole, Option.mem_def.1 hr]
      exact .of_single hw h1 (fun q hq => (pointed_later hq List.suffix_rfl).1) rfl
  · have hnone {r : List Char} (h : r.head? ≠ some '[') : definition? stack r = none := by
      unfold definition?
      split
      · simp at h
      · rfl
    left
    rw [hnone h, hnone (by rw [ne_eq, head?_append_eq s ht.ends rfl]; exact h)]
    rfl

end

end Notebook.Markdown
