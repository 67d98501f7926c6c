import Notebook.Markdown.Line
import Mathlib.Data.List.Infix
import Mathlib.Data.List.TakeWhile

/-!
What a line is does not depend on the text after it. The text `s ++ t` is read here as `s` alone,
where `t` starts with the end of a line and `s` does not end with one.
-/

namespace Notebook.Markdown

/-- A line ends here, or the text does. -/
def Ends (t : List Char) : Prop := ∀ c ∈ t.head?, isLineBreak c = true

/-- Text that does not end with a line break. -/
def Unbroken (s : List Char) : Prop := ∀ c ∈ s.getLast?, isLineBreak c = false

theorem ends_nil : Ends [] := by simp [Ends]

theorem ends_cons {c : Char} {t : List Char} : Ends (c :: t) ↔ isLineBreak c = true := by
  simp [Ends]

theorem unbroken_nil : Unbroken [] := by simp [Unbroken]

theorem Unbroken.suffix {s r : List Char} (h : Unbroken s) (hr : r <:+ s) : Unbroken r := by
  obtain ⟨p, rfl⟩ := hr
  intro c hc
  refine h c ?_
  rw [List.getLast?_append]
  simp_all

theorem Unbroken.tail {c : Char} {s : List Char} (h : Unbroken (c :: s)) : Unbroken s :=
  h.suffix (List.suffix_cons c s)

theorem Unbroken.dropWhile {s : List Char} (p : Char → Bool) (h : Unbroken s) :
    Unbroken (s.dropWhile p) := h.suffix (List.dropWhile_suffix p)

theorem Unbroken.drop {s : List Char} (n : Nat) (h : Unbroken s) : Unbroken (s.drop n) :=
  h.suffix (List.drop_suffix n s)

theorem Unbroken.ne_nil_of_break {c : Char} {s : List Char} (h : Unbroken (c :: s))
    (hc : isLineBreak c = true) : s ≠ [] := by
  rintro rfl
  have := h c (by simp)
  simp [hc] at this

/-- What is left of a text after the line end that it starts with. -/
def afterEnd (t : List Char) : List Char := (lineEnd? t).getD []

/-- A place after a line end of `s`, in `s ++ t`. The end of `s` is the line end in `t`. -/
def resume (t r : List Char) : List Char := if r = [] then afterEnd t else r ++ t

theorem resume_nil (t : List Char) : resume t [] = afterEnd t := by simp [resume]

theorem resume_of_ne_nil {t r : List Char} (h : r ≠ []) : resume t r = r ++ t := by
  simp [resume, h]

/-- A place in `s` after its start. -/
def Later (r s : List Char) : Prop := r <:+ s ∧ r.length < s.length

theorem later_cons (c : Char) (s : List Char) : Later s (c :: s) :=
  ⟨List.suffix_cons c s, by simp⟩

theorem Later.suffix {r s t : List Char} (h : Later r s) (ht : s <:+ t) : Later r t :=
  ⟨h.1.trans ht, lt_of_lt_of_le h.2 ht.length_le⟩

theorem Later.trans {r s t : List Char} (h : Later r s) (ht : Later s t) : Later r t :=
  h.suffix ht.1

theorem Later.of_suffix {r s t : List Char} (h : r <:+ s) (ht : Later s t) : Later r t :=
  ⟨h.trans ht.1, lt_of_le_of_lt h.length_le ht.2⟩

theorem resume_of_nil (r : List Char) : resume [] r = r := by
  by_cases h : r = []
  · subst h; rfl
  · rw [resume_of_ne_nil h, List.append_nil]

theorem isLineBreak_iff {c : Char} : isLineBreak c = true ↔ c = '\n' ∨ c = '\r' := by
  simp [isLineBreak]

theorem lineEnd?_of_ends {t : List Char} (h : Ends t) : lineEnd? t = some (afterEnd t) := by
  cases t with
  | nil => rfl
  | cons c t =>
    rcases isLineBreak_iff.1 (ends_cons.1 h) with rfl | rfl
    · rfl
    · cases t with
      | nil => rfl
      | cons d t => by_cases hd : d = '\n' <;> simp [afterEnd, lineEnd?, hd]

theorem lineEnd?_isSome {t : List Char} : (lineEnd? t).isSome = true ↔ Ends t := by
  refine ⟨?_, fun h => by simp [lineEnd?_of_ends h]⟩
  intro h
  cases t with
  | nil => exact ends_nil
  | cons c t =>
    rw [ends_cons, isLineBreak_iff]
    unfold lineEnd? at h
    split at h <;> simp_all

theorem ends_append {s t : List Char} (ht : Ends t) : Ends (s ++ t) ↔ Ends s := by
  cases s with
  | nil => simp [ht, ends_nil]
  | cons c s => simp [ends_cons]

theorem isSome_lineEnd?_append (s : List Char) {t : List Char} (ht : Ends t) :
    (lineEnd? (s ++ t)).isSome = (lineEnd? s).isSome := by
  rw [Bool.eq_iff_iff, lineEnd?_isSome, lineEnd?_isSome, ends_append ht]

theorem lineEnd?_append {s t : List Char} (hs : Unbroken s) (ht : Ends t) :
    lineEnd? (s ++ t) = (lineEnd? s).map (resume t) := by
  cases s with
  | nil => simpa [lineEnd?, resume] using lineEnd?_of_ends ht
  | cons c s =>
    by_cases hc : isLineBreak c = true
    · have hn := hs.ne_nil_of_break hc
      obtain ⟨d, s, rfl⟩ := List.exists_cons_of_ne_nil hn
      rcases isLineBreak_iff.1 hc with rfl | rfl
      · simp [lineEnd?, resume]
      · by_cases hd : d = '\n'
        · subst hd
          have := hs.tail.ne_nil_of_break (by rfl)
          simp [lineEnd?, resume, this]
        · simp [lineEnd?, resume, hd]
    · have : lineEnd? (c :: (s ++ t)) = none := by
        rw [← Option.not_isSome_iff_eq_none, lineEnd?_isSome, ends_cons]; exact hc
      have h0 : lineEnd? (c :: s) = none := by
        rw [← Option.not_isSome_iff_eq_none, lineEnd?_isSome, ends_cons]; exact hc
      simp [this, h0]

theorem lineEnd?_suffix {s r : List Char} (h : lineEnd? s = some r) : r <:+ s := by
  unfold lineEnd? at h
  split at h
  · simp_all
  · cases h; exact List.suffix_cons _ _
  · cases h; exact (List.suffix_cons _ _).trans (List.suffix_cons _ _)
  · cases h; exact List.suffix_cons _ _
  · cases h

theorem lineEnd?_later {c : Char} {s r : List Char} (h : lineEnd? (c :: s) = some r) :
    Later r (c :: s) := by
  refine ⟨lineEnd?_suffix h, ?_⟩
  unfold lineEnd? at h
  split at h
  · simp_all
  · simp_all
  · rename_i r' heq
    cases h
    rw [heq, List.length_cons, List.length_cons]
    omega
  · simp_all
  · cases h

/-! ### Pieces of a line -/

theorem head?_append_eq {c : Char} {t : List Char} (s : List Char) (ht : Ends t)
    (hc : isLineBreak c = false) : ((s ++ t).head? = some c) = (s.head? = some c) := by
  cases s with
  | cons d s => rfl
  | nil =>
    refine propext ⟨fun h => ?_, fun h => by cases h⟩
    rw [ht c h] at hc
    cases hc

theorem dropWhile_append_ends {p : Char → Bool} {t : List Char} (s : List Char) (ht : Ends t)
    (hp : ∀ c, isLineBreak c = true → p c = false) :
    (s ++ t).dropWhile p = s.dropWhile p ++ t := by
  induction s with
  | nil =>
    cases t with
    | nil => rfl
    | cons c t => simp [hp c (ends_cons.1 ht)]
  | cons c s ih => by_cases h : p c <;> simp [h, ih]

theorem takeWhile_append_ends {p : Char → Bool} {t : List Char} (s : List Char) (ht : Ends t)
    (hp : ∀ c, isLineBreak c = true → p c = false) : (s ++ t).takeWhile p = s.takeWhile p := by
  induction s with
  | nil =>
    cases t with
    | nil => rfl
    | cons c t => simp [hp c (ends_cons.1 ht)]
  | cons c s ih => by_cases h : p c <;> simp [h, ih]

theorem isInlineBlank_of_break {c : Char} (h : isLineBreak c = true) : isInlineBlank c = false := by
  rcases isLineBreak_iff.1 h with rfl | rfl <;> rfl

theorem isSome_blankLine?_append (s : List Char) {t : List Char} (ht : Ends t) :
    (blankLine? (s ++ t)).isSome = (blankLine? s).isSome := by
  rw [blankLine?, dropWhile_append_ends s ht fun c => isInlineBlank_of_break]
  exact isSome_lineEnd?_append _ ht

theorem blankLine?_append {s t : List Char} (hs : Unbroken s) (ht : Ends t) :
    blankLine? (s ++ t) = (blankLine? s).map (resume t) := by
  rw [blankLine?, dropWhile_append_ends s ht fun c => isInlineBlank_of_break]
  exact lineEnd?_append (hs.dropWhile _) ht

theorem blankLine?_suffix {s r : List Char} (h : blankLine? s = some r) : r <:+ s :=
  (lineEnd?_suffix h).trans (List.dropWhile_suffix _)

theorem blankLine?_later {s r : List Char} (hs : s ≠ []) (h : blankLine? s = some r) :
    Later r s := by
  rw [blankLine?] at h
  cases hd : s.dropWhile isInlineBlank with
  | nil =>
    rw [hd] at h
    cases h
    exact ⟨List.nil_suffix, List.length_pos_iff.2 hs⟩
  | cons c t =>
    rw [hd] at h
    exact (lineEnd?_later h).suffix (hd ▸ List.dropWhile_suffix _)

theorem ends_dropWhile (s : List Char) : Ends (s.dropWhile fun c => !isLineBreak c) := by
  intro c hc
  have := List.head?_dropWhile_not (fun c => !isLineBreak c) s
  rw [Option.mem_def.1 hc] at this
  simpa using this

theorem afterBreak_append {s t : List Char} (hs : Unbroken s) (ht : Ends t) :
    afterBreak (s ++ t) = resume t (afterBreak s) := by
  have he := lineEnd?_of_ends (ends_dropWhile s)
  rw [afterBreak, dropWhile_append_ends s ht (by simp), lineEnd?_append (hs.dropWhile _) ht, he]
  simp [afterBreak, he]

theorem afterBreak_suffix (s : List Char) : afterBreak s <:+ s := by
  rw [afterBreak, lineEnd?_of_ends (ends_dropWhile s)]
  exact (lineEnd?_suffix (lineEnd?_of_ends (ends_dropWhile s))).trans (List.dropWhile_suffix _)

theorem afterBreak_later {s : List Char} (h : s ≠ []) : Later (afterBreak s) s := by
  have he := lineEnd?_of_ends (ends_dropWhile s)
  cases hd : s.dropWhile fun c => !isLineBreak c with
  | nil =>
    rw [afterBreak, hd]
    exact ⟨List.nil_suffix, by simpa [lineEnd?, List.length_pos_iff] using h⟩
  | cons c t =>
    rw [hd] at he
    rw [afterBreak, hd, he]
    exact (lineEnd?_later he).suffix (hd ▸ List.dropWhile_suffix _)

/-! ### Whole lines -/

theorem afterLine_of_not_mem {s : List Char} (h : '\n' ∉ s) (t : List Char) :
    afterLine (s ++ t) = afterLine t := by
  induction s with
  | nil => rfl
  | cons c s ih => simp_all [afterLine, eq_comm]

theorem afterLine_nil {s : List Char} (h : '\n' ∉ s) : afterLine s = [] := by
  simpa [afterLine] using afterLine_of_not_mem h []

theorem afterLine_append {s : List Char} (h : '\n' ∈ s) (t : List Char) :
    afterLine (s ++ t) = afterLine s ++ t := by
  induction s with
  | nil => simp at h
  | cons c s ih =>
    by_cases hc : c = '\n'
    · simp [afterLine, hc]
    · simp_all [afterLine, eq_comm]

theorem Unbroken.afterLine_ne_nil {s : List Char} (hs : Unbroken s) (h : '\n' ∈ s) :
    afterLine s ≠ [] := by
  induction s with
  | nil => simp at h
  | cons c s ih =>
    by_cases hc : c = '\n'
    · subst hc
      simpa [afterLine] using hs.ne_nil_of_break rfl
    · simp only [afterLine, if_neg hc]
      exact ih hs.tail (by simpa [Ne.symm hc] using h)

theorem lineWithEnd_of_not_mem {s : List Char} (h : '\n' ∉ s) (t : List Char) :
    lineWithEnd (s ++ t) = s ++ lineWithEnd t := by
  induction s with
  | nil => rfl
  | cons c s ih => simp_all [lineWithEnd, eq_comm]

theorem lineWithEnd_append {s : List Char} (h : '\n' ∈ s) (t : List Char) :
    lineWithEnd (s ++ t) = lineWithEnd s := by
  induction s with
  | nil => simp at h
  | cons c s ih =>
    by_cases hc : c = '\n'
    · simp [lineWithEnd, hc]
    · simp_all [lineWithEnd, eq_comm]

/-! ### One line -/

/-- Text on one line. -/
def Single (s : List Char) : Prop := ∀ c ∈ s, isLineBreak c = false

theorem Single.suffix {s r : List Char} (h : Single s) (hr : r <:+ s) : Single r :=
  fun c hc => h c (hr.subset hc)

theorem eq_nil_of_lineEnd? {s : List Char} (hs : Unbroken s) (h : lineEnd? s = some []) :
    s = [] := by
  cases s with
  | nil => rfl
  | cons c s =>
    have hc := lineEnd?_isSome.1 (by rw [h]; rfl)
    obtain ⟨d, s, rfl⟩ := List.exists_cons_of_ne_nil (hs.ne_nil_of_break (ends_cons.1 hc))
    rcases isLineBreak_iff.1 (ends_cons.1 hc) with rfl | rfl
    · simp [lineEnd?] at h
    · by_cases hd : d = '\n'
      · subst hd
        have := hs.tail.ne_nil_of_break (by rfl)
        simp_all [lineEnd?]
      · simp [lineEnd?, hd] at h

theorem single_of_blankLine? {s : List Char} (hs : Unbroken s) (h : blankLine? s = some []) :
    Single s := by
  have hd := eq_nil_of_lineEnd? (hs.dropWhile isInlineBlank) h
  intro c hc
  have := List.dropWhile_eq_nil_iff.1 hd c hc
  by_contra hb
  simp [isInlineBlank_of_break (by simpa using hb)] at this

theorem afterBreak_of_single {s : List Char} (h : Single s) : afterBreak s = [] := by
  have : s.dropWhile (fun c => !isLineBreak c) = [] := by
    rw [List.dropWhile_eq_nil_iff]; simpa [Single] using h
  simp [afterBreak, this, lineEnd?]

/-! ### Indentation and containers -/

namespace LineStart

/-- The same place with more text after it. -/
def append (l : LineStart) (t : List Char) : LineStart := { l with rest := l.rest ++ t }

@[simp] theorem rest_append (l : LineStart) (t : List Char) : (l.append t).rest = l.rest ++ t := rfl

theorem of_append (s t : List Char) : LineStart.of (s ++ t) = (LineStart.of s).append t := rfl

theorem blanksFrom_append {t : List Char} (ht : Ends t) (n : Nat) (s : List Char)
    (read base spare : Nat) : blanksFrom n (s ++ t) read base spare =
      ((blanksFrom n s read base spare).1, (blanksFrom n s read base spare).2.append t) := by
  induction n, s, read, base, spare using blanksFrom.induct with
  | case1 s read base spare => simp [blanksFrom, append]
  | case2 n s read base spare ih => simpa [blanksFrom] using ih
  | case3 spare n s read base width ih => simpa [blanksFrom] using ih
  | case4 n s read base spare h1 h2 =>
    have h0 : blanksFrom (n + 1) s read base spare = (n + 1, ⟨s, read, base, spare⟩) := by
      unfold blanksFrom; split <;> simp_all
    rw [h0]
    cases s with
    | nil =>
      cases t with
      | nil => rfl
      | cons c t =>
        rcases isLineBreak_iff.1 (ends_cons.1 ht) with rfl | rfl <;> simp [blanksFrom, append]
    | cons c s =>
      simp only [List.cons_append]
      unfold blanksFrom
      split <;> simp_all [append]

theorem blanks_append {t : List Char} (ht : Ends t) (n : Nat) (l : LineStart) :
    (l.append t).blanks n = ((l.blanks n).1, (l.blanks n).2.append t) :=
  blanksFrom_append ht ..

theorem blanksFrom_suffix (n : Nat) (s : List Char) (read base spare : Nat) :
    (blanksFrom n s read base spare).2.rest <:+ s := by
  induction n, s, read, base, spare using blanksFrom.induct with
  | case1 s read base spare => simp [blanksFrom]
  | case2 n s read base spare ih => simpa [blanksFrom] using ih.trans (List.suffix_cons ' ' s)
  | case3 spare n s read base width ih =>
    simpa [blanksFrom] using ih.trans (List.suffix_cons '\t' s)
  | case4 n s read base spare h1 h2 =>
    unfold blanksFrom
    split <;> simp_all

theorem blanks_suffix (n : Nat) (l : LineStart) : (l.blanks n).2.rest <:+ l.rest :=
  blanksFrom_suffix ..

theorem mem_blanksFrom {c : Char} (hs : c ≠ ' ') (ht : c ≠ '\t') (n : Nat) (s : List Char)
    (read base spare : Nat) (h : c ∈ s) : c ∈ (blanksFrom n s read base spare).2.rest := by
  induction n, s, read, base, spare using blanksFrom.induct with
  | case1 s read base spare => simpa [blanksFrom] using h
  | case2 n s read base spare ih => simpa [blanksFrom] using ih (by simpa [hs] using h)
  | case3 spare n s read base width ih => simpa [blanksFrom] using ih (by simpa [ht] using h)
  | case4 n s read base spare h1 h2 =>
    unfold blanksFrom
    split <;> simp_all

/-- Where blanks are all that is left, there are no line ends. -/
theorem blank_of_blanks {n : Nat} {l : LineStart} (h : (l.blanks n).2.rest = []) :
    ∀ c ∈ l.rest, c = ' ' ∨ c = '\t' := by
  intro c hc
  by_contra hb
  obtain ⟨hs, ht⟩ := not_or.1 hb
  have := mem_blanksFrom hs ht (n - l.spare) _ l.read l.tabBase (l.spare - n) hc
  rw [blanks] at h
  rw [h] at this
  cases this

theorem single_of_blanks {n : Nat} {l : LineStart} (h : (l.blanks n).2.rest = []) :
    Single l.rest := by
  intro c hc
  rcases blank_of_blanks h c hc with rfl | rfl <;> rfl

theorem blankLine?_of_blanks {n : Nat} {l : LineStart} (h : (l.blanks n).2.rest = []) :
    blankLine? l.rest = some [] := by
  have hd : l.rest.dropWhile isInlineBlank = [] := by
    rw [List.dropWhile_eq_nil_iff]
    intro c hc
    rcases blank_of_blanks h c hc with rfl | rfl <;> rfl
  rw [blankLine?, hd]
  rfl

theorem atEnd_iff (l : LineStart) : l.atEnd = true ↔ Ends l.rest := by
  unfold atEnd
  split <;> rename_i h <;> simp [h, ends_nil, ends_cons]

theorem atEnd_append {t : List Char} (ht : Ends t) (l : LineStart) :
    (l.append t).atEnd = l.atEnd := by
  rw [Bool.eq_iff_iff, atEnd_iff, atEnd_iff, rest_append, ends_append ht]

theorem char?_append {t : List Char} (ht : Ends t) {c : Char} (hc : isLineBreak c = false)
    (l : LineStart) : (l.append t).char? c = (l.char? c).map (·.append t) := by
  obtain ⟨s, read, base, spare⟩ := l
  cases s with
  | cons d s => by_cases h : c = d <;> simp [char?, append, h]
  | nil =>
    cases t with
    | nil => rfl
    | cons d t =>
      have : c ≠ d := by rintro rfl; simp [ends_cons.1 ht] at hc
      simp [char?, append, this]

theorem char?_suffix {c : Char} {l m : LineStart} (h : l.char? c = some m) :
    m.rest.length < l.rest.length ∧ m.rest <:+ l.rest := by
  unfold char? at h
  split at h
  · rename_i d s hs
    split at h
    · cases h; simp [hs]
    · cases h
  · cases h

theorem quote?_append {t : List Char} (ht : Ends t) (l : LineStart) :
    (l.append t).quote? = l.quote?.map (·.append t) := by
  simp only [quote?, char?_append ht (by rfl : isLineBreak '>' = false), Option.map_map]
  congr 1
  funext m
  simp [blanks_append ht]

theorem quote?_suffix {l m : LineStart} (h : l.quote? = some m) :
    m.rest.length < l.rest.length ∧ m.rest <:+ l.rest := by
  obtain ⟨k, hk, rfl⟩ := Option.map_eq_some_iff.1 h
  have hs := char?_suffix hk
  have hb := blanks_suffix 1 k
  exact ⟨lt_of_le_of_lt hb.length_le hs.1, hb.trans hs.2⟩

end LineStart

namespace Container

open LineStart

theorem enter?_append {t : List Char} (ht : Ends t) (c : Container) (l : LineStart) :
    c.enter? (l.append t) = (c.enter? l).map (·.append t) := by
  cases c with
  | quote => simp [enter?, blanks_append ht, quote?_append ht]
  | item n =>
    simp only [enter?, blanks_append ht]
    rcases l.blanks n with ⟨_ | missing, m⟩
    · rfl
    · simp only [atEnd_append ht]
      split <;> rfl

theorem enter?_suffix {c : Container} {l m : LineStart} (h : c.enter? l = some m) :
    m.rest <:+ l.rest := by
  cases c with
  | quote => exact (quote?_suffix h).2.trans (blanks_suffix 3 l)
  | item n =>
    have hb := blanks_suffix n l
    simp only [enter?] at h
    split at h
    · simp_all
    · split at h <;> simp_all

theorem enterAll_append {t : List Char} (ht : Ends t) (cs : List Container) (l : LineStart) :
    enterAll cs (l.append t) = ((enterAll cs l).1, (enterAll cs l).2.append t) := by
  induction cs generalizing l with
  | nil => rfl
  | cons c cs ih =>
    simp only [enterAll, enter?_append ht]
    cases h : c.enter? l with
    | none => rfl
    | some m => simp [ih]

theorem enterAll_suffix (cs : List Container) (l : LineStart) :
    (enterAll cs l).2.rest <:+ l.rest := by
  induction cs generalizing l with
  | nil => exact List.suffix_rfl
  | cons c cs ih =>
    simp only [enterAll]
    split
    · rename_i m h
      exact (ih m).trans (enter?_suffix h)
    · exact List.suffix_rfl

theorem enterAll_isOuter (cs : List Container) (l : LineStart) : (enterAll cs l).1 <+: cs := by
  induction cs generalizing l with
  | nil => exact List.prefix_rfl
  | cons c cs ih =>
    simp only [enterAll]
    split
    · rename_i m h
      exact List.cons_prefix_cons.2 ⟨rfl, ih m⟩
    · exact List.nil_prefix

theorem enterAll_of_nil {cs : List Container} {l : LineStart} (h : (enterAll cs l).1 = []) :
    (enterAll cs l).2 = l := by
  cases cs with
  | nil => rfl
  | cons c cs =>
    simp only [enterAll] at h ⊢
    split at h
    · cases h
    · rfl

end Container

/-! ### What a line may be -/

theorem rule?_append {s t : List Char} (hs : Unbroken s) (ht : Ends t) :
    rule? (s ++ t) = (rule? s).map (resume t) := by
  cases s with
  | nil =>
    cases t with
    | nil => rfl
    | cons c t => rcases isLineBreak_iff.1 (ends_cons.1 ht) with rfl | rfl <;> simp [rule?]
  | cons c s =>
    have hl := takeWhile_append_ends (p := fun c => !isLineBreak c) (c :: s) ht (by simp)
    have hd : (c :: s ++ t).drop ((c :: s).takeWhile fun c => !isLineBreak c).length =
        (c :: s).drop ((c :: s).takeWhile fun c => !isLineBreak c).length ++ t :=
      List.drop_append_of_le_length (List.takeWhile_prefix _).length_le
    simp only [List.cons_append] at hl hd
    simp only [rule?, List.cons_append, hl]
    split
    · rw [hd, lineEnd?_append (hs.drop _) ht]
    · rfl

theorem heading?_append (s : List Char) {t : List Char} (ht : Ends t) :
    heading? (s ++ t) = (heading? s).map (· ++ t) := by
  have hl := takeWhile_append_ends (p := (· = '#')) s ht (by
    intro c hc; rcases isLineBreak_iff.1 hc with rfl | rfl <;> rfl)
  have hd : (s ++ t).drop (s.takeWhile (· = '#')).length =
      s.drop (s.takeWhile (· = '#')).length ++ t :=
    List.drop_append_of_le_length (List.takeWhile_prefix _).length_le
  have hh (r : List Char) : (r ++ t).head?.all isAsciiBlank = r.head?.all isAsciiBlank := by
    cases r with
    | cons c r => rfl
    | nil =>
      cases t with
      | nil => rfl
      | cons c t => rcases isLineBreak_iff.1 (ends_cons.1 ht) with rfl | rfl <;> rfl
  simp only [heading?, hl, hd, hh]
  split <;> rfl

theorem heading?_suffix {s r : List Char} (h : heading? s = some r) : r <:+ s := by
  simp only [heading?] at h
  split at h <;> cases h
  exact List.drop_suffix _ _

theorem underline?_append {s t : List Char} (hs : Unbroken s) (ht : Ends t) :
    underline? (s ++ t) = (underline? s).map (resume t) := by
  cases s with
  | nil =>
    cases t with
    | nil => rfl
    | cons c t => rcases isLineBreak_iff.1 (ends_cons.1 ht) with rfl | rfl <;> simp [underline?]
  | cons c s =>
    simp only [underline?, List.cons_append]
    split
    · rename_i hc
      have hb : ∀ d, isLineBreak d = true → decide (d = c) = false := by
        intro d hd
        rcases isLineBreak_iff.1 hd with rfl | rfl <;> simp at hc ⊢ <;> rintro rfl <;> simp at hc
      rw [← List.cons_append, dropWhile_append_ends (c :: s) ht hb,
        blankLine?_append (hs.dropWhile _) ht]
    · rfl

theorem underline?_suffix {s r : List Char} (h : underline? s = some r) : r <:+ s := by
  unfold underline? at h
  split at h
  · split at h
    · exact (lineEnd?_suffix h).trans ((List.dropWhile_suffix _).trans (List.dropWhile_suffix _))
    · cases h
  · cases h

theorem fence?_append (s : List Char) {t : List Char} (ht : Ends t) (hq : '`' ∉ lineWithEnd t) :
    fence? (s ++ t) = fence? s := by
  have hline (r : List Char) : (lineWithEnd (r ++ t)).contains '`' = (lineWithEnd r).contains '`' := by
    by_cases hr : '\n' ∈ r
    · rw [lineWithEnd_append hr]
    · have := lineWithEnd_of_not_mem hr []
      simp only [List.append_nil, lineWithEnd] at this
      rw [lineWithEnd_of_not_mem hr, this, Bool.eq_iff_iff]
      simp [hq]
  cases s with
  | nil =>
    cases t with
    | nil => rfl
    | cons c t => rcases isLineBreak_iff.1 (ends_cons.1 ht) with rfl | rfl <;> simp [fence?]
  | cons c s =>
    by_cases hc : c = '`' ∨ c = '~'
    · have hb : ∀ d, isLineBreak d = true → decide (d = c) = false := by
        intro d hd
        rcases isLineBreak_iff.1 hd with rfl | rfl <;> rcases hc with rfl | rfl <;> rfl
      have hl := takeWhile_append_ends (c :: s) ht hb
      have hd : (c :: s ++ t).drop ((c :: s).takeWhile (· = c)).length =
          (c :: s).drop ((c :: s).takeWhile (· = c)).length ++ t :=
        List.drop_append_of_le_length (List.takeWhile_prefix _).length_le
      simp only [List.cons_append] at hl hd
      simp only [fence?, List.cons_append, hl, hd, hline]
    · simp_all [fence?]

theorem fence?_eq_some {s : List Char} {c : Char} {n : Nat} (h : fence? s = some (c, n)) :
    (c = '`' ∨ c = '~') ∧ 3 ≤ n ∧ n = (s.takeWhile (· = c)).length := by
  unfold fence? at h
  split at h
  · simp only at h
    split at h
    · rename_i hf
      cases h
      simp only [Bool.and_eq_true, Bool.or_eq_true, decide_eq_true_eq] at hf
      exact ⟨hf.1.1, hf.1.2, rfl⟩
    · cases h
  · cases h

theorem itemMark?_append (s : List Char) {t : List Char} (ht : Ends t) :
    itemMark? (s ++ t) = itemMark? s := by
  have hdigit : ∀ c, isLineBreak c = true → c.isDigit = false := by
    intro c hc; rcases isLineBreak_iff.1 hc with rfl | rfl <;> rfl
  cases s with
  | nil =>
    cases t with
    | nil => rfl
    | cons c t =>
      have hc := ends_cons.1 ht
      have : c ≠ '-' ∧ c ≠ '+' ∧ c ≠ '*' := by
        rcases isLineBreak_iff.1 hc with rfl | rfl <;> decide
      simp [itemMark?, hdigit c hc, this]
  | cons c s =>
    have htake : ((c :: s ++ t).take 9).takeWhile Char.isDigit =
        ((c :: s).take 9).takeWhile Char.isDigit := by
      rw [List.take_append]
      refine takeWhile_append_ends _ (fun d hd => ht d ?_) hdigit
      rw [List.head?_take] at hd
      split at hd <;> simp_all
    have hle : (((c :: s).take 9).takeWhile Char.isDigit).length ≤ (c :: s).length :=
      (List.takeWhile_prefix _).length_le.trans (List.length_take_le' _ _)
    have hd : (c :: s ++ t).drop (((c :: s).take 9).takeWhile Char.isDigit).length =
        (c :: s).drop (((c :: s).take 9).takeWhile Char.isDigit).length ++ t :=
      List.drop_append_of_le_length hle
    simp only [List.cons_append] at htake hd
    simp only [itemMark?, List.cons_append, htake, hd]
    split
    · rfl
    · rcases ((c :: s).take 9).takeWhile Char.isDigit with _ | ⟨d, ds⟩
      · rfl
      · rcases hr : (c :: s).drop (d :: ds).length with _ | ⟨e, r⟩
        · cases t with
          | nil => rfl
          | cons e t =>
            rcases isLineBreak_iff.1 (ends_cons.1 ht) with rfl | rfl <;> simp
        · rfl

theorem itemMark?_length {s : List Char} {number : Option Nat} {n : Nat}
    (h : itemMark? s = some (number, n)) : 0 < n ∧ n ≤ s.length ∧ Single (s.take n) := by
  unfold itemMark? at h
  split at h
  · rename_i c s
    split at h
    · rename_i hc
      simp only [Option.some.injEq, Prod.mk.injEq] at h
      obtain ⟨rfl, rfl⟩ := h
      refine ⟨by omega, by simp, ?_⟩
      intro d hd
      simp only [List.take_succ_cons, List.take_zero, List.mem_singleton] at hd
      subst hd
      simp only [Bool.or_eq_true, decide_eq_true_eq] at hc
      rcases hc with (rfl | rfl) | rfl <;> rfl
    · simp only at h
      split at h
      · rename_i d ds e r hds hr
        split at h
        · rename_i he
          simp only [Option.some.injEq, Prod.mk.injEq] at h
          obtain ⟨-, rfl⟩ := h
          have hpre : ((c :: s).take 9).takeWhile Char.isDigit <+: c :: s :=
            (List.takeWhile_prefix _).trans (List.take_prefix 9 _)
          have hlt : (((c :: s).take 9).takeWhile Char.isDigit).length < (c :: s).length := by
            by_contra hn
            rw [List.drop_eq_nil_of_le (by omega)] at hr
            cases hr
          refine ⟨by omega, hlt, ?_⟩
          intro x hx
          rw [List.take_add_one, List.mem_append, ← List.prefix_iff_eq_take.1 hpre] at hx
          rcases hx with hx | hx
          · have := List.mem_takeWhile_imp hx
            by_contra hb
            rcases isLineBreak_iff.1 (by simpa using hb) with rfl | rfl <;> simp at this
          · rw [← List.head?_drop, hr] at hx
            simp only [List.head?_cons, Option.toList_some, List.mem_singleton] at hx
            subst hx
            simp only [Bool.or_eq_true, decide_eq_true_eq] at he
            rcases he with rfl | rfl <;> rfl
        · cases h
      · cases h
  · cases h

/-! ### Line starts -/

theorem afterLine_suffix (s : List Char) : afterLine s <:+ s := by
  induction s with
  | nil => exact List.suffix_rfl
  | cons c s ih =>
    simp only [afterLine]
    split
    · exact List.suffix_cons c s
    · exact ih.trans (List.suffix_cons c s)

theorem afterLine_later {s : List Char} (h : s ≠ []) : Later (afterLine s) s := by
  obtain ⟨c, s, rfl⟩ := List.exists_cons_of_ne_nil h
  simp only [afterLine]
  split
  · exact later_cons c s
  · exact (later_cons c s).of_suffix (afterLine_suffix s)

/-- A place in `s` at the start of a line, or before nothing but the blank end of one. -/
def Lined (s r : List Char) : Prop :=
  (∃ p c, isLineBreak c = true ∧ s = p ++ c :: r) ∨ (blankLine? r).isSome = true

theorem Lined.suffix {s s' r : List Char} (h : Lined s r) (hs : s <:+ s') : Lined s' r := by
  obtain ⟨q, rfl⟩ := hs
  refine h.imp (fun ⟨p, c, hc, h⟩ => ⟨q ++ p, c, hc, ?_⟩) id
  rw [h, List.append_assoc]

theorem lined_nil (s : List Char) : Lined s [] := .inr rfl

theorem lined_lineEnd? {s r : List Char} (h : lineEnd? s = some r) : Lined s r := by
  unfold lineEnd? at h
  split at h
  · cases h; exact lined_nil _
  · cases h; exact .inl ⟨[], '\n', rfl, rfl⟩
  · cases h; exact .inl ⟨['\r'], '\n', rfl, rfl⟩
  · cases h; exact .inl ⟨[], '\r', rfl, rfl⟩
  · cases h

theorem lined_blankLine? {s r : List Char} (h : blankLine? s = some r) : Lined s r :=
  (lined_lineEnd? h).suffix (List.dropWhile_suffix _)

theorem lined_afterLine (s : List Char) : Lined s (afterLine s) := by
  induction s with
  | nil => exact lined_nil _
  | cons c s ih =>
    simp only [afterLine]
    split
    · rename_i hc
      exact .inl ⟨[], c, by rw [hc]; rfl, rfl⟩
    · exact ih.suffix (List.suffix_cons c s)

theorem lined_afterBreak (s : List Char) : Lined s (afterBreak s) := by
  have h := lineEnd?_of_ends (ends_dropWhile s)
  rw [afterBreak, h]
  exact (lined_lineEnd? h).suffix (List.dropWhile_suffix _)

/-- What a block leaves of a text. -/
structure Left (s r : List Char) : Prop where
  later : Later r s
  lined : Lined s r

theorem Left.suffix {s s' r : List Char} (h : Left s r) (hs : s <:+ s') : Left s' r :=
  ⟨h.later.suffix hs, h.lined.suffix hs⟩

theorem left_afterLine {s : List Char} (h : s ≠ []) : Left s (afterLine s) :=
  ⟨afterLine_later h, lined_afterLine s⟩

theorem left_blankLine? {s r : List Char} (hs : s ≠ []) (h : blankLine? s = some r) : Left s r :=
  ⟨blankLine?_later hs h, lined_blankLine? h⟩

end Notebook.Markdown
