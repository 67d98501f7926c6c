import Notebook.Markdown.Html
import Notebook.Proofs.Markdown.Line

/-!
Whether a line starts a block of HTML does not depend on the text after it.
-/

namespace Notebook.Markdown

variable {t : List Char}

theorem single_of_all {s : List Char} (h : (s.all fun c => !isLineBreak c) = true) : Single s := by
  simpa [Single] using h

theorem hasPrefix_append {p : List Char} (hp : Single p) (s : List Char) (ht : Ends t) :
    Text.hasPrefix p (s ++ t) = Text.hasPrefix p s := by
  induction p generalizing s with
  | nil => simp [Text.hasPrefix, Text.dropPrefix?]
  | cons a p ih =>
    cases s with
    | cons c s =>
      by_cases h : a = c
      · subst h
        simpa [Text.hasPrefix, Text.dropPrefix?] using ih (fun d hd => hp d (by simp [hd])) s
      · simp [Text.hasPrefix, Text.dropPrefix?, h]
    | nil =>
      cases t with
      | nil => rfl
      | cons c t =>
        have : a ≠ c := by
          rintro rfl
          have := hp a (by simp)
          simp [ends_cons.1 ht] at this
        simp [Text.hasPrefix, Text.dropPrefix?, this]

theorem toLower_of_break {c : Char} (h : isLineBreak c = true) : c.toLower = c := by
  rcases isLineBreak_iff.1 h with rfl | rfl <;> rfl

theorem length_of_startsWithWord {w : String} {s : List Char} (h : startsWithWord w s = true) :
    w.length ≤ s.length := by
  simp only [startsWithWord, decide_eq_true_eq] at h
  have := congrArg List.length h
  simp only [List.length_map, List.length_take, String.length_toList] at this
  omega

theorem startsWithWord_append {w : String} (hw : Single w.toList) (s : List Char) (ht : Ends t) :
    startsWithWord w (s ++ t) = startsWithWord w s := by
  by_cases hle : w.length ≤ s.length
  · rw [startsWithWord, List.take_append_of_le_length hle]; rfl
  · have h1 : startsWithWord w s = false := by
      rw [Bool.eq_false_iff]
      exact fun h => hle (length_of_startsWithWord h)
    rw [h1, Bool.eq_false_iff]
    intro h
    cases t with
    | nil => simp [h1] at h
    | cons c t =>
      -- The word would have to reach over the line break.
      have hc : c ∈ (s ++ c :: t).take w.length := by
        obtain ⟨n, hn⟩ : ∃ n, w.length - s.length = n + 1 := ⟨w.length - s.length - 1, by omega⟩
        rw [List.take_append, List.mem_append, hn]
        simp
      have hm := List.mem_map_of_mem (f := Char.toLower) hc
      rw [startsWithWord, decide_eq_true_eq] at h
      rw [h, toLower_of_break (ends_cons.1 ht)] at hm
      simp [hw c hm, ends_cons] at ht

theorem nameEnds_append (s : List Char) (ht : Ends t) : nameEnds (s ++ t) = nameEnds s := by
  cases s with
  | cons c s => rfl
  | nil =>
    cases t with
    | nil => rfl
    | cons c t => rcases isLineBreak_iff.1 (ends_cons.1 ht) with rfl | rfl <;> rfl

theorem startsTag_append {w : String} (hw : Single w.toList) (s : List Char) (ht : Ends t) :
    startsTag w (s ++ t) = startsTag w s := by
  rw [startsTag, startsTag, startsWithWord_append hw s ht]
  cases h : startsWithWord w s with
  | false => rfl
  | true =>
    rw [List.drop_append_of_le_length (length_of_startsWithWord h), nameEnds_append _ ht]

theorem startsDeclaration_append (s : List Char) (ht : Ends t) :
    startsDeclaration (s ++ t) = startsDeclaration s := by
  have hb (c : Char) (hc : isLineBreak c = true) : c.isAlpha = false ∧ c ≠ '!' := by
    rcases isLineBreak_iff.1 hc with rfl | rfl <;> decide
  rcases s with _ | ⟨c, _ | ⟨d, s⟩⟩
  · cases t with
    | nil => rfl
    | cons c t => simp [startsDeclaration, (hb c (ends_cons.1 ht)).2]
  · cases t with
    | nil => rfl
    | cons d t =>
      by_cases hc : c = '!' <;> simp [startsDeclaration, hc, (hb d (ends_cons.1 ht)).1]
  · by_cases hc : c = '!' <;> simp [startsDeclaration, hc]

theorem endMark?_append (s : List Char) (ht : Ends t) : endMark? (s ++ t) = endMark? s := by
  simp only [endMark?, startsTag_append (single_of_all (s := "pre".toList) rfl) s ht,
    startsTag_append (single_of_all (s := "style".toList) rfl) s ht,
    startsTag_append (single_of_all (s := "script".toList) rfl) s ht,
    startsTag_append (single_of_all (s := "textarea".toList) rfl) s ht,
    hasPrefix_append (single_of_all (s := "!--".toList) rfl) s ht,
    hasPrefix_append (single_of_all (s := ['?']) rfl) s ht,
    hasPrefix_append (single_of_all (s := "![CDATA[".toList) rfl) s ht,
    startsDeclaration_append s ht]

theorem elementEnds_append (s : List Char) (ht : Ends t) :
    elementEnds (s ++ t) = elementEnds s := by
  rcases s with _ | ⟨c, _ | ⟨d, s⟩⟩
  · cases t with
    | nil => rfl
    | cons c t => rcases isLineBreak_iff.1 (ends_cons.1 ht) with rfl | rfl <;> simp [elementEnds]
  · cases t with
    | nil => rfl
    | cons d t =>
      have hd : d ≠ '>' := by rcases isLineBreak_iff.1 (ends_cons.1 ht) with rfl | rfl <;> decide
      by_cases hc : c = '/' <;> simp [elementEnds, hc, hd]
  · by_cases hc : c = '/' <;> by_cases hd : d = '>' <;> simp [elementEnds, hc, hd]

theorem withoutSlash_append (s : List Char) (ht : Ends t) :
    withoutSlash (s ++ t) = withoutSlash s ++ t := by
  cases s with
  | nil =>
    cases t with
    | nil => rfl
    | cons c t => rcases isLineBreak_iff.1 (ends_cons.1 ht) with rfl | rfl <;> simp [withoutSlash]
  | cons c s => by_cases hc : c = '/' <;> simp [withoutSlash, hc]

theorem isAlphanum_of_break {c : Char} (h : isLineBreak c = true) : c.isAlphanum = false := by
  rcases isLineBreak_iff.1 h with rfl | rfl <;> rfl

theorem startsBlockElement_append (s : List Char) (ht : Ends t) :
    startsBlockElement (s ++ t) = startsBlockElement s := by
  simp only [startsBlockElement, withoutSlash_append s ht,
    takeWhile_append_ends _ ht fun c => isAlphanum_of_break,
    List.drop_append_of_le_length (List.takeWhile_prefix _).length_le, elementEnds_append _ ht]

theorem startsHtml_append (s : List Char) (ht : Ends t) : startsHtml (s ++ t) = startsHtml s := by
  cases s with
  | nil =>
    cases t with
    | nil => rfl
    | cons c t => rcases isLineBreak_iff.1 (ends_cons.1 ht) with rfl | rfl <;> simp [startsHtml]
  | cons c s =>
    by_cases hc : c = '<'
    · subst hc
      simp only [List.cons_append, startsHtml, endMark?_append s ht, startsBlockElement_append s ht]
    · simp [startsHtml, hc]

/-! ### Whole tags on a line -/

theorem attributeName?_append (s : List Char) (ht : Ends t) :
    attributeName? (s ++ t) = (attributeName? s).map (· ++ t) := by
  cases s with
  | nil =>
    cases t with
    | nil => rfl
    | cons c t => rcases isLineBreak_iff.1 (ends_cons.1 ht) with rfl | rfl <;> rfl
  | cons c s =>
    simp only [attributeName?, List.cons_append]
    rw [dropWhile_append_ends s ht fun c hc => by
      rcases isLineBreak_iff.1 hc with rfl | rfl <;> rfl]
    split <;> rfl

theorem quotedValue?_append {quote : Char} (hq : isLineBreak quote = false) (s : List Char)
    (ht : Ends t) : quotedValue? quote (s ++ t) = (quotedValue? quote s).map (· ++ t) := by
  simp only [quotedValue?]
  rw [dropWhile_append_ends s ht (by intro c hc; simp [hc])]
  cases s.dropWhile fun c => decide (c ≠ quote) && !isLineBreak c with
  | cons c s =>
    by_cases hc : c = quote <;> simp [hc]
  | nil =>
    cases t with
    | nil => rfl
    | cons c t =>
      have : c ≠ quote := by rintro rfl; simp [ends_cons.1 ht] at hq
      simp [this]

theorem attributeValue?_append (s : List Char) (ht : Ends t) :
    attributeValue? (s ++ t) = (attributeValue? s).map (· ++ t) := by
  have hv : ∀ c, isLineBreak c = true → isValueChar c = false := by
    intro c hc; rcases isLineBreak_iff.1 hc with rfl | rfl <;> rfl
  cases s with
  | nil =>
    cases t with
    | nil => rfl
    | cons c t =>
      rcases isLineBreak_iff.1 (ends_cons.1 ht) with rfl | rfl <;> rfl
  | cons c s =>
    have hd := dropWhile_append_ends (c :: s) ht hv
    by_cases h1 : c = '"'
    · subst h1; exact quotedValue?_append rfl s ht
    · by_cases h2 : c = '\''
      · subst h2; exact quotedValue?_append rfl s ht
      · simp only [List.cons_append] at hd
        simp only [attributeValue?, List.cons_append, hd]
        split <;> rfl

/-- Blanks up to the end of the line are told apart from those up to the end of the text. -/
theorem onLine?_append (s : List Char) (ht : Ends t) :
    onLine? (s ++ t) = (onLine? s).map (· ++ t) ∨
      onLine? (s ++ t) = none ∧ s.dropWhile isInlineBlank = [] := by
  simp only [onLine?, dropWhile_append_ends s ht fun c => isInlineBlank_of_break]
  cases h : s.dropWhile isInlineBlank with
  | nil =>
    cases t with
    | nil => left; simp [lineEnd?]
    | cons c t =>
      right
      simp [lineEnd?_of_ends ht]
  | cons c r =>
    left
    have := isSome_lineEnd?_append (c :: r) ht
    simp only [List.cons_append] at this
    simp only [this, List.isEmpty_cons, List.cons_append]
    split <;> simp

theorem attribute?_append (s : List Char) (ht : Ends t) :
    attribute? (s ++ t) = (attribute? s).map (· ++ t) ∨
      attribute? (s ++ t) = none ∧ ∀ r ∈ attribute? s, r.dropWhile isInlineBlank = [] := by
  simp only [attribute?, attributeName?_append s ht]
  cases attributeName? s with
  | none => left; rfl
  | some named =>
    simp only [Option.map_some, Option.bind_eq_bind, Option.bind_some]
    rcases onLine?_append named ht with h | ⟨h, hn⟩
    · rw [h]
      cases onLine? named with
      | none => left; rfl
      | some r =>
        simp only [Option.map_some, Option.bind_some]
        cases r with
        | nil =>
          cases t with
          | nil => left; simp
          | cons c t =>
            left
            rcases isLineBreak_iff.1 (ends_cons.1 ht) with rfl | rfl <;> simp
        | cons c r =>
          by_cases hc : c = '='
          · subst hc
            simp only [List.cons_append]
            rcases onLine?_append r ht with hr | ⟨hr, hn⟩
            · left
              rw [hr]
              cases onLine? r with
              | none => rfl
              | some q => exact attributeValue?_append q ht
            · left
              have : onLine? r = some [] := by simp [onLine?, hn, lineEnd?]
              rw [hr, this]
              rfl
          · left
            simp [hc]
    · right
      have : onLine? named = some [] := by simp [onLine?, hn, lineEnd?]
      rw [h, this]
      exact ⟨rfl, fun r hr => by cases hr; exact hn⟩

theorem attributes?_of_blank {s : List Char} (h : s.dropWhile isInlineBlank = []) :
    attributes? s = none := by
  rw [attributes?, h]

theorem attributes?_append (s : List Char) (ht : Ends t) :
    attributes? (s ++ t) = (attributes? s).map (· ++ t) := by
  induction hn : s.length using Nat.strong_induction_on generalizing s with
  | _ n ih =>
    rw [attributes?, attributes?, dropWhile_append_ends s ht fun c => isInlineBlank_of_break]
    cases s.dropWhile isInlineBlank with
    | nil =>
      cases t with
      | nil => rfl
      | cons c t => simp [ends_cons.1 ht]
    | cons c q =>
      simp only [List.cons_append, List.length_cons, List.length_append]
      by_cases hc : isLineBreak c = true
      · simp [hc]
      · by_cases he : (c = '/' || c = '>') = true
        · simp [hc, he]
        · have hlen : q.length + t.length + 1 = s.length + t.length ↔ q.length + 1 = s.length := by
            omega
          simp only [hc, he, hlen]
          by_cases hq : q.length + 1 = s.length
          · simp [hq]
          · simp only [hq]
            rcases attribute?_append (c :: q) ht with h | ⟨h, hr⟩
            · rw [← List.cons_append, h]
              cases attribute? (c :: q) with
              | none => simp
              | some r =>
                by_cases hlt : r.length < s.length
                · simp [hlt, ih r.length (by omega) r rfl]
                · simp [hlt]
            · rw [← List.cons_append, h]
              cases hq : attribute? (c :: q) with
              | none => simp
              | some r => simp [attributes?_of_blank (hr r hq)]

theorem tagEnds_append (s : List Char) (ht : Ends t) : tagEnds (s ++ t) = tagEnds s := by
  cases s with
  | nil =>
    cases t with
    | nil => rfl
    | cons c t => rcases isLineBreak_iff.1 (ends_cons.1 ht) with rfl | rfl <;> rfl
  | cons c s =>
    by_cases hc : c = '>'
    · subst hc; exact isSome_blankLine?_append s ht
    · simp [tagEnds, hc]

theorem isTagLine_append (s : List Char) (ht : Ends t) : isTagLine (s ++ t) = isTagLine s := by
  have halpha : ∀ c, isLineBreak c = true → c.isAlpha = false := by
    intro c hc; rcases isLineBreak_iff.1 hc with rfl | rfl <;> rfl
  have hname : ∀ c, isLineBreak c = true → (c.isAlphanum || decide (c = '-')) = false := by
    intro c hc; rcases isLineBreak_iff.1 hc with rfl | rfl <;> rfl
  have hcloses : ((s ++ t).head? = some '/') = (s.head? = some '/') := by
    cases s with
    | cons c s => rfl
    | nil =>
      cases t with
      | nil => rfl
      | cons c t => rcases isLineBreak_iff.1 (ends_cons.1 ht) with rfl | rfl <;> simp
  simp only [isTagLine, hcloses, withoutSlash_append s ht, takeWhile_append_ends _ ht halpha,
    List.drop_append_of_le_length (List.takeWhile_prefix _).length_le,
    dropWhile_append_ends _ ht hname]
  split
  · rfl
  · by_cases hs : s.head? = some '/'
    · simp only [hs, if_true, dropWhile_append_ends _ ht fun c => isInlineBlank_of_break]
      exact tagEnds_append _ ht
    · simp only [hs, if_false, attributes?_append _ ht]
      cases attributes? _ with
      | none => rfl
      | some r =>
        simp only [Option.map_some, dropWhile_append_ends r ht fun c => isInlineBlank_of_break,
          withoutSlash_append _ ht]
        exact tagEnds_append _ ht

end Notebook.Markdown
