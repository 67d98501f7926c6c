import Notebook.Proofs.Document.Fenced
import Notebook.Proofs.Text.Split

/-!
A cell of code and the block that it is written as. Reading the block gives the cell again unless
the marks of its result are found elsewhere in it.
-/

namespace Notebook

open Markdown

namespace Cell

/-- The text in the block of an evaluated cell. -/
def evaluatedBody (source output report : List Char) : List Char :=
  source ++ resultMark ++ output ++ reportMark ++ report ++ endMark

/-- The text in the block of a cell. -/
def body? : Cell → Option (List Char)
  | markup _ => none
  | code s => some s
  | evaluated s o r => some (evaluatedBody s o r)

/-- The cell that is read where a cell was written. -/
def reread (c : Cell) : Cell :=
  match c.body? with
  | some body => ofBlock (lineFeeds (body ++ ['\n']))
  | none => c

/-- The mark of a result stands first where the result does, and that of a report last. -/
def Marked : Cell → Prop
  | markup _ => True
  | code s => ¬ resultMark <:+: s
  | evaluated s _ r => ¬ resultMark <:+: (s ++ resultMark).dropLast ∧
      ¬ reportMark <:+: (reportMark ++ r).tail

/-- The report does not end with the mark of one, but for the line end that stands after it. -/
def Reported : Cell → Prop
  | evaluated _ _ r => ¬ reportMark.dropLast <:+ reportMark ++ r
  | _ => True

theorem toMarkdown_of_body {c : Cell} {body : List Char} (h : c.body? = some body) :
    c.toMarkdown = fenced body := by
  cases c with
  | markup t => cases h
  | code s => cases h; rfl
  | evaluated s o r => cases h; rfl

theorem body?_isSome (c : Cell) : c.body?.isSome = c.isCode := by
  cases c <;> rfl

theorem reread_of_body {c : Cell} {body : List Char} (h : c.body? = some body) :
    c.reread = ofBlock (lineFeeds (body ++ ['\n'])) := by
  rw [reread, h]

/-! ### Marks -/

theorem resultMark_ne_nil : resultMark ≠ [] := by decide

theorem reportMark_ne_nil : reportMark ≠ [] := by decide

theorem overlap_of_take_drop {p : List Char} {c : Char}
    (h : ∀ i ≤ p.length, ∀ j ≤ p.length, p.drop i = p.take j →
      p.take j = [] ∨ p.take j = [c] ∨ p.take j = p) {v : List Char} (hs : v <:+ p) (hp : v <+: p) :
    v = [] ∨ v = [c] ∨ v = p := by
  have hs' := List.suffix_iff_eq_drop.1 hs
  have hp' := List.prefix_iff_eq_take.1 hp
  have := h (p.length - v.length) (Nat.sub_le _ _) v.length hp.length_le (hs' ▸ hp')
  rwa [← hp'] at this

theorem resultMark_overlap {v : List Char} (hs : v <:+ resultMark) (hp : v <+: resultMark) :
    v = [] ∨ v = ['\n'] ∨ v = resultMark :=
  overlap_of_take_drop (by decide +kernel) hs hp

theorem reportMark_overlap {v : List Char} (hs : v <:+ reportMark) (hp : v <+: reportMark) :
    v = [] ∨ v = ['\n'] ∨ v = reportMark :=
  overlap_of_take_drop (by decide +kernel) hs hp

/-- Before its result the source makes a mark of one only if it ends with all of it but the line
end. -/
theorem resultMark_first {s : List Char} (h : ¬ resultMark <:+: s) :
    ¬ resultMark <:+: (s ++ resultMark).dropLast ↔ ¬ resultMark.dropLast <:+ s := by
  rw [List.dropLast_append_of_ne_nil resultMark_ne_nil, not_iff_not]
  constructor
  · intro hi
    exact (Text.infix_of_overlap hi (fun v => resultMark_overlap) (List.dropLast_prefix _)
      (by decide)).resolve_left h
  · rintro ⟨a, rfl⟩
    exact ⟨a, resultMark.dropLast.tail, by rw [List.append_assoc, List.append_assoc]; rfl⟩

/-- With the end of the comments after it, the report has a later mark of one only if it ends with
all of it but the line end. -/
theorem reportMark_last {r : List Char} (h : ¬ reportMark <:+: (reportMark ++ r).tail) :
    ¬ reportMark <:+: (reportMark ++ (r ++ endMark)).tail ↔
      ¬ reportMark.dropLast <:+ reportMark ++ r := by
  have htail (t : List Char) : (reportMark ++ t).tail = reportMark.tail ++ t := rfl
  have hsuf : reportMark.dropLast <:+ reportMark ++ r ↔
      reportMark.dropLast <:+ reportMark.tail ++ r := by
    refine ⟨fun hs => ?_, fun hs => hs.trans (List.suffix_cons '\n' _)⟩
    refine List.suffix_of_suffix_length_le hs (List.suffix_cons '\n' _) ?_
    simp only [List.length_dropLast, List.length_append, List.length_tail]
    omega
  rw [htail] at h
  rw [htail, ← List.append_assoc, not_iff_not, hsuf]
  constructor
  · intro hi
    exact (Text.infix_of_overlap hi (fun v => reportMark_overlap) (by decide) (by decide)).resolve_left h
  · rintro ⟨a, ha⟩
    exact ⟨a, endMark.tail, by rw [← ha, List.append_assoc, List.append_assoc]; rfl⟩

theorem withoutEnd_append (r : List Char) : withoutEnd (r ++ endMark) = r := by
  rw [withoutEnd, Text.dropSuffix?_eq_some.2 rfl]
  rfl

theorem withoutEnd_cases (t : List Char) : t = withoutEnd t ++ endMark ∨ t = withoutEnd t := by
  rw [withoutEnd]
  cases h : Text.dropSuffix? endMark t with
  | some r => exact .inl (Text.dropSuffix?_eq_some.1 h)
  | none => exact .inr rfl

/-! ### Reading a block -/

/-- The cell of a text that a block has before its last line end. -/
def ofText (t : List Char) : Cell :=
  match Text.splitFirst? resultMark t with
  | none => .code t
  | some (source, rest) =>
    match Text.splitLast? reportMark rest with
    | some (output, report) => .evaluated source output (withoutEnd report)
    | none => .evaluated source (withoutEnd rest) []

theorem ofBlock_eq (code : List Char) :
    ofBlock code = ofText ((Text.dropSuffix? ['\n'] code).getD code) := rfl

theorem ofBlock_feed (t : List Char) : ofBlock (t ++ ['\n']) = ofText t := by
  rw [ofBlock_eq, Text.dropSuffix?_eq_some.2 rfl]
  rfl

theorem ofText_code {t : List Char} (h : ¬ resultMark <:+: t) : ofText t = .code t := by
  rw [ofText, Text.splitFirst?_eq_none.2 h]

theorem ofText_reported {s o tail : List Char} (h : ¬ resultMark <:+: (s ++ resultMark).dropLast)
    (ht : ¬ reportMark <:+: (reportMark ++ tail).tail) :
    ofText (s ++ resultMark ++ (o ++ reportMark ++ tail)) = .evaluated s o (withoutEnd tail) := by
  have hlast : Text.splitLast? reportMark (o ++ reportMark ++ tail) = some (o, tail) :=
    (Text.splitLast?_eq_some reportMark_ne_nil).2 ⟨rfl, ht⟩
  rw [ofText, Text.splitFirst?_append h resultMark_ne_nil]
  simp only [hlast]

theorem ofText_unreported {s rest : List Char} (h : ¬ resultMark <:+: (s ++ resultMark).dropLast)
    (hr : ¬ reportMark <:+: rest) :
    ofText (s ++ resultMark ++ rest) = .evaluated s (withoutEnd rest) [] := by
  rw [ofText, Text.splitFirst?_append h resultMark_ne_nil]
  simp only [Text.splitLast?_eq_none.2 hr]

/-- What a block may be. -/
theorem ofText_cases (t : List Char) :
    (¬ resultMark <:+: t ∧ ofText t = .code t) ∨
      ∃ s rest, t = s ++ resultMark ++ rest ∧ ¬ resultMark <:+: (s ++ resultMark).dropLast ∧
        ((∃ o tail, rest = o ++ reportMark ++ tail ∧ ¬ reportMark <:+: (reportMark ++ tail).tail ∧
            ofText t = .evaluated s o (withoutEnd tail)) ∨
          (¬ reportMark <:+: rest ∧ ofText t = .evaluated s (withoutEnd rest) [])) := by
  cases hf : Text.splitFirst? resultMark t with
  | none =>
    have h := Text.splitFirst?_eq_none.1 hf
    exact .inl ⟨h, ofText_code h⟩
  | some p =>
    obtain ⟨s, rest⟩ := p
    obtain ⟨rfl, h⟩ := (Text.splitFirst?_eq_some resultMark_ne_nil).1 hf
    refine .inr ⟨s, rest, rfl, h, ?_⟩
    cases hl : Text.splitLast? reportMark rest with
    | some q =>
      obtain ⟨o, tail⟩ := q
      obtain ⟨rfl, ht⟩ := (Text.splitLast?_eq_some reportMark_ne_nil).1 hl
      exact .inl ⟨o, tail, rfl, ht, ofText_reported h ht⟩
    | none =>
      have hr := Text.splitLast?_eq_none.1 hl
      exact .inr ⟨hr, ofText_unreported h hr⟩

theorem not_reportMark_tail : ¬ reportMark <:+: (reportMark ++ []).tail := by
  intro h
  exact absurd h.length_le (by decide)

theorem ofText_marked (t : List Char) : (ofText t).Marked := by
  rcases ofText_cases t with ⟨h, ht⟩ | ⟨s, rest, -, h, ⟨o, tail, -, hr, ht⟩ | ⟨-, ht⟩⟩
  · rw [ht]
    exact h
  · rw [ht]
    refine ⟨h, fun hi => hr (hi.trans ?_)⟩
    rcases withoutEnd_cases tail with he | he
    · nth_rewrite 2 [he]
      rw [← List.append_assoc, List.tail_append_of_ne_nil (by simp [reportMark_ne_nil])]
      exact (List.prefix_append _ _).isInfix
    · rw [← he]
  · rw [ht]
    exact ⟨h, not_reportMark_tail⟩

/-- The cell of a block has its marks where it would be written with them. -/
theorem ofBlock_marked (code : List Char) : (ofBlock code).Marked := ofText_marked _

theorem ofText_isCode (t : List Char) : (ofText t).isCode = true := by
  rcases ofText_cases t with ⟨-, h⟩ | ⟨s, rest, -, -, ⟨o, tail, -, -, h⟩ | ⟨-, h⟩⟩ <;> rw [h] <;> rfl

theorem ofBlock_isCode (code : List Char) : (ofBlock code).isCode = true := ofText_isCode _

/-! ### Reading a written cell -/

theorem evaluatedBody_eq (s o r : List Char) : evaluatedBody s o r =
    s ++ resultMark ++ (o ++ reportMark ++ (r ++ endMark)) := by
  simp [evaluatedBody]

theorem ofText_eq_code_iff {t : List Char} : ofText t = .code t ↔ ¬ resultMark <:+: t := by
  constructor
  · intro h
    rcases ofText_cases t with ⟨hno, -⟩ | ⟨s, rest, -, -, ⟨o, tail, -, -, ht⟩ | ⟨-, ht⟩⟩
    · exact hno
    · rw [ht] at h
      cases h
    · rw [ht] at h
      cases h
  · exact ofText_code

/-- The body of an evaluated cell is split where its parts meet if and only if no mark of a result
comes earlier and no mark of a report later. -/
theorem ofText_evaluatedBody_iff {s o r : List Char} :
    ofText (evaluatedBody s o r) = .evaluated s o r ↔
      ¬ resultMark <:+: (s ++ resultMark).dropLast ∧
      ¬ reportMark <:+: (reportMark ++ (r ++ endMark)).tail := by
  rw [evaluatedBody_eq]
  constructor
  · intro h
    rcases ofText_cases (s ++ resultMark ++ (o ++ reportMark ++ (r ++ endMark))) with
      ⟨-, ht⟩ | ⟨s', rest, heq, hfirst, ⟨o', tail, hrest, hlast, ht⟩ | ⟨hnone, ht⟩⟩
    · rw [ht] at h
      cases h
    · rw [ht] at h
      obtain ⟨rfl, rfl, -⟩ := Cell.evaluated.inj h
      rw [List.append_cancel_left_eq, hrest, List.append_cancel_left_eq] at heq
      rw [heq]
      exact ⟨hfirst, hlast⟩
    · rw [ht] at h
      obtain ⟨rfl, -, -⟩ := Cell.evaluated.inj h
      rw [List.append_cancel_left_eq] at heq
      exact absurd ⟨o, r ++ endMark, heq⟩ hnone
  · rintro ⟨hfirst, hlast⟩
    rw [ofText_reported hfirst hlast, withoutEnd_append]

/-- Reading the body of a cell gives the cell if its report ends where it should. -/
theorem ofText_body {c : Cell} {body : List Char} (hc : c.Marked) (hb : c.body? = some body)
    (hr : c.Reported) : ofText body = c := by
  cases c with
  | markup t => cases hb
  | code s =>
    cases hb
    exact ofText_code hc
  | evaluated s o r =>
    cases hb
    exact ofText_evaluatedBody_iff.2 ⟨hc.1, (reportMark_last hc.2).2 hr⟩

/-- A text that is read as a cell is the body of the cell, or it lacks some of its end. -/
theorem body_of_ofText {c : Cell} {t body : List Char} (h : ofText t = c)
    (hb : c.body? = some body) : ∃ u, body = t ++ u ∧ ∀ ch ∈ u, ch ≠ '\r' := by
  have hcr : ∀ ch ∈ reportMark ++ endMark, ch ≠ '\r' := by
    rintro ch hch rfl
    exact absurd hch (by decide)
  have hend : ∀ ch ∈ endMark, ch ≠ '\r' := fun ch hch =>
    hcr ch (List.mem_append_right reportMark hch)
  rcases ofText_cases t with ⟨-, ht⟩ | ⟨s, rest, rfl, -, ⟨o, tail, rfl, -, ht⟩ | ⟨-, ht⟩⟩
  · rw [ht] at h
    subst h
    cases hb
    exact ⟨[], by simp, by simp⟩
  · rw [ht] at h
    subst h
    cases hb
    rw [evaluatedBody_eq]
    rcases withoutEnd_cases tail with he | he
    · exact ⟨[], by rw [← he]; simp, by simp⟩
    · exact ⟨endMark, by rw [← he]; simp, hend⟩
  · rw [ht] at h
    subst h
    cases hb
    rw [evaluatedBody_eq]
    rcases withoutEnd_cases rest with he | he
    · refine ⟨reportMark.drop 3 ++ endMark, ?_, fun ch hch => hcr ch ?_⟩
      · nth_rewrite 2 [he]
        simp only [List.append_assoc]
        rfl
      · exact List.mem_of_mem_drop (i := 3) hch
    · exact ⟨reportMark ++ endMark, by rw [← he]; simp, hcr⟩

theorem reported_of_ofText {c : Cell} {body : List Char} (hc : c.Marked) (hb : c.body? = some body)
    (h : ofText body = c) : c.Reported := by
  cases c with
  | markup t => cases hb
  | code s => trivial
  | evaluated s o r =>
    cases hb
    exact (reportMark_last hc.2).1 (ofText_evaluatedBody_iff.1 h).2

/-- A cell is read as itself if and only if its lines end with line feeds alone and its report does
not end with a mark. -/
theorem reread_eq_self_iff {c : Cell} {body : List Char} (hc : c.Marked)
    (hb : c.body? = some body) :
    c.reread = c ↔ ¬ ['\r', '\n'] <:+: body ++ ['\n'] ∧ c.Reported := by
  rw [reread_of_body hb]
  constructor
  · intro h
    obtain ⟨t, ht⟩ := lineFeeds_concat body
    rw [ht, ofBlock_feed] at h
    obtain ⟨u, hu, hcr⟩ := body_of_ofText h hb
    have hlines : lineFeeds (body ++ ['\n']) = body ++ ['\n'] := by
      have hfilter := filter_lineFeeds (body ++ ['\n'])
      rw [ht] at hfilter
      have hend : u.filter (· ≠ '\r') = u := List.filter_eq_self.2 (by simpa using hcr)
      have hlen := congrArg List.length hfilter
      rw [hu] at hlen
      simp only [List.filter_append, List.length_append, hend] at hlen
      obtain rfl : u = [] := List.length_eq_zero_iff.1 (by omega)
      rw [ht, hu, List.append_nil]
    refine ⟨lineFeeds_eq_self_iff.1 hlines, reported_of_ofText hc hb ?_⟩
    rw [hlines] at ht
    rwa [List.append_cancel_right ht]
  · rintro ⟨h, hr⟩
    rw [lineFeeds_eq_self_iff.2 h, ofBlock_feed, ofText_body hc hb hr]

/-- The text that is written for an evaluated cell is read as that cell if and only if the mark of a
result stands nowhere in the source with the mark after it but at its end, and the mark of a report
nowhere in the report with the marks around it but at its start, whatever was printed. The text that
is written for a cell without a result is read as that cell if and only if no mark of a result
stands in it. -/
theorem ofBlock_eq_self_iff (s o r : List Char) :
    (ofBlock (s ++ resultMark ++ o ++ reportMark ++ r ++ endMark ++ ['\n']) = .evaluated s o r ↔
      (∀ a b, s ++ resultMark = a ++ resultMark ++ b → b = []) ∧
      ∀ a b, reportMark ++ r ++ endMark = a ++ reportMark ++ b → a = []) ∧
    (ofBlock (s ++ ['\n']) = .code s ↔ ¬ resultMark <:+: s) := by
  constructor
  · have hbody : s ++ resultMark ++ o ++ reportMark ++ r ++ endMark = evaluatedBody s o r := rfl
    rw [hbody, ofBlock_feed, ofText_evaluatedBody_iff, List.append_assoc reportMark,
      Text.not_infix_dropLast_iff resultMark_ne_nil, Text.not_infix_tail_iff reportMark_ne_nil]
  · rw [ofBlock_feed, ofText_eq_code_iff]

end Cell

end Notebook
