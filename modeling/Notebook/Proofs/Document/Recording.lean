import Mathlib.Data.List.Forall2
import Mathlib.Data.List.ReduceOption
import Notebook.Program.Prepared
import Notebook.Proofs.Document.RoundTrip

/-!
Outcomes that are recorded in a document are text in the block of their cell. They are read as code
or markup nowhere, but for a source that ends with the start of the mark of a result.
-/

namespace Notebook

open Execution (Output)
open Markdown
open Program (Manifest Shape)

namespace Cell

/-- The text of markup. -/
def markupText? : Cell → Option (List Char)
  | markup t => some t
  | _ => none

/-- What is read of an evaluated cell has the same source, or one that is cut off. -/
theorem reread_evaluated {s : List Char} (o r : List Char) (hcr : '\r' ∉ s)
    (hs : ¬ resultMark <:+: s) : ∃ s' o' r', reread (evaluated s o r) = evaluated s' o' r' ∧
      (s' = s ↔ ¬ resultMark.dropLast <:+ s) := by
  obtain ⟨t, ht⟩ := lineFeeds_concat (o ++ reportMark ++ (r ++ endMark))
  have hmark : '\r' ∉ s ++ resultMark := by
    rw [List.mem_append, not_or]
    exact ⟨hcr, by decide⟩
  have hlast : (s ++ resultMark).getLast? = some '\n' := by
    rw [List.getLast?_append_of_ne_nil _ resultMark_ne_nil]
    rfl
  have hbody : reread (evaluated s o r) = ofText (s ++ resultMark ++ t) := by
    rw [reread_of_body rfl, evaluatedBody_eq, List.append_assoc (s ++ resultMark),
      lineFeeds_append _ _ (by rw [hlast]; simp), lineFeeds_of_not_mem hmark, ht,
      ← List.append_assoc, ofBlock_feed]
  have hsome : ∃ s' o' r', ofText (s ++ resultMark ++ t) = evaluated s' o' r' ∧
      ∃ rest, Text.splitFirst? resultMark (s ++ resultMark ++ t) = some (s', rest) := by
    rcases ofText_cases (s ++ resultMark ++ t) with
      ⟨h, -⟩ | ⟨s', rest, heq, h, ⟨o', tail, -, -, ht⟩ | ⟨-, ht⟩⟩
    · exact absurd ⟨s, t, rfl⟩ h
    · exact ⟨s', o', _, ht, rest, by rw [heq, Text.splitFirst?_append h resultMark_ne_nil]⟩
    · exact ⟨s', _, [], ht, rest, by rw [heq, Text.splitFirst?_append h resultMark_ne_nil]⟩
  obtain ⟨s', o', r', htext, rest, hsplit⟩ := hsome
  refine ⟨s', o', r', hbody.trans htext, ?_⟩
  rw [← resultMark_first hs]
  constructor
  · rintro rfl
    exact Text.not_infix_dropLast_of_splitFirst? resultMark_ne_nil hsplit
  · intro h
    rw [Text.splitFirst?_append h resultMark_ne_nil] at hsplit
    exact (Prod.mk.inj (Option.some.inj hsplit)).1.symm

theorem reread_code {s : List Char} (hcr : '\r' ∉ s) (hs : ¬ resultMark <:+: s) :
    reread (code s) = code s := by
  have hlines : '\r' ∉ s ++ ['\n'] := by simp [hcr]
  rw [reread_of_body rfl, lineFeeds_of_not_mem hlines, ofBlock_feed, ofText_code hs]

/-- The source of a cell has no mark of a result and no carriage return. -/
def Plain (c : Cell) : Prop := ∀ s ∈ c.source?, '\r' ∉ s ∧ ¬ resultMark <:+: s

/-- A cell with such a source is read as one of its kind, and with the same source if it is not an
evaluated one whose source ends with the start of a mark. -/
theorem reread_plain {c : Cell} (h : c.Plain) : c.reread.kind = c.kind ∧
    c.reread.markupText? = c.markupText? ∧
      (c.reread.source? = c.source? ↔
        ∀ s o r, c = evaluated s o r → ¬ resultMark.dropLast <:+ s) := by
  cases c with
  | markup t => exact ⟨rfl, rfl, iff_of_true rfl (by simp)⟩
  | code s =>
    obtain ⟨hcr, hs⟩ := h s rfl
    rw [reread_code hcr hs]
    exact ⟨rfl, rfl, iff_of_true rfl (by simp)⟩
  | evaluated s o r =>
    obtain ⟨hcr, hs⟩ := h s rfl
    obtain ⟨s', o', r', heq, hiff⟩ := reread_evaluated o r hcr hs
    rw [heq]
    refine ⟨rfl, rfl, ?_⟩
    simp only [source?, Option.some.injEq, hiff, evaluated.injEq]
    constructor
    · rintro hs' t o r ⟨rfl, -, -⟩
      exact hs'
    · exact fun hall => hall s o r ⟨rfl, rfl, rfl⟩

theorem plain_of_marked {c : Cell} (hc : c.Marked) (hb : ∀ body ∈ c.body?, '\r' ∉ body) :
    c.Plain := by
  intro s hs
  cases c with
  | markup t => cases hs
  | code t =>
    cases hs
    exact ⟨hb s rfl, hc⟩
  | evaluated t o r =>
    cases hs
    refine ⟨fun hm => hb _ rfl ?_, fun hi => hc.1 ?_⟩
    · simp [evaluatedBody, hm]
    · rw [List.dropLast_append_of_ne_nil resultMark_ne_nil]
      exact hi.trans (List.prefix_append _ _).isInfix

end Cell

namespace Document

/-- Keeps outcomes one after the other, and tells in which cells they are kept. -/
def recordAll (d : Document) : List (Nat × Except Failure Output) → Document × List Nat
  | [] => (d, [])
  | (i, o) :: calls =>
    match d.record i o with
    | .ok d => ((d.recordAll calls).1, i :: (d.recordAll calls).2)
    | .error _ => d.recordAll calls

section

variable {d e : Document} {i : Nat} {o : Except Failure Output}

theorem record_ok (h : d.record i o = .ok e) : ∃ c s, d.cells[i]? = some c ∧ c.source? = some s ∧
    e.cells = d.cells.set i (evaluation s o) := by
  simp only [record, cell] at h
  cases hc : d.cells[i]? with
  | none =>
    rw [hc] at h
    cases h
  | some c =>
    rw [hc] at h
    cases hs : c.source? with
    | none =>
      simp only [Except.bind, bind, hs] at h
      cases h
    | some s =>
      simp only [Except.bind, bind, hs] at h
      cases h
      exact ⟨c, s, rfl, hs, rfl⟩

theorem evaluation_eq (s : List Char) (o : Except Failure Output) :
    ∃ out r, evaluation s o = .evaluated s out r := by
  cases o with
  | ok o => exact ⟨_, _, rfl⟩
  | error f => exact ⟨_, _, rfl⟩

/-- An outcome changes its own cell only, which keeps its source. -/
theorem recordAll_cell (d : Document) (calls : List (Nat × Except Failure Output)) (i : Nat) :
    (i ∉ (d.recordAll calls).2 → (d.recordAll calls).1.cells[i]? = d.cells[i]?) ∧
      (i ∈ (d.recordAll calls).2 → ∃ c s out r, d.cells[i]? = some c ∧ c.source? = some s ∧
        (d.recordAll calls).1.cells[i]? = some (.evaluated s out r)) := by
  induction calls generalizing d with
  | nil => simp [recordAll]
  | cons call calls ih =>
    obtain ⟨j, o⟩ := call
    rw [recordAll]
    cases h : d.record j o with
    | error f => exact ih d
    | ok e =>
      obtain ⟨c, s, hc, hs, he⟩ := record_ok h
      obtain ⟨out, r, hout⟩ := evaluation_eq s o
      obtain ⟨hkept, hset⟩ := ih e
      rw [he, hout] at hkept hset
      have hlt : j < d.cells.length := (List.getElem?_eq_some_iff.1 hc).1
      by_cases hij : i = j
      · subst hij
        simp only [List.getElem?_set_self hlt] at hkept hset
        refine ⟨fun hi => absurd (by simp) hi, fun _ => ?_⟩
        by_cases hi : i ∈ (e.recordAll calls).2
        · obtain ⟨c', s', out', r', hc', hs', hlast⟩ := hset hi
          obtain rfl := Option.some.inj hc'
          obtain rfl : s = s' := Option.some.inj hs'
          exact ⟨c, s, out', r', hc, hs, hlast⟩
        · exact ⟨c, s, out, r, hc, hs, hkept hi⟩
      · simp only [List.getElem?_set_ne (Ne.symm hij)] at hkept hset
        simp only [List.mem_cons, hij, false_or]
        exact ⟨hkept, hset⟩

theorem recordAll_length (d : Document) (calls : List (Nat × Except Failure Output)) :
    (d.recordAll calls).1.cells.length = d.cells.length := by
  induction calls generalizing d with
  | nil => rfl
  | cons call calls ih =>
    obtain ⟨j, o⟩ := call
    rw [recordAll]
    cases h : d.record j o with
    | error f => exact ih d
    | ok e =>
      obtain ⟨c, s, -, -, he⟩ := record_ok h
      rw [ih e, he, List.length_set]

/-- A cell of code that may have become another one. -/
def Recorded (c c' : Cell) : Prop := c' = c ∨
  ∃ s out r, c.source? = some s ∧ c' = .evaluated s out r

theorem recordAll_recorded (d : Document) (calls : List (Nat × Except Failure Output)) :
    List.Forall₂ Recorded d.cells (d.recordAll calls).1.cells := by
  rw [List.forall₂_iff_get]
  refine ⟨(recordAll_length d calls).symm, fun i h1 h2 => ?_⟩
  obtain ⟨hkept, hset⟩ := recordAll_cell d calls i
  by_cases hi : i ∈ (d.recordAll calls).2
  · obtain ⟨c, s, out, r, hc, hs, hlast⟩ := hset hi
    obtain ⟨h, rfl⟩ := List.getElem?_eq_some_iff.1 hc
    obtain ⟨h', hlast⟩ := List.getElem?_eq_some_iff.1 hlast
    exact .inr ⟨s, out, r, hs, hlast⟩
  · have := hkept hi
    rw [List.getElem?_eq_getElem h2, List.getElem?_eq_getElem h1] at this
    exact .inl (Option.some.inj this)

theorem Recorded.isCode {c c' : Cell} (h : Recorded c c') : c'.isCode = c.isCode := by
  rcases h with rfl | ⟨s, out, r, hs, rfl⟩
  · rfl
  · rw [Cell.isCode, Cell.isCode, hs]
    rfl

theorem Recorded.markup {m : List Char} {c' : Cell} (h : Recorded (.markup m) c') :
    c' = .markup m := by
  rcases h with rfl | ⟨s, out, r, hs, -⟩
  · rfl
  · cases hs

theorem Formed.recorded {cs cs' : List Cell} (hf : Formed cs) (h : List.Forall₂ Recorded cs cs') :
    Formed cs' := by
  induction hf generalizing cs' with
  | nil =>
    cases h
    exact .nil
  | last ht hq =>
    obtain ⟨c', ds, hc', hnil, rfl⟩ := List.forall₂_cons_left_iff.1 h
    cases hnil
    rw [hc'.markup]
    exact .last ht hq
  | markup ht hc hcs ih =>
    obtain ⟨c', ds, hc', hds, rfl⟩ := List.forall₂_cons_left_iff.1 h
    have hrest := ih hds
    obtain ⟨d', ds', hd', -, rfl⟩ := List.forall₂_cons_left_iff.1 hds
    rw [hc'.markup]
    exact .markup ht (hd'.isCode.trans hc) hrest
  | code hc hcs ih =>
    obtain ⟨c', ds, hc', hds, rfl⟩ := List.forall₂_cons_left_iff.1 h
    exact .code (hc'.isCode.trans hc) (ih hds)

theorem mem_dropLast_of_recorded {cs cs' : List Cell} (h : List.Forall₂ Recorded cs cs')
    {m : List Char} (hm : .markup m ∈ cs'.dropLast) : .markup m ∈ cs.dropLast := by
  induction h with
  | nil => exact hm
  | @cons c c' cs cs' hc hcs ih =>
    cases hcs with
    | nil => cases hm
    | cons hd hds =>
      rw [List.dropLast_cons_of_ne_nil (by simp), List.mem_cons] at hm ⊢
      rcases hm with hm | hm
      · left
        rcases hc with rfl | ⟨s, out, r, -, rfl⟩
        · exact hm
        · cases hm
      · exact .inr (ih hm)

theorem filterMap_source? (cs : List Cell) :
    cs.filterMap Cell.source? = (cs.map Cell.source?).reduceOption := by
  rw [List.reduceOption, List.filterMap_map]
  rfl

/-- What is prepared for a cell is told by the sources. -/
theorem prepare_congr {d e : Document} (h : d.cells.map Cell.source? = e.cells.map Cell.source?)
    (shape : Shape) (m : Manifest) (i : Nat) :
    Program.prepare shape m d i = Program.prepare shape m e i := by
  have hlen : d.cells.length = e.cells.length := by simpa using congrArg List.length h
  have hsources : d.sources i = e.sources i := by
    simp only [sources, hlen, filterMap_source?, List.map_take, h]
  have hi := congrArg (·[i]?) h
  simp only [List.getElem?_map] at hi
  simp only [Program.prepare, cell, hsources]
  cases hd : d.cells[i]? with
  | none =>
    rw [hd] at hi
    cases he : e.cells[i]? with
    | none => rfl
    | some c =>
      rw [he] at hi
      cases hi
  | some c =>
    rw [hd] at hi
    cases he : e.cells[i]? with
    | none =>
      rw [he] at hi
      cases hi
    | some c' =>
      rw [he] at hi
      have hcode : c.isCode = c'.isCode := by
        rw [Cell.isCode, Cell.isCode, Option.some.inj hi]
      simp only [hcode, bind, Except.bind]

end

theorem Recorded.plain {c c' : Cell} (h : Recorded c c') (hc : c.Plain) : c'.Plain := by
  rcases h with rfl | ⟨s, out, r, hs, rfl⟩
  · exact hc
  · rintro t ⟨⟩
    exact hc s hs

/-- Results that are recorded in a document that was read from a text with line feeds alone do not
change its code: the document is read again with cells of the same kinds, with the same markup, and
with the same sources if and only if no source in which a result was recorded ends with the start of
the mark of one. -/
theorem recorded_code_kept (text : List Char) (d : Document)
    (calls : List (Nat × Except Failure Output)) (hcr : '\r' ∉ text)
    (h : ofMarkdown text = .ok d) :
    ∃ e, ofMarkdown (d.recordAll calls).1.toMarkdown = .ok e ∧
      e.cells.map Cell.kind = (d.recordAll calls).1.cells.map Cell.kind ∧
      e.cells.map Cell.markupText? = (d.recordAll calls).1.cells.map Cell.markupText? ∧
      (e.cells.map Cell.source? = (d.recordAll calls).1.cells.map Cell.source? ↔
        ∀ i ∈ (d.recordAll calls).2, ∀ c ∈ (d.recordAll calls).1.cells[i]?, ∀ s ∈ c.source?,
          ¬ Cell.resultMark.dropLast <:+ s) ∧
      (e.cells.map Cell.source? = (d.recordAll calls).1.cells.map Cell.source? →
        ∀ shape m i, Program.prepare shape m e i =
          Program.prepare shape m (d.recordAll calls).1 i) := by
  have hread := ofMarkdown_eq_ok.1 h
  obtain ⟨hf, hmarked⟩ := formed_of_read hread
  have hbody := not_mem_body (paired_of_not_mem hcr) hread
  have hrec := recordAll_recorded d calls
  have hseals : ∀ m, .markup m ∈ (d.recordAll calls).1.cells.dropLast → Sealed m := fun m hm =>
    sealed_of_paired (paired_of_not_mem hcr) hread m (mem_dropLast_of_recorded hrec hm)
  have hplain : ∀ c' ∈ (d.recordAll calls).1.cells, c'.Plain := by
    intro c' hc'
    obtain ⟨i, hi, rfl⟩ := List.mem_iff_getElem.1 hc'
    have hlt : i < d.cells.length := by
      rwa [recordAll_length] at hi
    exact (hrec.get hlt hi).plain (Cell.plain_of_marked (hmarked _ (List.getElem_mem hlt))
      (hbody _ (List.getElem_mem hlt)))
  refine ⟨⟨(d.recordAll calls).1.cells.map Cell.reread⟩, ?_, ?_, ?_, ?_, ?_⟩
  · rw [ofMarkdown_eq_ok, toMarkdown_eq]
    exact read_written _ (hf.recorded hrec) hseals
  · rw [List.map_map, List.map_inj_left]
    exact fun c hc => (Cell.reread_plain (hplain c hc)).1
  · rw [List.map_map, List.map_inj_left]
    exact fun c hc => (Cell.reread_plain (hplain c hc)).2.1
  · rw [List.map_map, List.map_inj_left]
    constructor
    · intro hall i hi c hc s hs
      obtain ⟨c', s', out, r, -, -, hlast⟩ := (recordAll_cell d calls i).2 hi
      obtain rfl : c = .evaluated s' out r := by
        rw [Option.mem_def.1 hc] at hlast
        exact Option.some.inj hlast
      obtain rfl : s' = s := Option.some.inj hs
      have hmem := List.mem_of_getElem? hc
      exact (Cell.reread_plain (hplain _ hmem)).2.2.1 (hall _ hmem) s' out r rfl
    · intro hall c hc
      refine (Cell.reread_plain (hplain c hc)).2.2.2 fun s out r heq => ?_
      obtain ⟨i, hi⟩ := List.mem_iff_getElem?.1 hc
      by_cases hmem : i ∈ (d.recordAll calls).2
      · exact hall i hmem c hi s (by rw [heq]; rfl)
      · rw [(recordAll_cell d calls i).1 hmem] at hi
        have hold := List.mem_of_getElem? hi
        have hno := ((Cell.plain_of_marked (hmarked c hold) (hbody c hold)) s (by rw [heq]; rfl)).2
        have hfirst := hmarked c hold
        rw [heq] at hfirst
        exact (Cell.resultMark_first hno).1 hfirst.1
  · intro hsources shape m i
    exact prepare_congr hsources shape m i

/-- What is printed may look like a fence or like the end of a comment. -/
theorem recorded_fence_kept : ∃ d e, ofMarkdown "```rust\nx\n```\n".toList = .ok d ∧
    ofMarkdown (d.recordAll [(0, .ok ⟨"```\n# A".toList, "*/".toList, some 0⟩)]).1.toMarkdown =
      .ok e ∧ e.cells.map Cell.source? = [some ['x']] := by
  have hread : ofMarkdown "```rust\nx\n```\n".toList = .ok ⟨[.code ['x']]⟩ := by decide +kernel
  obtain ⟨e, he, -, -, hiff, -⟩ := recorded_code_kept _ _
    [(0, .ok ⟨"```\n# A".toList, "*/".toList, some 0⟩)] (by decide) hread
  refine ⟨_, e, hread, he, hiff.2 ?_⟩
  rintro i hi c hc s hs
  obtain rfl : i = 0 := List.mem_singleton.1 hi
  cases hc
  cases hs
  decide

end Document

end Notebook
