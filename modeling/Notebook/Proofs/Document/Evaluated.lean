import Notebook.Proofs.Document.Lossless
import Notebook.Proofs.Document.Recording

/-!
Documents in which every cell of code has its outcome. Read again, such a document has the code and
the markup that it had before.
-/

namespace Notebook

namespace Document

open Execution (Outcome)
open Cell (markupText?)
open Markdown (paired_of_not_mem)

variable {d e : Document} {g : Nat → Outcome} {i : Nat}

/-- The document in which each cell of code has its outcome. -/
def evaluated (d : Document) (g : Nat → Outcome) : Document :=
  ⟨d.cells.mapIdx fun i c =>
    match c.source? with
    | some s => evaluation s (g i)
    | none => c⟩

/-- The documents differ at most in what cells of code keep of a run. -/
structure SameCode (d e : Document) : Prop where
  sources : d.cells.map Cell.source? = e.cells.map Cell.source?
  markup : d.cells.map markupText? = e.cells.map markupText?

theorem SameCode.trans {f : Document} (h : d.SameCode e) (h' : e.SameCode f) : d.SameCode f :=
  ⟨h.sources.trans h'.sources, h.markup.trans h'.markup⟩

theorem SameCode.symm (h : d.SameCode e) : e.SameCode d := ⟨h.sources.symm, h.markup.symm⟩

theorem recorded_evaluated (d : Document) (g : Nat → Outcome) :
    List.Forall₂ Recorded d.cells (d.evaluated g).cells := by
  rw [List.forall₂_iff_get]
  refine ⟨by simp [evaluated], fun i h1 h2 => ?_⟩
  simp only [evaluated, List.get_eq_getElem, List.getElem_mapIdx]
  cases hs : d.cells[i].source? with
  | none => exact .inl rfl
  | some s =>
    obtain ⟨out, r, heq⟩ := evaluation_eq s (g i)
    exact .inr ⟨s, out, r, hs, heq⟩

theorem Recorded.source? {c c' : Cell} (h : Recorded c c') : c'.source? = c.source? := by
  rcases h with rfl | ⟨s, out, r, hs, rfl⟩
  · rfl
  · rw [hs]
    rfl

theorem Recorded.markupText? {c c' : Cell} (h : Recorded c c') :
    c'.markupText? = c.markupText? := by
  rcases h with rfl | ⟨s, out, r, hs, rfl⟩
  · rfl
  · cases c with
    | markup t => cases hs
    | code _ | evaluated _ _ _ => rfl

theorem sameCode_of_recorded (h : List.Forall₂ Recorded d.cells e.cells) : e.SameCode d := by
  obtain ⟨cs⟩ := d
  obtain ⟨ds⟩ := e
  have hall : ds.map Cell.source? = cs.map Cell.source? ∧
      ds.map Cell.markupText? = cs.map Cell.markupText? := by
    change List.Forall₂ Recorded cs ds at h
    induction h with
    | nil => exact ⟨rfl, rfl⟩
    | cons hc _ ih =>
      rw [List.map_cons, List.map_cons, List.map_cons, List.map_cons, hc.source?, hc.markupText?,
        ih.1, ih.2]
      exact ⟨rfl, rfl⟩
  exact ⟨hall.1, hall.2⟩

theorem sameCode_evaluated (d : Document) (g : Nat → Outcome) : (d.evaluated g).SameCode d :=
  sameCode_of_recorded (recorded_evaluated d g)

/-- What a document becomes does not depend on what its cells of code have kept. -/
theorem SameCode.evaluated_eq (h : d.SameCode e) (g : Nat → Outcome) :
    d.evaluated g = e.evaluated g := by
  have hcells : (d.evaluated g).cells = (e.evaluated g).cells := by
    refine List.ext_getElem? fun i => ?_
    have hs := congrArg (·[i]?) h.sources
    have hm := congrArg (·[i]?) h.markup
    simp only [List.getElem?_map] at hs hm
    simp only [evaluated, List.getElem?_mapIdx]
    cases hd : d.cells[i]? with
    | none =>
      rw [hd] at hs
      cases he : e.cells[i]? with
      | none => rfl
      | some c =>
        rw [he] at hs
        cases hs
    | some c =>
      rw [hd] at hs hm
      cases he : e.cells[i]? with
      | none =>
        rw [he] at hs
        cases hs
      | some c' =>
        rw [he] at hs hm
        have hsource : c.source? = c'.source? := Option.some.inj hs
        have htext : c.markupText? = c'.markupText? := Option.some.inj hm
        simp only [Option.map_some, hsource]
        cases c <;> cases c' <;> simp_all [Cell.source?, Cell.markupText?]
  exact congrArg Document.mk hcells

theorem mem_codeIndices : i ∈ d.codeIndices ↔ ∃ s, (d.cells.map Cell.source?)[i]? = some (some s) := by
  simp only [codeIndices, List.mem_map, List.mem_filter, Prod.exists, List.mem_zipIdx_iff_getElem?,
    exists_eq_right, List.getElem?_map, Option.map_eq_some_iff, Cell.isCode,
    Option.isSome_iff_exists]
  constructor
  · rintro ⟨c, hc, s, hs⟩
    exact ⟨s, c, hc, hs⟩
  · rintro ⟨s, c, hc, hs⟩
    exact ⟨c, hc, s, hs⟩

theorem nodup_codeIndices (d : Document) : d.codeIndices.Nodup := by
  have hsub : d.codeIndices.Sublist (d.cells.zipIdx.map (·.2)) := List.filter_sublist.map _
  refine List.Nodup.sublist hsub ?_
  rw [List.zipIdx_map_snd]
  exact List.nodup_range'

theorem SameCode.mem_codeIndices (h : d.SameCode e) : i ∈ d.codeIndices ↔ i ∈ e.codeIndices := by
  rw [Document.mem_codeIndices, Document.mem_codeIndices, h.sources]

/-- Written as Markdown and read again, a document with its outcomes has the same code, if it was
read from a text with line feeds alone and no code ends with the start of the mark of a result. -/
theorem ofMarkdown_evaluated {text : List Char} (hcr : '\r' ∉ text) (h : ofMarkdown text = .ok d)
    (hends : ∀ s, .code s ∈ d.cells → ¬ Cell.resultMark.dropLast <:+ s) (g : Nat → Outcome) :
    ∃ e, ofMarkdown (d.evaluated g).toMarkdown = .ok e ∧ e.SameCode d := by
  have hread := ofMarkdown_eq_ok.1 h
  obtain ⟨hf, hmarked⟩ := formed_of_read hread
  have hbody := not_mem_body (paired_of_not_mem hcr) hread
  have hrec := recorded_evaluated d g
  have hseals : ∀ m, .markup m ∈ (d.evaluated g).cells.dropLast → Sealed m := fun m hm =>
    sealed_of_paired (paired_of_not_mem hcr) hread m (mem_dropLast_of_recorded hrec hm)
  have hplain : ∀ c' ∈ (d.evaluated g).cells, c'.Plain ∧
      ∀ s o r, c' = .evaluated s o r → ¬ Cell.resultMark.dropLast <:+ s := by
    intro c' hc'
    obtain ⟨i, hi, rfl⟩ := List.mem_iff_getElem.1 hc'
    have hlt : i < d.cells.length := by rwa [evaluated, List.length_mapIdx] at hi
    have hci : Recorded d.cells[i] (d.evaluated g).cells[i] := hrec.get hlt hi
    have hold := Cell.plain_of_marked (hmarked _ (List.getElem_mem hlt))
      (hbody _ (List.getElem_mem hlt))
    refine ⟨hci.plain hold, fun s o r heq => ?_⟩
    have hs : d.cells[i].source? = some s := by
      rw [← hci.source?, heq]
      rfl
    -- A source that a result follows already is the one before the first mark.
    cases hc : d.cells[i] with
    | markup t =>
      rw [hc] at hs
      cases hs
    | code s' =>
      rw [hc] at hs
      cases hs
      exact hends s (hc ▸ List.getElem_mem hlt)
    | evaluated s' o' r' =>
      rw [hc] at hs
      cases hs
      have hfirst := hmarked _ (List.getElem_mem hlt)
      rw [hc] at hold hfirst
      exact (Cell.resultMark_first (hold s rfl).2).1 hfirst.1
  refine ⟨⟨(d.evaluated g).cells.map Cell.reread⟩, ?_, ?_⟩
  · rw [ofMarkdown_eq_ok, toMarkdown_eq]
    exact read_written _ (hf.recorded hrec) hseals
  · refine SameCode.trans (e := d.evaluated g) ⟨?_, ?_⟩ (sameCode_evaluated d g)
    · rw [List.map_map, List.map_inj_left]
      intro c hc
      obtain ⟨hc, hno⟩ := hplain c hc
      exact (Cell.reread_plain hc).2.2.2 hno
    · rw [List.map_map, List.map_inj_left]
      exact fun c hc => (Cell.reread_plain (hplain c hc).1).2.1

/-- A notebook in which results can be kept: if it is Markdown, all its lines end with line feeds
alone, and no code ends with the start of the mark of a result. -/
def Keeps (f : Format) (bytes : List UInt8) (d : Document) : Prop :=
  f = .markdown → (∀ text, Text.Utf8.decode bytes = .ok text → '\r' ∉ text) ∧
    ∀ s, .code s ∈ d.cells → ¬ Cell.resultMark.dropLast <:+ s

theorem decode_evaluated {f : Format} {bytes : List UInt8} (h : f.decode bytes = .ok d)
    (hkeeps : Keeps f bytes d) (g : Nat → Outcome) :
    ∃ e, f.decode (f.encode (d.evaluated g)) = .ok e ∧ e.SameCode d := by
  cases f with
  | json => exact ⟨d.evaluated g, decode_encode_json _, sameCode_evaluated d g⟩
  | markdown =>
    obtain ⟨hcr, hends⟩ := hkeeps rfl
    rw [Format.decode] at h
    cases hb : Text.Utf8.decode bytes with
    | error f =>
      rw [hb] at h
      cases h
    | ok text =>
      simp only [hb, Format.read] at h
      cases ht : ofMarkdown text with
      | error u =>
        rw [ht] at h
        cases h
      | ok d' =>
        rw [ht] at h
        cases h
        obtain ⟨e, he, hsame⟩ := ofMarkdown_evaluated (hcr text hb) ht hends g
        refine ⟨e, ?_, hsame⟩
        rw [Format.decode, Format.encode, Text.Utf8.decode_encode]
        simp only [Format.read, Format.write, he]

end Document

end Notebook
