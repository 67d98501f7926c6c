import Notebook.Proofs.Document.Markup

/-!
Cells as reading gives them, and what reading gives of cells that were written.
-/

namespace Notebook

open Markdown

namespace Document

/-- The cells of a text that starts at `s`. -/
def read (text s : List Char) : Except Unterminated (List Cell) :=
  cellsOf text s ((blocks s).filter isRust)

/-- The text of cells with an empty line between. -/
def written (cs : List Cell) : List Char :=
  List.intercalate ['\n', '\n'] (cs.map Cell.toMarkdown) ++ ['\n']

theorem ofMarkdown_eq (text : List Char) : ofMarkdown text = (read text text).map Document.mk := rfl

theorem toMarkdown_eq (d : Document) : d.toMarkdown = written d.cells := rfl

theorem written_single (c : Cell) : written [c] = c.toMarkdown ++ ['\n'] := by
  simp [written, List.intercalate]

theorem written_cons (c d : Cell) (cs : List Cell) :
    written (c :: d :: cs) = c.toMarkdown ++ (['\n', '\n'] ++ written (d :: cs)) := by
  simp [written, List.intercalate]

/-- Cells as reading gives them: markup has no line ends around it and code after it, if it is not
the last cell. -/
inductive Formed : List Cell → Prop
  | nil : Formed []
  | last {m : List Char} (h : Trimmed m) (hm : Quiet m) : Formed [.markup m]
  | markup {m : List Char} {c : Cell} {cs : List Cell} (h : Trimmed m) (hc : c.isCode = true)
      (hcs : Formed (c :: cs)) : Formed (.markup m :: c :: cs)
  | code {c : Cell} {cs : List Cell} (hc : c.isCode = true) (hcs : Formed cs) : Formed (c :: cs)

/-! ### Reading block by block -/

section

variable {text s : List Char} {cells : List Cell}

theorem read_of_none (h : ofKind isRustInfo (blocksFrom [] false s) = []) :
    read text s = .ok (markup? s).toList := by
  rw [read, blocks, filter_isRust, h, cellsOf]

theorem read_of_first {b : FencedBlock} {bs : List FencedBlock}
    (h : ofKind isRustInfo (blocksFrom [] false s) = b :: bs) (hclosed : isClosed b = true) :
    read text s = (read text b.closing).map fun cells =>
      (markup? (partBefore s b.opening)).toList ++ Cell.ofBlock b.code :: cells := by
  obtain ⟨-, -, -, hbs⟩ := blocksFrom_first h
  rw [read, blocks, filter_isRust, h, cellsOf, if_pos hclosed, read, blocks, filter_isRust, ← hbs]
  cases cellsOf text b.closing bs <;> rfl

/-- What a text may be that is read: markup alone, or a closed block after it, and what follows. -/
theorem read_cases (h : read text s = .ok cells) :
    (ofKind isRustInfo (blocksFrom [] false s) = [] ∧ cells = (markup? s).toList) ∨
      ∃ b bs rest, ofKind isRustInfo (blocksFrom [] false s) = b :: bs ∧ isClosed b = true ∧
        read text b.closing = .ok rest ∧
        cells = (markup? (partBefore s b.opening)).toList ++ Cell.ofBlock b.code :: rest := by
  cases hb : ofKind isRustInfo (blocksFrom [] false s) with
  | nil =>
    rw [read_of_none hb] at h
    exact .inl ⟨rfl, (Except.ok.inj h).symm⟩
  | cons b bs =>
    by_cases hclosed : isClosed b = true
    · rw [read_of_first hb hclosed] at h
      cases hrest : read text b.closing with
      | error e =>
        rw [hrest] at h
        cases h
      | ok rest =>
        rw [hrest] at h
        exact .inr ⟨b, bs, rest, rfl, hclosed, hrest, (Except.ok.inj h).symm⟩
    · rw [read, blocks, filter_isRust, hb, cellsOf, if_neg hclosed] at h
      cases h

theorem opening_of_first {b : FencedBlock} {bs : List FencedBlock}
    (h : ofKind isRustInfo (blocksFrom [] false s) = b :: bs) :
    Later b.closing s ∧ s = partBefore s b.opening ++ b.opening := by
  obtain ⟨⟨y, k, hst⟩, -, hlater, -⟩ := blocksFrom_first h
  have hs : s = (y ++ List.replicate k ' ') ++ b.opening := by
    rw [List.append_assoc]
    exact hst.place
  refine ⟨hlater.suffix ⟨_, hs.symm⟩, ?_⟩
  have hpart : partBefore s b.opening = y ++ List.replicate k ' ' := by
    nth_rewrite 1 [hs]
    exact partBefore_append _ _
  rw [hpart]
  exact hs

/-! ### Reading what was written -/

/-- A line feed at the start of a text is not read. -/
theorem read_feed (text s : List Char) : read text ('\n' :: s) = read text s := by
  have hblank : blankLine? ('\n' :: s) = some s := rfl
  have hblocks := blocksFrom_blankLine? hblank
  have hmarkup (t : List Char) : markup? ('\n' :: t) = markup? t :=
    markup?_breaks (a := ['\n']) (by simp [Breaks, isLineBreak]) t
  cases hb : ofKind isRustInfo (blocksFrom [] false s) with
  | nil => rw [read_of_none (by rw [hblocks, hb]), read_of_none hb, hmarkup]
  | cons b bs =>
    have hb' : ofKind isRustInfo (blocksFrom [] false ('\n' :: s)) = b :: bs := by
      rw [hblocks, hb]
    have hs := (opening_of_first hb).2
    have hpart : partBefore ('\n' :: s) b.opening = '\n' :: partBefore s b.opening := by
      nth_rewrite 1 [hs]
      exact partBefore_append ('\n' :: partBefore s b.opening) b.opening
    by_cases hclosed : isClosed b = true
    · rw [read_of_first hb' hclosed, read_of_first hb hclosed, hpart, hmarkup]
    · rw [read, read, blocks, blocks, filter_isRust, filter_isRust, hb', hb, cellsOf, cellsOf,
        if_neg hclosed, if_neg hclosed]

theorem read_nil (text : List Char) : read text [] = .ok [] := by
  rw [read_of_none (by rw [blocksFrom_nil]; rfl)]
  rfl

theorem ofKind_fenced (body : List Char) {t : List Char} (ht : Ends t) :
    ofKind isRustInfo (blocksFrom [] false (Cell.fenced body ++ t)) =
      ⟨Cell.fenced body ++ t, t, "rust".toList, lineFeeds (body ++ ['\n'])⟩ ::
        ofKind isRustInfo (blocksFrom [] false t) := by
  rw [Cell.blocksFrom_fenced body ht, ofKind, List.filter_cons_of_pos (by exact isRustInfo_rust)]
  rfl

/-- A written cell of code is read first, and then what follows it. -/
theorem read_code (text : List Char) {c : Cell} (hc : c.isCode = true) {t : List Char}
    (ht : Ends t) : read text (c.toMarkdown ++ t) = (read text t).map (c.reread :: ·) := by
  obtain ⟨body, hb⟩ := Option.isSome_iff_exists.1 ((Cell.body?_isSome c).trans hc)
  rw [Cell.toMarkdown_of_body hb,
    read_of_first (ofKind_fenced body ht) (isClosed_fenced body t _ _)]
  have hpart : partBefore (Cell.fenced body ++ t) (Cell.fenced body ++ t) = [] := by
    simp [partBefore]
  simp only [hpart, Cell.reread_of_body hb]
  rfl

theorem opens_written {c : Cell} (hc : c.isCode = true) (cs : List Cell) :
    Opens (written (c :: cs)) ∧ ∃ b bs, ofKind isRustInfo (blocksFrom [] false (written (c :: cs))) =
      b :: bs ∧ b.opening = written (c :: cs) ∧ isClosed b = true := by
  obtain ⟨body, hb⟩ := Option.isSome_iff_exists.1 ((Cell.body?_isSome c).trans hc)
  obtain ⟨t, ht, hw⟩ : ∃ t, Ends t ∧ written (c :: cs) = Cell.fenced body ++ t := by
    cases cs with
    | nil =>
      exact ⟨['\n'], ends_cons.2 rfl, by rw [written_single, Cell.toMarkdown_of_body hb]⟩
    | cons d cs =>
      exact ⟨_, ends_cons.2 rfl, by rw [written_cons, Cell.toMarkdown_of_body hb]; rfl⟩
  rw [hw]
  exact ⟨Cell.opens_fenced body t, _, _, ofKind_fenced body ht, rfl, isClosed_fenced body t _ _⟩

/-- Markup is read as it is if the block after it is the first one. -/
theorem read_markup {m w : List Char} (hm : Trimmed m) {b : FencedBlock} {bs : List FencedBlock}
    (hw : ofKind isRustInfo (blocksFrom [] false w) = b :: bs) (hopening : b.opening = w)
    (hclosed : isClosed b = true)
    (h : ofKind isRustInfo (blocksFrom [] false (m ++ (['\n', '\n'] ++ w))) =
      ofKind isRustInfo (blocksFrom [] false w)) (text : List Char) :
    read text (m ++ (['\n', '\n'] ++ w)) = (read text w).map (.markup m :: ·) := by
  have hpart : partBefore w w = [] := by simp [partBefore]
  have hpart' : partBefore (m ++ (['\n', '\n'] ++ w)) w = [] ++ m ++ ['\n', '\n'] := by
    rw [← List.append_assoc]
    exact partBefore_append _ _
  have hfeeds : Breaks ['\n', '\n'] := by simp [Breaks, isLineBreak]
  rw [read_of_first (h.trans hw) hclosed, read_of_first hw hclosed, hopening, hpart, hpart',
    markup?_surrounded (by simp [Breaks]) hfeeds hm]
  cases read text b.closing <;> rfl

theorem read_quiet {m : List Char} (hm : Trimmed m) (hq : Quiet m) (text : List Char) :
    read text (m ++ ['\n']) = .ok [.markup m] := by
  have hfeed : Breaks ['\n'] := by simp [Breaks, isLineBreak]
  have hsome := markup?_surrounded (a := []) (by simp [Breaks]) hfeed hm
  rw [read_of_none hq]
  rw [List.nil_append] at hsome
  rw [hsome]
  rfl

theorem mem_dropLast_cons {α : Type} {x c : α} {cs : List α} (h : x ∈ cs.dropLast) :
    x ∈ (c :: cs).dropLast := by
  cases cs with
  | nil => cases h
  | cons d cs =>
    rw [List.dropLast_cons_of_ne_nil (by simp)]
    exact List.mem_cons_of_mem c h

/-- Written cells are read as they are, but for the results in them. -/
theorem read_written (text : List Char) {cs : List Cell} (hf : Formed cs)
    (hs : ∀ m, .markup m ∈ cs.dropLast → Sealed m) :
    read text (written cs) = .ok (cs.map Cell.reread) := by
  induction hf with
  | nil =>
    show read text ['\n'] = _
    rw [read_feed, read_nil]
    rfl
  | last h hm =>
    rw [written_single]
    exact read_quiet h hm text
  | @markup m c cs h hc hcs ih =>
    have hseal := (sealed_iff m).1 (hs m (by simp))
    obtain ⟨hopens, b, bs, hfirst, hopening, hclosed⟩ := opens_written hc cs
    have hsame := blocksFrom_sealed h.unbroken rustFence_opens hopens hseal
    rw [written_cons]
    show read text (m ++ (['\n', '\n'] ++ written (c :: cs))) = _
    rw [read_markup h hfirst hopening hclosed hsame, ih fun n hn => hs n (mem_dropLast_cons hn)]
    rfl
  | @code c cs hc hcs ih =>
    have hrest := ih fun n hn => hs n (mem_dropLast_cons hn)
    cases cs with
    | nil =>
      rw [written_single, read_code text hc (ends_cons.2 rfl), read_feed, read_nil]
      rfl
    | cons d cs =>
      have hends : Ends (['\n', '\n'] ++ written (d :: cs)) := ends_cons.2 rfl
      rw [written_cons, read_code text hc hends, List.cons_append, List.cons_append,
        List.nil_append, read_feed, read_feed, hrest]
      rfl

end

end Document

end Notebook
