import Notebook.Proofs.Document.Parsed

/-!
Which notebooks are read as they were written. Without carriage returns that stand alone it is those
in which no report ends with the mark of one.
-/

namespace Notebook

open Markdown

namespace Document

/-- Writing the document and reading it gives it again: its lines end with line feeds, no report ends
with the mark of one, and all markup that has code after it is sealed. -/
structure Stable (d : Document) : Prop where
  lines : ∀ c ∈ d.cells, ∀ body ∈ c.body?, ¬ ['\r', '\n'] <:+: body ++ ['\n']
  reports : ∀ c ∈ d.cells, c.Reported
  seals : ∀ m, .markup m ∈ d.cells.dropLast → Sealed m

section

variable {text s : List Char} {cells : List Cell}

theorem reread_markup {c : Cell} (h : c.body? = none) : c.reread = c := by
  rw [Cell.reread, h]

/-- A document whose markup is sealed is read as it was written if and only if its cells are. -/
theorem read_written_iff (text : List Char) (hf : Formed cells) (hm : ∀ c ∈ cells, c.Marked)
    (hs : ∀ m, .markup m ∈ cells.dropLast → Sealed m) : read text (written cells) = .ok cells ↔
      (∀ c ∈ cells, ∀ body ∈ c.body?, ¬ ['\r', '\n'] <:+: body ++ ['\n']) ∧
        ∀ c ∈ cells, c.Reported := by
  have hmap : cells.map Cell.reread = cells ↔ ∀ c ∈ cells, c.reread = c := by
    simpa using List.map_inj_left (f := Cell.reread) (g := id) (l := cells)
  rw [read_written text hf hs, Except.ok.injEq, hmap]
  constructor
  · intro h
    have hcell (c : Cell) (hc : c ∈ cells) (body : List Char) (hb : body ∈ c.body?) :=
      (Cell.reread_eq_self_iff (hm c hc) hb).1 (h c hc)
    refine ⟨fun c hc body hb => (hcell c hc body hb).1, fun c hc => ?_⟩
    cases hb : c.body? with
    | some body => exact (hcell c hc body hb).2
    | none => cases c <;> trivial
  · rintro ⟨h1, h2⟩ c hc
    cases hb : c.body? with
    | some body => exact (Cell.reread_eq_self_iff (hm c hc) hb).2 ⟨h1 c hc body hb, h2 c hc⟩
    | none => exact reread_markup hb

theorem takeWhile_breaks {a t : List Char} (ha : Breaks a) (ht : ∀ c ∈ t.head?, isLineBreak c = false) :
    (a ++ t).takeWhile isLineBreak = a := by
  rw [List.takeWhile_append_of_pos ha]
  cases t with
  | nil => simp
  | cons c t => rw [List.takeWhile_cons_of_neg (by simp [ht c (by simp)]), List.append_nil]

theorem not_break_of_fence {q : List Char} (h : (fence? q).isSome = true) :
    ∀ c ∈ q.head?, isLineBreak c = false := by
  intro c hc
  cases q with
  | nil => cases hc
  | cons d q =>
    obtain rfl : d = c := by simpa using hc
    rcases eq_of_isSome_fence? h with rfl | rfl <;> rfl

/-- If reading gives markup that was written before code, then the code was read first. -/
theorem opening_of_written {m w : List Char} {b : FencedBlock} {bs : List FencedBlock}
    (hm : Trimmed m) (hw : Opens w)
    (hb : ofKind isRustInfo (blocksFrom [] false (m ++ (['\n', '\n'] ++ w))) = b :: bs)
    (h : markup? (partBefore (m ++ (['\n', '\n'] ++ w)) b.opening) = some (.markup m)) :
    b.opening = w := by
  obtain ⟨a, n, z, hpart, ha, hz, -, hn⟩ := markup?_eq_some h
  obtain rfl : m = n := Cell.markup.inj hn
  have hwhole := (opening_of_first hb).2
  obtain ⟨⟨y, k, hst⟩, -, -, -⟩ := blocksFrom_first hb
  obtain ⟨c, i, hf, -⟩ := hst.fence
  have hopen := not_break_of_fence (q := b.opening) (by rw [hf]; rfl)
  -- The markup starts the text, so that no line ends stand before it.
  have hanil : a = [] := by
    cases a with
    | nil => rfl
    | cons d a =>
      have hd := ha d (by simp)
      rw [hpart] at hwhole
      have hhead := congrArg List.head? hwhole
      have hstart : Started (m ++ (['\n', '\n'] ++ w)) := by
        obtain ⟨e, m, rfl⟩ := List.exists_cons_of_ne_nil hm.ne_nil
        exact hm.started
      have := hstart d (by rw [hhead]; rfl)
      rw [this] at hd
      cases hd
  rw [hpart, hanil, List.nil_append, List.append_assoc, List.append_cancel_left_eq] at hwhole
  have hfeeds : Breaks ['\n', '\n'] := by simp [Breaks, isLineBreak]
  have hz' := takeWhile_breaks hz hopen
  rw [← hwhole, takeWhile_breaks hfeeds (not_break_of_fence hw.fence)] at hz'
  rw [← hz', List.append_cancel_left_eq] at hwhole
  exact hwhole.symm

/-- Markup before code is sealed if the cells are read as they were written. -/
theorem sealed_of_read_written (hf : Formed cells) (h : read text (written cells) = .ok cells) :
    ∀ m, .markup m ∈ cells.dropLast → Sealed m := by
  induction hf with
  | nil => simp
  | last h hm => simp
  | @markup m c cs hm hc hcs ih =>
    obtain ⟨hopens, b', bs', hfirst, hopening, hclosed⟩ := opens_written hc cs
    rw [written_cons] at h
    have hread : read text (m ++ (['\n', '\n'] ++ written (c :: cs))) = _ := h
    rcases read_cases hread with ⟨-, hnone⟩ | ⟨b, bs, rest, hb, -, -, heq⟩
    · have hlen := congrArg List.length hnone
      have := Option.length_toList_le (o := markup? (m ++ (['\n', '\n'] ++ written (c :: cs))))
      simp only [List.length_cons] at hlen
      omega
    have hmarkup : markup? (partBefore (m ++ (['\n', '\n'] ++ written (c :: cs))) b.opening) =
        some (.markup m) := by
      cases hm' : markup? (partBefore (m ++ (['\n', '\n'] ++ written (c :: cs))) b.opening) with
      | none =>
        rw [hm'] at heq
        have hcode := Cell.ofBlock_isCode b.code
        obtain ⟨hhead, -⟩ := List.cons.inj heq
        rw [← hhead] at hcode
        cases hcode
      | some d =>
        rw [hm'] at heq
        rw [(List.cons.inj heq).1]
    have hb' := opening_of_written hm hopens hb hmarkup
    have hne : written (c :: cs) ≠ [] := fun hnil => by
      have := hopens.fence
      rw [hnil] at this
      cases this
    have hspace : (written (c :: cs)).dropWhile (· = ' ') = written (c :: cs) := by
      have := dropWhile_fence 0 hopens.fence
      rwa [List.replicate_zero, List.nil_append] at this
    have hfirst' : FirstOpens isRustInfo (written (c :: cs))
        (blocksFrom [] false (m ++ (['\n', '\n'] ++ written (c :: cs)))) := by
      rw [FirstOpens, hb, if_neg hne, hspace, ← hb']
      rfl
    have hseal : Sealed m := by
      rw [sealed_iff, FirstOpens, blocksFrom_sealed hm.unbroken hopens rustFence_opens hfirst']
      exact rustFence_first
    have hsame := blocksFrom_sealed hm.unbroken hopens hopens hfirst'
    rw [read_markup hm hfirst hopening hclosed hsame] at hread
    have hrest : read text (written (c :: cs)) = .ok (c :: cs) := by
      cases hr : read text (written (c :: cs)) with
      | error e =>
        rw [hr] at hread
        cases hread
      | ok cells =>
        rw [hr] at hread
        rw [(List.cons.inj (Except.ok.inj hread)).2]
    intro n hn
    rw [List.dropLast_cons_of_ne_nil (by simp), List.mem_cons] at hn
    rcases hn with hn | hn
    · rw [Cell.markup.inj hn]
      exact hseal
    · exact ih hrest n hn
  | @code c cs hc hcs ih =>
    have hrest : read text (written cs) = .ok cs := by
      cases cs with
      | nil =>
        show read text ['\n'] = _
        rw [read_feed, read_nil]
      | cons d cs =>
        have hends : Ends (['\n', '\n'] ++ written (d :: cs)) := ends_cons.2 rfl
        rw [written_cons, read_code text hc hends, List.cons_append, List.cons_append,
          List.nil_append, read_feed, read_feed] at h
        cases hr : read text (written (d :: cs)) with
        | error e =>
          rw [hr] at h
          cases h
        | ok cells =>
          rw [hr] at h
          rw [(List.cons.inj (Except.ok.inj h)).2]
    intro n hn
    cases cs with
    | nil => cases hn
    | cons d cs =>
      rw [List.dropLast_cons_of_ne_nil (by simp), List.mem_cons] at hn
      rcases hn with hn | hn
      · rw [← hn] at hc
        cases hc
      · exact ih hrest n hn

/-! ### Texts in which no carriage return stands alone -/

theorem sealed_of_paired (hp : Paired s) (h : read text s = .ok cells) :
    ∀ m, .markup m ∈ cells.dropLast → Sealed m := by
  refine read_induction (P := fun s cells => Paired s → ∀ m, .markup m ∈ cells.dropLast → Sealed m)
    ?_ ?_ h hp
  · intro s hb hp m hm
    cases hs : markup? s with
    | none =>
      rw [hs] at hm
      cases hm
    | some c =>
      rw [hs] at hm
      cases hm
  · intro s b bs rest hb hclosed ih hp m hm
    have hrest (hm : .markup m ∈ (Cell.ofBlock b.code :: rest).dropLast) : Sealed m := by
      cases rest with
      | nil => cases hm
      | cons d rest =>
        rw [List.dropLast_cons_of_ne_nil (by simp), List.mem_cons] at hm
        rcases hm with hm | hm
        · have hcode := Cell.ofBlock_isCode b.code
          rw [← hm] at hcode
          cases hcode
        · exact ih (hp.suffix (opening_of_first hb).1.1) m hm
    cases hs : markup? (partBefore s b.opening) with
    | none =>
      rw [hs] at hm
      exact hrest hm
    | some c =>
      rw [hs] at hm
      rw [Option.toList_some, List.singleton_append, List.dropLast_cons_of_ne_nil (by simp),
        List.mem_cons] at hm
      rcases hm with rfl | hm
      · exact sealed_of_first hp hb hs
      · exact hrest hm

/-- Code that is read from such a text has no carriage return, nor have its results. -/
theorem not_mem_body (hp : Paired s) (h : read text s = .ok cells) :
    ∀ c ∈ cells, ∀ body ∈ c.body?, '\r' ∉ body := by
  refine read_induction
    (P := fun s cells => Paired s → ∀ c ∈ cells, ∀ body ∈ c.body?, '\r' ∉ body) ?_ ?_ h hp
  · intro s hb hp c hc body hbody
    obtain ⟨a, m, z, -, -, -, -, rfl⟩ := markup?_eq_some (Option.mem_toList.1 hc)
    cases hbody
  · intro s b bs rest hb hclosed ih hp c hc body hbody
    rcases List.mem_append.1 hc with hc | hc
    · obtain ⟨a, m, z, -, -, -, -, rfl⟩ := markup?_eq_some (Option.mem_toList.1 hc)
      cases hbody
    rcases List.mem_cons.1 hc with rfl | hc
    · obtain ⟨⟨y, k, hst⟩, -, -, -⟩ := blocksFrom_first hb
      obtain ⟨i, n, -, heq⟩ := hst.fence
      have hopening : b.opening <:+ s := ⟨_, (opening_of_first hb).2.symm⟩
      have hcode : '\r' ∉ b.code := by
        rw [heq]
        exact not_mem_code (hp.suffix hopening) [] k n i
      obtain ⟨u, hu, hcr⟩ := Cell.body_of_ofText rfl hbody
      rw [hu, List.mem_append, not_or]
      refine ⟨fun hm => hcode ?_, fun hm => hcr '\r' hm rfl⟩
      cases hd : Text.dropSuffix? ['\n'] b.code with
      | none =>
        rw [hd] at hm
        exact hm
      | some r =>
        rw [hd] at hm
        rw [Text.dropSuffix?_eq_some.1 hd]
        exact List.mem_append_left _ hm
    · exact ih (hp.suffix (opening_of_first hb).1.1) c hc body hbody

end

theorem ofMarkdown_eq_ok {text : List Char} {d : Document} :
    ofMarkdown text = .ok d ↔ read text text = .ok d.cells := by
  rw [ofMarkdown_eq]
  cases read text text with
  | error e => exact iff_of_false (by rintro ⟨⟩) (by rintro ⟨⟩)
  | ok cells =>
    constructor
    · intro h
      rw [← Except.ok.inj h]
    · intro h
      rw [Except.ok.inj h]
      rfl

theorem stable_of_paired {text : List Char} {d : Document} (hp : Paired text)
    (h : ofMarkdown text = .ok d) : d.Stable ↔ ∀ c ∈ d.cells, c.Reported := by
  rw [ofMarkdown_eq_ok] at h
  refine ⟨Stable.reports, fun hr => ⟨fun c hc body hb hi => ?_, hr, sealed_of_paired hp h⟩⟩
  have := not_mem_body hp h c hc body hb
  have hmem : '\r' ∈ body ++ ['\n'] := hi.subset (by simp)
  simp [this] at hmem

/-- A document that was read from Markdown is read again as it was written if and only if it is
stable. If no carriage return stands alone in the text, then only a report that ends with the mark of
one makes a difference. -/
theorem read_again_iff (text : List Char) (d : Document) (h : ofMarkdown text = .ok d) :
    (ofMarkdown d.toMarkdown = .ok d ↔ d.Stable) ∧
      (Paired text → (ofMarkdown d.toMarkdown = .ok d ↔ ∀ c ∈ d.cells, c.Reported)) := by
  have hread := ofMarkdown_eq_ok.1 h
  obtain ⟨hf, hm⟩ := formed_of_read hread
  have hstable : ofMarkdown d.toMarkdown = .ok d ↔ d.Stable := by
    rw [ofMarkdown_eq_ok, toMarkdown_eq]
    constructor
    · intro hsame
      have hs := sealed_of_read_written hf hsame
      obtain ⟨h1, h2⟩ := (read_written_iff _ hf hm hs).1 hsame
      exact ⟨h1, h2, hs⟩
    · rintro ⟨h1, h2, hs⟩
      exact (read_written_iff _ hf hm hs).2 ⟨h1, h2⟩
  exact ⟨hstable, fun hp => hstable.trans (stable_of_paired hp h)⟩

theorem read_again_printed : ∃ d, d.cells = [.markup "# A".toList, .evaluated ['x'] ['1'] []] ∧
    ofMarkdown ("# A\n\n```rust\nx\n\n/* rmnb:result\n1\n*/\n/* rmnb:stderr\n\n*/\n" ++
      "```\n").toList = .ok d ∧ ofMarkdown d.toMarkdown = .ok d := by
  have hread : ofMarkdown ("# A\n\n```rust\nx\n\n/* rmnb:result\n1\n*/\n/* rmnb:stderr\n\n*/\n" ++
      "```\n").toList = .ok ⟨[.markup "# A".toList, .evaluated ['x'] ['1'] []]⟩ := by
    decide +kernel
  refine ⟨_, rfl, hread, ((read_again_iff _ _ hread).2 (paired_of_not_mem (by decide))).2 ?_⟩
  simp only [List.mem_cons, List.not_mem_nil, or_false, forall_eq_or_imp, forall_eq, Cell.Reported,
    true_and]
  decide

/-- The report of this cell ends like the mark of one, which is found there when it is read again. -/
theorem read_again_altered : ∃ d e,
    ofMarkdown ("```rust\nx\n\n/* rmnb:result\n1\n*/\n/* rmnb:stderr\nfoo\n*/\n" ++
      "/* rmnb:stderr\n```\n").toList = .ok d ∧
    d.cells = [.evaluated ['x'] ['1'] "foo\n*/\n/* rmnb:stderr".toList] ∧
    ofMarkdown d.toMarkdown = .ok e ∧
    e.cells = [.evaluated ['x'] "1\n*/\n/* rmnb:stderr\nfoo".toList "*/".toList] ∧ d ≠ e := by
  refine ⟨⟨[.evaluated ['x'] ['1'] "foo\n*/\n/* rmnb:stderr".toList]⟩,
    ⟨[.evaluated ['x'] "1\n*/\n/* rmnb:stderr\nfoo".toList "*/".toList]⟩, ?_, rfl, ?_, rfl, ?_⟩
  · decide +kernel
  · decide +kernel
  · decide

end Document

end Notebook
