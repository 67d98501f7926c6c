import Notebook.Proofs.Document.Reading
import Notebook.Proofs.Markdown.Closing

/-!
Which blocks of Rust count as closed, and what is read of a text with one that does not.
-/

namespace Notebook

open Markdown

namespace Document

/-- But for blanks, a text ends with a line of `n` marks `c` or more. -/
def EndsMarked (c : Char) (n : Nat) (s : List Char) : Prop :=
  ∃ y w m z, n ≤ m ∧ Text.allBlank w = true ∧ '\n' ∉ w ∧ Text.allBlank z = true ∧
    s = y ++ '\n' :: (w ++ (List.replicate m c ++ z))

/-- The text ends with what is a closing fence of the block if blanks do not count. -/
def LooksClosed (b : FencedBlock) : Prop :=
  ∃ c n, fence? b.opening = some (c, n) ∧ EndsMarked c n b.opening

/-- A block of Rust that nothing closes. -/
structure Open (b : FencedBlock) : Prop where
  rust : isRust b = true
  unclosed : ¬ b.ClosedBy (· = ' ')
  apparent : ¬ LooksClosed b

/-- Where a block starts in a text, lines being counted from one. -/
def lineOf (text : List Char) (b : FencedBlock) : Nat :=
  (partBefore text b.opening).count '\n' + 1

/-! ### Blanks around a text -/

section

variable {s v : List Char} {c : Char} {n : Nat}

theorem exists_trimEnd (s : List Char) : ∃ v z, s = v ++ z ∧ Text.allBlank z = true ∧
    ∀ d ∈ v.getLast?, Text.isBlank d = false := by
  refine ⟨(s.reverse.dropWhile Text.isBlank).reverse, (s.reverse.takeWhile Text.isBlank).reverse,
    ?_, ?_, ?_⟩
  · rw [← List.reverse_append, List.takeWhile_append_dropWhile, List.reverse_reverse]
  · rw [Text.allBlank, List.all_reverse, List.all_takeWhile]
  · intro d hd
    rw [List.getLast?_reverse] at hd
    have := List.head?_dropWhile_not Text.isBlank s.reverse
    rw [Option.mem_def.1 hd] at this
    simpa using this

theorem trimEnd_append {z : List Char} (hv : ∀ d ∈ v.getLast?, Text.isBlank d = false)
    (hz : Text.allBlank z = true) : Text.trimEnd (v ++ z) = v := by
  rw [Text.trimEnd, dropEndWhile_append (by simpa [Text.allBlank] using hz)]
  exact dropEndWhile_of_last hv

theorem exists_trim (s : List Char) : ∃ w z, s = w ++ (Text.trim s ++ z) ∧
    Text.allBlank w = true ∧ Text.allBlank z = true := by
  obtain ⟨v, z, hv, hz, hlast⟩ := exists_trimEnd (s.dropWhile Text.isBlank)
  refine ⟨s.takeWhile Text.isBlank, z, ?_, ?_, hz⟩
  · have htrim : Text.trim s = v := by
      rw [Text.trim, Text.trimWhile, hv]
      exact trimEnd_append hlast hz
    rw [htrim, ← hv, List.takeWhile_append_dropWhile]
  · rw [Text.allBlank, List.all_takeWhile]

theorem trim_marks {w : List Char} (hc : c = '`' ∨ c = '~') (hw : Text.allBlank w = true)
    (m : Nat) :
    Text.trim (w ++ List.replicate m c) = List.replicate m c := by
  have hblank {d : Char} (hd : d ∈ List.replicate m c) : Text.isBlank d = false := by
    rw [List.eq_of_mem_replicate hd]
    rcases hc with rfl | rfl <;> rfl
  rw [Text.trim, Text.trimWhile, List.dropWhile_append_of_pos (by simpa [Text.allBlank] using hw),
    dropWhile_of_head fun d hd => hblank (List.mem_of_mem_head? hd)]
  exact dropEndWhile_of_last fun d hd => hblank (List.mem_of_getLast? hd)

theorem exists_lastLine (h : '\n' ∈ s) : ∃ y z, s = y ++ '\n' :: z ∧ '\n' ∉ z := by
  obtain ⟨z, y, hs, hz⟩ := List.eq_append_cons_of_mem (List.mem_reverse.2 h)
  refine ⟨y.reverse, z.reverse, ?_, by simpa using hz⟩
  have := congrArg List.reverse hs
  simpa using this

theorem endsMarked_iff {t x : List Char} (hc : c = '`' ∨ c = '~') (hn : 0 < n)
    (ht : ∀ d ∈ t.getLast?, Text.isBlank d = false) (hx : Text.allBlank x = true) :
    EndsMarked c n (t ++ x) ↔ ∃ y z, t = y ++ '\n' :: z ∧ '\n' ∉ z ∧
      (Text.trim z).all (· = c) = true ∧ n ≤ (Text.trim z).length := by
  constructor
  · rintro ⟨y, w, m, z, hm, hw, hfeed, hz, heq⟩
    have hblank : Text.isBlank c = false := by rcases hc with rfl | rfl <;> rfl
    have hmarks : ∀ d ∈ (y ++ '\n' :: (w ++ List.replicate m c)).getLast?,
        Text.isBlank d = false := by
      obtain ⟨i, rfl⟩ : ∃ i, m = i + 1 := ⟨m - 1, by omega⟩
      intro d hd
      rw [List.replicate_succ', ← List.append_assoc, ← List.cons_append, ← List.append_assoc,
        List.getLast?_concat] at hd
      cases hd
      exact hblank
    have htrimmed : t = y ++ '\n' :: (w ++ List.replicate m c) := by
      have hsplit : y ++ '\n' :: (w ++ (List.replicate m c ++ z)) =
          (y ++ '\n' :: (w ++ List.replicate m c)) ++ z := by simp
      rw [← trimEnd_append ht hx, heq, hsplit]
      exact trimEnd_append hmarks hz
    refine ⟨y, w ++ List.replicate m c, htrimmed, ?_, ?_, ?_⟩
    · intro hmem
      rcases List.mem_append.1 hmem with hmem | hmem
      · exact hfeed hmem
      · rw [← List.eq_of_mem_replicate hmem] at hblank
        cases hblank
    · rw [trim_marks hc hw]
      simp
    · rw [trim_marks hc hw]
      simpa using hm
  · rintro ⟨y, z, rfl, hz, hall, hlen⟩
    obtain ⟨w, z', hw, hblank, hz'⟩ := exists_trim z
    have hreplicate : Text.trim z = List.replicate (Text.trim z).length c :=
      List.eq_replicate_iff.2 ⟨rfl, by simpa using hall⟩
    refine ⟨y, w, _, z' ++ x, hlen, hblank, ?_, by rw [allBlank_append, hz', hx]; rfl, ?_⟩
    · intro hmem
      exact hz (by rw [hw]; exact List.mem_append_left _ hmem)
    · rw [← hreplicate]
      nth_rewrite 1 [hw]
      simp only [List.append_assoc, List.cons_append]

/-! ### The check of the last line -/

theorem isClosed_of_trimEnd {b : FencedBlock} (hc : c = '`' ∨ c = '~') (hn : 3 ≤ n)
    (hv : v.head? ≠ some c)
    (hraw : Text.trimEnd (partBefore b.opening b.closing) = List.replicate n c ++ v) :
    isClosed b = true ↔ ∃ y z, List.replicate n c ++ v = y ++ '\n' :: z ∧ '\n' ∉ z ∧
      (Text.trim z).all (· = c) = true ∧ n ≤ (Text.trim z).length := by
  have htake := takeWhile_fence n hv
  obtain ⟨m, rfl⟩ : ∃ m, n = m + 1 := ⟨n - 1, by omega⟩
  rw [List.replicate_succ, List.cons_append] at *
  have hblank : Text.isBlank c = false := by rcases hc with rfl | rfl <;> rfl
  have hdrop : (c :: (List.replicate m c ++ v)).dropWhile Text.isBlank =
      c :: (List.replicate m c ++ v) := List.dropWhile_cons_of_neg (by simp [hblank])
  simp only [isClosed, hraw, hdrop, htake, List.length_cons, List.length_replicate]
  by_cases hfeed : '\n' ∈ c :: (List.replicate m c ++ v)
  · obtain ⟨y, z, hyz, hz⟩ := exists_lastLine hfeed
    obtain ⟨l, ls, hl⟩ := List.exists_cons_of_ne_nil (Text.splitLines_ne_nil y)
    have hlines : Text.splitLines (c :: (List.replicate m c ++ v)) = l :: (ls ++ [z]) := by
      rw [hyz, splitLines_append, hl, splitLines_line hz]
      rfl
    have hsame {y' z' : List Char} (h : c :: (List.replicate m c ++ v) = y' ++ '\n' :: z')
        (hz' : '\n' ∉ z') : z' = z := by
      have := congrArg (fun t => (Text.splitLines t).getLast?) (h.symm.trans hyz)
      simpa [splitLines_append, splitLines_line hz, splitLines_line hz'] using this
    rw [hlines]
    obtain ⟨l', ls', hcons⟩ := List.exists_cons_of_ne_nil (List.append_ne_nil_of_right_ne_nil ls
      (List.cons_ne_nil z []))
    have hlast : (l' :: ls').getLast (List.cons_ne_nil l' ls') = z := by
      simp only [← hcons, List.getLast_concat]
    rw [hcons]
    simp only [hlast, Bool.and_eq_true, decide_eq_true_eq]
    constructor
    · rintro ⟨hall, hlen⟩
      exact ⟨y, z, hyz, hz, hall, hlen⟩
    · rintro ⟨y', z', h, hz', hall, hlen⟩
      rw [hsame h hz'] at hall hlen
      exact ⟨hall, hlen⟩
  · rw [splitLines_line hfeed]
    simp only [Bool.false_eq_true, false_iff]
    rintro ⟨y, z, h, -⟩
    exact hfeed (by simp [h])

/-- A block is taken as closed if what it ends with is, blanks aside, a line of its marks. -/
theorem isClosed_iff {b : FencedBlock} (hf : fence? b.opening = some (c, n))
    (hs : b.closing <:+ b.opening.drop n) :
    isClosed b = true ↔ EndsMarked c n (partBefore b.opening b.closing) := by
  obtain ⟨hc, hn, hlen⟩ := fence?_eq_some hf
  obtain ⟨u, hu⟩ := hs
  have hopening : b.opening = List.replicate n c ++ u ++ b.closing := by
    rw [List.append_assoc, hu, ← take_of_fence hf, List.take_append_drop]
  have hpart : partBefore b.opening b.closing = List.replicate n c ++ u := by
    nth_rewrite 1 [hopening]
    exact partBefore_append _ _
  obtain ⟨v, x, rfl, hx, hlast⟩ := exists_trimEnd u
  have hends : ∀ d ∈ (List.replicate n c ++ v).getLast?, Text.isBlank d = false := by
    intro d hd
    rw [List.getLast?_append, Option.mem_def, Option.or_eq_some_iff] at hd
    rcases hd with hd | ⟨-, hd⟩
    · exact hlast d hd
    · rw [List.eq_of_mem_replicate (List.mem_of_getLast? hd)]
      rcases hc with rfl | rfl <;> rfl
  have hhead : v.head? ≠ some c := by
    intro h
    obtain ⟨v', rfl⟩ := List.head?_eq_some_iff.1 h
    rw [hopening, List.append_assoc, List.takeWhile_append_of_pos (by simp), List.cons_append,
      List.cons_append, List.takeWhile_cons_of_pos (by simp)] at hlen
    simp at hlen
  rw [← List.append_assoc] at hpart
  rw [isClosed_of_trimEnd hc hn hhead (by rw [hpart]; exact trimEnd_append hends hx), hpart,
    endsMarked_iff hc (by omega) hends hx]

end

/-! ### Blocks that nothing closes -/

section

variable {text s y : List Char} {k : Nat} {b : FencedBlock}

theorem closing_suffix_drop {c : Char} {n : Nat} (hb : b = fencedBlock [] k c n b.opening) :
    b.closing <:+ b.opening.drop n := by
  rw [hb]
  exact (readOn_suffix codeLine_suffix _).trans
    ((afterLine_suffix _).trans (List.dropWhile_suffix _))

/-- The code of a block goes up to a line that closes it, or no line does and it goes on to the end
of the text. -/
theorem closing_cases (h : Stands s y k b) :
    (∃ c n r, fence? b.opening = some (c, n) ∧ LineIn b.opening r ∧
        ClosesFence (· = ' ') c n r b.closing) ∨
      (b.closing = [] ∧ ¬ b.ClosedBy (· = ' ')) := by
  obtain ⟨c, n, hf, hb⟩ := h.fence
  have hend : fencedEnd [] k c n b.opening = b.closing := by rw [fencedEnd, ← hb]
  rcases fencedEnd_cases hf h.narrow with ⟨r, hr, hcl⟩ | ⟨hnil, hall⟩
  · rw [hend] at hcl
    exact .inl ⟨c, n, r, hf, hr, hcl⟩
  · refine .inr ⟨hend.symm.trans hnil, ?_⟩
    rintro ⟨c', n', r, t, hf', hr, hcl⟩
    obtain ⟨rfl, rfl⟩ : c = c' ∧ n = n' := by simpa [hf] using hf'
    exact hall r t hr hcl

theorem isClosed_iff_closedBy (h : Stands s y k b) :
    isClosed b = true ↔ b.ClosedBy (· = ' ') ∨ LooksClosed b := by
  obtain ⟨c, n, hf, hb⟩ := h.fence
  rw [isClosed_iff hf (closing_suffix_drop hb)]
  rcases closing_cases h with ⟨c', n', r, hf', ⟨y, hy⟩, hcl⟩ | ⟨hnil, hopen⟩
  · obtain ⟨rfl, rfl⟩ : c = c' ∧ n = n' := by simpa [hf] using hf'
    refine iff_of_true ?_ (.inl ⟨c, n, r, b.closing, hf, ⟨y, hy⟩, hcl⟩)
    obtain ⟨i, m, w, -, hm, hw, -, hr⟩ := hcl
    have hopening : b.opening =
        (y ++ '\n' :: (List.replicate i ' ' ++ (List.replicate m c ++ w))) ++ b.closing := by
      rw [hy, hr]
      simp
    have hpart : partBefore b.opening b.closing =
        y ++ '\n' :: (List.replicate i ' ' ++ (List.replicate m c ++ w)) := by
      nth_rewrite 1 [hopening]
      exact partBefore_append _ _
    have hblank {l : List Char} (hl : ∀ d ∈ l, d = ' ') : Text.allBlank l = true := by
      rw [Text.allBlank, List.all_eq_true]
      intro d hd
      rw [hl d hd]
      rfl
    refine ⟨y, List.replicate i ' ', m, w, hm, hblank fun d hd => List.eq_of_mem_replicate hd, ?_,
      hblank hw, hpart⟩
    intro hmem
    cases List.eq_of_mem_replicate hmem
  · have hpart : partBefore b.opening b.closing = b.opening := by simp [partBefore, hnil]
    rw [hpart]
    constructor
    · exact fun hm => .inr ⟨c, n, hf, hm⟩
    · rintro (hcl | ⟨c', n', hf', hm⟩)
      · exact absurd hcl hopen
      · obtain ⟨rfl, rfl⟩ : c = c' ∧ n = n' := by simpa [hf] using hf'
        exact hm

theorem closing_eq_nil (h : Stands s y k b) (hopen : ¬ b.ClosedBy (· = ' ')) : b.closing = [] := by
  rcases closing_cases h with ⟨c, n, r, hf, hr, hcl⟩ | ⟨hnil, -⟩
  · exact absurd ⟨c, n, r, b.closing, hf, hr, hcl⟩ hopen
  · exact hnil

theorem read_eq_error_of_closed {bs : List FencedBlock} {u : Unterminated}
    (hb : ofKind isRustInfo (blocksFrom [] false s) = b :: bs) (hclosed : isClosed b = true) :
    read text s = .error u ↔ read text b.closing = .error u := by
  rw [read_of_first hb hclosed]
  cases read text b.closing <;> simp [Except.map]

theorem read_of_open {bs : List FencedBlock}
    (hb : ofKind isRustInfo (blocksFrom [] false s) = b :: bs) (hopen : ¬ isClosed b = true) :
    read text s = .error ⟨lineOf text b⟩ := by
  rw [read, blocks, filter_isRust, hb, cellsOf, if_neg hopen]
  rfl

/-- The blocks of Rust from a place on are checked in their order; one that is not closed is the
last. -/
theorem read_eq_error (s : List Char) (u : Unterminated) :
    read text s = .error u ↔
      ∃ b ∈ ofKind isRustInfo (blocksFrom [] false s), ¬ b.ClosedBy (· = ' ') ∧
        ¬ LooksClosed b ∧ u = ⟨lineOf text b⟩ := by
  induction hlen : s.length using Nat.strong_induction_on generalizing s with
  | _ l ih =>
    cases hb : ofKind isRustInfo (blocksFrom [] false s) with
    | nil =>
      rw [read_of_none hb]
      simp
    | cons b bs =>
      obtain ⟨⟨y, k, hst⟩, -, -, hbs⟩ := blocksFrom_first hb
      have hcheck := isClosed_iff_closedBy hst
      by_cases hclosed : isClosed b = true
      · have hlater := (opening_of_first hb).1
        rw [read_eq_error_of_closed hb hclosed, ih _ (hlen ▸ hlater.2) b.closing rfl, ← hbs]
        constructor
        · rintro ⟨b', hb', h⟩
          exact ⟨b', List.mem_cons_of_mem b hb', h⟩
        · rintro ⟨b', hb', hopen, hlook, hu⟩
          rcases List.mem_cons.1 hb' with rfl | hb'
          · exact absurd (hcheck.1 hclosed) (not_or.2 ⟨hopen, hlook⟩)
          · exact ⟨b', hb', hopen, hlook, hu⟩
      · obtain ⟨hopen, hlook⟩ := not_or.1 (mt hcheck.2 hclosed)
        have hlast : bs = [] := by
          rw [hbs, closing_eq_nil hst hopen, blocksFrom_nil]
          rfl
        rw [read_of_open hb hclosed, hlast]
        constructor
        · intro h
          cases h
          exact ⟨b, List.mem_singleton_self b, hopen, hlook, rfl⟩
        · rintro ⟨b', hb', -, -, rfl⟩
          rw [List.mem_singleton.1 hb']

/-- Reading fails with the line of a block of Rust that nothing closes, and only then. What only
looks like a closing fence counts as one at the end of the text. -/
theorem unterminated_iff (text : List Char) :
    (∀ u, ofMarkdown text = .error u ↔ ∃ b ∈ blocks text, Open b ∧ u = ⟨lineOf text b⟩) ∧
      ((∃ d, ofMarkdown text = .ok d) ↔ ∀ b ∈ blocks text, ¬ Open b) := by
  have herror (u : Unterminated) :
      ofMarkdown text = .error u ↔ ∃ b ∈ blocks text, Open b ∧ u = ⟨lineOf text b⟩ := by
    have hread : ofMarkdown text = .error u ↔ read text text = .error u := by
      rw [ofMarkdown_eq]
      cases read text text <;> simp [Except.map]
    rw [hread, read_eq_error]
    constructor
    · rintro ⟨b, hb, hopen, hlook, hu⟩
      obtain ⟨hb, hrust⟩ := List.mem_filter.1 hb
      exact ⟨b, hb, ⟨hrust, hopen, hlook⟩, hu⟩
    · rintro ⟨b, hb, hopen, hu⟩
      exact ⟨b, List.mem_filter.2 ⟨hb, hopen.rust⟩, hopen.unclosed, hopen.apparent, hu⟩
  refine ⟨herror, ?_⟩
  constructor
  · rintro ⟨d, hd⟩ b hb hopen
    rw [(herror _).2 ⟨b, hb, hopen, rfl⟩] at hd
    cases hd
  · intro h
    cases hd : ofMarkdown text with
    | ok d => exact ⟨d, rfl⟩
    | error u =>
      obtain ⟨b, hb, hopen, -⟩ := (herror u).1 hd
      exact absurd hopen (h b hb)

/-- A block that only a fence in its own code could close, being indented by four. -/
def indentedFence : List Char := "```rust\nx\n    ```\n".toList

/-- The block of this text has no closing fence, and it is read without an error. -/
theorem unterminated_accepted : ¬ ∀ text u, ofMarkdown text = .error u ↔
    ∃ b ∈ blocks text, isRust b = true ∧ ¬ b.ClosedBy (fun d => d = ' ' ∨ d = '\t') ∧
      u = ⟨lineOf text b⟩ := by
  intro h
  have hread : ofMarkdown indentedFence = .ok ⟨[.code "x\n    ```".toList]⟩ := by decide +kernel
  have hblocks : blocks indentedFence =
      [⟨indentedFence, [], "rust".toList, "x\n    ```\n".toList⟩] := by decide +kernel
  have hopen : ¬ FencedBlock.ClosedBy (fun d => d = ' ' ∨ d = '\t')
      ⟨indentedFence, [], "rust".toList, "x\n    ```\n".toList⟩ := by
    rintro ⟨c, n, r, t, hf, hr, k, m, w, hk, hm, -, -, heq⟩
    obtain ⟨rfl, rfl⟩ : '`' = c ∧ 3 = n := by
      have hfence : fence? indentedFence = some ('`', 3) := by decide +kernel
      simpa using hfence.symm.trans hf
    obtain ⟨i, rfl⟩ : ∃ i, m = i + 1 := ⟨m - 1, by omega⟩
    have hlines : r = "x\n    ```\n".toList ∨ r = "    ```\n".toList ∨ r = [] := by
      rw [lineIn_iff hr.mem] at hr
      refine hr.imp id fun hr => ?_
      rw [lineIn_iff hr.mem] at hr
      refine hr.imp id fun hr => ?_
      rw [lineIn_iff hr.mem] at hr
      exact hr.resolve_right fun h => absurd h.mem (by decide)
    rcases hlines with rfl | rfl | rfl
    · rcases k with _ | k <;> simp [List.replicate_succ] at heq
    · rcases k with _ | _ | _ | _ | k
      case succ.succ.succ.succ => omega
      all_goals simp [List.replicate_succ] at heq
    · simp at heq
  have := (h indentedFence ⟨1⟩).2 ⟨_, by rw [hblocks]; exact List.mem_singleton_self _,
    by decide +kernel, hopen, by decide +kernel⟩
  rw [hread] at this
  cases this

/-! ### Written fences -/

/-- Nothing in a text ends the block that is written around it. -/
theorem fenced_kept (body : List Char) (h : '\r' ∉ body) :
    ofMarkdown (Cell.fenced body ++ ['\n']) = .ok ⟨[Cell.ofBlock (body ++ ['\n'])]⟩ ∧
      ∀ rest, ∃ b bs, blocks (Cell.fenced body ++ '\n' :: rest) = b :: bs ∧ isRust b = true ∧
        partBefore b.opening b.closing = Cell.fenced body ∧ b.closing = '\n' :: rest ∧
        isClosed b = true := by
  have hc : (Cell.code body).isCode = true := rfl
  have hcell : (Cell.code body).reread = Cell.ofBlock (body ++ ['\n']) := by
    rw [Cell.reread_of_body rfl, lineFeeds_of_not_mem (by simpa using h)]
  constructor
  · have hread := read_code (Cell.fenced body ++ ['\n']) hc (t := ['\n']) (ends_cons.2 rfl)
    rw [read_feed, read_nil, hcell] at hread
    rw [ofMarkdown_eq]
    exact congrArg (Except.map Document.mk) hread
  · intro rest
    refine ⟨_, _, Cell.blocksFrom_fenced body (ends_cons.2 rfl), ?_, partBefore_append _ _, rfl,
      isClosed_fenced body _ _ _⟩
    exact isRustInfo_rust

def fencesInside : List Char := "```\n~~~ <b>\n\t# A\n".toList

theorem fenced_kept_fences : '\r' ∉ fencesInside ∧
    ofMarkdown "````rust\n```\n~~~ <b>\n\t# A\n\n````\n".toList = .ok ⟨[.code fencesInside]⟩ := by
  have hcr : '\r' ∉ fencesInside := by decide
  have hfenced : Cell.fenced fencesInside ++ ['\n'] =
      "````rust\n```\n~~~ <b>\n\t# A\n\n````\n".toList := by decide +kernel
  have hcell : Cell.ofBlock (fencesInside ++ ['\n']) = .code fencesInside := by decide +kernel
  rw [← hfenced, ← hcell]
  exact ⟨hcr, (fenced_kept fencesInside hcr).1⟩

end

end Document

end Notebook
