import Notebook.Document.Scan
import Notebook.Proofs.Document.Parsed

/-!
Nothing of a text is lost or kept twice when it is cut into cells: its blocks of Rust are the code
cells, in their order, and the text between them is the markup.
-/

namespace Notebook.Document

open Markdown

/-! ### The events of an element -/

/-- What is told inside of an element adds text to the block that is open, and changes nothing
else. -/
def Scan.extend (st : Scan) (s : List Char) : Scan :=
  { st with block := st.block.map fun (e, code) => (e, code ++ s) }

theorem Scan.extend_nil (st : Scan) : st.extend [] = st := by
  rcases st with ⟨cells, cursor, depth, _ | ⟨e, code⟩⟩ <;> simp [extend]

theorem Scan.extend_extend (st : Scan) (s t : List Char) :
    (st.extend s).extend t = st.extend (s ++ t) := by
  rcases st with ⟨cells, cursor, depth, _ | ⟨e, code⟩⟩ <;> simp [extend]

/-- The state after all that is told. -/
def Scan.tell (text : List Char) (st : Scan) (ns : List Notice) : Except ScanFault Scan :=
  ns.foldlM (next text) st

section

variable {text : List Char} {st st' : Scan}

theorem Scan.tell_cons {n : Notice} (h : next text st n = .ok st') (ns : List Notice) :
    st.tell text (n :: ns) = st'.tell text ns := by
  rw [tell, List.foldlM_cons, h]
  rfl

theorem Scan.tell_append {ns : List Notice} (h : st.tell text ns = .ok st') (ms : List Notice) :
    st.tell text (ns ++ ms) = st'.tell text ms := by
  rw [tell, List.foldlM_append]
  exact congrArg (· >>= _) h

theorem Scan.tell_append_error {ns : List Notice} {f : ScanFault}
    (h : st.tell text ns = .error f) (ms : List Notice) : st.tell text (ns ++ ms) = .error f := by
  rw [tell, List.foldlM_append]
  exact congrArg (· >>= _) h

theorem Scan.next_start (hd : 0 < st.depth) (tag : Tag) (e : Extent) :
    next text st ⟨.start tag, e⟩ = .ok { st with depth := st.depth + 1 } := by
  have : (decide (st.depth = 0) && tag.isRust) = false := by simp [Nat.ne_of_gt hd]
  simp only [next, this]
  rfl

theorem Scan.next_finish (st : Scan) (hd : 0 < st.depth) (e : Extent) :
    next text { st with depth := st.depth + 1 } ⟨.finish, e⟩ = .ok st := by
  obtain ⟨cells, cursor, depth, block⟩ := st
  have : depth ≠ 0 := Nat.ne_of_gt hd
  cases block <;> simp [next, this]

mutual

theorem Scan.tell_inner (text : List Char) (x : Element) (st : Scan) (hd : 0 < st.depth) :
    st.tell text x.notices = .ok (st.extend x.content) :=
  match x with
  | .nested tag e inner => by
    have hin := tell_inners text inner { st with depth := st.depth + 1 } (Nat.succ_pos _)
    rw [Element.notices, List.cons_append, tell_cons (next_start hd tag e), tell_append hin]
    exact tell_cons (next_finish (st.extend (Element.content.contentOf inner)) hd e) []
  | .text s e => tell_cons rfl []
  | .other e => by
    rw [Element.notices, Element.content, extend_nil]
    exact tell_cons rfl []

theorem Scan.tell_inners (text : List Char) (xs : List Element) (st : Scan) (hd : 0 < st.depth) :
    st.tell text (Element.notices.noticesOf xs) =
      .ok (st.extend (Element.content.contentOf xs)) :=
  match xs with
  | [] => by
    rw [Element.notices.noticesOf, Element.content.contentOf, extend_nil]
    rfl
  | x :: xs => by
    rw [Element.notices.noticesOf, tell_append (tell_inner text x st hd),
      tell_inners text xs (st.extend x.content) hd, extend_extend]
    rfl

end

/-! ### Elements outside of all others -/

/-- Nothing is open. -/
def Scan.Idle (st : Scan) : Prop := st.depth = 0 ∧ st.block = none

/-- An element that is no block of Rust changes nothing. -/
theorem Scan.tell_other (hst : st.Idle) {x : Element} (hx : x.rust? = none) :
    st.tell text x.notices = .ok st := by
  obtain ⟨cells, cursor, depth, block⟩ := st
  obtain ⟨rfl, rfl⟩ : depth = 0 ∧ block = none := hst
  cases x with
  | nested tag e inner =>
    have htag : tag.isRust = false := by
      by_contra h
      rw [Element.rust?, if_pos (by simpa using h)] at hx
      cases hx
    have hstart : next text ⟨cells, cursor, 0, none⟩ ⟨.start tag, e⟩ =
        .ok ⟨cells, cursor, 1, none⟩ := by
      simp only [next, htag]
      rfl
    rw [Element.notices, List.cons_append, tell_cons hstart,
      tell_append (tell_inners text inner _ (Nat.succ_pos _))]
    exact tell_cons rfl []
  | text s e => exact tell_cons rfl []
  | other e => exact tell_cons rfl []

/-- A part of a text as a block. -/
def blockAt (text : List Char) (e : Extent) (code : List Char) : FencedBlock :=
  ⟨text.drop e.first, text.drop e.stop, [], code⟩

theorem slice_ok {e : Extent} (h : e.first ≤ e.stop) (h' : e.stop ≤ text.length) :
    slice text e = .ok ((text.take e.stop).drop e.first) := if_pos ⟨h, h'⟩

theorem partBefore_drop {i j : Nat} (hij : i ≤ j) (hj : j ≤ text.length) :
    partBefore (text.drop i) (text.drop j) = (text.take j).drop i := by
  rw [partBefore, List.length_drop, List.length_drop, List.drop_take]
  congr 1
  omega

theorem isClosed_slice {e : Extent} (h : e.first ≤ e.stop) (h' : e.stop ≤ text.length)
    (code : List Char) : isClosed ⟨(text.take e.stop).drop e.first, [], [], code⟩ =
      isClosed (blockAt text e code) := by
  simp only [isClosed, blockAt, partBefore_drop h h']
  simp only [partBefore, List.length_nil, Nat.sub_zero, List.take_length]

/-- A block of Rust becomes one code cell, after the markup before it. -/
theorem Scan.tell_rust (hst : st.Idle) {x : Element} {e : Extent} {code : List Char}
    (hx : x.rust? = some (e, code)) (hcursor : st.cursor ≤ e.first) (he : e.first ≤ e.stop)
    (hstop : e.stop ≤ text.length) : st.tell text x.notices =
      if isClosed (blockAt text e code) then
        .ok { st with
          cells := st.cells ++
            ((markup? ((text.take e.first).drop st.cursor)).toList ++ [Cell.ofBlock code])
          cursor := e.stop }
      else .error (.unterminated ⟨(text.take e.first).count '\n' + 1⟩) := by
  obtain ⟨cells, cursor, depth, block⟩ := st
  obtain ⟨rfl, rfl⟩ : depth = 0 ∧ block = none := hst
  cases x with
  | nested tag e' inner =>
    rw [Element.rust?] at hx
    split at hx
    · rename_i htag
      obtain ⟨rfl, rfl⟩ := Prod.mk.inj (Option.some.inj hx)
      have hstart : next text ⟨cells, cursor, 0, none⟩ ⟨.start tag, e'⟩ =
          .ok ⟨cells ++ (markup? ((text.take e'.first).drop cursor)).toList, cursor, 1,
            some (e', [])⟩ := by
        simp only [next, htag, openBlock, slice_ok (e := ⟨cursor, e'.first⟩) hcursor
          (he.trans hstop)]
        rfl
      rw [Element.notices, List.cons_append, tell_cons hstart,
        tell_append (tell_inners text inner _ (Nat.succ_pos _)), tell, List.foldlM_cons,
        ← isClosed_slice he hstop]
      simp only [next, extend, Option.map_some, List.nil_append, Nat.sub_self, if_true, closeBlock,
        slice_ok he hstop, slice_ok (e := ⟨0, e'.first⟩) (Nat.zero_le _) (he.trans hstop)]
      split
      · simp [bind, Except.bind, List.foldlM_nil, pure, Except.pure, *]
      · simp [bind, Except.bind, *]
    · cases hx
  | text s e => cases hx
  | other e => cases hx

/-! ### The cells of a text -/

/-- An info string has the first word `rust`, which ends at a blank, at a comma or with the
string. -/
def NamesRust (info : List Char) : Prop :=
  ∃ rest, info = "rust".toList ++ rest ∧ ∀ c ∈ rest.head?, Text.isBlank c = true ∨ c = ','

theorem takeWhile_eq_iff {α : Type} {p : α → Bool} {w s : List α} (hw : ∀ a ∈ w, p a = true) :
    s.takeWhile p = w ↔ ∃ rest, s = w ++ rest ∧ ∀ a ∈ rest.head?, p a = false := by
  constructor
  · rintro rfl
    refine ⟨s.dropWhile p, List.takeWhile_append_dropWhile.symm, fun a ha => ?_⟩
    have hstop := List.head?_dropWhile_not p s
    rw [Option.mem_def.1 ha] at hstop
    exact hstop
  · rintro ⟨rest, rfl, hstop⟩
    rw [List.takeWhile_append_of_pos hw]
    cases rest with
    | nil => exact List.append_nil w
    | cons a rest =>
      rw [List.takeWhile_cons_of_neg (by simp [hstop a rfl]), List.append_nil]

theorem firstWord_eq_rust {info : List Char} :
    firstWord info = "rust".toList ↔ NamesRust info := by
  rw [firstWord, takeWhile_eq_iff (List.all_eq_true.1 (by decide))]
  simp only [Bool.not_eq_false', Bool.or_eq_true, decide_eq_true_eq]
  rfl

theorem rust?_eq_some_iff {x : Element} {e : Extent} {code : List Char} :
    x.rust? = some (e, code) ↔ ∃ info inner, x = .nested (.fenced info) e inner ∧
      NamesRust info ∧ code = Element.content.contentOf inner := by
  constructor
  · intro h
    cases x with
    | nested tag e' inner =>
      rw [Element.rust?] at h
      split at h
      · rename_i htag
        obtain ⟨rfl, rfl⟩ := Prod.mk.inj (Option.some.inj h)
        cases tag with
        | fenced info => exact ⟨info, inner, rfl, firstWord_eq_rust.1 (of_decide_eq_true htag), rfl⟩
        | other => cases htag
      · cases h
    | text t e' => cases h
    | other e' => cases h
  · rintro ⟨info, inner, rfl, hinfo, rfl⟩
    exact if_pos (decide_eq_true (firstWord_eq_rust.2 hinfo))

/-- The fenced blocks of Rust among elements. -/
def rustBlocks (xs : List Element) : List (Extent × List Char) := xs.filterMap Element.rust?

def LineEnd (c : Char) : Prop := c = '\n' ∨ c = '\r'

/-- The cells of a text between two blocks of Rust. Blanks alone are nothing; all else is one cell
of markup, without the line ends around it. -/
inductive Between : List Char → List Cell → Prop
  | blank {s : List Char} (hs : ∀ c ∈ s, Text.isBlank c = true) : Between s []
  | markup {s a m z : List Char} (hs : s = a ++ m ++ z) (ha : ∀ c ∈ a, LineEnd c)
      (hz : ∀ c ∈ z, LineEnd c) (hfirst : ∀ c ∈ m.head?, ¬ LineEnd c)
      (hlast : ∀ c ∈ m.getLast?, ¬ LineEnd c) (htext : ∃ c ∈ m, Text.isBlank c = false) :
      Between s [.markup m]

/-- The cells of a text from the place `n` on, in which these parts are blocks of Rust: each is one
cell of code, after the cells of the text in front of it. -/
inductive Laid (text : List Char) : Nat → List (Extent × List Char) → List Cell → Prop
  | nil {n : Nat} {cells : List Cell} (h : Between (text.drop n) cells) : Laid text n [] cells
  | cons {n : Nat} {e : Extent} {code : List Char} {bs : List (Extent × List Char)}
      {before cells : List Cell} (hbefore : Between ((text.take e.first).drop n) before)
      (hrest : Laid text e.stop bs cells) :
      Laid text n ((e, code) :: bs) (before ++ Cell.ofBlock code :: cells)

/-- Blocks that are cells, if they are closed. -/
def cellsAt (text : List Char) (n : Nat) (bs : List (Extent × List Char)) :
    Except Unterminated (List Cell) :=
  cellsOf text (text.drop n) (bs.map fun b => blockAt text b.1 b.2)

/-- The parts of a text from the place `n` on follow each other. -/
def Follow (text : List Char) : Nat → List (Extent × List Char) → Prop
  | n, [] => n ≤ text.length
  | n, (e, _) :: bs => n ≤ e.first ∧ e.first ≤ e.stop ∧ e.stop ≤ text.length ∧ Follow text e.stop bs

theorem cellsAt_cons {n : Nat} {e : Extent} {code : List Char} {bs : List (Extent × List Char)}
    (hn : n ≤ e.first) (he : e.first ≤ text.length) : cellsAt text n ((e, code) :: bs) =
      if isClosed (blockAt text e code) then
        (cellsAt text e.stop bs).map fun cells =>
          (markup? ((text.take e.first).drop n)).toList ++ Cell.ofBlock code :: cells
      else .error ⟨(text.take e.first).count '\n' + 1⟩ := by
  have hbefore := partBefore_drop (Nat.zero_le e.first) he
  rw [List.drop_zero] at hbefore
  rw [cellsAt, List.map_cons, cellsOf]
  simp only [blockAt, partBefore_drop hn he, hbefore, List.drop_zero]
  rfl

theorem not_lineEnd_iff {c : Char} : ¬ LineEnd c ↔ isLineBreak c = false := by
  rw [LineEnd, ← isLineBreak_iff, Bool.not_eq_true]

theorem Between.eq_markup? {s : List Char} {cells : List Cell} (h : Between s cells) :
    cells = (markup? s).toList := by
  cases h with
  | blank hs =>
    obtain ⟨a, m, z, rfl, ha, hz, hstart, hend⟩ := exists_surrounded s
    have hm : Text.allBlank m = true := List.all_eq_true.2 fun c hc => hs c (by simp [hc])
    rw [markup?_eq, trimWhile_surrounded ha hz hstart hend, if_pos hm]
    rfl
  | @markup a m z hs ha hz hfirst hlast htext =>
    have hm : Trimmed m :=
      ⟨fun c hc => not_lineEnd_iff.1 (hfirst c hc), fun c hc => not_lineEnd_iff.1 (hlast c hc),
        List.all_eq_false.2 (by simpa using htext)⟩
    rw [hs, markup?_surrounded (fun c hc => isLineBreak_iff.2 (ha c hc))
      (fun c hc => isLineBreak_iff.2 (hz c hc)) hm]
    rfl

theorem between_markup? (s : List Char) : Between s (markup? s).toList := by
  obtain ⟨a, m, z, rfl, ha, hz, hstart, hend⟩ := exists_surrounded s
  rw [markup?_eq, trimWhile_surrounded ha hz hstart hend]
  cases hm : Text.allBlank m with
  | true =>
    have hall : Text.allBlank (a ++ m ++ z) = true := by
      rw [allBlank_append, allBlank_append, ha.blank, hm, hz.blank]
      rfl
    exact .blank (List.all_eq_true.1 hall)
  | false =>
    exact .markup rfl (fun c hc => isLineBreak_iff.1 (ha c hc))
      (fun c hc => isLineBreak_iff.1 (hz c hc)) (fun c hc => not_lineEnd_iff.2 (hstart c hc))
      (fun c hc => not_lineEnd_iff.2 (hend c hc)) (by simpa using List.all_eq_false.1 hm)

/-- Blocks that are cells leave no choice of the cells. -/
theorem laid_iff_of_cellsAt {n : Nat} {bs : List (Extent × List Char)} {cells cells' : List Cell}
    (hf : Follow text n bs) (h : cellsAt text n bs = .ok cells) :
    Laid text n bs cells' ↔ cells' = cells := by
  induction bs generalizing n cells cells' with
  | nil =>
    have hlast : (markup? (text.drop n)).toList = cells := Except.ok.inj h
    constructor
    · rintro ⟨hbetween⟩
      exact hbetween.eq_markup?.trans hlast
    · rintro rfl
      exact .nil (hlast ▸ between_markup? _)
  | cons b bs ih =>
    obtain ⟨e, code⟩ := b
    obtain ⟨hn, he, hstop, hrest⟩ := hf
    rw [cellsAt_cons hn (he.trans hstop)] at h
    split at h
    · cases hcells : cellsAt text e.stop bs with
      | error u =>
        rw [hcells] at h
        cases h
      | ok rest =>
        rw [hcells] at h
        obtain rfl := Except.ok.inj h
        constructor
        · rintro (_ | ⟨hbefore, hlaid⟩)
          rw [hbefore.eq_markup?, (ih hrest hcells).1 hlaid]
        · rintro rfl
          exact .cons (between_markup? _) ((ih hrest hcells).2 rfl)
    · cases h

theorem Element.extent_of_rust? {x : Element} {e : Extent} {code : List Char}
    (h : x.rust? = some (e, code)) : x.extent = e := by
  obtain ⟨info, inner, rfl, -, -⟩ := rust?_eq_some_iff.1 h
  rfl

theorem follow_of_ordered {xs : List Element} (h : Element.Ordered text xs) {n : Nat}
    (hn : n ≤ text.length) (hx : ∀ x ∈ xs, n ≤ x.extent.first) :
    Follow text n (rustBlocks xs) := by
  induction xs generalizing n with
  | nil => exact hn
  | cons x xs ih =>
    obtain ⟨hall, hpair⟩ := h
    obtain ⟨hfirst, hpair⟩ := List.pairwise_cons.1 hpair
    have hxs : Element.Ordered text xs := ⟨fun y hy => hall y (by simp [hy]), hpair⟩
    cases hr : x.rust? with
    | none =>
      rw [rustBlocks, List.filterMap_cons_none hr]
      exact ih hxs hn fun y hy => hx y (by simp [hy])
    | some b =>
      obtain ⟨e, code⟩ := b
      obtain ⟨he, hstop⟩ := hall x (by simp)
      have hn' := hx x (by simp)
      rw [Element.extent_of_rust? hr] at he hstop hn' hfirst
      rw [rustBlocks, List.filterMap_cons_some hr]
      exact ⟨hn', he, hstop, ih hxs hstop hfirst⟩

/-- What the events of elements leave, and what the text after them adds. -/
theorem Scan.tell_elements (st : Scan) (hst : st.Idle) {xs : List Element}
    (h : Follow text st.cursor (rustBlocks xs)) :
    (st.tell text (Element.notices.noticesOf xs) >>= finish text) =
      match cellsAt text st.cursor (rustBlocks xs) with
      | .ok cells => .ok (st.cells ++ cells)
      | .error u => .error (.unterminated u) := by
  induction xs generalizing st with
  | nil =>
    have hslice := slice_ok (e := ⟨st.cursor, text.length⟩) h le_rfl
    rw [List.take_length] at hslice
    show st.finish text = _
    rw [finish, hslice]
    rfl
  | cons x xs ih =>
    rw [Element.notices.noticesOf]
    cases hr : x.rust? with
    | none =>
      rw [rustBlocks, List.filterMap_cons_none hr] at h ⊢
      rw [tell_append (tell_other hst hr)]
      exact ih st hst h
    | some b =>
      obtain ⟨e, code⟩ := b
      rw [rustBlocks, List.filterMap_cons_some hr] at h ⊢
      obtain ⟨hcursor, he, hstop, hrest⟩ := h
      have htell := tell_rust hst hr hcursor he hstop
      rw [cellsAt_cons hcursor (he.trans hstop)]
      by_cases hclosed : isClosed (blockAt text e code) = true
      · rw [if_pos hclosed] at htell ⊢
        rw [tell_append htell]
        have hidle : Scan.Idle { st with
            cells := st.cells ++
              ((markup? ((text.take e.first).drop st.cursor)).toList ++ [Cell.ofBlock code])
            cursor := e.stop } := hst
        rw [ih _ hidle hrest]
        cases hcells : cellsAt text e.stop (rustBlocks xs) with
        | ok cells =>
          rw [rustBlocks] at hcells
          simp [hcells, Except.map]
        | error u =>
          rw [rustBlocks] at hcells
          simp [hcells, Except.map]
      · rw [if_neg hclosed] at htell ⊢
        rw [tell_append_error htell]
        rfl

/-- All that the events of elements in order make of a text. -/
theorem scan_eq {xs : List Element} (h : Element.Ordered text xs) :
    scan text (Element.notices.noticesOf xs) =
      match cellsAt text 0 (rustBlocks xs) with
      | .ok cells => .ok ⟨cells⟩
      | .error u => .error (.unterminated u) := by
  have htell := Scan.tell_elements .start ⟨rfl, rfl⟩
    (follow_of_ordered h (Nat.zero_le _) fun _ _ => Nat.zero_le _)
  have hscan : scan text (Element.notices.noticesOf xs) =
      (Scan.start.tell text (Element.notices.noticesOf xs) >>= Scan.finish text).map
        Document.mk := by
    rw [scan, Scan.tell]
    cases List.foldlM (Scan.next text) Scan.start (Element.notices.noticesOf xs) with
    | error f => rfl
    | ok st =>
      show (do return ⟨← st.finish text⟩ : Except ScanFault Document) = (st.finish text).map _
      cases st.finish text <;> rfl
  rw [hscan, htell]
  simp only [Scan.start]
  cases cellsAt text 0 (rustBlocks xs) <;> rfl

end

/-! ### The blocks of a text -/

/-- Blocks that stand in a text one after the other. -/
inductive Within : List Char → List FencedBlock → Prop
  | nil {s : List Char} : Within s []
  | cons {s : List Char} {b : FencedBlock} {bs : List FencedBlock} (ho : b.opening <:+ s)
      (hc : b.closing <:+ b.opening) (hbs : Within b.closing bs) : Within s (b :: bs)

theorem within_blocks (s : List Char) : Within s (blocks s) := by
  induction hn : s.length using Nat.strong_induction_on generalizing s with
  | _ n ih =>
    have hall (t : List Char) : ofKind (fun _ => true) (blocksFrom [] false t) = blocks t := by
      simp [ofKind, blocks]
    cases hb : blocks s with
    | nil => exact .nil
    | cons b bs =>
      rw [← hall] at hb
      obtain ⟨⟨y, k, hst⟩, -, hlater, rfl⟩ := blocksFrom_first hb
      have hopening : b.opening <:+ s :=
        (List.suffix_append _ _).trans ⟨y, hst.place.symm⟩
      rw [hall]
      refine .cons hopening hlater.1 (ih _ ?_ b.closing rfl)
      exact hn ▸ hlater.2.trans_le hopening.length_le

theorem Within.ordered {text s : List Char} {bs : List FencedBlock} (h : Within s bs)
    (hs : s <:+ text) : Element.Ordered text (bs.map (·.element text)) ∧
      ∀ x ∈ bs.map (·.element text), text.length - s.length ≤ x.extent.first := by
  induction h with
  | nil => exact ⟨⟨by simp, .nil⟩, by simp⟩
  | @cons s b bs ho hc _ ih =>
    obtain ⟨⟨hall, hpair⟩, hfirst⟩ := ih ((hc.trans ho).trans hs)
    have h1 := hc.length_le
    have h2 := ho.length_le
    have h3 := hs.length_le
    refine ⟨⟨?_, List.pairwise_cons.2 ⟨hfirst, hpair⟩⟩, ?_⟩
    · intro x hx
      rcases List.mem_cons.1 hx with rfl | hx
      · refine ⟨?_, Nat.sub_le _ _⟩
        show text.length - b.opening.length ≤ text.length - b.closing.length
        omega
      · exact hall x hx
    · intro x hx
      rcases List.mem_cons.1 hx with rfl | hx
      · show text.length - s.length ≤ text.length - b.opening.length
        omega
      · have := hfirst x hx
        omega

theorem ordered_elements (text : List Char) : Element.Ordered text (elements text) :=
  ((within_blocks text).ordered (List.suffix_refl text)).1

theorem drop_of_suffix {s text : List Char} (h : s <:+ text) :
    text.drop (text.length - s.length) = s := List.suffix_iff_eq_drop.1 h ▸ rfl

theorem rust?_element (text : List Char) (b : FencedBlock) : (b.element text).rust? =
    if isRust b then some ((b.element text).extent, b.code) else none := by
  have hcode : Element.content.contentOf
      [.text b.code (b.element text).extent] = b.code := by
    simp [Element.content.contentOf, Element.content]
  exact congrArg (fun code => if isRust b then some ((b.element text).extent, code) else none)
    hcode

theorem Within.cellsAt_rustBlocks {text s : List Char} {bs : List FencedBlock} (h : Within s bs)
    (hs : s <:+ text) (i : Nat) :
    cellsAt text i (rustBlocks (bs.map (·.element text))) =
      cellsOf text (text.drop i) (bs.filter isRust) := by
  induction h generalizing i with
  | nil => rfl
  | @cons s b bs ho hc _ ih =>
    have hopening := drop_of_suffix (ho.trans hs)
    have hclosing := drop_of_suffix (hc.trans (ho.trans hs))
    have ih := ih (hc.trans (ho.trans hs))
    cases hb : isRust b with
    | false =>
      rw [List.filter_cons_of_neg (by simp [hb]), List.map_cons, rustBlocks,
        List.filterMap_cons_none (by rw [rust?_element, if_neg (by simp [hb])])]
      exact ih i
    | true =>
      have hrest := ih (text.length - b.closing.length)
      rw [cellsAt, hclosing] at hrest
      have hblock : blockAt text (b.element text).extent b.code = { b with info := [] } := by
        simp only [blockAt, FencedBlock.element, Element.extent, hopening, hclosing]
      rw [List.filter_cons_of_pos hb, List.map_cons, rustBlocks,
        List.filterMap_cons_some (by rw [rust?_element, if_pos hb]), cellsAt, List.map_cons,
        cellsOf, cellsOf, hblock, ← hrest]
      rfl

/-- The blocks of a text become the cells of the same text. -/
theorem cellsAt_elements (text : List Char) : cellsAt text 0 (rustBlocks (elements text)) =
    cellsOf text text ((blocks text).filter isRust) :=
  (within_blocks text).cellsAt_rustBlocks (List.suffix_refl text) 0

theorem scan_elements (text : List Char) :
    scan text (Element.notices.noticesOf (elements text)) =
      match ofMarkdown text with
      | .ok d => .ok d
      | .error u => .error (.unterminated u) := by
  rw [scan_eq (ordered_elements text), cellsAt_elements, ofMarkdown]
  cases cellsOf text text ((blocks text).filter isRust) <;> rfl

/-! ### What the cells are -/

theorem Between.filter_isCode {s : List Char} {cells : List Cell} (h : Between s cells) :
    cells.filter Cell.isCode = [] := by
  cases h <;> rfl

theorem Laid.filter_isCode {text : List Char} {n : Nat} {bs : List (Extent × List Char)}
    {cells : List Cell} (h : Laid text n bs cells) :
    cells.filter Cell.isCode = bs.map fun b => Cell.ofBlock b.2 := by
  induction h with
  | nil h => exact h.filter_isCode
  | @cons n e code bs before cells hbefore _ ih =>
    rw [List.filter_append, hbefore.filter_isCode, List.nil_append,
      List.filter_cons_of_pos (Cell.ofBlock_isCode code), ih, List.map_cons]

/-- Of two cells next to each other, one is code. -/
def Alternating (cells : List Cell) : Prop :=
  cells.IsChain fun c c' => c.isCode = true ∨ c'.isCode = true

theorem Alternating.cons {c : Cell} {cells : List Cell} (hc : c.isCode = true)
    (h : Alternating cells) : Alternating (c :: cells) := by
  cases cells with
  | nil => exact .singleton c
  | cons c' cells => exact .cons_cons (.inl hc) h

theorem Laid.alternating {text : List Char} {n : Nat} {bs : List (Extent × List Char)}
    {cells : List Cell} (h : Laid text n bs cells) : Alternating cells := by
  induction h with
  | nil h =>
    cases h with
    | blank => exact .nil
    | markup => exact .singleton _
  | @cons n e code bs before cells hbefore _ ih =>
    have hcode := Cell.ofBlock_isCode code
    cases hbefore with
    | blank => exact ih.cons hcode
    | markup => exact .cons_cons (.inr hcode) (ih.cons hcode)

theorem Between.markup_isInfix {s m : List Char} {cells : List Cell} (h : Between s cells)
    (hm : .markup m ∈ cells) : m <:+: s := by
  cases h with
  | blank => cases hm
  | @markup a m' z hs =>
    obtain rfl := Cell.markup.inj (List.mem_singleton.1 hm)
    exact ⟨a, z, hs.symm⟩

theorem Laid.markup_isInfix {text m : List Char} {n : Nat} {bs : List (Extent × List Char)}
    {cells : List Cell} (h : Laid text n bs cells) (hm : .markup m ∈ cells) : m <:+: text := by
  induction h with
  | @nil n cells h => exact (h.markup_isInfix hm).trans (List.drop_suffix n text).isInfix
  | @cons n e code bs before cells hbefore _ ih =>
    rw [List.mem_append, List.mem_cons] at hm
    obtain hm | hm | hm := hm
    · exact (hbefore.markup_isInfix hm).trans
        ((List.drop_suffix n _).isInfix.trans (List.take_prefix e.first text).isInfix)
    · have hcode := Cell.ofBlock_isCode code
      rw [← hm] at hcode
      cases hcode
    · exact ih hm

/-- Cutting a text into cells loses none of it and keeps none of it twice, whatever else there is
in the text and however deep it is nested. This holds of all elements that a text may be said to
have, and the elements outside of all containers are such. -/
theorem cut_into_cells (text : List Char) :
    (∀ (x : Element) e code, x.rust? = some (e, code) ↔ ∃ info inner,
      x = .nested (.fenced info) e inner ∧ NamesRust info ∧
        code = Element.content.contentOf inner) ∧
    (∀ xs, Element.Ordered text xs →
      scan text (Element.notices.noticesOf xs) ≠ .error .outOfRange ∧
      ∀ d, scan text (Element.notices.noticesOf xs) = .ok d →
        (∀ cells, Laid text 0 (rustBlocks xs) cells ↔ cells = d.cells) ∧
        d.cells.filter Cell.isCode = (rustBlocks xs).map (fun b => Cell.ofBlock b.2) ∧
        Alternating d.cells ∧
        ∀ m, .markup m ∈ d.cells → m <:+: text) ∧
    Element.Ordered text (elements text) ∧
    scan text (Element.notices.noticesOf (elements text)) =
      (ofMarkdown text).mapError .unterminated := by
  refine ⟨fun _ _ _ => rust?_eq_some_iff, fun xs h => ⟨fun hrange => ?_, fun d hd => ?_⟩,
    ordered_elements text, ?_⟩
  · rw [scan_eq h] at hrange
    split at hrange <;> cases hrange
  · rw [scan_eq h] at hd
    split at hd
    · rename_i cells hcells
      obtain rfl := Except.ok.inj hd
      have hfollow : Follow text 0 (rustBlocks xs) :=
        follow_of_ordered h (Nat.zero_le _) fun _ _ => Nat.zero_le _
      have hlaid := (laid_iff_of_cellsAt hfollow hcells).2 rfl
      exact ⟨fun _ => laid_iff_of_cellsAt hfollow hcells, hlaid.filter_isCode, hlaid.alternating,
        fun _ hm => hlaid.markup_isInfix hm⟩
    · cases hd
  · rw [scan_elements]
    cases ofMarkdown text <;> rfl

/-- A list with a block of Rust in it, a block of Rust outside of it, and a line of text. -/
def listed : List Char := "- ```rust\n  a\n  ```\n\n```rust,x\nb\n```\nc\n".toList

def listedElements : List Element :=
  [.nested .other ⟨0, 20⟩ [.nested .other ⟨0, 20⟩
    [.nested (.fenced "rust".toList) ⟨2, 19⟩ [.text "a\n".toList ⟨12, 14⟩]]],
   .nested (.fenced "rust,x".toList) ⟨21, 36⟩ [.text "b\n".toList ⟨31, 33⟩],
   .nested .other ⟨37, 39⟩ [.text "c".toList ⟨37, 38⟩]]

theorem cut_into_cells_listed :
    Element.Ordered listed listedElements ∧
      ∃ d, scan listed (Element.notices.noticesOf listedElements) = .ok d ∧
        d.cells = [.markup "- ```rust\n  a\n  ```".toList, .code "b".toList,
          .markup "c".toList] ∧
        d.cells.filter Cell.isCode = [.code "b".toList] ∧ Alternating d.cells := by
  have hordered : Element.Ordered listed listedElements := by
    refine ⟨?_, by simp [listedElements, Element.extent]⟩
    have hlength : listed.length = 39 := by decide +kernel
    rw [hlength]
    simp [listedElements, Element.extent]
  have hblocks : rustBlocks listedElements = [(⟨21, 36⟩, "b\n".toList)] := by decide +kernel
  have hcell : Cell.ofBlock "b\n".toList = .code "b".toList := by decide +kernel
  have hlaid : Laid listed 0 (rustBlocks listedElements)
      [.markup "- ```rust\n  a\n  ```".toList, .code "b".toList, .markup "c".toList] := by
    have hfirst : Between ((listed.take 21).drop 0) [.markup "- ```rust\n  a\n  ```".toList] :=
      .markup (a := []) (z := ['\n', '\n']) (by decide +kernel) (by simp) (by simp [LineEnd])
        (by simp [LineEnd]) (by simp [LineEnd]) ⟨'-', by simp, by decide⟩
    have hlast : Between (listed.drop 36) [.markup "c".toList] :=
      .markup (a := ['\n']) (z := ['\n']) (by decide +kernel) (by simp [LineEnd])
        (by simp [LineEnd]) (by simp [LineEnd]) (by simp [LineEnd]) ⟨'c', by simp, by decide⟩
    rw [hblocks, ← hcell]
    exact .cons (e := ⟨21, 36⟩) hfirst (.nil hlast)
  have hdone : (scan listed (Element.notices.noticesOf listedElements)).isOk = true := by
    decide +kernel
  obtain ⟨d, hd⟩ : ∃ d, scan listed (Element.notices.noticesOf listedElements) = .ok d := by
    cases hscan : scan listed (Element.notices.noticesOf listedElements) with
    | ok d => exact ⟨d, rfl⟩
    | error f =>
      rw [hscan] at hdone
      cases hdone
  obtain ⟨hcells, hcode, halternating, -⟩ := ((cut_into_cells listed).2.1 _ hordered).2 d hd
  rw [hblocks] at hcode
  exact ⟨hordered, d, hd, ((hcells _).1 hlaid).symm, hcell ▸ hcode, halternating⟩

end Notebook.Document