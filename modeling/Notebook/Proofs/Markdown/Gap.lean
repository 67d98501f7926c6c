import Notebook.Markdown.Block
import Notebook.Proofs.Markdown.Html

/-!
Empty lines with nothing or a code fence after them. Whatever stands above such a line, but code
and HTML, ends there.
-/

namespace Notebook.Markdown

open LineStart

/-- Lines that are indented by at most three spaces and have no text. -/
structure Gap (g : List Char) : Prop where
  blank : ∀ c ∈ g, c = ' ' ∨ isLineBreak c = true
  narrow : ¬ List.replicate 4 ' ' <:+: g
  ended : ∀ c ∈ g.getLast?, isLineBreak c = true

theorem Gap.nil : Gap [] := ⟨by simp, by simp, by simp⟩

theorem Gap.suffix {g r : List Char} (h : Gap g) (hr : r <:+ g) : Gap r := by
  refine ⟨fun c hc => h.blank c (hr.subset hc), fun hn => h.narrow (hn.trans hr.isInfix), ?_⟩
  obtain ⟨p, rfl⟩ := hr
  intro c hc
  refine h.ended c ?_
  rw [List.getLast?_append]
  simp_all

theorem Gap.of_breaks {g : List Char} (h : ∀ c ∈ g, isLineBreak c = true) : Gap g := by
  refine ⟨fun c hc => .inr (h c hc), ?_, fun c hc => h c (List.mem_of_getLast? hc)⟩
  intro hn
  have := h ' ' (hn.subset (by simp))
  cases this

/-- A code fence with more on its line, which closes no block above it. -/
structure Opens (q : List Char) : Prop where
  fence : (fence? q).isSome = true
  unclosing : ∀ c n, closingFence? c n q = none

/-- Nothing, or an opening fence that is indented by at most three spaces. -/
def FenceNext (w : List Char) : Prop :=
  w = [] ∨ ∃ k ≤ 3, ∃ q, w = List.replicate k ' ' ++ q ∧ Opens q

/-- A line that ends a paragraph: an empty one, or a code fence. -/
def Breaking (r : List Char) : Prop :=
  ∃ k ≤ 3, ∃ q, r = List.replicate k ' ' ++ q ∧ (Ends q ∨ (fence? q).isSome = true)

theorem eq_of_isSome_fence? {c : Char} {s : List Char} (h : (fence? (c :: s)).isSome = true) :
    c = '`' ∨ c = '~' := by
  simp only [fence?] at h
  split at h
  · simp_all
  · cases h

theorem Gap.spaces {g : List Char} (h : Gap g) :
    ∃ k ≤ 3, ∃ g', g = List.replicate k ' ' ++ g' ∧ Ends g' ∧ (g' = [] → k = 0) := by
  have hs : g.takeWhile (· = ' ') = List.replicate (g.takeWhile (· = ' ')).length ' ' := by
    rw [List.eq_replicate_iff]
    exact ⟨rfl, fun c hc => by simpa using List.mem_takeWhile_imp hc⟩
  have hg := List.takeWhile_append_dropWhile (p := (· = ' ')) (l := g)
  have hends : Ends (g.dropWhile (· = ' ')) := by
    intro c hc
    have hm := (List.dropWhile_suffix (· = ' ')).subset (List.mem_of_head? hc)
    have := List.head?_dropWhile_not (· = ' ') g
    rw [Option.mem_def.1 hc] at this
    simpa [show c ≠ ' ' by simpa using this] using h.blank c hm
  refine ⟨(g.takeWhile (· = ' ')).length, ?_, _, by rw [← hs, hg], hends, ?_⟩
  · by_contra hk
    refine h.narrow (List.IsInfix.trans ?_ (List.takeWhile_prefix (· = ' ')).isInfix)
    rw [hs]
    exact ⟨[], List.replicate ((g.takeWhile (· = ' ')).length - 4) ' ', by
      rw [List.nil_append, List.replicate_append_replicate]; congr 1; omega⟩
  · intro hn
    rw [hn, List.append_nil] at hg
    by_contra hk
    have hne : g ≠ [] := by rintro rfl; simp at hk
    have hl := h.ended _ (List.getLast?_eq_some_getLast hne)
    have hm := List.dropWhile_eq_nil_iff.1 hn _ (List.getLast_mem hne)
    rw [show g.getLast hne = ' ' by simpa using hm] at hl
    cases hl

theorem Opens.not_ends {q : List Char} (h : Opens q) : ¬ Ends q := by
  cases q with
  | nil => cases h.fence
  | cons c q =>
    rw [ends_cons]
    rcases eq_of_isSome_fence? h.fence with rfl | rfl <;> decide

theorem break_of_fenceNext {w : List Char} (h : FenceNext w) :
    ∀ c ∈ w.head?, isLineBreak c = false := by
  rcases h with rfl | ⟨k, -, q, rfl, hq⟩
  · simp
  · intro c hc
    cases k with
    | succ k =>
      obtain rfl : ' ' = c := by simpa [List.replicate_succ] using hc
      rfl
    | zero =>
      cases q with
      | nil => cases hq.fence
      | cons d q =>
        obtain rfl : d = c := by simpa using hc
        rcases eq_of_isSome_fence? hq.fence with rfl | rfl <;> rfl

theorem FenceNext.eq_nil {w : List Char} (h : FenceNext w) (he : Ends w) : w = [] := by
  cases w with
  | nil => rfl
  | cons c w =>
    have := break_of_fenceNext h c (by simp)
    rw [ends_cons.1 he] at this
    cases this

theorem Gap.breaking {g w : List Char} (hg : Gap g) (hw : FenceNext w) : Breaking (g ++ w) := by
  obtain ⟨k, hk, g', rfl, he, hz⟩ := hg.spaces
  cases g' with
  | nil =>
    rw [hz rfl]
    rcases hw with rfl | ⟨j, hj, q, rfl, hq⟩
    · exact ⟨0, by omega, [], rfl, .inl ends_nil⟩
    · exact ⟨j, hj, q, rfl, .inr hq.fence⟩
  | cons c g' => exact ⟨k, hk, c :: g' ++ w, by simp, .inl (ends_cons.2 (ends_cons.1 he))⟩

/-! ### Such a line in containers -/

/-- A place on a line after at most three spaces of which stands `q`. -/
def Narrow (q : List Char) (l : LineStart) : Prop :=
  ∃ k ≤ 3, l.rest = List.replicate k ' ' ++ q ∧ l.spare = 0

/-- No blank and no mark of a quote comes next. -/
def Solid (q : List Char) : Prop := ∀ c ∈ q.head?, c ≠ ' ' ∧ c ≠ '\t' ∧ c ≠ '>'

theorem solid_of_ends {q : List Char} (h : Ends q) : Solid q := by
  intro c hc
  rcases isLineBreak_iff.1 (h c hc) with rfl | rfl <;> decide

theorem solid_of_fence {q : List Char} (h : (fence? q).isSome = true) : Solid q := by
  cases q with
  | nil => cases h
  | cons c q =>
    intro d hd
    obtain rfl : c = d := by simpa using hd
    rcases eq_of_isSome_fence? h with rfl | rfl <;> decide

theorem blanksFrom_spaces {q : List Char} (hq : Solid q) (n k read base : Nat) :
    blanksFrom n (List.replicate k ' ' ++ q) read base 0 =
      (n - k, ⟨List.replicate (k - n) ' ' ++ q, read + min n k, base, 0⟩) := by
  induction n generalizing k read with
  | zero => simp [blanksFrom]
  | succ n ih =>
    cases k with
    | succ k =>
      simp only [List.replicate_succ, List.cons_append, blanksFrom, ih]
      simp [show k + 1 - (n + 1) = k - n by omega, show n + 1 - (k + 1) = n - k by omega]
      omega
    | zero =>
      cases q with
      | nil => simp [blanksFrom]
      | cons c q =>
        obtain ⟨h1, h2, -⟩ := hq c (by simp)
        simp [blanksFrom, h1, h2]

theorem blanks_narrow {q : List Char} (hq : Solid q) {l : LineStart} (h : Narrow q l) (n : Nat) :
    Narrow q (l.blanks n).2 ∧
      ((l.blanks n).1 ≠ 0 ∨ 3 ≤ n → (l.blanks n).2.rest = q) ∧ (3 < n → (l.blanks n).1 ≠ 0) := by
  obtain ⟨k, hk, hr, hs⟩ := h
  have hb : l.blanks n =
      (n - k, ⟨List.replicate (k - n) ' ' ++ q, l.read + min n k, l.tabBase, 0⟩) := by
    rw [blanks, hr, hs]
    simpa using blanksFrom_spaces hq n k l.read l.tabBase
  rw [hb]
  refine ⟨⟨k - n, by omega, rfl, rfl⟩, fun h => ?_, fun h => by simp only; omega⟩
  simp [show k - n = 0 by simp only at h; omega]

theorem quote?_of_solid {q : List Char} (hq : Solid q) {l : LineStart} (h : l.rest = q) :
    l.quote? = none := by
  unfold quote? char?
  rw [h]
  cases q with
  | nil => rfl
  | cons c q =>
    obtain ⟨-, -, h3⟩ := hq c (by simp)
    simp [h3.symm]

theorem enter?_narrow {q : List Char} (hq : Solid q) {c : Container} {l m : LineStart}
    (h : Narrow q l) (he : c.enter? l = some m) : Narrow q m := by
  cases c with
  | quote =>
    have := quote?_of_solid hq ((blanks_narrow hq h 3).2.1 (.inr le_rfl))
    rw [Container.enter?, this] at he
    cases he
  | item n =>
    have hb := (blanks_narrow hq h n).1
    simp only [Container.enter?] at he
    split at he
    · simp_all
    · split at he <;> simp_all

theorem enterAll_narrow {q : List Char} (hq : Solid q) (cs : List Container) {l : LineStart}
    (h : Narrow q l) : Narrow q (Container.enterAll cs l).2 := by
  induction cs generalizing l with
  | nil => exact h
  | cons c cs ih =>
    simp only [Container.enterAll]
    split
    · rename_i m hm
      exact ih (enter?_narrow hq h hm)
    · exact h

theorem narrow_of {k : Nat} (hk : k ≤ 3) (q : List Char) :
    Narrow q (LineStart.of (List.replicate k ' ' ++ q)) := ⟨k, hk, rfl, rfl⟩

theorem interrupts_of_ends {q : List Char} (h : Ends q) (b : Bool) : interrupts b q = true := by
  simp [interrupts, lineEnd?_isSome.2 h]

theorem interrupts_of_fence {q : List Char} (h : (fence? q).isSome = true) (b : Bool) :
    interrupts b q = true := by
  simp [interrupts, h]

theorem underline?_of_ends {q : List Char} (h : Ends q) : underline? q = none := by
  cases q with
  | nil => rfl
  | cons c q => rcases isLineBreak_iff.1 (ends_cons.1 h) with rfl | rfl <;> rfl

theorem underline?_of_fence {q : List Char} (h : (fence? q).isSome = true) :
    underline? q = none := by
  cases q with
  | nil => rfl
  | cons c q => rcases eq_of_isSome_fence? h with rfl | rfl <;> rfl

/-- The line is never indented as code, whatever containers it is read in, and interrupts. -/
theorem Breaking.enterAll {r : List Char} (h : Breaking r) (stack : List Container) :
    ((Container.enterAll stack (.of r)).2.blanks 4).1 ≠ 0 ∧
      (∀ b, interrupts b ((Container.enterAll stack (.of r)).2.blanks 4).2.rest = true) ∧
      underline? ((Container.enterAll stack (.of r)).2.blanks 4).2.rest = none := by
  obtain ⟨k, hk, q, rfl, hq⟩ := h
  have hs : Solid q := hq.elim solid_of_ends solid_of_fence
  obtain ⟨-, hrest, hmiss⟩ := blanks_narrow hs (enterAll_narrow hs stack (narrow_of hk q)) 4
  rw [hrest (.inr (by omega))]
  refine ⟨hmiss (by omega), fun b => ?_, ?_⟩
  · exact hq.elim (interrupts_of_ends · b) (interrupts_of_fence · b)
  · exact hq.elim underline?_of_ends underline?_of_fence

/-- Places on the first empty line are told from others on it by how many spaces are left. -/
theorem Gap.place {g : List Char} (hg : Gap g) (hne : g ≠ []) (w : List Char) :
    ∃ q, Ends q ∧ q ≠ [] ∧ Narrow q (.of (g ++ w)) ∧
      ∀ l : LineStart, Narrow q l → l.rest <:+ g ++ w →
        ∃ g', g' <:+ g ∧ g' ≠ [] ∧ l.rest = g' ++ w := by
  obtain ⟨k, hk, g', rfl, he, hz⟩ := hg.spaces
  have hne' : g' ≠ [] := by rintro rfl; simp [hz rfl] at hne
  obtain ⟨c, g', rfl⟩ := List.exists_cons_of_ne_nil hne'
  refine ⟨c :: g' ++ w, ends_cons.2 (ends_cons.1 he), by simp,
    by simpa using narrow_of hk (c :: g' ++ w), ?_⟩
  rintro l ⟨j, -, hr, -⟩ hsuf
  have hjk : j ≤ k := by
    have := hsuf.length_le
    simp only [hr, List.length_append, List.length_replicate] at this
    omega
  refine ⟨List.replicate j ' ' ++ c :: g', ⟨List.replicate (k - j) ' ', ?_⟩, by simp, by simp [hr]⟩
  rw [← List.append_assoc, List.replicate_append_replicate, Nat.sub_add_cancel hjk]

/-- An empty line stays empty in its containers. -/
theorem Gap.enterAll {g : List Char} (hg : Gap g) (hne : g ≠ []) (w : List Char)
    (stack : List Container) : ∃ g', g' <:+ g ∧ g' ≠ [] ∧
      (Container.enterAll stack (.of (g ++ w))).2.rest = g' ++ w := by
  obtain ⟨q, hq, -, hn, hplace⟩ := hg.place hne w
  exact hplace _ (enterAll_narrow (solid_of_ends hq) stack hn) (Container.enterAll_suffix stack _)

/-- A fence that is not indented stands in no container. -/
theorem Opens.enterAll {w : List Char} (h : Opens w) {stack : List Container}
    (hs : .item 0 ∉ stack) : Container.enterAll stack (.of w) = ([], .of w) := by
  have hsolid := solid_of_fence h.fence
  have hw : Narrow w (.of w) := narrow_of (k := 0) (by omega) w
  cases stack with
  | nil => rfl
  | cons c stack =>
    have hc : c.enter? (.of w) = none := by
      cases c with
      | quote => exact quote?_of_solid hsolid ((blanks_narrow hsolid hw 3).2.1 (.inr le_rfl))
      | item n =>
        have hn : n ≠ 0 := by rintro rfl; simp at hs
        have hb := blanksFrom_spaces hsolid n 0 0 0
        simp only [List.replicate_zero, List.nil_append, Nat.sub_zero, Nat.zero_sub] at hb
        simp only [Container.enter?, blanks, LineStart.of, Nat.sub_zero, Nat.zero_sub, hb]
        obtain ⟨m, rfl⟩ := Nat.exists_eq_succ_of_ne_zero hn
        simp [atEnd_iff, h.not_ends]
    simp [Container.enterAll, hc]

/-! ### Tails -/

/-- A line feed stands before the fence. -/
def Fed (g w : List Char) : Prop := w = [] ∨ ∀ c ∈ g.getLast?, c = '\n'

/-- Empty lines `g` with nothing or a fence `w` after them. They start with the end of a line. -/
structure Tail (g w : List Char) : Prop where
  gap : Gap g
  next : FenceNext w
  ends : Ends (g ++ w)
  fed : Fed g w

/-- An empty line is left after the first line feed, or nothing is. -/
def Wide (g w : List Char) : Prop := w = [] ∨ '\n' ∈ afterLine g

/-- Empty lines with nothing or a fence that is not indented after them. -/
structure Clear (g w : List Char) : Prop extends Tail g w where
  wide : Wide g w
  flush : w = [] ∨ Opens w

theorem lineWithEnd_isStart (s : List Char) : lineWithEnd s <+: s :=
  ⟨afterLine s, lineWithEnd_append_afterLine s⟩

theorem Fed.suffix {g w g' : List Char} (h : Fed g w) (hg : g' <:+ g) : Fed g' w := by
  refine h.imp id fun h c hc => h c ?_
  obtain ⟨p, rfl⟩ := hg
  rw [List.getLast?_append]
  simp_all

theorem Fed.afterLine {g w : List Char} (h : Fed g w) (hne : g ≠ [] ∨ w = []) :
    Markdown.afterLine (g ++ w) = Markdown.afterLine g ++ w := by
  by_cases hm : '\n' ∈ g
  · exact afterLine_append hm w
  · rcases h with rfl | h
    · simp
    · rcases hne with hne | rfl
      · have hl := List.getLast?_eq_some_getLast hne
        have := h _ hl
        exact absurd (this ▸ List.getLast_mem hne) hm
      · simp

theorem Tail.ne_nil {g w : List Char} (h : Tail g w) : g ≠ [] ∨ w = [] := by
  by_cases hg : g = []
  · have he := h.ends
    rw [hg, List.nil_append] at he
    exact .inr (h.next.eq_nil he)
  · exact .inl hg

theorem Tail.feed {g w : List Char} (h : Tail g w) : w = [] ∨ '\n' ∈ g := by
  rcases h.ne_nil with hg | hw
  · have hl := List.getLast?_eq_some_getLast hg
    refine h.fed.imp id fun hf => ?_
    rw [← hf _ hl]
    exact List.getLast_mem hg
  · exact .inl hw

theorem Tail.tick {g w : List Char} (h : Tail g w) : '`' ∉ lineWithEnd (g ++ w) := by
  have hg : '`' ∉ g := fun hm => by rcases h.gap.blank _ hm with h | h <;> cases h
  rcases h.feed with rfl | hf
  · rw [List.append_nil]
    exact fun hm => hg ((lineWithEnd_isStart g).subset hm)
  · rw [lineWithEnd_append hf]
    exact fun hm => hg ((lineWithEnd_isStart g).subset hm)

theorem afterEnd_suffix (t : List Char) : afterEnd t <:+ t := by
  unfold afterEnd
  cases h : lineEnd? t with
  | none => exact List.nil_suffix
  | some r => exact lineEnd?_suffix h

theorem afterLine_suffix_afterEnd {t : List Char} (h : Ends t) :
    afterLine t <:+ afterEnd t := by
  cases t with
  | nil => exact List.suffix_rfl
  | cons c t =>
    rcases isLineBreak_iff.1 (ends_cons.1 h) with rfl | rfl
    · simp [afterLine, afterEnd, lineEnd?]
    · cases t with
      | nil => simp [afterLine]
      | cons d t =>
        by_cases hd : d = '\n'
        · simp [hd, afterLine, afterEnd, lineEnd?]
        · simpa [afterEnd, lineEnd?, hd, afterLine] using afterLine_suffix (d :: t)

theorem Tail.ends_gap {g w : List Char} (h : Tail g w) : Ends g := by
  cases g with
  | nil => exact ends_nil
  | cons c g => exact ends_cons.2 (ends_cons.1 h.ends)

/-- The place after the first line end is in the gap. -/
theorem afterEnd_gap {g w : List Char} (hw : FenceNext w) (he : Ends (g ++ w)) :
    afterEnd (g ++ w) = afterEnd g ++ w := by
  cases g with
  | nil => rw [hw.eq_nil he]; rfl
  | cons c g =>
    rcases isLineBreak_iff.1 (ends_cons.1 he) with rfl | rfl
    · rfl
    · cases g with
      | nil =>
        cases w with
        | nil => rfl
        | cons d w =>
          have := break_of_fenceNext hw d (by simp)
          have hd : d ≠ '\n' := by rintro rfl; cases this
          simp [afterEnd, lineEnd?, hd]
      | cons d g => by_cases hd : d = '\n' <;> simp [afterEnd, lineEnd?, hd]

theorem Gap.breaking_afterEnd {g w : List Char} (hg : Gap g) (hw : FenceNext w)
    (he : Ends (g ++ w)) : Breaking (afterEnd (g ++ w)) := by
  rw [afterEnd_gap hw he]
  exact (hg.suffix (afterEnd_suffix g)).breaking hw

theorem Tail.breaking_afterEnd {g w : List Char} (h : Tail g w) :
    Breaking (afterEnd (g ++ w)) := h.gap.breaking_afterEnd h.next h.ends

/-- There is an empty line or nothing after the first line end of a wide tail. -/
theorem Tail.wide_afterEnd {g w : List Char} (h : Tail g w) (hw : Wide g w) :
    afterEnd g ≠ [] ∨ w = [] := by
  rcases hw with rfl | hw
  · exact .inr rfl
  · exact .inl (List.ne_nil_of_mem ((afterLine_suffix_afterEnd h.ends_gap).subset hw))

/-- After an empty line there are fewer of them. -/
theorem Gap.blankLine? {g w : List Char} (hg : Gap g) (hw : FenceNext w) (h : g ≠ [] ∨ w = []) :
    ∃ g', g' <:+ g ∧ (g ≠ [] → g'.length < g.length) ∧
      Markdown.blankLine? (g ++ w) = some (g' ++ w) := by
  obtain ⟨k, -, g', rfl, he, hz⟩ := hg.spaces
  have hd : (List.replicate k ' ' ++ g' ++ w).dropWhile isInlineBlank =
      (g' ++ w).dropWhile isInlineBlank := by
    rw [List.append_assoc, List.dropWhile_append_of_pos]
    intro c hc
    rw [List.eq_of_mem_replicate hc]
    rfl
  rw [Markdown.blankLine?, hd]
  cases g' with
  | nil =>
    rcases h with h | rfl
    · simp [hz rfl] at h
    · exact ⟨[], List.nil_suffix, fun h => absurd (by simp [hz rfl]) h, rfl⟩
  | cons c g' =>
    have hc := ends_cons.1 he
    have hlater : Later (afterEnd (c :: g')) (c :: g') := lineEnd?_later (lineEnd?_of_ends he)
    refine ⟨afterEnd (c :: g'), hlater.1.trans (List.suffix_append _ _), fun _ => ?_, ?_⟩
    · exact lt_of_lt_of_le hlater.2 (List.suffix_append _ _).length_le
    · have he' : Ends (c :: g' ++ w) := ends_cons.2 hc
      rw [List.cons_append, List.dropWhile_cons_of_neg (by simp [isInlineBlank_of_break hc]),
        ← List.cons_append, lineEnd?_of_ends he', afterEnd_gap hw he']

theorem Gap.isSome_blankLine? {g w : List Char} (hg : Gap g) (hw : FenceNext w)
    (h : g ≠ [] ∨ w = []) : (Markdown.blankLine? (g ++ w)).isSome = true := by
  obtain ⟨g', -, -, h⟩ := hg.blankLine? hw h
  rw [h]
  rfl

end Notebook.Markdown
