import Notebook.Proofs.Markdown.Reference

/-!
A reader is local to a text if what comes after the text does not change how much of it is read.
One that reads all of the text either stops at the empty lines after it or goes on through the
fence that follows them.
-/

namespace Notebook.Markdown

/-- A place in the empty lines. -/
def Past (g w r : List Char) : Prop := ∃ g', g' <:+ g ∧ r = g' ++ w

/-- A place from which the fence is not seen. -/
def Lost (w r : List Char) : Prop := r = [] ∨ Swallowed w r

theorem Past.suffix {g g' w r : List Char} (h : Past g w r) (hg : g <:+ g') : Past g' w r := by
  obtain ⟨p, hp, rfl⟩ := h
  exact ⟨p, hp.trans hg, rfl⟩

theorem Lost.suffix {w r q : List Char} (h : Lost w r) (hq : q <:+ r) : Lost w q := by
  rcases h with rfl | h
  · exact .inl (List.suffix_nil.1 hq)
  · exact .inr (lt_of_le_of_lt hq.length_le h)

section

variable (f : List Char → List Char) (s : List Char)

def Closes : Prop := ∀ g w, Clear g w → Past g w (f (s ++ (g ++ w)))

def Runs : Prop := ∀ g w, Tail g w → Lost w (f (s ++ (g ++ w)))

def Local : Prop :=
  (f s ≠ [] ∧ ∀ g w, Tail g w → f (s ++ (g ++ w)) = f s ++ (g ++ w) ∨
      ¬ Wide g w ∧ Lost w (f (s ++ (g ++ w)))) ∨
    (f s = [] ∧ (Closes f s ∨ Runs f s))

end

theorem Local.of_eq {f : List Char → List Char} {s r : List Char} (hr : r ≠ []) (h : f s = r)
    (ht : ∀ g w, Tail g w → f (s ++ (g ++ w)) = r ++ (g ++ w)) : Local f s :=
  .inl ⟨by rwa [h], fun g w hgw => .inl (by rw [ht g w hgw, h])⟩

theorem Local.congr {f f' : List Char → List Char} {s r : List Char} (h : Local f r)
    (halone : f' s = f r) (ht : ∀ g w, Tail g w → f' (s ++ (g ++ w)) = f (r ++ (g ++ w))) :
    Local f' s := by
  rcases h with ⟨h1, h2⟩ | ⟨h1, h2⟩
  · exact .inl ⟨by rwa [halone], fun g w hgw => by rw [ht g w hgw, halone]; exact h2 g w hgw⟩
  · refine .inr ⟨by rwa [halone], h2.imp (fun h g w hgw => ?_) (fun h g w hgw => ?_)⟩
    · rw [ht g w hgw.toTail]; exact h g w hgw
    · rw [ht g w hgw]; exact h g w hgw

theorem Clear.past_afterEnd {g w : List Char} (h : Clear g w) : Past g w (afterEnd (g ++ w)) :=
  ⟨afterEnd g, afterEnd_suffix g, afterEnd_gap h.next h.ends⟩

/-- After a line end of the text there is more of it, or the first empty line. -/
theorem Local.of_resume {f : List Char → List Char} {s r : List Char} (h : f s = r)
    (ht : ∀ g w, Tail g w → f (s ++ (g ++ w)) = resume (g ++ w) r) : Local f s := by
  by_cases hr : r = []
  · subst hr
    refine .inr ⟨h, .inl fun g w hgw => ?_⟩
    rw [ht g w hgw.toTail, resume_nil]
    exact hgw.past_afterEnd
  · exact .of_eq hr h fun g w hgw => by rw [ht g w hgw, resume_of_ne_nil hr]

/-! ### Reading lines -/

def Next.rest : Next → List Char
  | stop r => r
  | go _ r => r

section

variable {next : List Char → Next} {s r line : List Char}

theorem readOn_stop (h : next s = .stop r) : readOn next s = ([], r) := by
  rw [readOn, h]

theorem readOn_go (h : next s = .go line r) (hr : r.length < s.length) :
    readOn next s = (line ++ (readOn next r).1, (readOn next r).2) := by
  rw [readOn, h]
  simp [hr]

theorem readOn_suffix (h : ∀ s, (next s).rest <:+ s) (s : List Char) :
    (readOn next s).2 <:+ s := by
  induction hn : s.length using Nat.strong_induction_on generalizing s with
  | _ n ih =>
    have hs := h s
    rw [readOn]
    cases hnext : next s with
    | stop r => simpa [hnext, Next.rest] using hs
    | go line r =>
      rw [hnext] at hs
      by_cases hlt : r.length < s.length
      · simp only [if_pos hlt]
        exact (ih r.length (hn ▸ hlt) r rfl).trans hs
      · simp only [if_neg hlt]
        exact hs

theorem readOn_later (h : ∀ s, (next s).rest <:+ s) (hs : Later (next s).rest s) :
    Later (readOn next s).2 s := by
  cases hnext : next s with
  | stop r => rw [readOn_stop hnext]; simpa [hnext, Next.rest] using hs
  | go line r =>
    rw [hnext] at hs
    rw [readOn_go hnext hs.2]
    exact hs.of_suffix (readOn_suffix h r)

/-- Where a reader of lines ends. -/
def endOf (next : List Char → Next) (s : List Char) : List Char := (readOn next s).2

theorem endOf_stop (h : next s = .stop r) : endOf next s = r := by
  rw [endOf, readOn_stop h]

theorem endOf_go (h : next s = .go line r) (hr : r.length < s.length) :
    endOf next s = endOf next r := by
  rw [endOf, readOn_go h hr]; rfl

/-- What holds at every line of a block gives what holds at its end. -/
theorem endOf_of_lines {J Q : List Char → Prop}
    (hstop : ∀ s r, J s → next s = .stop r → Q r)
    (hgo : ∀ s line r, J s → next s = .go line r → J r ∧ (r.length < s.length ∨ Q r))
    (hs : J s) : Q (endOf next s) := by
  induction hn : s.length using Nat.strong_induction_on generalizing s with
  | _ n ih =>
    cases h : next s with
    | stop r =>
      rw [endOf_stop h]
      exact hstop s r hs h
    | go line r =>
      obtain ⟨hr, hlt⟩ := hgo s line r hs h
      by_cases hlen : r.length < s.length
      · rw [endOf_go h hlen]
        exact ih _ (hn ▸ hlen) hr rfl
      · rw [endOf, readOn, h]
        simp only [if_neg hlen]
        exact hlt.resolve_left hlen

/-- A block whose lines go on only at a later place ends at the start of a line if its last line
does. -/
theorem endOf_lined (hsuf : ∀ s, (next s).rest <:+ s)
    (hstop : ∀ s r, next s = .stop r → Lined s r)
    (hgo : ∀ s line r, next s = .go line r → r.length < s.length) (s : List Char) :
    Lined s (endOf next s) := by
  refine endOf_of_lines (J := (· <:+ s)) (fun q r hq h => (hstop q r h).suffix hq) ?_
    List.suffix_rfl
  intro q line r hq h
  refine ⟨?_, .inl (hgo q line r h)⟩
  have := hsuf q
  rw [h] at this
  exact this.trans hq

theorem length_lt_of_suffix_afterLine {r : List Char} (h : r <:+ afterLine s) (hr : r ≠ []) :
    r.length < s.length := by
  have hs : s ≠ [] := by
    rintro rfl
    exact hr (List.suffix_nil.1 h)
  exact ((afterLine_later hs).of_suffix h).2

theorem endOf_suffix_afterLine (h : ∀ s, (next s).rest <:+ afterLine s) (s : List Char) :
    endOf next s <:+ afterLine s := by
  have hall (s : List Char) : (next s).rest <:+ s := (h s).trans (afterLine_suffix s)
  have hs := h s
  by_cases hne : s = []
  · subst hne
    exact readOn_suffix hall []
  cases hnext : next s with
  | stop r => rw [endOf_stop hnext]; rwa [hnext] at hs
  | go line r =>
    rw [hnext] at hs
    rw [endOf_go hnext ((afterLine_later hne).of_suffix hs).2]
    exact (readOn_suffix hall r).trans hs

/-- The next line is read in the same way whatever comes after the text, or it is the last. -/
def LineLocal (next : List Char → Next) (s : List Char) : Prop :=
  (∃ r, r ≠ [] ∧ next s = .stop r ∧
      ∀ g w, Tail g w → next (s ++ (g ++ w)) = .stop (r ++ (g ++ w))) ∨
    (∃ line r, r ≠ [] ∧ Later r s ∧ next s = .go line r ∧
      ∀ g w, Tail g w → next (s ++ (g ++ w)) = .go line (r ++ (g ++ w))) ∨
    (endOf next s = [] ∧ (Closes (endOf next) s ∨ Runs (endOf next) s))

theorem endOf_local (h : ∀ s, s ≠ [] → Unbroken s → LineLocal next s) (hne : s ≠ [])
    (hs : Unbroken s) : Local (endOf next) s := by
  induction hn : s.length using Nat.strong_induction_on generalizing s with
  | _ n ih =>
    rcases h s hne hs with ⟨r, hr, hstop, ht⟩ | ⟨line, r, hr, hlt, hgo, ht⟩ | hlast
    · exact .of_eq hr (endOf_stop hstop) fun g w hgw => endOf_stop (ht g w hgw)
    · have halone := endOf_go hgo hlt.2
      have hwhole (g w : List Char) (hgw : Tail g w) :
          endOf next (s ++ (g ++ w)) = endOf next (r ++ (g ++ w)) :=
        endOf_go (ht g w hgw) (by simpa using hlt.2)
      exact (ih r.length (hn ▸ hlt.2) hr (hs.suffix hlt.1) rfl).congr halone hwhole
    · exact .inr hlast

end

end Notebook.Markdown
