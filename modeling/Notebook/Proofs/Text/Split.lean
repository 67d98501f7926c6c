import Notebook.Text.Blank
import Mathlib.Data.List.Infix
import Mathlib.Tactic.ByContra

/-!
Where a text is split: at the first or the last place at which a mark stands.
-/

namespace Notebook.Text

/-- A mark that has nothing in common with the end of a text stands before it. -/
theorem infix_of_append {α : Type} {p s t : List α} (hp : p ≠ []) (hd : ∀ c ∈ p, c ∉ t)
    (h : p <:+: s ++ t) : p <:+: s := by
  induction t using List.reverseRecOn with
  | nil => simpa using h
  | append_singleton t c ih =>
    rw [← List.append_assoc, List.infix_concat_iff] at h
    rcases h with h | h
    · obtain ⟨r, hr⟩ := h
      have hl := congrArg List.getLast? hr
      rw [List.getLast?_append, List.getLast?_eq_some_getLast hp] at hl
      have hmem := List.getLast_mem hp
      simp only [List.getLast?_append, List.getLast?_singleton,
        Option.some_or, Option.some.injEq] at hl
      exact absurd (by simp [hl]) (hd _ hmem)
    · exact ih (fun d hd' hm => hd d hd' (by simp [hm])) h

variable {α : Type} [DecidableEq α] {p s : List α}

theorem isSome_dropPrefix? : (dropPrefix? p s).isSome = true ↔ p <+: s := by
  rw [Option.isSome_iff_exists]
  simp only [dropPrefix?_eq_some]
  exact ⟨fun ⟨r, h⟩ => ⟨r, h.symm⟩, fun ⟨r, h⟩ => ⟨r, h.symm⟩⟩

theorem isSome_splitFirst? : (splitFirst? p s).isSome = true ↔ p <:+: s := by
  induction s with
  | nil => by_cases h : p = [] <;> simp [splitFirst?, h]
  | cons c s ih =>
    rw [List.infix_cons_iff, ← isSome_dropPrefix?, ← ih]
    rw [splitFirst?]
    cases dropPrefix? p (c :: s) <;> simp

theorem splitFirst?_eq_none : splitFirst? p s = none ↔ ¬ p <:+: s := by
  rw [← isSome_splitFirst?, Bool.not_eq_true, Option.isSome_eq_false_iff, Option.isNone_iff_eq_none]

theorem not_infix_dropLast_of_splitFirst? {a b : List α} (hp : p ≠ [])
    (h : splitFirst? p s = some (a, b)) : ¬ p <:+: (a ++ p).dropLast := by
  induction s generalizing a with
  | nil => simp [splitFirst?, hp] at h
  | cons c s ih =>
    rw [splitFirst?] at h
    cases hd : dropPrefix? p (c :: s) with
    | some r =>
      rw [hd] at h
      obtain ⟨rfl, rfl⟩ : [] = a ∧ r = b := by simpa using h
      intro hi
      have := hi.length_le
      have hlen := List.length_pos_iff.2 hp
      simp only [List.nil_append, List.length_dropLast] at this
      omega
    | none =>
      rw [hd] at h
      obtain ⟨⟨x, y⟩, hx, hy⟩ := Option.map_eq_some_iff.1 h
      obtain ⟨rfl, rfl⟩ : c :: x = a ∧ y = b := by simpa using hy
      rw [List.cons_append, List.dropLast_cons_of_ne_nil (by simp [hp]), List.infix_cons_iff]
      rintro (hpre | hi)
      · have hs := eq_append_of_splitFirst? hx
        have hall : p <+: c :: s := by
          refine hpre.trans ?_
          rw [hs, List.cons_prefix_cons]
          exact ⟨rfl, (List.dropLast_prefix _).trans (List.prefix_append _ _)⟩
        rw [← isSome_dropPrefix?, hd] at hall
        cases hall
      · exact ih hx hi

theorem splitFirst?_append {a : List α} (h : ¬ p <:+: (a ++ p).dropLast) (hp : p ≠ [])
    (b : List α) : splitFirst? p (a ++ p ++ b) = some (a, b) := by
  induction a with
  | nil =>
    obtain ⟨c, q, rfl⟩ := List.exists_cons_of_ne_nil hp
    have hd : dropPrefix? (c :: q) (c :: (q ++ b)) = some b := dropPrefix?_eq_some.2 rfl
    simp only [List.nil_append, List.cons_append, splitFirst?, hd]
  | cons c a ih =>
    rw [List.cons_append, List.dropLast_cons_of_ne_nil (by simp [hp]), List.infix_cons_iff,
      not_or] at h
    have hd : dropPrefix? p (c :: (a ++ p ++ b)) = none := by
      rw [← Option.not_isSome_iff_eq_none, isSome_dropPrefix?]
      intro hpre
      refine h.1 (List.prefix_of_prefix_length_le hpre ?_ ?_)
      · rw [List.cons_prefix_cons]
        exact ⟨rfl, (List.dropLast_prefix _).trans (List.prefix_append _ _)⟩
      · have hlen := List.length_pos_iff.2 hp
        simp only [List.length_cons, List.length_dropLast, List.length_append]
        omega
    simp only [List.cons_append, splitFirst?, hd, ih h.2, Option.map_some]

/-- A text is split at the first place where the mark stands, and at no earlier one. -/
theorem splitFirst?_eq_some {a b : List α} (hp : p ≠ []) :
    splitFirst? p s = some (a, b) ↔ s = a ++ p ++ b ∧ ¬ p <:+: (a ++ p).dropLast := by
  constructor
  · intro h
    exact ⟨eq_append_of_splitFirst? h, not_infix_dropLast_of_splitFirst? hp h⟩
  · rintro ⟨rfl, h⟩
    exact splitFirst?_append h hp b

/-- A text is split at the last place where the mark stands, and at no later one. -/
theorem splitLast?_eq_some {a b : List α} (hp : p ≠ []) :
    splitLast? p s = some (a, b) ↔ s = a ++ p ++ b ∧ ¬ p <:+: (p ++ b).tail := by
  have hfirst (x y : List α) := splitFirst?_eq_some (p := p.reverse) (s := s.reverse) (a := x)
    (b := y) (by simpa using hp)
  have hiff : splitLast? p s = some (a, b) ↔
      splitFirst? p.reverse s.reverse = some (b.reverse, a.reverse) := by
    rw [splitLast?]
    constructor
    · intro h
      obtain ⟨⟨x, y⟩, hx, hy⟩ := Option.map_eq_some_iff.1 h
      obtain ⟨rfl, rfl⟩ : y.reverse = a ∧ x.reverse = b := by simpa using hy
      simpa using hx
    · intro h
      rw [h]
      simp
  rw [hiff, hfirst]
  have htail : (b.reverse ++ p.reverse).dropLast = (p ++ b).tail.reverse := by
    rw [← List.reverse_append, List.dropLast_reverse]
  rw [htail, List.reverse_infix]
  refine and_congr_left' ⟨fun h => ?_, fun h => by simp [h]⟩
  have := congrArg List.reverse h
  simpa using this

theorem splitLast?_eq_none : splitLast? p s = none ↔ ¬ p <:+: s := by
  rw [splitLast?, Option.map_eq_none_iff, splitFirst?_eq_none, List.reverse_infix]

omit [DecidableEq α] in
theorem not_infix_dropLast_iff {a : List α} (hp : p ≠ []) :
    ¬ p <:+: (a ++ p).dropLast ↔ ∀ x y, a ++ p = x ++ p ++ y → y = [] := by
  constructor
  · intro h x y hxy
    by_contra hy
    apply h
    rw [hxy, List.dropLast_append_of_ne_nil hy]
    exact ⟨x, y.dropLast, rfl⟩
  · rintro h ⟨x, y, hxy⟩
    have hne : a ++ p ≠ [] := by simp [hp]
    have hend := h x (y ++ [(a ++ p).getLast hne]) (by
      rw [← List.append_assoc, hxy, List.dropLast_append_getLast])
    simp at hend

omit [DecidableEq α] in
theorem not_infix_tail_iff {b : List α} (hp : p ≠ []) :
    ¬ p <:+: (p ++ b).tail ↔ ∀ x y, p ++ b = x ++ p ++ y → x = [] := by
  constructor
  · intro h x y hxy
    cases x with
    | nil => rfl
    | cons c x =>
      refine absurd ⟨x, y, ?_⟩ h
      rw [hxy]
      rfl
  · rintro h ⟨x, y, hxy⟩
    have hne : p ++ b ≠ [] := by simp [hp]
    have hstart := h ((p ++ b).head hne :: x) y (by
      rw [List.cons_append, List.cons_append, hxy, List.cons_head_tail])
    cases hstart

/-- A mark that overlaps with itself in its last character only: what follows a text makes one of
it only if the text ends with all of the mark but that. -/
theorem infix_of_overlap {c : α} {t : List α} (h : p <:+: s ++ t)
    (hp : ∀ v, v <:+ p → v <+: p → v = [] ∨ v = [c] ∨ v = p) (ht : t <+: p)
    (hlt : t.length < p.length) : p <:+: s ∨ p.dropLast <:+ s := by
  obtain ⟨a, b, h⟩ := h
  rw [List.append_assoc] at h
  rcases List.append_eq_append_iff.1 h with ⟨u, rfl, hu⟩ | ⟨u, rfl, hu⟩
  · rcases List.append_eq_append_iff.1 hu with ⟨v, rfl, hv⟩ | ⟨v, rfl, hv⟩
    · exact .inl ⟨a, v, by simp⟩
    · have hvt : v <+: u ++ v := (List.prefix_append v b).trans (hv ▸ ht)
      rcases hp v (List.suffix_append u v) hvt with rfl | rfl | hvp
      · exact .inl ⟨a, [], by simp⟩
      · exact .inr ⟨a, by simp⟩
      · have := congrArg List.length hv
        rw [← hvp] at hlt
        simp only [List.length_append] at this
        omega
  · have := congrArg List.length hu
    simp only [List.length_append] at this
    omega

/-! ### Two readings of a text -/

/-- A text is read in two ways as one part, the mark, and another part. In the second way the mark
is a later one, and the first part takes in the earlier one with all up to there. -/
def Slides {α : Type} (p a b a' b' : List α) : Prop := ∃ w, a' = a ++ p ++ w ∧ b = w ++ p ++ b'

omit [DecidableEq α] in
theorem Slides.infix {a b a' b' : List α} (h : Slides p a b a' b') : p <:+: a' := by
  obtain ⟨w, rfl, -⟩ := h
  exact ⟨a, w, rfl⟩

omit [DecidableEq α] in
/-- A mark whose first character is found nowhere else in it does not overlap with itself. -/
theorem mark_append_eq {c : α} {m t b b' : List α} (hc : c ∉ m)
    (h : c :: m ++ b = t ++ (c :: m ++ b')) :
    (t = [] ∧ b = b') ∨ ∃ w, t = c :: m ++ w ∧ b = w ++ (c :: m ++ b') := by
  rcases List.append_eq_append_iff.1 h with ⟨w, ht, hb⟩ | ⟨v, hm, hv⟩
  · exact .inr ⟨w, ht, hb⟩
  · cases t with
    | nil => exact .inl ⟨rfl, List.append_cancel_left h⟩
    | cons d t =>
      obtain ⟨rfl, rfl⟩ := List.cons.inj hm
      cases v with
      | nil => exact .inr ⟨[], by simp, by simpa using hv.symm⟩
      | cons e v =>
        obtain ⟨rfl, -⟩ := List.cons.inj hv
        exact absurd (List.mem_append_right t List.mem_cons_self) hc

omit [DecidableEq α] in
theorem append_mark_eq_iff {c : α} {m a b a' b' : List α} (hc : c ∉ m) :
    a ++ (c :: m) ++ b = a' ++ (c :: m) ++ b' ↔
      (a = a' ∧ b = b') ∨ Slides (c :: m) a b a' b' ∨ Slides (c :: m) a' b' a b := by
  have hslides {a b a' b' t : List α} (ha : a' = a ++ t)
      (h : c :: m ++ b = t ++ (c :: m ++ b')) :
      (a = a' ∧ b = b') ∨ Slides (c :: m) a b a' b' := by
    subst ha
    rcases mark_append_eq hc h with ⟨rfl, rfl⟩ | ⟨w, rfl, rfl⟩
    · exact .inl ⟨(List.append_nil a).symm, rfl⟩
    · exact .inr ⟨w, (List.append_assoc ..).symm, (List.append_assoc ..).symm⟩
  rw [List.append_assoc, List.append_assoc]
  constructor
  · intro h
    rcases List.append_eq_append_iff.1 h with ⟨t, ha, ht⟩ | ⟨t, ha, ht⟩
    · exact (hslides ha ht).imp_right .inl
    · rcases hslides ha ht with ⟨rfl, rfl⟩ | hs
      · exact .inl ⟨rfl, rfl⟩
      · exact .inr (.inr hs)
  · rintro (⟨rfl, rfl⟩ | ⟨w, rfl, rfl⟩ | ⟨w, rfl, rfl⟩)
    · rfl
    · simp only [List.append_assoc]
    · simp only [List.append_assoc]

end Notebook.Text
