import Notebook.Proofs.Syntax.Literal

/-!
Where a text may be cut. A character that goes on with no token ends the one before it as the end of
the text does, and what follows it is not looked at.
-/

namespace Notebook.Syntax.Literal

open Notebook.Text

/-- A character that goes on with no token. -/
def isEdge (c : Char) : Bool := !isIdentContinue c && !"\"#'*+-.".toList.contains c

/-- A text that goes on with no token. -/
def Edge (z : List Char) : Prop := ∀ c ∈ z.head?, isEdge c = true

section

variable {c d : Char} {z : List Char}

theorem edge_cons : Edge (c :: z) ↔ isEdge c = true := by simp [Edge]

theorem ne_of_isEdge (hc : isEdge c = true) (hd : isEdge d = false) : c ≠ d := by
  rintro rfl
  rw [hc] at hd
  cases hd

theorem isIdentContinue_of_isEdge (hc : isEdge c = true) : isIdentContinue c = false := by
  rw [isEdge, Bool.and_eq_true, Bool.not_eq_true'] at hc
  exact hc.1

theorem isIdentStart_of_isEdge (hc : isEdge c = true) : isIdentStart c = false := by
  by_contra h
  have := isIdentContinue_of_isIdentStart (by simpa using h)
  rw [isIdentContinue_of_isEdge hc] at this
  cases this

theorem isDigit_of_isEdge (hc : isEdge c = true) : c.isDigit = false := by
  have := isIdentContinue_of_isEdge hc
  simp only [isIdentContinue, Bool.or_eq_false_iff] at this
  exact this.1.2

theorem isAlpha_iff_toNat : c.isAlpha = true ↔
    65 ≤ c.toNat ∧ c.toNat ≤ 90 ∨ 97 ≤ c.toNat ∧ c.toNat ≤ 122 := by
  change (decide (c.val ≥ 'A'.val ∧ c.val ≤ 'Z'.val) ||
    (decide (c.val ≥ 'a'.val) && decide (c.val ≤ 'z'.val))) = true ↔ _
  rw [Bool.or_eq_true, Bool.and_eq_true, decide_eq_true_eq, decide_eq_true_eq, decide_eq_true_eq]
  exact Iff.rfl

theorem isIdentContinue_of_isHex (hc : isHex c = true) : isIdentContinue c = true := by
  have halpha (h : 'a' ≤ c ∧ c ≤ 'f' ∨ 'A' ≤ c ∧ c ≤ 'F') : c.isAlpha = true := by
    change 97 ≤ c.toNat ∧ c.toNat ≤ 102 ∨ 65 ≤ c.toNat ∧ c.toNat ≤ 70 at h
    rw [isAlpha_iff_toNat]
    omega
  simp only [isHex, Bool.or_eq_true, Bool.and_eq_true, decide_eq_true_eq, or_assoc] at hc
  rcases hc with hc | hc
  · simp [isIdentContinue, hc]
  · simp [isIdentContinue, isIdentStart, halpha hc]

theorem isHex_of_isEdge (hc : isEdge c = true) : isHex c = false := by
  by_contra h
  have := isIdentContinue_of_isHex (by simpa using h)
  rw [isIdentContinue_of_isEdge hc] at this
  cases this

end

/-! ### Words and numbers -/

section

variable {z : List Char} (hz : Edge z) {n k : Nat}

theorem Stops.le {t : List Char} (h : Stops t n) : n ≤ t.length := by
  obtain ⟨u, c, v, rfl, rfl, -⟩ := h
  simp

include hz

theorem takeWhile_append_of_edge {p : Char → Bool} (hp : ∀ c, isEdge c = true → p c = false)
    (u : List Char) : (u ++ z).takeWhile p = u.takeWhile p := by
  induction u with
  | nil =>
    cases z with
    | nil => rfl
    | cons c z => exact List.takeWhile_cons_of_neg (by simp [hp c (edge_cons.1 hz)])
  | cons c u ih => by_cases hc : p c = true <;> simp [hc, ih]

theorem identTail_append (u : List Char) : identTail (u ++ z) = identTail u :=
  takeWhile_append_of_edge hz (fun _ => isIdentContinue_of_isEdge) u

theorem plainIdentLength?_append (u : List Char) :
    plainIdentLength? (u ++ z) = plainIdentLength? u := by
  cases u with
  | nil =>
    cases z with
    | nil => rfl
    | cons c z => simp [plainIdentLength?, isIdentStart_of_isEdge (edge_cons.1 hz)]
  | cons c u => simp [plainIdentLength?, identTail_append hz]

theorem withSuffix_append (n : Nat) (u : List Char) :
    withSuffix n (u ++ z) = withSuffix n u := by
  rw [withSuffix, withSuffix, plainIdentLength?_append hz]

theorem mantissa?_append (point : Bool) (u : List Char) :
    mantissa? n point (u ++ z) = mantissa? n point u := by
  induction u generalizing n point with
  | nil =>
    cases z with
    | nil => rfl
    | cons c z =>
      have hc := edge_cons.1 hz
      rw [List.nil_append, mantissa?.eq_3 _ _ _ _ (ne_of_isEdge hc (by decide)), if_neg, if_neg,
        mantissa?.eq_4]
      · rintro (rfl | rfl) <;> cases hc
      · simpa [isDigit_of_isEdge hc] using ne_of_isEdge hc (by decide)
  | cons c u ih =>
    by_cases hc : c = '.'
    · subst hc
      cases u with
      | nil =>
        cases z with
        | nil => rfl
        | cons d z =>
          have hd := edge_cons.1 hz
          have hrest := ih (n := n + 1) true
          rw [List.nil_append] at hrest
          have hstart : (decide (d = '.') || isIdentStart d) = false := by
            simpa [isIdentStart_of_isEdge hd] using ne_of_isEdge hd (by decide)
          rw [List.singleton_append, mantissa?.eq_2, mantissa?.eq_1, hrest, hstart]
          rfl
      | cons d u => rw [List.cons_append, List.cons_append, mantissa?.eq_2, mantissa?.eq_2,
          ← List.cons_append, ih]
    · rw [List.cons_append, mantissa?.eq_3 _ _ _ _ hc, mantissa?.eq_3 _ _ _ _ hc, ih]

theorem exponent_append (sign digit : Bool) (u : List Char) :
    exponent n sign digit (u ++ z) = exponent n sign digit u := by
  induction u generalizing n sign digit with
  | nil =>
    cases z with
    | nil => rfl
    | cons c z =>
      have hc := edge_cons.1 hz
      rw [List.nil_append, exponent.eq_1, if_neg, isDigit_of_isEdge hc, if_neg (by simp), if_neg,
        exponent.eq_2]
      · exact ne_of_isEdge hc (by decide)
      · rintro (rfl | rfl) <;> cases hc
  | cons c u ih => simp only [List.cons_append, exponent.eq_1, ih]

theorem floatDigits?_append (u : List Char) : floatDigits? (u ++ z) = floatDigits? u := by
  cases u with
  | nil =>
    cases z with
    | nil => rfl
    | cons c z => simp [floatDigits?, isDigit_of_isEdge (edge_cons.1 hz)]
  | cons c u =>
    rw [List.cons_append, floatDigits?, floatDigits?, mantissa?_append hz]
    refine if_ctx_congr Iff.rfl (fun hc => Option.bind_congr ?_) fun _ => rfl
    rintro ⟨n, point, mark⟩ h
    have hfirst : Stops (c :: u) 1 := ⟨[], c, u, rfl, rfl, ne_feed_of_isDigit hc⟩
    have hle := (mantissa?_stops h rfl hfirst).1.le
    dsimp only
    rw [← List.cons_append, List.drop_append_of_le_length hle, exponent_append hz]

theorem baseDigits?_append (base : Nat) (digit : Bool) (u : List Char) :
    baseDigits? base n digit (u ++ z) = baseDigits? base n digit u := by
  induction u generalizing n digit with
  | nil =>
    cases z with
    | nil => rfl
    | cons c z =>
      have hc := edge_cons.1 hz
      rw [List.nil_append, baseDigits?.eq_1, isDigit_of_isEdge hc, isHex_of_isEdge hc,
        if_neg (by simp), if_neg (by simp), if_neg (ne_of_isEdge hc (by decide)), baseDigits?.eq_2]
  | cons c u ih => simp only [List.cons_append, baseDigits?.eq_1, ih]

theorem intDigits?_append (u : List Char) : intDigits? (u ++ z) = intDigits? u := by
  by_cases hu : ∃ c s, u = '0' :: c :: s ∧ (c = 'x' ∨ c = 'o' ∨ c = 'b')
  · obtain ⟨c, s, rfl, rfl | rfl | rfl⟩ := hu <;> exact baseDigits?_append hz ..
  · have hdecimal {t : List Char}
        (ht : ∀ c s, t = '0' :: c :: s → ¬ (c = 'x' ∨ c = 'o' ∨ c = 'b')) :
        intDigits? t = baseDigits? 10 0 false t :=
      intDigits?.eq_4 t (fun s h => ht _ s h (by simp)) (fun s h => ht _ s h (by simp))
        fun s h => ht _ s h (by simp)
    have hu' : ∀ c s, u = '0' :: c :: s → ¬ (c = 'x' ∨ c = 'o' ∨ c = 'b') :=
      fun c s h hc => hu ⟨c, s, h, hc⟩
    rw [hdecimal hu', hdecimal, baseDigits?_append hz]
    intro c s h hc
    have hedge {c : Char} {s : List Char} (h : z = c :: s) : isEdge c = true :=
      edge_cons.1 (h ▸ hz)
    rcases u with _ | ⟨d, _ | ⟨e, u⟩⟩
    · cases hedge h
    · have := hedge (List.cons.inj h).2
      rcases hc with rfl | rfl | rfl <;> cases this
    · cases h
      exact hu' _ _ rfl hc

theorem endNumber?_append {u : List Char} (h : Stops u n) :
    endNumber? (u ++ z) n = endNumber? u n := by
  unfold endNumber?
  dsimp only
  rw [List.drop_append_of_le_length h.le, withSuffix_append hz,
    List.drop_append_of_le_length h.withSuffix.le]
  cases u.drop (withSuffix n (u.drop n)) with
  | nil =>
    cases z with
    | nil => rfl
    | cons c z => simp [isIdentContinue_of_isEdge (edge_cons.1 hz)]
  | cons c r => rfl

theorem numberLength?_append (u : List Char) : numberLength? (u ++ z) = numberLength? u := by
  rw [numberLength?, numberLength?, floatDigits?_append hz, intDigits?_append hz]
  congr 1
  · exact Option.bind_congr fun n h => endNumber?_append hz (floatDigits?_stops h)
  · exact Option.bind_congr fun n h => endNumber?_append hz (intDigits?_stops h)

theorem hasPrefix_append {p : List Char} (hp : p.any isEdge = false) (u : List Char) :
    hasPrefix p (u ++ z) = hasPrefix p u := by
  induction p generalizing u with
  | nil => rfl
  | cons c p ih =>
    rw [List.any_cons, Bool.or_eq_false_iff] at hp
    cases u with
    | nil =>
      cases z with
      | nil => rfl
      | cons d z =>
        have hne : c ≠ d := (ne_of_isEdge (edge_cons.1 hz) hp.1).symm
        simp [hasPrefix, dropPrefix?, hne]
    | cons d u =>
      have := ih hp.2 u
      by_cases hc : c = d <;> simp_all [hasPrefix, dropPrefix?]

end

/-! ### Texts and characters -/

section

variable {q : Quoted} {n k : Nat} {u z : List Char}

theorem cons_of_append {c : Char} {t : List Char} (h : u ++ z = c :: t) (hu : 0 < u.length) :
    ∃ v, u = c :: v ∧ t = v ++ z := by
  cases u with
  | nil => cases hu
  | cons d v =>
    obtain ⟨rfl, rfl⟩ := List.cons.inj h
    exact ⟨v, rfl, rfl⟩

theorem cons_cons_of_append {c d : Char} {t : List Char} (h : u ++ z = c :: d :: t)
    (hu : 1 < u.length) : ∃ v, u = c :: d :: v ∧ t = v ++ z := by
  obtain ⟨v, rfl, hv⟩ := cons_of_append h (by omega)
  obtain ⟨w, rfl, hw⟩ := cons_of_append hv.symm (by simpa using hu)
  exact ⟨w, rfl, hw⟩

theorem le_withSuffix (n : Nat) (s : List Char) : n ≤ withSuffix n s := Nat.le_add_right _ _

theorem unicodeDigits?_lt {value digits v : Nat} {s : List Char}
    (h : unicodeDigits? value digits n s = some (v, k)) : n < k := by
  fun_induction unicodeDigits? value digits n s with
  | case2 => rename_i ih; exact Nat.lt_of_succ_lt (ih h)
  | case3 => rename_i ih; exact Nat.lt_of_succ_lt (ih h)
  | case4 => cases h; exact Nat.lt_succ_self _
  | _ => cases h

theorem unicodeDigits?_local {value digits v : Nat} (z' : List Char)
    (h : unicodeDigits? value digits n (u ++ z) = some (v, k)) (hk : k ≤ n + u.length) :
    unicodeDigits? value digits n (u ++ z') = some (v, k) := by
  induction u generalizing value digits n with
  | nil =>
    have := unicodeDigits?_lt h
    rw [List.length_nil] at hk
    omega
  | cons c u ih =>
    rw [List.length_cons] at hk
    rw [List.cons_append, unicodeDigits?] at h ⊢
    split_ifs at h ⊢
    · exact ih h (by omega)
    · exact ih h (by omega)
    · exact h

theorem escapeLength?_local (z' : List Char) (h : escapeLength? q (u ++ z) = some k)
    (hk : k ≤ u.length) : escapeLength? q (u ++ z') = some k := by
  have h' := h
  unfold escapeLength? at h
  split at h
  · rename_i a b t heq
    obtain rfl : 3 = k := by
      split at h <;> split at h <;> first | exact Option.some.inj h | cases h
    rcases u with _ | ⟨_, _ | ⟨_, _ | ⟨_, u⟩⟩⟩ <;> try simp at hk
    cases heq
    exact h'
  · rename_i t heq
    have hlt : 2 < k := by
      split at h
      · cases h
      · obtain ⟨⟨v, m⟩, hm, h⟩ := Option.map_eq_some_iff.1 h
        cases h
        exact unicodeDigits?_lt hm
      · obtain ⟨⟨v, m⟩, hm, h⟩ := Option.bind_eq_some_iff.1 h
        dsimp only at h
        split at h <;> cases h
        exact unicodeDigits?_lt hm
    rcases u with _ | ⟨_, _ | ⟨_, u⟩⟩ <;> try (simp at hk; omega)
    cases heq
    rw [List.length_cons, List.length_cons] at hk
    cases q with
    | bytes => cases h
    | text =>
      obtain ⟨⟨v, m⟩, hm, he⟩ := Option.map_eq_some_iff.1 h
      cases he
      exact Option.map_eq_some_iff.2 ⟨(v, m), unicodeDigits?_local z' hm (by omega), rfl⟩
    | cstring =>
      obtain ⟨⟨v, m⟩, hm, he⟩ := Option.bind_eq_some_iff.1 h
      refine Option.bind_eq_some_iff.2 ⟨(v, m), unicodeDigits?_local z' hm ?_, he⟩
      dsimp only at he
      split at he <;> cases he
      omega
  · rename_i t heq
    obtain rfl : 1 = k := by
      rw [Option.ite_none_left_eq_some] at h
      exact Option.some.inj h.2
    rcases u with _ | ⟨_, u⟩ <;> try simp at hk
    cases heq
    exact h'
  · rename_i c t hx hu h0 heq
    rw [Option.ite_none_right_eq_some] at h
    obtain ⟨hc, h⟩ := h
    rcases u with _ | ⟨_, u⟩
    · cases h
      simp at hk
    · cases heq
      rcases hc with rfl | rfl | rfl | rfl | rfl | rfl <;> exact h
  · cases h

theorem continuationLength?_le {last : Char} {s : List Char}
    (h : continuationLength? last n s = some k) : n ≤ k := by
  fun_induction continuationLength? last n s with
  | case1 | case3 => cases h
  | case2 => rename_i ih; exact Nat.le_of_succ_le (ih h)
  | case4 => rename_i ih; exact Nat.le_of_succ_le (ih h)
  | case5 => cases h; exact Nat.le_refl _

theorem continuationLength?_local {last : Char} (z' : List Char)
    (h : continuationLength? last n (u ++ z) = some k) (hk : k < n + u.length) :
    continuationLength? last n (u ++ z') = some k := by
  induction u generalizing last n with
  | nil =>
    have := continuationLength?_le h
    rw [List.length_nil] at hk
    omega
  | cons c u ih =>
    rw [List.length_cons] at hk
    rw [List.cons_append, continuationLength?] at h ⊢
    split_ifs at h ⊢
    · exact ih h (by omega)
    · exact ih h (by omega)
    · exact h

theorem quotedLength?_lt {fuel : Nat} {s : List Char}
    (h : quotedLength? q fuel n s = some k) : n < k := by
  fun_induction quotedLength? q fuel n s with
  | case1 | case2 | case5 | case10 => cases h
  | case3 => cases h; exact le_withSuffix _ _
  | case4 => rename_i ih; exact Nat.lt_of_succ_lt (Nat.lt_of_succ_lt (ih h))
  | case6 | case7 | case8 =>
    rename_i ih
    obtain ⟨m, -, h⟩ := Option.bind_eq_some_iff.1 h
    have := ih m h
    omega
  | case9 => rename_i ih; exact Nat.lt_of_succ_lt (ih h)

theorem rawLength?_lt {hashes : Nat} {s : List Char} (h : rawLength? q hashes n s = some k) :
    n + hashes < k := by
  fun_induction rawLength? q hashes n s with
  | case1 | case5 | case7 => cases h
  | case2 =>
    cases h
    exact Nat.lt_of_lt_of_le (by omega) (le_withSuffix _ _)
  | case3 | case4 | case6 =>
    rename_i ih
    have := ih h
    omega

theorem rawTextLength?_lt {s : List Char} (h : rawTextLength? q n s = some k) : n < k := by
  unfold rawTextLength? at h
  dsimp only at h
  split at h
  · rw [Option.ite_none_right_eq_some] at h
    have := rawLength?_lt h.2
    omega
  · cases h

theorem charLength?_lt {s : List Char} (h : charLength? q n s = some k) : n < k := by
  unfold charLength? at h
  dsimp only at h
  split at h
  · obtain ⟨m, -, h⟩ := Option.bind_eq_some_iff.1 h
    split at h <;> cases h
    exact Nat.lt_of_lt_of_le (by omega) (le_withSuffix _ _)
  · rw [Option.ite_none_right_eq_some] at h
    obtain ⟨-, h⟩ := h
    split at h <;> cases h
    exact Nat.lt_of_lt_of_le (by omega) (le_withSuffix _ _)
  · cases h

theorem numberLength?_starts {s : List Char} (h : numberLength? s = some n) :
    ∃ c t, s = c :: t ∧ c.isDigit = true := by
  rw [numberLength?, Option.or_eq_some_iff] at h
  rcases h with h | ⟨-, h⟩
  · obtain ⟨m, h, -⟩ := Option.bind_eq_some_iff.1 h
    cases s with
    | nil => cases h
    | cons c s =>
      rw [floatDigits?, Option.ite_none_right_eq_some] at h
      exact ⟨c, s, rfl, h.1⟩
  · obtain ⟨m, h, -⟩ := Option.bind_eq_some_iff.1 h
    unfold intDigits? at h
    split at h
    · exact ⟨'0', _, rfl, rfl⟩
    · exact ⟨'0', _, rfl, rfl⟩
    · exact ⟨'0', _, rfl, rfl⟩
    · cases s with
      | nil => cases h
      | cons c s =>
        refine ⟨c, s, rfl, ?_⟩
        by_contra hc
        have hhex : (isHex c && hexValue c < 10) = false := by
          by_contra hhex
          simp only [isHex, hexValue, hc, Char.le_def, UInt32.le_iff_toNat_le,
            Bool.not_eq_false, Bool.and_eq_true, Bool.or_eq_true, decide_eq_true_eq] at hhex
          obtain ⟨hletter, hvalue⟩ := hhex
          simp at hletter hvalue
          split at hvalue <;> omega
        rw [baseDigits?.eq_1, if_neg hc, hhex, if_neg (by simp)] at h
        split at h <;> cases h

theorem not_number_of_isDigit {c : Char} (s : List Char) (hc : c.isDigit = true) :
    textLength? (c :: s) = none ∧ characterLength? (c :: s) = none := by
  constructor
  · unfold textLength?
    split <;> first | rfl | (rename_i heq; cases heq; cases hc)
  · unfold characterLength?
    split <;> first | rfl | (rename_i heq; cases heq; cases hc)

variable {z' : List Char} (hz : Edge z) (hz' : Edge z')

include hz hz'

omit hz hz' in
/-- What goes on past characters that are read together. -/
theorem bind_quotedLength?_local {f : List Char → Option Nat} {fuel fuel' : Nat}
    (hf : ∀ m < u.length, f (u ++ z) = some m → f (u ++ z') = some m)
    (hquoted : ∀ m, quotedLength? q fuel (n + m) (u.drop m ++ z) = some k →
      k ≤ n + m + (u.drop m).length → quotedLength? q fuel' (n + m) (u.drop m ++ z') = some k)
    (h : ((f (u ++ z)).bind fun m => quotedLength? q fuel (n + m) ((u ++ z).drop m)) = some k)
    (hk : k ≤ n + u.length) :
    ((f (u ++ z')).bind fun m => quotedLength? q fuel' (n + m) ((u ++ z').drop m)) = some k := by
  obtain ⟨m, hm, h⟩ := Option.bind_eq_some_iff.1 h
  have hlt := quotedLength?_lt h
  have hm' : m < u.length := by omega
  rw [List.drop_append_of_le_length hm'.le] at h
  refine Option.bind_eq_some_iff.2 ⟨m, hf m hm' hm, ?_⟩
  rw [List.drop_append_of_le_length hm'.le]
  exact hquoted m h (by rw [List.length_drop]; omega)

/-- A quoted text needs no more fuel than it has characters. -/
theorem quotedLength?_local {fuel fuel' : Nat} (h : quotedLength? q fuel n (u ++ z) = some k)
    (hk : k ≤ n + u.length) (hf : u.length < fuel') :
    quotedLength? q fuel' n (u ++ z') = some k := by
  induction fuel generalizing fuel' n u with
  | zero => cases h
  | succ fuel ih =>
    obtain ⟨fuel', rfl⟩ : ∃ m, fuel' = m + 1 := ⟨fuel' - 1, by omega⟩
    cases u with
    | nil =>
      have := quotedLength?_lt h
      rw [List.length_nil] at hk
      omega
    | cons c u =>
      rw [List.length_cons] at hk hf
      rw [List.cons_append] at h ⊢
      unfold quotedLength? at h ⊢
      split_ifs at h ⊢
      · rw [withSuffix_append hz] at h
        rwa [withSuffix_append hz']
      · split at h
        · rename_i s heq
          rcases u with _ | ⟨d, u⟩
          · have := quotedLength?_lt h
            rw [List.length_nil] at hk
            omega
          · cases heq
            exact ih h (by simp at hk; omega) (by simp at hf; omega)
        · cases h
      · rcases u with _ | ⟨d, u⟩
        · have : n + 1 < k := by
            split at h <;>
            · obtain ⟨m, -, h⟩ := Option.bind_eq_some_iff.1 h
              have := quotedLength?_lt h
              omega
          rw [List.length_nil] at hk
          omega
        rw [List.length_cons] at hk hf
        rw [List.cons_append] at h ⊢
        have hcontinue {last : Char} (h : ((continuationLength? last 0 (u ++ z)).bind fun m =>
            quotedLength? q fuel (n + 2 + m) ((u ++ z).drop m)) = some k) :
            ((continuationLength? last 0 (u ++ z')).bind fun m =>
              quotedLength? q fuel' (n + 2 + m) ((u ++ z').drop m)) = some k :=
          bind_quotedLength?_local (fun m hm h => continuationLength?_local z' h (by omega))
            (fun m h hk => ih h hk (by rw [List.length_drop]; omega)) h (by omega)
        have hescape (h : ((escapeLength? q (d :: u ++ z)).bind fun m =>
            quotedLength? q fuel (n + 1 + m) ((d :: u ++ z).drop m)) = some k) :
            ((escapeLength? q (d :: u ++ z')).bind fun m =>
              quotedLength? q fuel' (n + 1 + m) ((d :: u ++ z').drop m)) = some k :=
          bind_quotedLength?_local (fun m hm h => escapeLength?_local z' h hm.le)
            (fun m h hk => ih h hk (by rw [List.length_drop, List.length_cons]; omega)) h
            (by rw [List.length_cons]; omega)
        by_cases hfeed : d = '\n'
        · subst hfeed
          exact hcontinue h
        by_cases hreturn : d = '\r'
        · subst hreturn
          exact hcontinue h
        · split at h
          · exact absurd (List.cons.inj ‹_›).1 hfeed
          · exact absurd (List.cons.inj ‹_›).1 hreturn
          · split
            · exact absurd (List.cons.inj ‹_›).1 hfeed
            · exact absurd (List.cons.inj ‹_›).1 hreturn
            · exact hescape h
      · exact ih h (by omega) (by omega)

theorem rawLength?_local {hashes : Nat} (h : rawLength? q hashes n (u ++ z) = some k)
    (hk : k ≤ n + u.length) : rawLength? q hashes n (u ++ z') = some k := by
  have hhash : (List.replicate hashes '#').any isEdge = false := by
    rw [List.any_replicate]
    split <;> rfl
  -- two characters are read at once at the end of a line
  induction hlen : u.length using Nat.strong_induction_on generalizing n u with
  | _ l ih =>
    cases u with
    | nil =>
      have := rawLength?_lt h
      rw [List.length_nil] at hk
      omega
    | cons c u =>
      rw [List.length_cons] at hk hlen
      rw [List.cons_append] at h ⊢
      by_cases hquote : c = '"'
      · subst hquote
        rw [rawLength?.eq_2, hasPrefix_append hz hhash] at h
        rw [rawLength?.eq_2, hasPrefix_append hz' hhash]
        split_ifs at h ⊢
        · have := le_withSuffix (n + 1 + hashes) ((u ++ z).drop hashes)
          have hle : hashes ≤ u.length := by
            rw [Option.some.inj h] at this
            omega
          rw [List.drop_append_of_le_length hle, withSuffix_append hz] at h
          rwa [List.drop_append_of_le_length hle, withSuffix_append hz']
        · exact ih _ (by omega) h (by omega) rfl
      by_cases hreturn : c = '\r'
      · subst hreturn
        by_cases hfeed : ∃ t, u ++ z = '\n' :: t
        · obtain ⟨t, ht⟩ := hfeed
          rw [ht, rawLength?.eq_3] at h
          rcases u with _ | ⟨d, u⟩
          · have := rawLength?_lt h
            rw [List.length_nil] at hk
            omega
          · obtain ⟨rfl, rfl⟩ := List.cons.inj ht
            rw [List.length_cons] at hk hlen
            rw [List.cons_append, rawLength?.eq_3]
            exact ih _ (by omega) h (by omega) rfl
        · rw [rawLength?.eq_4 _ _ _ _ fun t ht => hfeed ⟨t, ht⟩] at h
          cases h
      · have hline (r t : List Char) (hc : c = '\r') : r = '\n' :: t → False :=
          absurd hc hreturn
        rw [rawLength?.eq_5 _ _ _ _ _ hquote (hline _) hreturn] at h ⊢
        split_ifs at h ⊢
        exact ih _ (by omega) h (by omega) rfl

theorem rawTextLength?_local (h : rawTextLength? q n (u ++ z) = some k) (hk : k ≤ n + u.length) :
    rawTextLength? q n (u ++ z') = some k := by
  have hhash (c : Char) (hc : isEdge c = true) : decide (c = '#') = false :=
    decide_eq_false (ne_of_isEdge hc (by decide))
  have hle : (u.takeWhile fun c => decide (c = '#')).length ≤ u.length :=
    (List.takeWhile_sublist _).length_le
  unfold rawTextLength? at h ⊢
  dsimp only at h ⊢
  rw [takeWhile_append_of_edge hz hhash, List.drop_append_of_le_length hle] at h
  rw [takeWhile_append_of_edge hz' hhash, List.drop_append_of_le_length hle]
  generalize hhashes : (u.takeWhile fun c => decide (c = '#')).length = hashes at h hle ⊢
  have hlen : (u.drop hashes).length = u.length - hashes := List.length_drop
  generalize u.drop hashes = v at h hlen ⊢
  rcases v with _ | ⟨c, r⟩
  · split at h
    · rename_i heq
      rw [List.nil_append] at heq
      rw [heq] at hz
      cases edge_cons.1 hz
    · cases h
  · rw [List.length_cons] at hlen
    by_cases hc : c = '"'
    · subst hc
      change (if hashes ≤ 255 then _ else _) = some k at h
      change (if hashes ≤ 255 then _ else _) = some k
      split_ifs at h ⊢
      exact rawLength?_local hz hz' h (by omega)
    · split at h
      · exact absurd (List.cons.inj ‹_›).1 hc
      · cases h

theorem textLength?_local (h : textLength? (u ++ z) = some k) (hk : k ≤ u.length) :
    textLength? (u ++ z') = some k := by
  unfold textLength? at h
  split at h
  · have := quotedLength?_lt h
    obtain ⟨v, rfl, rfl⟩ := cons_of_append ‹_› (by omega)
    exact quotedLength?_local hz hz' h (by simp at hk; omega) (by simp; omega)
  · have := rawTextLength?_lt h
    obtain ⟨v, rfl, rfl⟩ := cons_of_append ‹_› (by omega)
    exact rawTextLength?_local hz hz' h (by simp at hk; omega)
  · have := quotedLength?_lt h
    obtain ⟨v, rfl, rfl⟩ := cons_cons_of_append ‹_› (by omega)
    exact quotedLength?_local hz hz' h (by simp at hk; omega) (by simp; omega)
  · have := rawTextLength?_lt h
    obtain ⟨v, rfl, rfl⟩ := cons_cons_of_append ‹_› (by omega)
    exact rawTextLength?_local hz hz' h (by simp at hk; omega)
  · have := quotedLength?_lt h
    obtain ⟨v, rfl, rfl⟩ := cons_cons_of_append ‹_› (by omega)
    exact quotedLength?_local hz hz' h (by simp at hk; omega) (by simp; omega)
  · have := rawTextLength?_lt h
    obtain ⟨v, rfl, rfl⟩ := cons_cons_of_append ‹_› (by omega)
    exact rawTextLength?_local hz hz' h (by simp at hk; omega)
  · cases h

theorem charLength?_local (h : charLength? q n (u ++ z) = some k) (hk : k ≤ n + u.length) :
    charLength? q n (u ++ z') = some k := by
  unfold charLength? at h
  dsimp only at h
  split at h
  · rename_i s heq
    obtain ⟨m, hm, h⟩ := Option.bind_eq_some_iff.1 h
    split at h <;> cases h
    rename_i r hr
    have hle := le_withSuffix (n + 1 + m + 1) r
    obtain ⟨v, rfl, rfl⟩ := cons_of_append heq (by omega)
    rw [List.length_cons] at hk
    rw [List.drop_append_of_le_length (by omega)] at hr
    obtain ⟨w, hw, rfl⟩ := cons_of_append hr (by rw [List.length_drop]; omega)
    have hdrop : (v ++ z').drop m = '\'' :: (w ++ z') := by
      rw [List.drop_append_of_le_length (by omega), hw, List.cons_append]
    rw [List.cons_append]
    refine Option.bind_eq_some_iff.2 ⟨m, escapeLength?_local z' hm (by omega), ?_⟩
    dsimp only
    rw [hdrop, withSuffix_append hz]
    exact congrArg some (withSuffix_append hz' _ _)
  · rename_i c s hc heq
    rw [Option.ite_none_right_eq_some] at h
    obtain ⟨hadmits, h⟩ := h
    split at h <;> cases h
    rename_i r
    have hle := le_withSuffix (n + 1 + 1) r
    obtain ⟨v, rfl, rfl⟩ := cons_cons_of_append heq (by omega)
    rw [withSuffix_append hz, List.cons_append, List.cons_append]
    unfold charLength?
    dsimp only
    split
    · exact absurd (List.cons.inj ‹_›).1 hc
    · rename_i heq'
      cases heq'
      rw [if_pos hadmits]
      exact congrArg some (withSuffix_append hz' _ _)
    · rename_i heq'
      cases heq'
  · cases h

theorem characterLength?_local (h : characterLength? (u ++ z) = some k) (hk : k ≤ u.length) :
    characterLength? (u ++ z') = some k := by
  unfold characterLength? at h
  split at h
  · have := charLength?_lt h
    obtain ⟨v, rfl, rfl⟩ := cons_cons_of_append ‹_› (by omega)
    exact charLength?_local hz hz' h (by simp at hk; omega)
  · have := charLength?_lt h
    obtain ⟨v, rfl, rfl⟩ := cons_of_append ‹_› (by omega)
    exact charLength?_local hz hz' h (by simp at hk; omega)
  · cases h

/-- A literal is what it is before any edge. -/
theorem length?_local (h : length? (u ++ z) = some k) (hk : k ≤ u.length) :
    length? (u ++ z') = some k := by
  have hpos := (length?_stops h).pos
  rw [length?, Option.or_eq_some_iff, Option.or_eq_some_iff] at h ⊢
  rcases h with h | ⟨-, h | ⟨-, h⟩⟩
  · exact .inl (textLength?_local hz hz' h hk)
  · refine .inr ⟨?_, .inl (characterLength?_local hz hz' h hk)⟩
    unfold characterLength? at h
    split at h
    · have := charLength?_lt h
      obtain ⟨v, rfl, -⟩ := cons_cons_of_append ‹_› (by omega)
      rfl
    · obtain ⟨v, rfl, -⟩ := cons_of_append ‹_› (by omega)
      rfl
    · cases h
  · obtain ⟨c, t, heq, hc⟩ := numberLength?_starts h
    obtain ⟨v, rfl, -⟩ := cons_of_append heq (by omega)
    obtain ⟨htext, hcharacter⟩ := not_number_of_isDigit (v ++ z') hc
    refine .inr ⟨htext, .inr ⟨hcharacter, ?_⟩⟩
    rw [numberLength?_append hz] at h
    rwa [numberLength?_append hz']

end

end Notebook.Syntax.Literal
