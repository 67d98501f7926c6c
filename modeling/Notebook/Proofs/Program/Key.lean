import Mathlib.Logic.Function.Basic
import Notebook.Program.Key

/-!
What two builds with one key have in common. As long as digests do not collide, a key tells the
source and the manifest, but not where the one ends and the other starts.
-/

namespace Notebook

theorem Text.Utf8.encode_injective : Function.Injective Text.Utf8.encode := by
  intro s t h
  have hs := Text.Utf8.decode_encode s
  rw [h, Text.Utf8.decode_encode] at hs
  exact (Except.ok.inj hs).symm

namespace Digest

theorem hexDigit_injective : ∀ n < 16, ∀ k < 16, hexDigit n = hexDigit k → n = k := by
  decide

theorem hex_cons (b : UInt8) (bs : List UInt8) :
    hex (b :: bs) = hexDigit (b.toNat / 16) :: hexDigit (b.toNat % 16) :: hex bs := rfl

theorem hex_injective : Function.Injective hex := by
  intro bs
  induction bs with
  | nil =>
    intro cs h
    cases cs with
    | nil => rfl
    | cons c cs => cases h
  | cons b bs ih =>
    intro cs h
    cases cs with
    | nil => cases h
    | cons c cs =>
      rw [hex_cons, hex_cons, List.cons.injEq, List.cons.injEq] at h
      obtain ⟨hhigh, hlow, hrest⟩ := h
      have hb := b.toNat_lt
      have hc := c.toNat_lt
      have hdiv := hexDigit_injective _ (by omega) _ (by omega) hhigh
      have hmod := hexDigit_injective _ (by omega) _ (by omega) hlow
      have hbyte : b = c := by
        apply UInt8.toNat_inj.1
        omega
      rw [hbyte, ih hrest]

end Digest

namespace Program.Key

variable {s s₁ s₂ : List Char} {m m₁ m₂ : Manifest}

theorem message_eq_iff : message s₁ m₁ = message s₂ m₂ ↔ s₁ ++ m₁.text = s₂ ++ m₂.text := by
  rw [message, message, ← Text.Utf8.encode_append, ← Text.Utf8.encode_append]
  exact Text.Utf8.encode_injective.eq_iff

theorem derive_eq_iff_sha256 : derive s₁ m₁ = derive s₂ m₂ ↔
    Digest.sha256 (message s₁ m₁) = Digest.sha256 (message s₂ m₂) := by
  rw [derive, derive, mk.injEq]
  exact Digest.hex_injective.eq_iff

theorem derive_eq_iff_append
    (h : Digest.sha256 (message s₁ m₁) = Digest.sha256 (message s₂ m₂) →
      message s₁ m₁ = message s₂ m₂) :
    derive s₁ m₁ = derive s₂ m₂ ↔ s₁ ++ m₁.text = s₂ ++ m₂.text := by
  rw [derive_eq_iff_sha256, ← message_eq_iff]
  exact ⟨h, congrArg Digest.sha256⟩

/-- The text `t`, which the first manifest starts with, stands at the end of the second source
instead. -/
def Shifted (t : List Char) (s₁ : List Char) (m₁ : Manifest) (s₂ : List Char) (m₂ : Manifest) :
    Prop :=
  s₂ = s₁ ++ t ∧ m₁.text = t ++ m₂.text

theorem append_eq_iff_shifted : s₁ ++ m₁.text = s₂ ++ m₂.text ↔
    ∃ t, Shifted t s₁ m₁ s₂ m₂ ∨ Shifted t s₂ m₂ s₁ m₁ := by
  rw [List.append_eq_append_iff]
  constructor
  · rintro (⟨t, hs, hm⟩ | ⟨t, hs, hm⟩)
    · exact ⟨t, .inl ⟨hs, hm⟩⟩
    · exact ⟨t, .inr ⟨hs, hm⟩⟩
  · rintro ⟨t, ⟨hs, hm⟩ | ⟨hs, hm⟩⟩
    · exact .inl ⟨t, hs, hm⟩
    · exact .inr ⟨t, hs, hm⟩

theorem shifted_nil : Shifted [] s₁ m₁ s₂ m₂ ↔ s₁ = s₂ ∧ m₁ = m₂ := by
  cases m₁
  cases m₂
  simp [Shifted, eq_comm]

theorem Shifted.eq_nil {t : List Char} (h : Shifted t s₁ m₁ s₂ m₂) (hsame : s₁ = s₂ ∨ m₁ = m₂) :
    t = [] := by
  obtain ⟨hs, hm⟩ := h
  rcases hsame with rfl | rfl
  · simpa using hs
  · simpa using hm

/-- As long as their digests do not collide, two builds have one key if and only if they have the
same source and the same manifest, or some text has been shifted from the manifest of one of them to
the end of the source of the other. Among builds with one manifest, and among those of one source,
the key tells them all apart. -/
theorem derive_eq_iff (s₁ s₂ : List Char) (m₁ m₂ : Manifest)
    (h : Digest.sha256 (message s₁ m₁) = Digest.sha256 (message s₂ m₂) →
      message s₁ m₁ = message s₂ m₂) :
    (derive s₁ m₁ = derive s₂ m₂ ↔ (s₁ = s₂ ∧ m₁ = m₂) ∨
      ∃ t, t ≠ [] ∧ (Shifted t s₁ m₁ s₂ m₂ ∨ Shifted t s₂ m₂ s₁ m₁)) ∧
    (s₁ = s₂ ∨ m₁ = m₂ → (derive s₁ m₁ = derive s₂ m₂ ↔ s₁ = s₂ ∧ m₁ = m₂)) := by
  rw [derive_eq_iff_append h, append_eq_iff_shifted]
  have hswap : Shifted [] s₂ m₂ s₁ m₁ ↔ s₁ = s₂ ∧ m₁ = m₂ := by
    rw [shifted_nil, eq_comm, @eq_comm _ m₂]
  refine ⟨⟨?_, ?_⟩, fun hsame => ⟨?_, ?_⟩⟩
  · rintro ⟨t, ht⟩
    by_cases hnil : t = []
    · subst hnil
      left
      rcases ht with ht | ht
      · exact shifted_nil.1 ht
      · exact hswap.1 ht
    · exact .inr ⟨t, hnil, ht⟩
  · rintro (hboth | ⟨t, -, ht⟩)
    · exact ⟨[], .inl (shifted_nil.2 hboth)⟩
    · exact ⟨t, ht⟩
  · rintro ⟨t, ht | ht⟩
    · obtain rfl := ht.eq_nil hsame
      exact shifted_nil.1 ht
    · obtain rfl := ht.eq_nil (hsame.imp Eq.symm Eq.symm)
      exact hswap.1 ht
  · intro hboth
    exact ⟨[], .inl (shifted_nil.2 hboth)⟩

/-- The source `a` with the manifest `bc` has the key of the source `ab` with the manifest `c`, and
another source has another key. -/
theorem derive_eq_shifted :
    derive ['a'] ⟨['b', 'c']⟩ = derive ['a', 'b'] ⟨['c']⟩ ∧
    derive "let x = 1;".toList .standard ≠ derive "let x = 2;".toList .standard := by
  constructor
  · apply (derive_eq_iff ['a'] ['a', 'b'] ⟨['b', 'c']⟩ ⟨['c']⟩ (fun _ => rfl)).1.2
    exact .inr ⟨['b'], by decide, .inl ⟨rfl, rfl⟩⟩
  · have hdigest : Digest.sha256 (message "let x = 1;".toList .standard) ≠
        Digest.sha256 (message "let x = 2;".toList .standard) := by
      decide +kernel
    intro h
    have hboth := (derive_eq_iff "let x = 1;".toList "let x = 2;".toList .standard .standard
      (fun heq => absurd heq hdigest)).2 (.inr rfl)
    exact absurd (hboth.1 h).1 (by decide)

/-- A key does not tell sources and manifests, even if no digests collide. -/
theorem derive_ambiguous : ¬ ∀ (s₁ s₂ : List Char) (m₁ m₂ : Manifest),
    (Digest.sha256 (message s₁ m₁) = Digest.sha256 (message s₂ m₂) →
      message s₁ m₁ = message s₂ m₂) →
    derive s₁ m₁ = derive s₂ m₂ → s₁ = s₂ ∧ m₁ = m₂ := by
  intro h
  have hsame := h ['a'] ['a', 'b'] ⟨['b', 'c']⟩ ⟨['c']⟩ (fun _ => rfl) rfl
  exact absurd hsame.1 (by decide)

end Program.Key

end Notebook
