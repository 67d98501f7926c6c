import Notebook.Proofs.Program.Key
import Notebook.Proofs.Text.Split

/-!
Which packages have one manifest. The fields stand in it as they are, so a field that holds the text
of the line after it may take that line's place.
-/

namespace Notebook.Program

open Text (Slides)

namespace Manifest

/-- What ends a field and starts the line of the version, up to the value. -/
def versionMark : List Char := '"' :: "\nversion = ".toList

/-- What ends a field and starts the line of the edition, up to the value. -/
def editionMark : List Char := '"' :: "\nedition = ".toList

end Manifest

namespace Package

open Manifest (editionMark versionMark)

/-- What follows the version, but for the end of the last line. -/
def editionText (p : Package) : List Char :=
  match p.edition with
  | some e => editionMark ++ '"' :: e
  | none => []

/-- What follows the mark of the version, but for the end of the last line. -/
def versionText (p : Package) : List Char := '"' :: p.version ++ p.editionText

/-- The version of `q` takes in the edition of `p`, with all that stands before it. -/
def EditionTakenIn (p q : Package) : Prop :=
  ∃ e, p.edition = some e ∧
    ((q.edition = none ∧ q.version = p.version ++ editionMark ++ '"' :: e) ∨
      ∃ e', q.edition = some e' ∧ Slides editionMark p.version ('"' :: e) q.version ('"' :: e'))

/-- The name or the version of `q` takes in the line that follows it in the manifest of `p`. -/
def TakenIn (p q : Package) : Prop :=
  Slides versionMark p.name p.versionText q.name q.versionText ∨
    (p.name = q.name ∧ p.EditionTakenIn q)

/-- Neither the name nor the version holds the start of the line that follows it. -/
def Tame (p : Package) : Prop := ¬ versionMark <:+: p.name ∧ ¬ editionMark <:+: p.version

instance (p : Package) : Decidable p.Tame := inferInstanceAs (Decidable (_ ∧ _))

variable {p q : Package}

theorem TakenIn.not_tame (h : p.TakenIn q) : ¬ q.Tame := by
  rintro ⟨hname, hversion⟩
  rcases h with h | ⟨-, e, -, ⟨-, hq⟩ | ⟨e', -, h⟩⟩
  · exact hname h.infix
  · exact hversion ⟨p.version, '"' :: e, hq.symm⟩
  · exact hversion h.infix

/-- The version or else the edition tells two packages with one name, unless the version of one of
them takes in the edition of the other. -/
theorem version_edition_iff : p.version ++ p.editionText = q.version ++ q.editionText ↔
    (p.version = q.version ∧ p.edition = q.edition) ∨ p.EditionTakenIn q ∨ q.EditionTakenIn p := by
  rw [editionText, editionText, EditionTakenIn, EditionTakenIn]
  cases p.edition with
  | none =>
    cases q.edition with
    | none => simp
    | some e => simp [List.append_assoc]
  | some e =>
    cases q.edition with
    | none => simp [eq_comm (a := p.version ++ _), List.append_assoc]
    | some e' =>
      have hiff : p.version ++ editionMark ++ '"' :: e = q.version ++ editionMark ++ '"' :: e' ↔
          (p.version = q.version ∧ '"' :: e = '"' :: e') ∨
            Slides editionMark p.version ('"' :: e) q.version ('"' :: e') ∨
            Slides editionMark q.version ('"' :: e') p.version ('"' :: e) :=
        Text.append_mark_eq_iff (by decide)
      rw [List.append_assoc, List.append_assoc] at hiff
      simpa [editionMark] using hiff

theorem eq_of_fields (hname : p.name = q.name) (hversion : p.version = q.version)
    (hedition : p.edition = q.edition) : p = q := by
  cases p
  cases q
  subst hname hversion hedition
  rfl

end Package

namespace Manifest

variable {p q : Package}

theorem mark_version (r : List Char) :
    versionMark ++ '"' :: r = "\"\n".toList ++ ("version".toList ++ (" = \"".toList ++ r)) := by
  have hmark : versionMark ++ ['"'] =
      "\"\n".toList ++ ("version".toList ++ " = \"".toList) := by decide
  rw [← List.singleton_append, ← List.append_assoc, hmark]
  simp only [List.append_assoc]

theorem mark_edition (r : List Char) :
    editionMark ++ '"' :: r = "\"\n".toList ++ ("edition".toList ++ (" = \"".toList ++ r)) := by
  have hmark : editionMark ++ ['"'] =
      "\"\n".toList ++ ("edition".toList ++ " = \"".toList) := by decide
  rw [← List.singleton_append, ← List.append_assoc, hmark]
  simp only [List.append_assoc]

theorem text_some (name version e : List Char) : (ofPackage ⟨name, version, some e⟩).text =
    "[package]\n".toList ++ setting "name" name ++ setting "version" version ++
      setting "edition" e := rfl

theorem text_none (name version : List Char) : (ofPackage ⟨name, version, none⟩).text =
    "[package]\n".toList ++ setting "name" name ++ setting "version" version ++ [] := rfl

theorem text_ofPackage (p : Package) : (ofPackage p).text =
    "[package]\n".toList ++ ("name".toList ++ " = \"".toList) ++
      (p.name ++ versionMark ++ p.versionText) ++ "\"\n".toList := by
  obtain ⟨name, version, edition⟩ := p
  cases edition with
  | none =>
    simp only [text_none, setting, Package.versionText, Package.editionText, List.append_assoc,
      List.append_nil, mark_version]
  | some e =>
    simp only [text_some, setting, Package.versionText, Package.editionText, List.append_assoc,
      List.cons_append, mark_version, mark_edition]

/-- The text tells packages apart, unless a field of one of them takes in a line of the other. -/
theorem text_eq_iff : (ofPackage p).text = (ofPackage q).text ↔
    p = q ∨ p.TakenIn q ∨ q.TakenIn p := by
  rw [text_ofPackage, text_ofPackage, List.append_left_inj, List.append_right_inj, versionMark,
    Text.append_mark_eq_iff (by decide)]
  have htail : p.versionText = q.versionText ↔
      p.version ++ p.editionText = q.version ++ q.editionText := by
    rw [Package.versionText, Package.versionText, List.cons_append, List.cons_append,
      List.cons.injEq, and_iff_right rfl]
  rw [htail, Package.version_edition_iff, Package.TakenIn, Package.TakenIn, versionMark]
  constructor
  · rintro (⟨hname, ⟨hversion, hedition⟩ | htaken | htaken⟩ | hslides | hslides)
    · exact .inl (Package.eq_of_fields hname hversion hedition)
    · exact .inr (.inl (.inr ⟨hname, htaken⟩))
    · exact .inr (.inr (.inr ⟨hname.symm, htaken⟩))
    · exact .inr (.inl (.inl hslides))
    · exact .inr (.inr (.inl hslides))
  · rintro (rfl | (hslides | ⟨hname, htaken⟩) | hslides | ⟨hname, htaken⟩)
    · exact .inl ⟨rfl, .inl ⟨rfl, rfl⟩⟩
    · exact .inr (.inl hslides)
    · exact .inl ⟨hname, .inr (.inl htaken)⟩
    · exact .inr (.inr hslides)
    · exact .inl ⟨hname.symm, .inr (.inr htaken)⟩

theorem derive_eq_iff_ofPackage {source : List Char}
    (h : Digest.sha256 (Key.message source (ofPackage p)) =
        Digest.sha256 (Key.message source (ofPackage q)) →
      Key.message source (ofPackage p) = Key.message source (ofPackage q)) :
    Key.derive source (ofPackage p) = Key.derive source (ofPackage q) ↔
      ofPackage p = ofPackage q := by
  rw [Key.derive_eq_iff_append h, List.append_right_inj]
  exact ⟨fun heq => congrArg mk heq, congrArg text⟩

/-- Two packages have one manifest if and only if they are the same, or the name or the version of
one of them takes in the line that follows it in the manifest of the other. So packages whose names
and versions do not hold the start of the next line have manifests of their own, whatever their
editions are. As long as digests do not collide, a source has one key with both just in case that
they have one manifest. -/
theorem ofPackage_eq_iff (p q : Package) :
    (ofPackage p = ofPackage q ↔ p = q ∨ p.TakenIn q ∨ q.TakenIn p) ∧
    (p.Tame → q.Tame → p ≠ q → ofPackage p ≠ ofPackage q) ∧
    ∀ source : List Char,
      (Digest.sha256 (Key.message source (ofPackage p)) =
          Digest.sha256 (Key.message source (ofPackage q)) →
        Key.message source (ofPackage p) = Key.message source (ofPackage q)) →
      (Key.derive source (ofPackage p) = Key.derive source (ofPackage q) ↔
        p = q ∨ p.TakenIn q ∨ q.TakenIn p) := by
  have htext : ofPackage p = ofPackage q ↔ p = q ∨ p.TakenIn q ∨ q.TakenIn p :=
    ⟨fun h => text_eq_iff.1 (congrArg text h), fun h => congrArg mk (text_eq_iff.2 h)⟩
  refine ⟨htext, fun hp hq hne heq => ?_, fun source h => ?_⟩
  · rcases htext.1 heq with hsame | htaken | htaken
    · exact hne hsame
    · exact htaken.not_tame hq
    · exact htaken.not_tame hp
  · rw [derive_eq_iff_ofPackage h, htext]

/-- Another edition makes another manifest, and another key of the empty source. -/
theorem ofPackage_eq_iff_edition :
    ofPackage .standard ≠ ofPackage { Package.standard with edition := some "2024".toList } ∧
    Key.derive [] (ofPackage .standard) ≠
      Key.derive [] (ofPackage { Package.standard with edition := some "2024".toList }) := by
  obtain ⟨hiff, htame, hkey⟩ := ofPackage_eq_iff Package.standard
    { Package.standard with edition := some "2024".toList }
  have hne := htame (by decide) (by decide) (by decide)
  have hdigest : Digest.sha256 (Key.message [] (ofPackage .standard)) ≠ Digest.sha256
      (Key.message [] (ofPackage { Package.standard with edition := some "2024".toList })) := by
    decide +kernel
  refine ⟨hne, fun heq => hne (hiff.2 ?_)⟩
  exact (hkey [] fun h => absurd h hdigest).1 heq

/-- A version that closes its own line and goes on with another one. -/
def twoLines : Package := ⟨"a".toList, "b\"\nversion = \"c".toList, none⟩

/-- A name that does so. -/
def nameAndLine : Package := ⟨"a\"\nversion = \"b".toList, "c".toList, none⟩

example : twoLines.TakenIn nameAndLine := .inl ⟨"\"b".toList, by decide, by decide⟩

theorem ofPackage_ambiguous :
    (¬ ∀ p q : Package, p ≠ q → ofPackage p ≠ ofPackage q) ∧
    ¬ ∀ (p q : Package) (source : List Char),
      (Digest.sha256 (Key.message source (ofPackage p)) =
          Digest.sha256 (Key.message source (ofPackage q)) →
        Key.message source (ofPackage p) = Key.message source (ofPackage q)) →
      p ≠ q → Key.derive source (ofPackage p) ≠ Key.derive source (ofPackage q) := by
  have hne : twoLines ≠ nameAndLine := by decide
  have heq : ofPackage twoLines = ofPackage nameAndLine := by decide
  refine ⟨fun h => h twoLines nameAndLine hne heq, fun h => ?_⟩
  exact h twoLines nameAndLine [] (fun _ => by rw [heq]) hne (by rw [heq])

end Manifest

end Notebook.Program
