import Notebook.Proofs.Document.Cell

/-!
Markup is kept without the line ends around it. What is read of it in a new place is told by the
blocks that it has there.
-/

namespace Notebook

open Markdown

namespace Document

/-! ### Line ends around a text -/

def Breaks (s : List Char) : Prop := ∀ c ∈ s, isLineBreak c = true

/-- Text that does not start with a line break. -/
def Started (s : List Char) : Prop := ∀ c ∈ s.head?, isLineBreak c = false

/-- Markup as a cell keeps it. -/
structure Trimmed (s : List Char) : Prop where
  started : Started s
  unbroken : Unbroken s
  text : Text.allBlank s = false

theorem Breaks.blank {s : List Char} (h : Breaks s) : Text.allBlank s = true := by
  rw [Text.allBlank, List.all_eq_true]
  intro c hc
  rcases isLineBreak_iff.1 (h c hc) with rfl | rfl <;> rfl

theorem allBlank_append (s t : List Char) :
    Text.allBlank (s ++ t) = (Text.allBlank s && Text.allBlank t) := by
  simp [Text.allBlank]

theorem Trimmed.ne_nil {s : List Char} (h : Trimmed s) : s ≠ [] := by
  rintro rfl
  cases h.text

theorem trimWhile_surrounded {a s z : List Char} (ha : Breaks a) (hz : Breaks z) (h1 : Started s)
    (h2 : Unbroken s) : Text.trimWhile isLineBreak (a ++ s ++ z) = s := by
  cases s with
  | nil =>
    rw [List.append_nil]
    have hall : ∀ c ∈ a ++ z, isLineBreak c = true := by
      intro c hc
      rcases List.mem_append.1 hc with hc | hc
      · exact ha c hc
      · exact hz c hc
    rw [Text.trimWhile, List.dropWhile_eq_nil_iff.2 hall]
    rfl
  | cons c s =>
    rw [Text.trimWhile, List.append_assoc, List.dropWhile_append_of_pos ha, List.cons_append,
      List.dropWhile_cons_of_neg (by simp [h1 c (by simp)]), ← List.cons_append,
      dropEndWhile_append hz]
    exact dropEndWhile_of_last h2

/-- A text is its middle with line ends around it. -/
theorem exists_surrounded (s : List Char) :
    ∃ a m z, s = a ++ m ++ z ∧ Breaks a ∧ Breaks z ∧ Started m ∧ Unbroken m := by
  have hstart := List.takeWhile_append_dropWhile (p := isLineBreak) (l := s)
  have hend := List.takeWhile_append_dropWhile (p := isLineBreak)
    (l := (s.dropWhile isLineBreak).reverse)
  have hmid : s.dropWhile isLineBreak =
      ((s.dropWhile isLineBreak).reverse.dropWhile isLineBreak).reverse ++
        ((s.dropWhile isLineBreak).reverse.takeWhile isLineBreak).reverse := by
    rw [← List.reverse_append, hend, List.reverse_reverse]
  refine ⟨s.takeWhile isLineBreak,
    ((s.dropWhile isLineBreak).reverse.dropWhile isLineBreak).reverse,
    ((s.dropWhile isLineBreak).reverse.takeWhile isLineBreak).reverse, ?_,
    fun c hc => List.mem_takeWhile_imp hc,
    fun c hc => List.mem_takeWhile_imp (List.mem_reverse.1 hc), ?_, ?_⟩
  · rw [List.append_assoc, ← hmid, hstart]
  · intro c hc
    have hd := List.head?_dropWhile_not isLineBreak s
    have hhead : (s.dropWhile isLineBreak).head? = some c := by
      rw [hmid, List.head?_append, Option.mem_def.1 hc]
      rfl
    rw [hhead] at hd
    simpa using hd
  · intro c hc
    rw [List.getLast?_reverse] at hc
    have hd := List.head?_dropWhile_not isLineBreak (s.dropWhile isLineBreak).reverse
    rw [Option.mem_def.1 hc] at hd
    simpa using hd

theorem markup?_eq (s : List Char) : markup? s =
    if Text.allBlank (Text.trimWhile isLineBreak s) then none
    else some (.markup (Text.trimWhile isLineBreak s)) := rfl

theorem markup?_surrounded {a m z : List Char} (ha : Breaks a) (hz : Breaks z) (h : Trimmed m) :
    markup? (a ++ m ++ z) = some (.markup m) := by
  rw [markup?_eq, trimWhile_surrounded ha hz h.started h.unbroken, h.text]
  rfl

theorem markup?_breaks {a : List Char} (ha : Breaks a) (s : List Char) :
    markup? (a ++ s) = markup? s := by
  rw [markup?_eq, markup?_eq, Text.trimWhile, Text.trimWhile, List.dropWhile_append_of_pos ha]

/-- Markup is the middle of a text with line ends around it. -/
theorem markup?_eq_some {s : List Char} {c : Cell} (h : markup? s = some c) :
    ∃ a m z, s = a ++ m ++ z ∧ Breaks a ∧ Breaks z ∧ Trimmed m ∧ c = .markup m := by
  obtain ⟨a, m, z, rfl, ha, hz, h1, h2⟩ := exists_surrounded s
  rw [markup?_eq, trimWhile_surrounded ha hz h1 h2] at h
  split at h
  · cases h
  · rename_i hb
    refine ⟨a, m, z, rfl, ha, hz, ⟨h1, h2, by simpa using hb⟩, (Option.some.inj h).symm⟩

/-! ### Markup in front of code -/

/-- An info string that names Rust. -/
def isRustInfo (info : List Char) : Bool := language info = "rust".toList

theorem filter_isRust (bs : List FencedBlock) : bs.filter isRust = ofKind isRustInfo bs := rfl

/-- A fence of Rust. -/
def rustFence : List Char := "```rust".toList

/-- Markup in which a block of Rust is the first one of the text if it comes after the markup. -/
def Sealed (m : List Char) : Prop :=
  (((blocks (m ++ ('\n' :: '\n' :: rustFence))).filter isRust).head?.map (·.opening)) =
    some rustFence

/-- Markup without a block of Rust. -/
def Quiet (m : List Char) : Prop := (blocks (m ++ ['\n'])).filter isRust = []

theorem isRustInfo_rust : isRustInfo "rust".toList = true := by
  simpa [isRustInfo] using language_rust

theorem rustFence_opens : Opens rustFence := by
  refine opens_of_fence (c := '`') (n := 3) (by decide) ?_
  rw [← lineEnd?_isSome]
  decide

theorem rustFence_first : FirstOpens isRustInfo rustFence (blocksFrom [] false rustFence) := by
  have hf : fence? rustFence = some ('`', 3) := by decide
  have hinfo : (fencedBlock [] 0 '`' 3 rustFence).info = "rust".toList := by decide
  rw [FirstOpens, blocksFrom_fence hf, ofKind, List.filter_cons_of_pos (by
    rw [hinfo]
    exact isRustInfo_rust)]
  rfl

theorem sealed_iff (m : List Char) : Sealed m ↔
    FirstOpens isRustInfo rustFence (blocksFrom [] false (m ++ (['\n', '\n'] ++ rustFence))) :=
  Iff.rfl

theorem clear_feeds {w : List Char} (hw : Opens w) : Clear ['\n', '\n'] w where
  gap := .of_breaks (List.all_eq_true.1 rfl)
  next := .inr ⟨0, by omega, w, rfl, hw⟩
  ends := ends_cons.2 rfl
  fed := .inr fun _ hc => (Option.some.inj hc).symm
  wide := .inr (by decide)
  flush := .inr hw

theorem clear_feed : Clear ['\n'] [] where
  gap := .of_breaks (List.all_eq_true.1 rfl)
  next := .inl rfl
  ends := ends_cons.2 rfl
  fed := .inl rfl
  wide := .inl rfl
  flush := .inl rfl

/-- Markup that a block of Rust follows is read in the same way before another one. -/
theorem blocksFrom_sealed {m w w' : List Char} (hm : Unbroken m) (hw : Opens w) (hw' : Opens w')
    (h : FirstOpens isRustInfo w (blocksFrom [] false (m ++ (['\n', '\n'] ++ w)))) :
    ofKind isRustInfo (blocksFrom [] false (m ++ (['\n', '\n'] ++ w'))) =
      ofKind isRustInfo (blocksFrom [] false w') := by
  have hne : w ≠ [] := by
    rintro rfl
    cases hw.fence
  exact blocksFrom_tail (by simp) hm (clear_feeds hw).toTail (clear_feeds hw')
    (fun h => absurd h hne) h

end Document

end Notebook
