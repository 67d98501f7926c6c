import Mathlib.Data.Set.Function
import Notebook.Proofs.Document.Edit
import Notebook.Proofs.Document.Evaluated
import Notebook.Proofs.Execution.Shared
import Notebook.Proofs.Program.Key

/-!
What the code cells of one notebook are built of. Each of them has all the code above it and at
least one line feed more, so that no two have the same source, the same key or the same workspace.
-/

namespace Notebook

open Execution (Workspace)
open Files (Name Path Place)
open Program (Key Manifest Prepared Shape)

theorem Text.joinLines_append {xs ys : List (List Char)} (hx : xs ≠ []) (hy : ys ≠ []) :
    joinLines (xs ++ ys) = joinLines xs ++ '\n' :: joinLines ys := by
  induction xs with
  | nil => exact absurd rfl hx
  | cons x xs ih =>
    cases xs with
    | nil =>
      cases ys with
      | nil => exact absurd rfl hy
      | cons y ys => rfl
    | cons x' xs =>
      have htail := ih (List.cons_ne_nil x' xs)
      show x ++ '\n' :: joinLines (x' :: xs ++ ys) =
        (x ++ '\n' :: joinLines (x' :: xs)) ++ '\n' :: joinLines ys
      rw [htail, List.append_assoc, List.cons_append]

theorem Execution.Workspace.root_ne {scratch : Path} {k k' : Key} (hk : Name.Plain k.digits)
    (hk' : Name.Plain k'.digits) (hne : k ≠ k') :
    (ofKey scratch k).root ≠ (ofKey scratch k').root := by
  intro h
  have hsteps := congrArg Path.steps h
  rw [steps_root hk, steps_root hk', List.append_cancel_left_eq,
    List.singleton_inj] at hsteps
  exact hne (congrArg Key.mk hsteps)

namespace Document

variable {d : Document} {i j : Nat} {m : Manifest}

theorem mem_codeIndices_iff_hasCode : i ∈ d.codeIndices ↔ d.HasCode i := by
  rw [mem_codeIndices]
  simp only [HasCode, List.getElem?_map, Option.map_eq_some_iff, Cell.isCode,
    Option.isSome_iff_exists]
  constructor
  · rintro ⟨s, c, hc, hs⟩
    exact ⟨c, hc, s, hs⟩
  · rintro ⟨c, hc, s, hs⟩
    exact ⟨s, c, hc, hs⟩

/-- The code up to `i` as one text. -/
def history (d : Document) (i : Nat) : List Char := Text.joinLines (d.codeUpTo i)

theorem cumulativeSource_of_hasCode (h : d.HasCode i) :
    d.cumulativeSource i = .ok (d.history i) := by
  obtain ⟨c, hc, -⟩ := h
  have hlt := (List.getElem?_eq_some_iff.1 hc).1
  rw [cumulativeSource, sources, if_pos hlt]
  rfl

theorem codeUpTo_of_lt (hij : i < j) (hj : d.HasCode j) :
    ∃ cells, cells ≠ [] ∧ d.codeUpTo j = d.codeUpTo i ++ cells := by
  obtain ⟨c, hc, hcode⟩ := hj
  obtain ⟨s, hs⟩ := Option.isSome_iff_exists.1 hcode
  have htake : (d.cells.take (j + 1)).take (i + 1) = d.cells.take (i + 1) := by
    rw [List.take_take, Nat.min_eq_left (by omega)]
  -- The cell at `j` itself is among those below `i`, so its code is there, if only as no text.
  have hmem : c ∈ (d.cells.take (j + 1)).drop (i + 1) := by
    rw [List.mem_iff_getElem?]
    refine ⟨j - (i + 1), ?_⟩
    rw [List.getElem?_drop, show i + 1 + (j - (i + 1)) = j by omega,
      List.getElem?_take_of_lt (Nat.lt_succ_self j), hc]
  refine ⟨((d.cells.take (j + 1)).drop (i + 1)).filterMap Cell.source?, ?_, ?_⟩
  · exact List.ne_nil_of_mem (List.mem_filterMap.2 ⟨c, hmem, hs⟩)
  · rw [codeUpTo, codeUpTo, ← htake, ← List.filterMap_append, List.take_append_drop]

theorem codeUpTo_ne_nil (h : d.HasCode i) : d.codeUpTo i ≠ [] := by
  obtain ⟨c, hc, hcode⟩ := h
  obtain ⟨s, hs⟩ := Option.isSome_iff_exists.1 hcode
  have hmem : c ∈ d.cells.take (i + 1) := by
    rw [List.mem_iff_getElem?]
    exact ⟨i, by rw [List.getElem?_take_of_lt (Nat.lt_succ_self i), hc]⟩
  exact List.ne_nil_of_mem (List.mem_filterMap.2 ⟨c, hmem, hs⟩)

theorem history_prefix_of_lt (hij : i < j) (hi : d.HasCode i) (hj : d.HasCode j) :
    d.history i ++ ['\n'] <+: d.history j := by
  obtain ⟨cells, hne, hcells⟩ := codeUpTo_of_lt hij hj
  refine ⟨Text.joinLines cells, ?_⟩
  rw [history, history, hcells, Text.joinLines_append (codeUpTo_ne_nil hi) hne, List.append_assoc]
  rfl

theorem history_length_lt (hij : i < j) (hi : d.HasCode i) (hj : d.HasCode j) :
    (d.history i).length < (d.history j).length := by
  have hlen := (history_prefix_of_lt hij hi hj).length_le
  rw [List.length_append, List.length_singleton] at hlen
  exact hlen

theorem eq_of_history_eq (hi : d.HasCode i) (hj : d.HasCode j) (h : d.history i = d.history j) :
    i = j := by
  rcases Nat.lt_trichotomy i j with hij | hij | hij
  · exact absurd (congrArg List.length h) (Nat.ne_of_lt (history_length_lt hij hi hj))
  · exact hij
  · exact absurd (congrArg List.length h.symm) (Nat.ne_of_lt (history_length_lt hij hj hi))

/-! ### Keys -/

/-- What is digested for the cells of code. -/
def messages (d : Document) (m : Manifest) : Set (List UInt8) :=
  {b | ∃ i source, d.HasCode i ∧ d.cumulativeSource i = .ok source ∧ b = Key.message source m}

theorem message_mem_messages (h : d.HasCode i) (m : Manifest) :
    Key.message (d.history i) m ∈ d.messages m :=
  ⟨i, d.history i, h, cumulativeSource_of_hasCode h, rfl⟩

theorem eq_of_derive_eq (hdigests : Set.InjOn Digest.sha256 (d.messages m)) (hi : d.HasCode i)
    (hj : d.HasCode j) (h : Key.derive (d.history i) m = Key.derive (d.history j) m) : i = j := by
  have hmessage : Key.message (d.history i) m = Key.message (d.history j) m :=
    hdigests (message_mem_messages hi m) (message_mem_messages hj m)
      (Key.derive_eq_iff_sha256.1 h)
  have hsources := Key.message_eq_iff.1 hmessage
  exact eq_of_history_eq hi hj (List.append_cancel_right hsources)

/-- Different cells of code are prepared under different keys, and what stands in the workspace of
one does not stand in that of the other. -/
theorem prepare_apart (hdigests : Set.InjOn Digest.sha256 (d.messages m)) (hi : d.HasCode i)
    (hj : d.HasCode j) (hij : i ≠ j) (shape : Shape) (scratch : Path) :
    ∃ p q, Program.prepare shape m d i = .ok p ∧ Program.prepare shape m d j = .ok q ∧
      p.key ≠ q.key ∧
      (Workspace.ofKey scratch p.key).root ≠ (Workspace.ofKey scratch q.key).root ∧
      ∀ R e, (Workspace.ofKey scratch p.key).place R <+: e →
        ¬ (Workspace.ofKey scratch q.key).place R <+: e := by
  have hkeys : Key.derive (d.history i) m ≠ Key.derive (d.history j) m :=
    fun h => hij (eq_of_derive_eq hdigests hi hj h)
  refine ⟨_, _, prepare_of_hasCode hi shape m, prepare_of_hasCode hj shape m, hkeys,
    Workspace.root_ne (Key.plain_derive _ _) (Key.plain_derive _ _) hkeys, fun R e he he' => ?_⟩
  exact hkeys (Execution.key_of_place_isPrefix he he')

end Document

end Notebook
