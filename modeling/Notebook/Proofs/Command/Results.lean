import Notebook.Proofs.Command.Again
import Notebook.Proofs.Document.Order
import Notebook.Proofs.Execution.Contention

/-!
What the results of a call for all cells make of a document, in whatever order they are kept.
-/

namespace Notebook

open Execution (Action Finished Kernel Machine Outcome Settings Step)
open Execution.Kernel (Delivered)

namespace Execution.Kernel

variable {m : Machine} {s : Settings} {k : Kernel m.Job} {as : List Action} {d : Document}
  {cells : List Nat} {xs : List Finished}

theorem le_length_of_submitAll (k : Kernel m.Job) (d : Document) (cells : List Nat) (s : Settings)
    (as : List Action) : k.pipelines.length + cells.length ≤
      ((k.submitAll d cells).perform m s as).pipelines.length := by
  obtain ⟨added, hadded⟩ := asked_perform s (k.submitAll d cells) as
  rw [asked_submitAll] at hadded
  have hlen := congrArg List.length hadded
  simp only [asked, List.length_append, List.length_map] at hlen
  omega

theorem results_of_call
    (h : ((k.submitAll d cells).perform m s as).returned? k.pipelines.length cells.length =
      some xs) :
    xs.length = cells.length ∧ ∀ i cell x, cells[i]? = some cell → xs[i]? = some x →
      Delivered m s (k.submitAll d cells) (k.pipelines.length + i) as d
        (.queued cell (k.counter.last + 1 + i)) x := by
  have hlen := le_length_of_submitAll k d cells s as
  obtain ⟨hlength, hall⟩ := delivered_of_returned? h (by omega)
  refine ⟨hlength, fun i cell x hcell hx => ?_⟩
  exact delivered_of_queued (pipeline_of_submitAll hcell) rfl (hall i x hx)

end Execution.Kernel

theorem Document.mem_codeIndices_iff_hasSource {d : Document} {i : Nat} :
    i ∈ d.codeIndices ↔ ∃ source, d.HasSource i source := by
  rw [mem_codeIndices]
  simp only [hasSource_iff, List.getElem?_map, Option.map_eq_some_iff]

namespace Command

variable {d : Document} {xs ys : List Finished}

theorem nodup_keeping (hcells : xs.map (·.record.cellIndex) = d.codeIndices) :
    ((xs.map keeping).map Prod.fst).Nodup := by
  rw [List.map_map]
  exact hcells ▸ d.nodup_codeIndices

theorem recordAll_perm (hcells : xs.map (·.record.cellIndex) = d.codeIndices)
    (hperm : ys.Perm xs) : recordAll d ys = .ok (d.recordAll (xs.map keeping)).1 := by
  have hcode : ∀ y ∈ ys, y.record.cellIndex ∈ d.codeIndices := by
    intro y hy
    rw [← hcells]
    exact List.mem_map_of_mem (hperm.mem_iff.1 hy)
  have hlast (i : Nat) : Document.last? (ys.map keeping) i = Document.last? (xs.map keeping) i :=
    (Document.last?_perm (hperm.map keeping).symm (nodup_keeping hcells) i).symm
  rw [recordAll_eq hcode, Document.recordAll_congr hlast]

/-- To keep an outcome fails just in case that there is no such cell or that it is markup, and a
call that fails is as good as none. After any calls there are the same cells as before, those of
code for which there was a call with their own code and the last outcome, and all others as they
were. So calls for different cells may change places, and the results of a call for all cells may be
kept in any order: nothing fails, and each cell of code has what came of its own request. -/
theorem recorded_in_any_order (d : Document) :
    (∀ calls : List (Nat × Outcome),
      (∀ (i : Nat) o f, (d.recordAll calls).1.record i o = .error f ↔
        (d.cells.length ≤ i ∧ f = .cellNotFound i) ∨
        ((∃ t, d.cells[i]? = some (Cell.markup t)) ∧ f = .notExecutable i)) ∧
      (∀ (i : Nat) o f later, (d.recordAll calls).1.record i o = .error f →
        d.recordAll (calls ++ (i, o) :: later) = d.recordAll (calls ++ later)) ∧
      (d.recordAll calls).1.cells.length = d.cells.length ∧
      (∀ (i : Nat) t, d.cells[i]? = some (Cell.markup t) →
        (d.recordAll calls).1.cells[i]? = some (Cell.markup t)) ∧
      (∀ i : Nat, i ∉ calls.map Prod.fst → (d.recordAll calls).1.cells[i]? = d.cells[i]?) ∧
      ∀ (i : Nat) source earlier o later, d.HasSource i source →
        calls = earlier ++ (i, o) :: later → i ∉ later.map Prod.fst →
        (d.recordAll calls).1.Records i source o) ∧
    (∀ (earlier later : List (Nat × Outcome)) (i j : Nat) (o o' : Outcome), i ≠ j →
      (d.recordAll (earlier ++ (i, o) :: (j, o') :: later)).1 =
        (d.recordAll (earlier ++ (j, o') :: (i, o) :: later)).1) ∧
    ∀ (m : Machine) (s : Settings) (k : Kernel m.Job) (as : List Action) (xs : List Finished),
      ((k.submitAll d d.codeIndices).perform m s as).returned? k.pipelines.length
        d.codeIndices.length = some xs →
      ∃ e, (∀ ys, ys.Perm xs → recordAll d ys = .ok e) ∧
        e.cells.length = d.cells.length ∧
        (∀ (i : Nat) t, d.cells[i]? = some (Cell.markup t) →
          e.cells[i]? = some (Cell.markup t)) ∧
        xs.length = d.codeIndices.length ∧
        (∀ (i : Nat) source, d.HasSource i source → i ∈ d.codeIndices) ∧
        ∀ (n i : Nat) (x : Finished), d.codeIndices[n]? = some i → xs[n]? = some x →
          Delivered m s (k.submitAll d d.codeIndices) (k.pipelines.length + n) as d
            (.queued i (k.counter.last + 1 + n)) x ∧
          ∃ source, d.HasSource i source ∧ e.Records i source x.outcome := by
  refine ⟨?_, ?_, ?_⟩
  · intro calls
    refine ⟨?_, ?_, Document.recordAll_length d calls, ?_, ?_, ?_⟩
    · intro i o f
      rw [Document.record_error_iff, Document.recordAll_length]
      simp only [Document.recordAll_markup]
    · intro i o f later h
      exact Document.recordAll_skip h later
    · intro i t ht
      exact (Document.recordAll_markup t).2 ht
    · intro i hi
      exact Document.recordAll_unrecorded hi
    · intro i source earlier o later hs hcalls hlater
      apply Document.recordAll_last hs
      rw [hcalls, Document.last?_append, Document.last?_cons_self,
        Document.last?_eq_none hlater]
      rfl
  · intro earlier later i j o o' hij
    exact Document.recordAll_swap hij earlier later
  · intro m s k as xs h
    obtain ⟨hlength, hdelivered⟩ := Kernel.results_of_call h
    have hcells : xs.map (·.record.cellIndex) = d.codeIndices := by
      apply List.ext_getElem
      · rw [List.length_map, hlength]
      · intro n hn hn'
        rw [List.length_map] at hn
        rw [List.getElem_map]
        have hx := List.getElem?_eq_getElem hn
        have hi := List.getElem?_eq_getElem hn'
        exact (hdelivered n _ _ hi hx).cell
    refine ⟨(d.recordAll (xs.map keeping)).1, ?_, Document.recordAll_length d _, ?_, hlength, ?_,
      ?_⟩
    · intro ys hys
      exact recordAll_perm hcells hys
    · intro i t ht
      exact (Document.recordAll_markup t).2 ht
    · intro i source hs
      exact Document.mem_codeIndices_iff_hasSource.2 ⟨source, hs⟩
    · intro n i x hi hx
      have hown := hdelivered n i x hi hx
      obtain ⟨source, hs⟩ := Document.mem_codeIndices_iff_hasSource.1 (List.mem_of_getElem? hi)
      have hmem : (i, x.outcome) ∈ xs.map keeping := by
        rw [List.mem_map]
        refine ⟨x, List.mem_of_getElem? hx, ?_⟩
        rw [keeping, hown.cell]
        rfl
      have hlast := Document.last?_of_mem (nodup_keeping hcells) hmem
      exact ⟨hown, source, hs, Document.recordAll_last hs hlast⟩

/-! Between markup and a cell that has been evaluated there is one that has not. -/

def mixed : Document := ⟨[.markup ['#'], .code ['1'], .evaluated ['2'] ['2'] []]⟩

def attempts : List (Nat × Outcome) :=
  [(1, .ok ⟨['1'], [], some 0⟩), (0, .ok ⟨['1'], [], some 0⟩), (1, .error (.internal ['x'])),
    (3, .error (.internal ['x']))]

def inTurn : List Action :=
  [0, 1].flatMap fun i => (List.replicate 7 (Step.advance i .epoch) ++ [Step.remove i] ++
    List.replicate 3 (Step.advance i .epoch)).map .step

theorem recorded_in_any_order_mixed :
    (mixed.recordAll attempts).1.cells[0]? = some (.markup ['#']) ∧
    (mixed.recordAll attempts).1.cells[1]? =
      some (.evaluated ['1'] "error".toList "internal error: x".toList) ∧
    (mixed.recordAll attempts).1.cells[2]? = mixed.cells[2]? ∧
    ∃ xs e, (((Kernel.start .empty .fresh).submitAll mixed [1, 2]).perform Kernel.idle Kernel.plain
      inTurn).returned? 0 2 = some xs ∧ recordAll mixed xs = .ok e ∧
      recordAll mixed xs.reverse = .ok e := by
  obtain ⟨hcalls, -, hresults⟩ := recorded_in_any_order mixed
  obtain ⟨-, -, -, hmarkup, hothers, hlast⟩ := hcalls attempts
  refine ⟨hmarkup 0 ['#'] rfl, ?_, hothers 2 (by decide), ?_⟩
  · exact (hlast 1 ['1'] (attempts.take 2) _ (attempts.drop 3) (.inl rfl) rfl (by decide)).failed _
      rfl
  · have hended : (((Kernel.start .empty .fresh).submitAll mixed [1, 2]).perform Kernel.idle
        Kernel.plain inTurn).returned? 0 2 |>.isSome := by decide +kernel
    obtain ⟨xs, hxs⟩ := Option.isSome_iff_exists.1 hended
    obtain ⟨e, he, -⟩ := hresults Kernel.idle Kernel.plain (.start .empty .fresh) inTurn xs hxs
    exact ⟨xs, e, hxs, he xs (.refl xs), he xs.reverse (List.reverse_perm xs)⟩

end Command

end Notebook
