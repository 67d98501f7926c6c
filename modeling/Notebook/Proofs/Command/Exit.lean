import Notebook.Proofs.Command.Again
import Notebook.Proofs.Execution.Batch
import Notebook.Proofs.Execution.Retold

/-!
With which status commands that run cells exit. It tells whether cells could be run, and nothing of
what their programs did.
-/

namespace Notebook.Command

open Execution (Completion Finished Kernel Machine Outcome Schedule Settings Task)
open Execution.Kernel (Delivered)
open Files (Path Place Tree)

/-- The requests of a command for cells of a notebook. -/
def requests (w : World) (d : Document) (cells : List Nat) : Kernel w.machine.Job :=
  (Kernel.start w.tree .fresh).submitAll d cells

/-- The requests when the schedule has come to its end. -/
def settled (w : World) (s : Settings) (d : Document) (cells : List Nat) : Kernel w.machine.Job :=
  (requests w d cells).run w.machine s (w.schedule cells.length)

/-- For the cell at this place of the list a workspace could be made, the toolchain started, and it
exited by itself. -/
def Carried (w : World) (s : Settings) (d : Document) (cells : List Nat) (i : Nat) : Prop :=
  Kernel.Carried w.machine s (requests w d cells) i ((w.schedule cells.length).map .step)

/-- The manifest and the notebook can be read, the cell is one of code, and it is carried out. -/
def RunsCell (w : World) (v : Invocation) (cell : Nat) : Prop :=
  ∃ s d c, settings w v = .ok s ∧ Document.load w.tree w.here v.notebook = .ok d ∧
    d.cells[cell]? = some c ∧ c.isCode = true ∧ Carried w s d [cell] 0

/-- The manifest and the notebook can be read. If there are cells of code, then all of them are
carried out and the notebook can be written where it is to go. -/
def Evaluates (w : World) (v : Invocation) (target : Option Path) : Prop :=
  ∃ s d, settings w v = .ok s ∧ Document.load w.tree w.here v.notebook = .ok d ∧
    (d.codeIndices = [] ∨ ((∀ i < d.codeIndices.length, Carried w s d d.codeIndices i) ∧
      ∀ p, target = some p → (settled w s d d.codeIndices).tree.Takes w.here p))

variable {w : World} {v : Invocation} {s : Settings} {d e : Document} {cells : List Nat}
  {ran : Ran} {r : Report} {x x' : Finished}

/-! ### Requests -/

theorem runCells_eq_some (h : runCells w s d cells = some ran) :
    ran.tree = (settled w s d cells).tree ∧
      (settled w s d cells).finished? 0 = some ran.finished := by
  rw [runCells] at h
  obtain ⟨xs, hxs, h⟩ := Option.bind_eq_some_iff.1 h
  cases h
  exact ⟨rfl, hxs⟩

theorem runCells_of_finished {xs : List Finished}
    (h : (settled w s d cells).finished? 0 = some xs) : ∃ ran, runCells w s d cells = some ran ∧
      ran.tree = (settled w s d cells).tree ∧ ran.finished = xs :=
  ⟨_, Option.bind_eq_some_iff.2 ⟨xs, h, rfl⟩, rfl, rfl⟩

theorem runCells_eq_none (h : (settled w s d cells).finished? 0 = none) :
    runCells w s d cells = none :=
  Option.bind_eq_none_iff.2 fun xs hxs => by cases h.symm.trans hxs

theorem delivered_of_runCells (h : runCells w s d cells = some ran) :
    ran.finished.length = cells.length ∧
      ∀ i cell x, cells[i]? = some cell → ran.finished[i]? = some x →
        Delivered w.machine s (requests w d cells) i ((w.schedule cells.length).map .step) d
          (.queued cell (1 + i)) x ∧
        (Carried w s d cells i ↔ ∃ out, x.outcome = .ok out) :=
  Kernel.delivered_of_call (runCells_eq_some h).2

/-- What has come of requests is in the order of the cells that were asked for. -/
theorem cells_of_runCells (h : runCells w s d cells = some ran) :
    ran.finished.map (·.record.cellIndex) = cells := by
  obtain ⟨hlength, hall⟩ := delivered_of_runCells h
  apply List.ext_getElem
  · rw [List.length_map, hlength]
  · intro n hn hn'
    rw [List.length_map] at hn
    rw [List.getElem_map]
    exact (hall n _ _ (List.getElem?_eq_getElem hn') (List.getElem?_eq_getElem hn)).1.cell

section

variable {m : Machine} {k : Kernel m.Job} {i cell n : Nat} {as : List Execution.Action}

theorem isCode_of_launched (h : Delivered m s k i as d (.queued cell n) x)
    (hlaunched : Kernel.Meets m s k i as (Kernel.Launched m s i)) :
    ∃ c, d.cells[cell]? = some c ∧ c.isCode = true := by
  cases hc : d.cells[cell]? with
  | none => exact absurd hlaunched (h.unprepared (.inl (List.getElem?_eq_none_iff.1 hc))).2
  | some c =>
    cases c with
    | markup t => exact absurd hlaunched (h.unprepared (.inr ⟨t, hc⟩)).2
    | code t => exact ⟨_, rfl, rfl⟩
    | evaluated t o r => exact ⟨_, rfl, rfl⟩

/-- A request for a cell of code is lost if it has no output. -/
theorem isLost_eq_false_iff (h : Delivered m s k i as d (.queued cell n) x)
    (hcell : cell ∈ d.codeIndices) : isLost x = false ↔ ∃ out, x.outcome = .ok out := by
  rw [isLost]
  cases ho : x.outcome with
  | ok out => simp
  | error f =>
    refine iff_of_false ?_ (by simp)
    obtain ⟨t, ht⟩ := Document.mem_codeIndices.1 hcell
    rw [List.getElem?_map, Option.map_eq_some_iff] at ht
    obtain ⟨c, hc, ht⟩ := ht
    rcases h.failure f ho with rfl | rfl | ⟨path, cause, rfl⟩ | ⟨cause, rfl⟩ | ⟨n, rfl⟩
    · have hge := h.notFound.1 ho
      exact absurd (List.getElem?_eq_some_iff.1 hc).1 (Nat.not_lt.2 hge)
    · obtain ⟨t', hmarkup⟩ := h.notExecutable.1 ho
      have hc' : d.cells[cell]? = some (.markup t') := hmarkup
      rw [hc] at hc'
      cases hc'
      cases ht
    · simp [Failure.isInfrastructure]
    · simp [Failure.isInfrastructure]
    · simp [Failure.isInfrastructure]

end

/-! ### One cell -/

theorem run_eq_none_iff {cell : Nat}
    (hload : Document.load w.tree w.here v.notebook = .ok d) :
    run w v s cell = none ↔ runCells w s d [cell] = none := by
  rw [run]
  simp only [hload]
  cases hran : runCells w s d [cell] with
  | none => simp
  | some ran =>
    obtain ⟨x, hx⟩ := List.length_eq_one_iff.1 (delivered_of_runCells hran).1
    simp only [bind, Option.bind_some, hx, List.head?_cons]
    cases x.outcome <;> simp

theorem run_exit {cell : Nat} (hload : Document.load w.tree w.here v.notebook = .ok d)
    (hr : run w v s cell = some r) : ∃ ran x, runCells w s d [cell] = some ran ∧
      ran.finished = [x] ∧ (r.exit = 0 ↔ ∃ out, x.outcome = .ok out) ∧ r.exit ≤ 1 := by
  rw [run] at hr
  simp only [hload] at hr
  obtain ⟨ran, hran, hr⟩ := Option.bind_eq_some_iff.1 hr
  obtain ⟨x, hx, hr⟩ := Option.bind_eq_some_iff.1 hr
  obtain ⟨y, hy⟩ := List.length_eq_one_iff.1 (delivered_of_runCells hran).1
  have hxy : y = x := by simpa [hy] using hx
  subst hxy
  refine ⟨ran, y, hran, hy, ?_⟩
  cases ho : y.outcome with
  | ok out =>
    simp only [ho] at hr
    cases hr
    simp [succeed]
  | error f =>
    simp only [ho] at hr
    cases hr
    simp [refuse]

/-! ### All cells -/

theorem conclude_exit (w : World) (ran : Ran) (target : Option Path) (e : Document)
    (printed : Printed) : ((conclude w ran target e printed).exit = 0 ↔
      (∀ x ∈ ran.finished, isLost x = false) ∧
        ∀ p, target = some p → ran.tree.Takes w.here p) ∧
    (conclude w ran target e printed).exit ≤ 1 := by
  have hlost : (ran.finished.filter isLost).length > 0 ↔
      ¬ ∀ x ∈ ran.finished, isLost x = false := by
    rw [gt_iff_lt, List.length_pos_iff]
    simp [List.filter_eq_nil_iff]
  cases target with
  | none =>
    simp only [conclude]
    by_cases hall : ∀ x ∈ ran.finished, isLost x = false
    · rw [if_neg fun h => hlost.1 h hall]
      exact ⟨iff_of_true rfl ⟨hall, by rintro p ⟨⟩⟩, Nat.zero_le 1⟩
    · rw [if_pos (hlost.2 hall)]
      exact ⟨iff_of_false Nat.one_ne_zero fun h => hall h.1, Nat.le_refl 1⟩
  | some p =>
    have htakes : ran.tree.Takes w.here p ↔
        ∃ t, ran.tree.write w.here p ((Format.ofPath p).encode e) = .ok t := Tree.takes_iff _
    simp only [conclude, Document.save]
    cases hwrite : ran.tree.write w.here p ((Format.ofPath p).encode e) with
    | error f =>
      have hno : ¬ ran.tree.Takes w.here p := by
        rw [htakes, hwrite]
        simp
      exact ⟨iff_of_false Nat.one_ne_zero fun h => hno (h.2 p rfl), Nat.le_refl 1⟩
    | ok t =>
      have hyes : ∀ q, some p = some q → ran.tree.Takes w.here q := by
        rintro q ⟨⟩
        exact htakes.2 ⟨t, hwrite⟩
      by_cases hall : ∀ x ∈ ran.finished, isLost x = false
      · simp only [if_neg fun h => hlost.1 h hall]
        exact ⟨iff_of_true rfl ⟨hall, hyes⟩, Nat.zero_le 1⟩
      · simp only [if_pos (hlost.2 hall)]
        exact ⟨iff_of_false Nat.one_ne_zero fun h => hall h.1, Nat.le_refl 1⟩

theorem eval_eq_none_iff {target : Option Path}
    (hload : Document.load w.tree w.here v.notebook = .ok d) (hcode : d.codeIndices ≠ []) :
    eval w v s target = none ↔ runCells w s d d.codeIndices = none := by
  rw [eval]
  have hnonempty : d.codeIndices.isEmpty = false := by simpa using hcode
  simp only [hload, hnonempty, Bool.false_eq_true, if_false]
  cases hran : runCells w s d d.codeIndices with
  | none => simp
  | some ran =>
    simp only [bind, Option.bind_some]
    cases recordAll d ran.finished <;> simp

/-- An evaluation that has cells to run keeps all that came of them, and concludes. -/
theorem eval_concludes {target : Option Path}
    (hload : Document.load w.tree w.here v.notebook = .ok d) (hcode : d.codeIndices ≠ [])
    (hr : eval w v s target = some r) :
    ∃ ran e printed, runCells w s d d.codeIndices = some ran ∧
      recordAll d ran.finished = .ok e ∧ r = conclude w ran target e printed := by
  rw [eval] at hr
  have hnonempty : d.codeIndices.isEmpty = false := by simpa using hcode
  simp only [hload, hnonempty, Bool.false_eq_true, if_false] at hr
  obtain ⟨ran, hran, hr⟩ := Option.bind_eq_some_iff.1 hr
  have hcells : ∀ x ∈ ran.finished, x.record.cellIndex ∈ d.codeIndices := by
    intro x hx
    have hmem : x.record.cellIndex ∈ ran.finished.map (·.record.cellIndex) :=
      List.mem_map_of_mem hx
    rwa [cells_of_runCells hran] at hmem
  have hkept := recordAll_eq hcells
  simp only [hkept] at hr
  cases hr
  exact ⟨ran, _, _, hran, hkept, rfl⟩

theorem eval_exit {target : Option Path}
    (hload : Document.load w.tree w.here v.notebook = .ok d) (hcode : d.codeIndices ≠ [])
    (hr : eval w v s target = some r) : ∃ ran, runCells w s d d.codeIndices = some ran ∧
      (r.exit = 0 ↔ (∀ x ∈ ran.finished, isLost x = false) ∧
        ∀ p, target = some p → ran.tree.Takes w.here p) ∧ r.exit ≤ 1 := by
  obtain ⟨ran, e, printed, hran, -, rfl⟩ := eval_concludes hload hcode hr
  exact ⟨ran, hran, conclude_exit w ran target e printed⟩

theorem carried_all_iff (hran : runCells w s d d.codeIndices = some ran) :
    (∀ i < d.codeIndices.length, Carried w s d d.codeIndices i) ↔
      ∀ x ∈ ran.finished, isLost x = false := by
  obtain ⟨hlength, hall⟩ := delivered_of_runCells hran
  have hone (i : Nat) (hi : i < d.codeIndices.length) (hi' : i < ran.finished.length) :
      Carried w s d d.codeIndices i ↔ isLost ran.finished[i] = false := by
    obtain ⟨hdelivered, hcarried⟩ := hall i _ _ (List.getElem?_eq_getElem hi)
      (List.getElem?_eq_getElem hi')
    rw [hcarried, isLost_eq_false_iff hdelivered (List.getElem_mem hi)]
  constructor
  · intro h x hx
    obtain ⟨i, hi, rfl⟩ := List.mem_iff_getElem.1 hx
    exact (hone i (hlength ▸ hi) hi).1 (h i (hlength ▸ hi))
  · intro h i hi
    exact (hone i hi (hlength ▸ hi)).2 (h _ (List.getElem_mem _))

/-! ### What programs do -/

section

variable {g : w.machine.Job → Tree → Tree × (w.machine.Job ⊕ Completion)}

/-- The world with processes that work in another way. -/
def World.withStep (w : World)
    (g : w.machine.Job → Tree → Tree × (w.machine.Job ⊕ Completion)) : World :=
  { w with machine := w.machine.withStep g }

theorem runCells_like (hg : w.machine.Retells g) (s : Settings) (d : Document)
    (cells : List Nat) :
    (runCells w s d cells = none ∧ runCells (w.withStep g) s d cells = none) ∨
      ∃ ran ran', runCells w s d cells = some ran ∧
        runCells (w.withStep g) s d cells = some ran' ∧ ran'.tree = ran.tree ∧
          List.Forall₂ Finished.Like ran.finished ran'.finished := by
  have hlike := (Kernel.like_refl (requests w d cells)).run hg s (w.schedule cells.length)
  rcases hlike.finished? 0 with ⟨h, h'⟩ | ⟨xs, xs', h, h', hxs⟩
  · exact .inl ⟨runCells_eq_none h, runCells_eq_none (w := w.withStep g) h'⟩
  · obtain ⟨ran, hran, htree, hfinished⟩ := runCells_of_finished h
    obtain ⟨ran', hran', htree', hfinished'⟩ := runCells_of_finished (w := w.withStep g) h'
    refine .inr ⟨ran, ran', hran, hran', ?_, hfinished ▸ hfinished' ▸ hxs⟩
    exact htree'.trans (hlike.tree.trans htree.symm)

theorem runCells_eq_none_iff (hg : w.machine.Retells g) (s : Settings) (d : Document)
    (cells : List Nat) :
    runCells (w.withStep g) s d cells = none ↔ runCells w s d cells = none := by
  rcases runCells_like hg s d cells with ⟨h, h'⟩ | ⟨ran, ran', h, h', -⟩
  · rw [h, h']
  · rw [h, h']
    simp

theorem map_exit_eq {o o' : Option Report} (hnone : o' = none ↔ o = none)
    (hsome : ∀ r r', o = some r → o' = some r' → (r.exit = 0 ↔ r'.exit = 0) ∧ r.exit ≤ 1 ∧
      r'.exit ≤ 1) : o'.map (·.exit) = o.map (·.exit) := by
  cases o with
  | none => rw [hnone.2 rfl]
  | some r =>
    cases o' with
    | none => cases hnone.1 rfl
    | some r' =>
      obtain ⟨hiff, hr, hr'⟩ := hsome r r' rfl rfl
      have heq : r'.exit = r.exit := by omega
      exact congrArg some heq

theorem run_retold (hg : w.machine.Retells g) (v : Invocation) (s : Settings) (cell : Nat) :
    (run (w.withStep g) v s cell).map (·.exit) = (run w v s cell).map (·.exit) := by
  cases hload : Document.load w.tree w.here v.notebook with
  | error f =>
    have hload' : Document.load (w.withStep g).tree (w.withStep g).here v.notebook = .error f :=
      hload
    simp only [run, hload, hload']
    rfl
  | ok d =>
    have hload' : Document.load (w.withStep g).tree (w.withStep g).here v.notebook = .ok d := hload
    refine map_exit_eq ?_ fun r r' hr hr' => ?_
    · rw [run_eq_none_iff hload', run_eq_none_iff hload, runCells_eq_none_iff hg]
    · obtain ⟨ran, x, hran, hx, hexit, hle⟩ := run_exit hload hr
      obtain ⟨ran', x', hran', hx', hexit', hle'⟩ := run_exit hload' hr'
      rcases runCells_like hg s d [cell] with ⟨h, -⟩ | ⟨ran₁, ran₁', h, h', -, hlikes⟩
      · cases h.symm.trans hran
      · cases h.symm.trans hran
        cases h'.symm.trans hran'
        rw [hx, hx', List.forall₂_cons] at hlikes
        rw [hexit, hexit', hlikes.1.outcome.isOk_iff]
        exact ⟨.rfl, hle, hle'⟩

theorem isLost_of_like (h : x.Like x') : isLost x' = isLost x := by
  rw [isLost, isLost]
  rcases h.outcome with heq | ⟨out, out', ho, ho'⟩
  · rw [heq]
  · rw [ho, ho']

theorem lost_of_likes {xs xs' : List Finished} (h : List.Forall₂ Finished.Like xs xs') :
    (∀ x ∈ xs, isLost x = false) ↔ ∀ x ∈ xs', isLost x = false := by
  induction h with
  | nil => simp
  | cons hx _ ih => rw [List.forall_mem_cons, List.forall_mem_cons, isLost_of_like hx, ih]

theorem eval_retold (hg : w.machine.Retells g) (v : Invocation) (s : Settings)
    (target : Option Path) :
    (eval (w.withStep g) v s target).map (·.exit) = (eval w v s target).map (·.exit) := by
  cases hload : Document.load w.tree w.here v.notebook with
  | error f =>
    have hload' : Document.load (w.withStep g).tree (w.withStep g).here v.notebook = .error f :=
      hload
    simp only [eval, hload, hload']
    rfl
  | ok d =>
    have hload' : Document.load (w.withStep g).tree (w.withStep g).here v.notebook = .ok d := hload
    by_cases hcode : d.codeIndices = []
    · simp only [eval, hload, hload', hcode, List.isEmpty_nil, if_true]
      rfl
    · refine map_exit_eq ?_ fun r r' hr hr' => ?_
      · rw [eval_eq_none_iff hload' hcode, eval_eq_none_iff hload hcode, runCells_eq_none_iff hg]
      · obtain ⟨ran, hran, hexit, hle⟩ := eval_exit hload hcode hr
        obtain ⟨ran', hran', hexit', hle'⟩ := eval_exit hload' hcode hr'
        rcases runCells_like hg s d d.codeIndices with ⟨h, -⟩ | ⟨ran₁, ran₁', h, h', htree, hlikes⟩
        · cases h.symm.trans hran
        · cases h.symm.trans hran
          cases h'.symm.trans hran'
          rw [hexit, hexit', lost_of_likes hlikes, htree]
          exact ⟨.rfl, hle, hle'⟩

theorem respond_retold {args : List Argument} (hv : invocation args = .ok v)
    (hg : w.machine.Retells g) :
    (respond (w.withStep g) args).map (·.exit) = (respond w args).map (·.exit) := by
  have hset : settings (w.withStep g) v = settings w v := rfl
  rw [respond, respond, hv]
  simp only [perform, hset]
  cases v.task with
  | cells => rfl
  | source cell => rfl
  | run cell =>
    cases settings w v with
    | error f => rfl
    | ok s => exact run_retold hg v s cell
  | eval target =>
    cases settings w v with
    | error f => rfl
    | ok s => exact eval_retold hg v s target

end

/-! ### Coming to an end -/

/-- Whatever has been done for a command, its requests can be brought to their ends. -/
theorem exists_rest (hm : w.machine.Ends)
    (hpatient : ∀ n, ∀ a ∈ w.schedule n, (Task.step a).Patient) (s : Settings) (d : Document)
    (cells : List Nat) : ∃ rest : List Execution.Step,
      runCells { w with schedule := fun n => w.schedule n ++ rest } s d cells ≠ none := by
  have horderly : (requests w d cells).Orderly :=
    (Kernel.orderly_start w.tree .fresh).submitAll d cells
  obtain ⟨rest, -, hall⟩ := (horderly.run s (hpatient cells.length)).completes hm s .epoch
  obtain ⟨xs, hxs⟩ := Kernel.exists_of_quiescent hall
  refine ⟨rest, ?_⟩
  have hsettled : (settled { w with schedule := fun n => w.schedule n ++ rest } s d
      cells).finished? 0 = some xs := by
    rw [settled, Kernel.run, List.foldl_append]
    exact hxs
  obtain ⟨ran, hran, -⟩ := runCells_of_finished hsettled
  rw [hran]
  simp

theorem exists_respond {args : List Argument} (hv : invocation args = .ok v) (hm : w.machine.Ends)
    (hpatient : ∀ n, ∀ a ∈ w.schedule n, (Task.step a).Patient) : ∃ rest : List Execution.Step,
      (respond { w with schedule := fun n => w.schedule n ++ rest } args).isSome := by
  have hset (rest : List Execution.Step) :
      settings { w with schedule := fun n => w.schedule n ++ rest } v = settings w v := rfl
  simp only [respond, hv, perform, hset]
  cases v.task with
  | cells => exact ⟨[], rfl⟩
  | source cell => cases settings w v <;> exact ⟨[], rfl⟩
  | run cell =>
    cases settings w v with
    | error f => exact ⟨[], rfl⟩
    | ok s =>
      cases hload : Document.load w.tree w.here v.notebook with
      | error f => exact ⟨[], by simp only [run, hload]; rfl⟩
      | ok d =>
        obtain ⟨rest, hrest⟩ := exists_rest hm hpatient s d [cell]
        refine ⟨rest, Option.isSome_iff_ne_none.2 ?_⟩
        exact (run_eq_none_iff (w := { w with schedule := fun n => w.schedule n ++ rest })
          hload).not.2 hrest
  | eval target =>
    cases settings w v with
    | error f => exact ⟨[], rfl⟩
    | ok s =>
      cases hload : Document.load w.tree w.here v.notebook with
      | error f => exact ⟨[], by simp only [eval, hload]; rfl⟩
      | ok d =>
        by_cases hcode : d.codeIndices = []
        · refine ⟨[], ?_⟩
          simp only [eval, hload, hcode, List.isEmpty_nil, if_true]
          rfl
        · obtain ⟨rest, hrest⟩ := exists_rest hm hpatient s d d.codeIndices
          refine ⟨rest, Option.isSome_iff_ne_none.2 ?_⟩
          exact (eval_eq_none_iff (w := { w with schedule := fun n => w.schedule n ++ rest })
            hload hcode).not.2 hrest

/-! ### The status -/

theorem run_status {cell : Nat} {args : List Argument} (hv : invocation args = .ok v)
    (htask : v.task = .run cell) (hr : respond w args = some r) :
    r.exit = 0 ↔ RunsCell w v cell := by
  rw [respond, hv] at hr
  simp only [perform, htask] at hr
  cases hset : settings w v with
  | error f =>
    rw [hset] at hr
    cases hr
    refine iff_of_false Nat.one_ne_zero ?_
    rintro ⟨s, d, c, hok, -⟩
    cases hset.symm.trans hok
  | ok s =>
    rw [hset] at hr
    cases hload : Document.load w.tree w.here v.notebook with
    | error f =>
      simp only [run, hload] at hr
      cases hr
      refine iff_of_false Nat.one_ne_zero ?_
      rintro ⟨s, d, c, -, hok, -⟩
      cases hload.symm.trans hok
    | ok d =>
      obtain ⟨ran, x, hran, hx, hexit, -⟩ := run_exit hload hr
      obtain ⟨hdelivered, hcarried⟩ := (delivered_of_runCells hran).2 0 cell x rfl (by rw [hx]; rfl)
      rw [hexit, ← hcarried]
      constructor
      · intro h
        obtain ⟨c, hc, hcode⟩ := isCode_of_launched hdelivered h.launched
        exact ⟨s, d, c, hset, hload, hc, hcode, h⟩
      · rintro ⟨s', d', c, hset', hload', -, -, h⟩
        cases hset.symm.trans hset'
        cases hload.symm.trans hload'
        exact h

theorem eval_status {target : Option Path} {args : List Argument} (hv : invocation args = .ok v)
    (htask : v.task = .eval target) (hr : respond w args = some r) :
    r.exit = 0 ↔ Evaluates w v target := by
  rw [respond, hv] at hr
  simp only [perform, htask] at hr
  cases hset : settings w v with
  | error f =>
    rw [hset] at hr
    cases hr
    refine iff_of_false Nat.one_ne_zero ?_
    rintro ⟨s, d, hok, -⟩
    cases hset.symm.trans hok
  | ok s =>
    rw [hset] at hr
    cases hload : Document.load w.tree w.here v.notebook with
    | error f =>
      simp only [eval, hload] at hr
      cases hr
      refine iff_of_false Nat.one_ne_zero ?_
      rintro ⟨s, d, -, hok, -⟩
      cases hload.symm.trans hok
    | ok d =>
      by_cases hcode : d.codeIndices = []
      · simp only [eval, hload, hcode, List.isEmpty_nil, if_true] at hr
        cases hr
        exact iff_of_true rfl ⟨s, d, hset, hload, .inl hcode⟩
      · obtain ⟨ran, hran, hexit, -⟩ := eval_exit hload hcode hr
        rw [hexit, ← carried_all_iff hran, (runCells_eq_some hran).1]
        constructor
        · exact fun h => ⟨s, d, hset, hload, .inr h⟩
        · rintro ⟨s', d', hset', hload', h⟩
          cases hset.symm.trans hset'
          cases hload.symm.trans hload'
          exact h.resolve_left hcode

/-- A command line that runs cells exits with status 0 just in case that the cells could be run: all
was read, every workspace was made, every toolchain started and exited by itself, and the notebook
could be written where it was to go. What the programs wrote and with which status they exited does
not matter. And if processes end, then whatever has been done so far, the command can be brought to
its end. -/
theorem exit_status (w : World) (args : List Argument) (v : Invocation)
    (hv : invocation args = .ok v) :
    (∀ cell r, v.task = .run cell → respond w args = some r →
      (r.exit = 0 ↔ RunsCell w v cell)) ∧
    (∀ target r, v.task = .eval target → respond w args = some r →
      (r.exit = 0 ↔ Evaluates w v target)) ∧
    (∀ g, w.machine.Retells g →
      (respond (w.withStep g) args).map (·.exit) = (respond w args).map (·.exit)) ∧
    (w.machine.Ends → (∀ n, ∀ a ∈ w.schedule n, (Task.step a).Patient) →
      ∃ rest, (respond { w with schedule := fun n => w.schedule n ++ rest } args).isSome) :=
  ⟨fun _ _ htask hr => run_status hv htask hr, fun _ _ htask hr => eval_status hv htask hr,
    fun _ hg => respond_retold hv hg, fun hm hpatient => exists_respond hv hm hpatient⟩

/-- The command line that runs the first cell of a notebook. -/
def runFirst : List Argument :=
  ["run", "n.md", "--cell", "0", "--scratch-dir", "scratch"].map String.toList

/-- What `runFirst` asks for. -/
def firstCell : Invocation :=
  ⟨⟨"n.md".toList⟩, .run 0, Program.Toolchain.standard.program, none, some ⟨"scratch".toList⟩,
    .evaluate⟩

/-- As `Machine.printer` works, but the program reports a failure. -/
def fails (d : Execution.Machine.printer.Job) (t : Tree) :
    Tree × (Execution.Machine.printer.Job ⊕ Completion) :=
  ((Execution.Machine.printer.step d t).1, .inr ⟨.status 101, [], [33, 10]⟩)

theorem invocation_runFirst : invocation runFirst = .ok firstCell := by
  have h : (invocation runFirst).toOption = some firstCell := by decide +kernel
  cases hv : invocation runFirst with
  | error f => rw [hv] at h; cases h
  | ok v => rw [hv] at h; exact congrArg Except.ok (Option.some.inj h)

theorem exit_status_printed : invocation runFirst = .ok firstCell ∧
    RunsCell (bench .printer .empty) firstCell 0 ∧
    (respond ((bench .printer .empty).withStep fails) runFirst).map (·.exit) = some 0 ∧
    ∃ rest, (respond { bench .printer .empty with
      schedule := fun n => Schedule.fair .epoch n ++ rest } runFirst).isSome := by
  obtain ⟨hrun, -, hretold, hends⟩ :=
    exit_status (bench .printer .empty) runFirst firstCell invocation_runFirst
  have hexit : (respond (bench .printer .empty) runFirst).map (·.exit) = some 0 := by
    decide +kernel
  have hsome := hexit
  obtain ⟨r, hr, hzero⟩ := Option.map_eq_some_iff.1 hsome
  refine ⟨invocation_runFirst, (hrun 0 r rfl hr).1 hzero, (hretold fails ?_).trans hexit,
    hends ?_ ?_⟩
  · exact fun d t => ⟨rfl, .inr (.inr ⟨0, 101, rfl, rfl⟩)⟩
  · exact fun d t => ⟨1, rfl⟩
  · intro n a ha
    obtain ⟨round, hround, ha⟩ := List.mem_flatten.1 ha
    obtain rfl := List.eq_of_mem_replicate hround
    rcases List.mem_append.1 ha with ha | ha <;> obtain ⟨i, -, rfl⟩ := List.mem_map.1 ha <;> trivial

end Notebook.Command
