import Notebook.Proofs.Execution.Course

/-!
A request whose key nobody has comes to its end by steps of its own, if its process does.
-/

namespace Notebook.Execution

open Files (Tree)
open Program (Prepared)

theorem Locks.holds_poll_of_holds {l : Locks} {id : Nat} (h : l.holds id = true) :
    (l.poll id).holds id = true := by
  rw [holds] at h
  split at h
  · rename_i u hu
    obtain ⟨b, hb, hkeep⟩ := user?_poll_self hu
    rw [holds, hb]
    exact hkeep h
  · cases h

namespace Kernel

/-- The pipeline can be brought to its end by steps of its own and the removal of this number. -/
def Finishes (m : Machine) (s : Settings) (now : Moment) (i n : Nat) (k : Kernel m.Job) : Prop :=
  ∃ steps : List Step, (∀ a ∈ steps, a = .advance i now ∨ a = .remove n) ∧
    ((k.run m s steps).delivered? i).isSome

/-- The process that is started for the request ends. -/
def Terminates (m : Machine) (s : Settings) (t : Tree) (d : Document) (cell : Nat) : Prop :=
  ∀ q t' w j, Program.prepare s.shape s.manifest d cell = .ok q →
    Workspace.acquire t s.here s.scratch q.key s.manifest q.program = (t', .ok w) →
      m.start s.toolchain t' s.here w.root = .ok j → ∃ N, (m.complete N j t').isSome

variable {m : Machine} {s : Settings} {k : Kernel m.Job} {now : Moment} {i n : Nat} {o : Outcome}
  {w : Workspace} {p : Pipeline m.Job}

theorem Finishes.of_advance (h : Finishes m s now i n (k.advance m s now i)) :
    Finishes m s now i n k := by
  obtain ⟨steps, hsteps, hend⟩ := h
  refine ⟨.advance i now :: steps, fun a ha => ?_, hend⟩
  rcases List.mem_cons.1 ha with rfl | ha
  · exact .inl rfl
  · exact hsteps a ha

theorem Finishes.of_remove (h : Finishes m s now i n (k.remove s.here n)) :
    Finishes m s now i n k := by
  obtain ⟨steps, hsteps, hend⟩ := h
  refine ⟨.remove n :: steps, fun a ha => ?_, hend⟩
  rcases List.mem_cons.1 ha with rfl | ha
  · exact .inr rfl
  · exact hsteps a ha

theorem finishes_of_finished (h : k.phase? i = some (.finished o)) : Finishes m s now i n k := by
  obtain ⟨p, hp, hf⟩ := pipeline_of_phase h
  refine ⟨[], by simp, ?_⟩
  show (k.delivered? i).isSome
  rw [delivered?, hp, Option.bind_some, Pipeline.finished?, hf]
  rfl

theorem finishes_of_closing (h : k.phase? i = some (.closing o)) : Finishes m s now i n k := by
  obtain ⟨p, hp, hf⟩ := pipeline_of_phase h
  obtain ⟨p', o', -, -, hf', hset⟩ := close_pipelines k now i p o
  refine .of_advance (finishes_of_finished (o := o') ?_)
  rw [advance, hp]
  simp only [hf]
  rw [phase?_set_self hp hset, hf']

theorem finishes_of_unlocking (h : k.phase? i = some (.unlocking o)) :
    Finishes m s now i n k := by
  obtain ⟨p, hp, hf⟩ := pipeline_of_phase h
  refine .of_advance (finishes_of_closing (o := o) ?_)
  rw [advance, hp]
  simp only [hf]
  exact phase_of_pipeline (getElem?_setPipeline hp rfl)

theorem finishes_of_removed (h : k.phase? i = some (.removing n o))
    (hn : k.removals[n]? = some ⟨w, true⟩) : Finishes m s now i n k := by
  obtain ⟨p, hp, hf⟩ := pipeline_of_phase h
  refine .of_advance (finishes_of_unlocking (o := o) ?_)
  rw [advance, hp]
  simp only [hf, awaitRemoval, hn]
  exact phase_of_pipeline (getElem?_setPipeline hp rfl)

theorem finishes_of_removing (h : k.phase? i = some (.removing n o))
    (hn : k.removals[n]? = some ⟨w, false⟩) : Finishes m s now i n k := by
  have hphase := (phase?_remove k s.here i n).trans h
  refine .of_remove (finishes_of_removed (o := o) (w := w) hphase ?_)
  rw [remove, hn]
  exact List.getElem?_set_self (List.getElem?_eq_some_iff.1 hn).1

theorem finishes_of_releasing (h : k.phase? i = some (.releasing w o))
    (hn : k.removals.length = n) : Finishes m s now i n k := by
  obtain ⟨p, hp, hf⟩ := pipeline_of_phase h
  have hrelease : k.advance m s now i = k.release i p w o := by
    rw [advance, hp]
    simp only [hf]
  subst hn
  refine .of_advance (finishes_of_removing (o := o) (w := w) ?_ ?_)
  · rw [hrelease]
    exact phase_of_pipeline (getElem?_setPipeline hp rfl)
  · rw [hrelease]
    exact List.getElem?_concat_length

theorem finishes_of_running {N : Nat} {j : m.Job} (h : k.phase? i = some (.running w j))
    (hn : k.removals.length = n) (hend : (m.complete N j k.tree).isSome) :
    Finishes m s now i n k := by
  induction N generalizing k j with
  | zero => cases hend
  | succ N ih =>
    obtain ⟨p, hp, hf⟩ := pipeline_of_phase h
    have hwork : k.advance m s now i = k.work m s i p w j := by
      rw [advance, hp]
      simp only [hf]
    rw [Machine.complete] at hend
    rcases hstep : m.step j k.tree with ⟨t, j' | c⟩
    · rw [hstep] at hend
      refine .of_advance (ih (j := j') ?_ ?_ ?_)
      · rw [hwork, work, hstep]
        exact phase_of_pipeline (getElem?_setPipeline hp rfl)
      · rw [hwork, work, hstep]
        exact hn
      · rw [hwork, work, hstep]
        exact hend
    · refine .of_advance (finishes_of_releasing (o := outcome s.toolchain c) (w := w) ?_ ?_)
      · rw [hwork, work, hstep]
        exact phase_of_pipeline (getElem?_setPipeline hp rfl)
      · rw [hwork, work, hstep]
        exact hn

theorem finishes_of_ready (h : k.phase? i = some (.ready w)) (hn : k.removals.length = n)
    (hend : ∀ j, m.start s.toolchain k.tree s.here w.root = .ok j →
      ∃ N, (m.complete N j k.tree).isSome) : Finishes m s now i n k := by
  obtain ⟨p, hp, hf⟩ := pipeline_of_phase h
  have hlaunch : k.advance m s now i = k.launch m s i p w := by
    rw [advance, hp]
    simp only [hf]
  refine .of_advance ?_
  rw [hlaunch, launch]
  cases hstart : m.start s.toolchain k.tree s.here w.root with
  | ok j =>
    obtain ⟨N, hN⟩ := hend j hstart
    exact finishes_of_running (N := N) (j := j)
      (phase_of_pipeline (getElem?_setPipeline hp rfl)) hn hN
  | error f => exact finishes_of_releasing (phase_of_pipeline (getElem?_setPipeline hp rfl)) hn

theorem finishes_of_holding {q : Prepared} (h : k.phase? i = some (.holding q))
    (hn : k.removals.length = n)
    (hend : ∀ t w j, Workspace.acquire k.tree s.here s.scratch q.key s.manifest q.program =
      (t, .ok w) → m.start s.toolchain t s.here w.root = .ok j → ∃ N, (m.complete N j t).isSome) :
    Finishes m s now i n k := by
  obtain ⟨p, hp, hf⟩ := pipeline_of_phase h
  have hacquire : k.advance m s now i = k.acquire s i p q := by
    rw [advance, hp]
    simp only [hf]
  refine .of_advance ?_
  rw [hacquire, acquire]
  rcases hw : Workspace.acquire k.tree s.here s.scratch q.key s.manifest q.program with ⟨t, f | w⟩
  · exact finishes_of_unlocking (phase_of_pipeline (getElem?_setPipeline hp rfl))
  · exact finishes_of_ready (phase_of_pipeline (getElem?_setPipeline hp rfl)) hn
      fun j hj => hend t w j hw hj

theorem finishes_of_waiting {q : Prepared} (h : k.phase? i = some (.waiting q))
    (hlock : (k.locks.poll i).holds i = true) (hn : k.removals.length = n)
    (hend : ∀ t w j, Workspace.acquire k.tree s.here s.scratch q.key s.manifest q.program =
      (t, .ok w) → m.start s.toolchain t s.here w.root = .ok j → ∃ N, (m.complete N j t).isSome) :
    Finishes m s now i n k := by
  obtain ⟨p, hp, hf⟩ := pipeline_of_phase h
  have hwait : k.advance m s now i = k.wait i p q := by
    rw [advance, hp]
    simp only [hf]
  refine .of_advance ?_
  rw [hwait, wait]
  simp only [hlock, if_true]
  exact finishes_of_holding (phase_of_pipeline (getElem?_setPipeline hp rfl)) hn hend

theorem finishes_of_started (hp : k.pipelines[i]? = some p) (hf : p.phase = .started)
    (hn : k.removals.length = n)
    (hfree : ∀ q, p.request? s = .ok q → k.locks.slot? q.key = none)
    (hend : Terminates m s k.tree p.document p.record.cellIndex) : Finishes m s now i n k := by
  have hask : k.advance m s now i = k.ask s i p := by
    rw [advance, hp]
    simp only [hf]
  refine .of_advance ?_
  rw [hask, ask]
  cases hq : Program.prepare s.shape s.manifest p.document p.record.cellIndex with
  | error f => exact finishes_of_closing (phase_of_pipeline (getElem?_setPipeline hp rfl))
  | ok q =>
    exact finishes_of_waiting (phase_of_pipeline (getElem?_setPipeline hp rfl))
      (Locks.holds_poll_of_holds (Locks.holds_request (hfree q hq) i)) hn
      fun t w j hw hj => hend q t w j hq hw hj

theorem finishes_of_queued (hp : k.pipelines[i]? = some p) (hf : p.phase = .queued)
    (hfree : ∀ q, p.request? s = .ok q → k.locks.slot? q.key = none)
    (hend : Terminates m s k.tree p.document p.record.cellIndex) :
    Finishes m s now i k.removals.length k := by
  have hbegin : k.advance m s now i = k.begin_ now i p := by
    rw [advance, hp]
    simp only [hf]
  refine .of_advance ?_
  rw [hbegin, begin_]
  cases hr : p.record.start now with
  | error f => exact finishes_of_finished (phase_of_pipeline (getElem?_setPipeline hp rfl))
  | ok r =>
    have hcell : r.cellIndex = p.record.cellIndex := Record.start_cellIndex hr
    refine finishes_of_started (p := { p with record := r, phase := .started })
      (getElem?_setPipeline hp rfl) rfl rfl (fun q hq => hfree q ?_) ?_
    · rw [Pipeline.request?] at hq ⊢
      rw [← hcell]
      exact hq
    · show Terminates m s k.tree p.document r.cellIndex
      rw [hcell]
      exact hend

end Kernel

end Notebook.Execution
