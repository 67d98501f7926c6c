import Notebook.Proofs.Execution.Cleanup
import Notebook.Proofs.Execution.Progress

/-!
A kernel does not get stuck. If processes end, then whatever has happened to it so far can be
carried on until all requests have ended, unless one has been given up.
-/

namespace Notebook.Execution

open Program (Prepared)

/-- Every process ends if it is let run, whatever the files are. -/
def Machine.Ends (m : Machine) : Prop := ∀ j t, ∃ n, (m.complete n j t).isSome

namespace Kernel

variable {m : Machine} {s : Settings} {k k₁ : Kernel m.Job} {now : Moment} {i j n : Nat}
  {p p' : Pipeline m.Job}

/-- What is kept as long as no request is given up. -/
structure Orderly (k : Kernel m.Job) : Prop where
  guarded : k.Guarded
  lined : ∃ a, k.locks.Lined a
  patient : ∀ i, k.phase? i ≠ some .cancelled

theorem orderly_start (t : Files.Tree) (c : Counter) : (start t c : Kernel m.Job).Orderly where
  guarded := guarded_start t c
  lined := ⟨[], Locks.lined_empty⟩
  patient := by rintro i ⟨⟩

theorem Orderly.withTree (h : k.Orderly) (t : Files.Tree) :
    ({ k with tree := t } : Kernel m.Job).Orderly :=
  ⟨⟨h.guarded.sound, h.guarded.known, h.guarded.keeps⟩, h.lined, h.patient⟩

theorem Turn.cancelled (h : Turn m s now k i p k₁ p') (hp' : p'.phase = .cancelled) :
    p.phase = .cancelled := by
  cases h with
  | wait _ _ | await _ _ | rest _ => exact hp'
  | reject _ _ | begin_ _ _ | decline _ _ | ask _ _ | hold _ _ | refuse _ _ | acquire _ _
  | stall _ _ | launch _ _ | work _ _ | exit _ _ | release _ | clear _ _ | unlock _ | close _ _
  | misclose _ _ => cases hp'

theorem Orderly.step (h : k.Orderly) (s : Settings) {a : Step} (ha : (Task.step a).Patient) :
    (k.step m s a).Orderly := by
  refine ⟨guarded_act h.guarded s (.step a),
    (touches_act s k (.step a)).lined h.guarded h.lined, fun j hj => ?_⟩
  cases a with
  | advance i now =>
    change (k.advance m s now i).phase? j = some .cancelled at hj
    by_cases hji : j = i
    · subst hji
      cases hp : k.pipelines[j]? with
      | none =>
        rw [advance, hp] at hj
        exact h.patient j hj
      | some p =>
        obtain ⟨k₁, p', ht, hk₁, hadvance⟩ := advance_turn s now hp
        rw [hadvance, phase_of_pipeline (getElem?_setPipeline hp hk₁)] at hj
        refine h.patient j ?_
        rw [phase_of_pipeline hp, ht.cancelled (Option.some.inj hj)]
    · exact h.patient j ((phase?_advance_ne hji s now).symm.trans hj)
  | cancel i => exact ha.elim
  | remove i => exact h.patient j ((phase?_remove k s.here j i).symm.trans hj)

theorem Orderly.submit (h : k.Orderly) (d : Document) (r : Record) : (k.submit d r).Orderly := by
  refine ⟨guarded_submit h.guarded d r, h.lined, fun i hi => ?_⟩
  rcases Nat.lt_or_ge i k.pipelines.length with hlt | hge
  · exact h.patient i ((phase?_submit hlt d r).symm.trans hi)
  · obtain ⟨p, hp, hf⟩ := pipeline_of_phase hi
    have hp' : (k.pipelines ++ [⟨d, r, .queued⟩])[i]? = some p := hp
    rw [List.getElem?_append_right hge, List.getElem?_singleton] at hp'
    split at hp'
    · cases hp'
      cases hf
    · cases hp'

theorem Orderly.run (h : k.Orderly) (s : Settings) {steps : List Step}
    (hsteps : ∀ a ∈ steps, (Task.step a).Patient) : (k.run m s steps).Orderly := by
  induction steps generalizing k with
  | nil => exact h
  | cons a steps ih =>
    exact ih (h.step s (hsteps a List.mem_cons_self))
      fun b hb => hsteps b (List.mem_cons_of_mem a hb)

/-! ### One request more that ends -/

/-- The request is past its key and has not ended. -/
def Past {P : Type} : Phase P → Prop
  | .holding _ | .ready _ | .running .. | .releasing .. | .removing .. | .unlocking _
  | .closing _ => True
  | .queued | .started | .waiting _ | .finished _ | .cancelled => False

/-- A request that is past its key needs nobody but itself. -/
theorem finishes_of_past {f : Phase m.Job} (h : k.Guarded) (hm : m.Ends) (s : Settings)
    (now : Moment) (hf : k.phase? i = some f) (hpast : Past f) :
    ∃ n, Finishes m s now i n k := by
  cases f with
  | holding q => exact ⟨_, finishes_of_holding hf rfl fun t _ j _ _ => hm j t⟩
  | ready w => exact ⟨_, finishes_of_ready hf rfl fun j _ => hm j k.tree⟩
  | running w j =>
    obtain ⟨N, hN⟩ := hm j k.tree
    exact ⟨_, finishes_of_running hf rfl hN⟩
  | releasing w o => exact ⟨_, finishes_of_releasing hf rfl⟩
  | removing n o =>
    obtain ⟨⟨w, b⟩, hr, -⟩ := h.keeps i _ hf
    cases b with
    | true => exact ⟨n, finishes_of_removed hf hr⟩
    | false => exact ⟨n, finishes_of_removing hf hr⟩
  | unlocking o => exact ⟨0, finishes_of_unlocking hf⟩
  | closing o => exact ⟨0, finishes_of_closing hf⟩
  | queued | started | waiting _ | finished _ | cancelled => exact hpast.elim

/-- If nobody is past its key, then the first in line for a key can have it. -/
theorem finishes_of_first {q : Prepared} (h : k.Orderly) (hm : m.Ends) (s : Settings)
    (now : Moment) (hpast : ∀ i f, k.phase? i = some f → ¬ Past f)
    (hi : k.phase? i = some (.waiting q)) :
    ∃ j q n, k.phase? j = some (.waiting q) ∧ Finishes m s now j n k := by
  obtain ⟨a, ha⟩ := h.lined
  obtain ⟨j, hj⟩ : ∃ j, (lineOf a q.key).head? = some j := by
    obtain ⟨u, hu, hkey⟩ := h.guarded.keeps i _ hi
    have hmem : i ∈ lineOf a q.key := mem_lineOf.2 ((ha.users i q.key).2 ⟨u, hu, hkey⟩)
    exact ⟨_, List.head?_eq_some_head (List.ne_nil_of_mem hmem)⟩
  obtain ⟨u, hu, -⟩ := (ha.users j q.key).1 (mem_lineOf.1 (List.mem_of_mem_head? hj))
  have hlt : j < k.pipelines.length := by
    by_contra hge
    rw [h.guarded.known j (Nat.not_lt.1 hge)] at hu
    cases hu
  have hphase := phase_of_pipeline (List.getElem?_eq_getElem hlt)
  have hkeeps := h.guarded.keeps j _ hphase
  have hno := hpast j _ hphase
  have hpatient := h.patient j
  generalize k.pipelines[j].phase = f at hphase hkeeps hno
  cases f with
  | waiting q' =>
    exact ⟨j, q', _, hphase, finishes_of_waiting hphase (ha.holds_poll hj) rfl
      fun t _ j _ _ => hm j t⟩
  | queued | started | finished _ =>
    have hnone : k.locks.user? j = none := hkeeps
    rw [hnone] at hu
    cases hu
  | cancelled => exact absurd hphase hpatient
  | holding _ | ready _ | running _ _ | releasing _ _ | removing _ _ | unlocking _ | closing _ =>
    exact absurd trivial hno

/-- If nobody has or awaits a key, then every request can have its own. -/
theorem finishes_of_fresh (h : k.Orderly) (hm : m.Ends) (s : Settings) (now : Moment)
    (hfree : ∀ i, k.locks.user? i = none) (hp : k.pipelines[i]? = some p)
    (hf : p.phase = .queued ∨ p.phase = .started) : ∃ n, Finishes m s now i n k := by
  obtain ⟨a, ha⟩ := h.lined
  have hslot (key : Program.Key) : k.locks.slot? key = none := by
    rw [Locks.slot?, ha.slots_eq_nil hfree]
    rfl
  have hend : Terminates m s k.tree p.document p.record.cellIndex := fun _ t _ j _ _ _ => hm j t
  rcases hf with hf | hf
  · exact ⟨_, finishes_of_queued hp hf (fun q _ => hslot q.key) hend⟩
  · exact ⟨_, finishes_of_started hp hf rfl (fun q _ => hslot q.key) hend⟩

theorem user?_eq_none (h : k.Orderly) (hpast : ∀ i f, k.phase? i = some f → ¬ Past f)
    (hwait : ∀ i q, k.phase? i ≠ some (.waiting q)) (i : Nat) : k.locks.user? i = none := by
  rcases Nat.lt_or_ge i k.pipelines.length with hlt | hge
  · have hphase := phase_of_pipeline (List.getElem?_eq_getElem hlt)
    have hkeeps := h.guarded.keeps i _ hphase
    have hno := hpast i _ hphase
    have hpatient := h.patient i
    generalize k.pipelines[i].phase = f at hphase hkeeps hno
    cases f with
    | queued | started | finished _ => exact hkeeps
    | waiting q => exact absurd hphase (hwait i q)
    | cancelled => exact absurd hphase hpatient
    | holding _ | ready _ | running _ _ | releasing _ _ | removing _ _ | unlocking _
    | closing _ => exact absurd trivial hno
  · exact h.guarded.known i hge

/-- As long as a request has not ended, there is one that can end by itself. -/
theorem Orderly.exists_finishes (h : k.Orderly) (hm : m.Ends) (s : Settings) (now : Moment)
    (hq : ¬ k.Quiescent) : ∃ i n p, k.pipelines[i]? = some p ∧ p.finished? = none ∧
      Finishes m s now i n k := by
  have hopen {i : Nat} {f : Phase m.Job} (hf : k.phase? i = some f) (hne : ∀ o, f ≠ .finished o) :
      ∃ p, k.pipelines[i]? = some p ∧ p.finished? = none := by
    obtain ⟨p, hp, rfl⟩ := pipeline_of_phase hf
    refine ⟨p, hp, ?_⟩
    rw [Pipeline.finished?]
    split
    · exact absurd (by assumption) (hne _)
    · rfl
  by_cases hpast : ∃ i f, k.phase? i = some f ∧ Past f
  · obtain ⟨i, f, hf, hpast⟩ := hpast
    obtain ⟨n, hn⟩ := finishes_of_past h.guarded hm s now hf hpast
    obtain ⟨p, hp, hnone⟩ := hopen hf fun o ho => by
      rw [ho] at hpast
      exact hpast
    exact ⟨i, n, p, hp, hnone, hn⟩
  · have hno : ∀ i f, k.phase? i = some f → ¬ Past f := fun i f hf hp => hpast ⟨i, f, hf, hp⟩
    by_cases hwait : ∃ i q, k.phase? i = some (.waiting q)
    · obtain ⟨i, q, hi⟩ := hwait
      obtain ⟨j, q', n, hj, hn⟩ := finishes_of_first h hm s now hno hi
      obtain ⟨p, hp, hnone⟩ := hopen hj fun o ho => by cases ho
      exact ⟨j, n, p, hp, hnone, hn⟩
    · have hfree := user?_eq_none h hno fun i q hi => hwait ⟨i, q, hi⟩
      obtain ⟨p, hmem, hunfinished⟩ : ∃ p ∈ k.pipelines, p.finished? = none := by
        by_contra hall
        refine hq fun p hp => ?_
        by_contra hnone
        exact hall ⟨p, hp, Option.not_isSome_iff_eq_none.1 hnone⟩
      obtain ⟨i, hi⟩ := List.getElem?_of_mem hmem
      have hphase := phase_of_pipeline hi
      have hnotPast := hno i _ hphase
      have hfresh : p.phase = .queued ∨ p.phase = .started := by
        cases hf : p.phase with
        | queued => exact .inl rfl
        | started => exact .inr rfl
        | finished o =>
          rw [Pipeline.finished?, hf] at hunfinished
          cases hunfinished
        | waiting q => exact absurd ⟨i, q, hf ▸ hphase⟩ hwait
        | cancelled => exact absurd (hf ▸ hphase) (h.patient i)
        | holding _ | ready _ | running _ _ | releasing _ _ | removing _ _ | unlocking _
        | closing _ =>
          rw [hf] at hnotPast
          exact absurd trivial hnotPast
      obtain ⟨n, hn⟩ := finishes_of_fresh h hm s now hfree hi hfresh
      exact ⟨i, n, p, hi, hunfinished, hn⟩

/-! ### All requests end -/

/-- Steps of one request change no other. -/
theorem pipelines_of_steps {steps : List Step}
    (hsteps : ∀ a ∈ steps, a = .advance i now ∨ a = .remove n) :
    (k.run m s steps).pipelines = k.pipelines ∨
      ∃ p', (k.run m s steps).pipelines = k.pipelines.set i p' := by
  induction steps generalizing k with
  | nil => exact .inl rfl
  | cons a steps ih =>
    have hrest := ih (k := k.step m s a) fun b hb => hsteps b (List.mem_cons_of_mem a hb)
    have hrun : k.run m s (a :: steps) = (k.step m s a).run m s steps := rfl
    have hone : (k.step m s a).pipelines = k.pipelines ∨
        ∃ p', (k.step m s a).pipelines = k.pipelines.set i p' := by
      rcases hsteps a List.mem_cons_self with rfl | rfl
      · rcases advance_pipelines k s now i with hset | ⟨_, p', -, -, -, hset⟩
        · exact .inl hset
        · exact .inr ⟨p', hset⟩
      · exact .inl (remove_pipelines k s.here n)
    rw [hrun]
    rcases hrest with hrest | ⟨p', hrest⟩ <;> rcases hone with hone | ⟨p'', hone⟩
    · exact .inl (hrest.trans hone)
    · exact .inr ⟨p'', hrest.trans hone⟩
    · exact .inr ⟨p', by rw [hrest, hone]⟩
    · exact .inr ⟨p', by rw [hrest, hone, List.set_set]⟩

/-- How many requests have not ended. -/
def unfinished {P : Type} (k : Kernel P) : Nat := k.pipelines.countP (·.finished?.isNone)

theorem unfinished_of_finished {k' : Kernel m.Job} (hp : k.pipelines[i]? = some p)
    (hnone : p.finished? = none) (hset : k'.pipelines = k.pipelines ∨
      ∃ p', k'.pipelines = k.pipelines.set i p') (hend : (k'.delivered? i).isSome) :
    k'.unfinished < k.unfinished := by
  obtain ⟨hlt, hget⟩ := List.getElem?_eq_some_iff.1 hp
  rw [delivered?] at hend
  rcases hset with hset | ⟨p', hset⟩
  · rw [hset, hp, Option.bind_some, hnone] at hend
    cases hend
  · rw [hset, List.getElem?_set_self hlt, Option.bind_some] at hend
    have hpos : 0 < k.pipelines.countP (·.finished?.isNone) :=
      List.countP_pos_iff.2 ⟨p, List.mem_of_getElem? hp, by rw [hnone]; rfl⟩
    have hp' : p'.finished?.isNone = false := by
      rw [← Option.not_isSome, hend]
      rfl
    rw [unfinished, unfinished, hset, List.countP_set hlt, hget, hnone, hp']
    simp only [Option.isNone_none, if_true, Bool.false_eq_true, if_false]
    omega

/-- Whatever has happened so far, the requests can all be brought to their ends. -/
theorem Orderly.completes (h : k.Orderly) (hm : m.Ends) (s : Settings) (now : Moment) :
    ∃ steps : List Step, (∀ a ∈ steps, (Task.step a).Patient) ∧
      (k.run m s steps).Quiescent := by
  -- By induction on how many have not ended: one of them can end, and its steps leave the others.
  induction hu : k.unfinished using Nat.strongRecOn generalizing k with
  | ind u ih =>
    by_cases hq : k.Quiescent
    · exact ⟨[], by simp, hq⟩
    · obtain ⟨i, n, p, hp, hnone, steps, hsteps, hend⟩ := h.exists_finishes hm s now hq
      have hpatient : ∀ a ∈ steps, (Task.step a).Patient := by
        intro a ha
        rcases hsteps a ha with rfl | rfl <;> trivial
      have hless := unfinished_of_finished hp hnone (pipelines_of_steps hsteps) hend
      obtain ⟨rest, hrest, hall⟩ := ih _ (hu ▸ hless) (h.run s hpatient) rfl
      refine ⟨steps ++ rest, fun a ha => ?_, ?_⟩
      · rcases List.mem_append.1 ha with ha | ha
        · exact hpatient a ha
        · exact hrest a ha
      · rw [Kernel.run, List.foldl_append]
        exact hall

end Kernel

end Notebook.Execution
