import Notebook.Proofs.Execution.Completion
import Notebook.Proofs.Execution.Determined
import Notebook.Proofs.Execution.Request

/-!
Requests that come together: their numbers, what each of them comes to, and what it takes for one to
have an output.
-/

namespace Notebook.Execution

open Files (Tree)

/-! ### Numbers -/

namespace Counter

theorem triggerAll_eq (c : Counter) (cells : List Nat) :
    (c.triggerAll cells).1 = cells.mapIdx fun i cell => .queued cell (c.last + 1 + i) := by
  induction cells generalizing c with
  | nil => rfl
  | cons i cells ih =>
    have hshift (j : Nat) : (c.trigger i).2.last + 1 + j = c.last + 1 + (j + 1) := by
      show c.last + 1 + 1 + j = c.last + 1 + (j + 1)
      omega
    rw [triggerAll, ih, List.mapIdx_cons]
    simp only [hshift]
    rfl

end Counter

namespace Kernel

variable {m : Machine} {s : Settings} {k k₁ : Kernel m.Job} {i : Nat} {as : List Action}
  {d : Document} {r : Record} {p p' : Pipeline m.Job} {x : Finished} {cells : List Nat}

theorem pipelines_submitAll (k : Kernel m.Job) (d : Document) (cells : List Nat) :
    (k.submitAll d cells).pipelines =
      k.pipelines ++ (k.counter.triggerAll cells).1.map (⟨d, ·, .queued⟩) := by
  induction cells generalizing k with
  | nil => exact (List.append_nil _).symm
  | cons i cells ih =>
    rw [submitAll_cons, ih]
    simp [submit, Counter.triggerAll, Counter.trigger]

theorem pipeline_of_submitAll {cell : Nat} (hi : cells[i]? = some cell) :
    (k.submitAll d cells).pipelines[k.pipelines.length + i]? =
      some ⟨d, .queued cell (k.counter.last + 1 + i), .queued⟩ := by
  rw [pipelines_submitAll, List.getElem?_append_right (Nat.le_add_right _ _),
    Nat.add_sub_cancel_left, Counter.triggerAll_eq, List.getElem?_map, List.getElem?_mapIdx, hi]
  rfl

theorem Orderly.submitAll (h : k.Orderly) (d : Document) (cells : List Nat) :
    (k.submitAll d cells).Orderly := by
  induction cells generalizing k with
  | nil => exact h
  | cons i cells ih =>
    rw [submitAll_cons]
    have hsubmit := h.submit d (.queued i k.counter.next.1)
    exact ih ⟨⟨hsubmit.guarded.sound, hsubmit.guarded.known, hsubmit.guarded.keeps⟩,
      hsubmit.lined, hsubmit.patient⟩

theorem perform_steps (m : Machine) (s : Settings) (k : Kernel m.Job) (steps : List Step) :
    k.perform m s (steps.map .step) = k.run m s steps := by
  rw [perform, List.foldl_map]
  rfl

/-! ### What it takes to have an output -/

/-- The pipeline gets its workspace. -/
def Granted (s : Settings) (i : Nat) {P : Type} (k : Kernel P) : Prop :=
  ∃ q w, k.phase? i = some (.holding q) ∧
    (Workspace.acquire k.tree s.here s.scratch q.key s.manifest q.program).2 = .ok w

/-- The workspace of the request is made, its toolchain starts, and its process exits by itself,
with whatever status. -/
structure Carried (m : Machine) (s : Settings) (k : Kernel m.Job) (i : Nat) (as : List Action) :
    Prop where
  granted : Meets m s k i as (Granted s i)
  launched : Meets m s k i as (Launched m s i)
  exited : ∃ c code, Meets m s k i as (Exited m i c) ∧ c.exit = .status code

/-- What must have happened to a request that has a workspace, or a process. -/
def Equipped (m : Machine) (s : Settings) (k : Kernel m.Job) (i : Nat) (as : List Action) :
    Phase m.Job → Prop
  | .ready _ => Meets m s k i as (Granted s i)
  | .running .. => Meets m s k i as (Granted s i) ∧ Meets m s k i as (Launched m s i)
  | _ => True

theorem Equipped.concat {f : Phase m.Job} (h : Equipped m s k i as f) (a : Action) :
    Equipped m s k i (as ++ [a]) f := by
  cases f with
  | ready _ => exact Meets.concat h a
  | running _ _ => exact ⟨h.1.concat a, h.2.concat a⟩
  | queued | started | waiting _ | holding _ | releasing _ _ | removing _ _ | unlocking _
  | closing _ | finished _ | cancelled => trivial

theorem Equipped.turn {now : Moment} (h : Equipped m s k i as p.phase)
    (hp : (k.perform m s as).pipelines[i]? = some p)
    (ht : Turn m s now (k.perform m s as) i p k₁ p') :
    Equipped m s k i (as ++ [.step (.advance i now)]) p'.phase := by
  have hphase := phase_of_pipeline hp
  have hold := h.concat (.step (.advance i now))
  cases ht with
  | @acquire q t w hf hacquire =>
    rw [hf] at hphase
    refine (meets_concat now ⟨q, w, hphase, ?_⟩ : Meets m s k i _ (Granted s i))
    rw [hacquire]
  | launch hf hstart =>
    rw [hf] at hold hphase
    exact ⟨hold, meets_concat now ⟨_, _, hphase, hstart⟩⟩
  | work hf _ =>
    rw [hf] at hold
    exact hold
  | wait _ _ | await _ _ | rest _ => exact hold
  | reject _ _ | begin_ _ _ | decline _ _ | ask _ _ | hold _ _ | refuse _ _ | stall _ _
  | exit _ _ | release _ | clear _ _ | unlock _ | close _ _ | misclose _ _ => trivial

theorem equipped_perform (hp : k.pipelines[i]? = some ⟨d, r, .queued⟩) (as : List Action) :
    ∃ p, (k.perform m s as).pipelines[i]? = some p ∧ Equipped m s k i as p.phase := by
  induction as using List.reverseRecOn with
  | nil => exact ⟨_, hp, trivial⟩
  | append_singleton as a ih =>
    obtain ⟨p, hp, h⟩ := ih
    rw [perform_concat]
    rcases act_cases s hp a with ⟨now, k₁, p', rfl, ht, -, hp'⟩ | ⟨-, hp' | hp'⟩
    · exact ⟨p', hp', h.turn hp ht⟩
    · exact ⟨p, hp', h.concat a⟩
    · exact ⟨_, hp', trivial⟩

/-- A process that exits has been started in a workspace. -/
theorem equipped_of_exited {c : Completion} (hp : k.pipelines[i]? = some ⟨d, r, .queued⟩)
    (h : Meets m s k i as (Exited m i c)) :
    Meets m s k i as (Granted s i) ∧ Meets m s k i as (Launched m s i) := by
  obtain ⟨pre, now, post, rfl, w, j, hphase, -⟩ := h
  obtain ⟨p, hp', hequipped⟩ := equipped_perform (s := s) hp pre
  rw [Option.some.inj ((phase_of_pipeline hp').symm.trans hphase)] at hequipped
  have hlater {C : Kernel m.Job → Prop} (hmet : Meets m s k i pre C) :
      Meets m s k i (pre ++ .step (.advance i now) :: post) C := by
    obtain ⟨pre', now', post', rfl, hC⟩ := hmet
    exact ⟨pre', now', post' ++ .step (.advance i now) :: post, by simp, hC⟩
  exact ⟨hlater hequipped.1, hlater hequipped.2⟩

/-- A request has an output just in case that it has been carried out to its end. -/
theorem carried_iff (hp : k.pipelines[i]? = some ⟨d, r, .queued⟩) (hr : r.state = .queued)
    (hx : (k.perform m s as).delivered? i = some x) :
    Carried m s k i as ↔ ∃ out, x.outcome = .ok out := by
  have hok := outcome_ok_iff hp hr hx
  constructor
  · rintro ⟨-, -, c, code, hmet, hcode⟩
    exact ⟨_, (hok _).2 ⟨c, code, hmet, hcode, rfl⟩⟩
  · rintro ⟨out, hout⟩
    obtain ⟨c, code, hmet, hcode, -⟩ := (hok out).1 hout
    obtain ⟨hgranted, hlaunched⟩ := equipped_of_exited hp hmet
    exact ⟨hgranted, hlaunched, c, code, hmet, hcode⟩

/-! ### All of them -/

/-- What a call is given back whose `n` pipelines start with the `first`, once all have ended. -/
def returned? {P : Type} (k : Kernel P) (first n : Nat) : Option (List Finished) :=
  ((k.pipelines.drop first).take n).mapM Pipeline.finished?

theorem delivered_of_returned? {first n : Nat} {xs : List Finished}
    (h : k.returned? first n = some xs) (hn : n ≤ k.pipelines.length - first) :
    xs.length = n ∧ ∀ i x, xs[i]? = some x → k.delivered? (first + i) = some x := by
  have hall := forall₂_of_mapM h
  have hlen := hall.length_eq
  rw [List.length_take, List.length_drop] at hlen
  refine ⟨by omega, fun i x hx => ?_⟩
  obtain ⟨hi, rfl⟩ := List.getElem?_eq_some_iff.1 hx
  have hi' : i < ((k.pipelines.drop first).take n).length := hall.length_eq ▸ hi
  have hfinished := hall.get hi' hi
  rw [List.get_eq_getElem, List.get_eq_getElem, List.getElem_take, List.getElem_drop] at hfinished
  rw [delivered?, List.getElem?_eq_getElem (by omega), Option.bind_some, hfinished]

theorem finished?_eq_returned? (k : Kernel m.Job) (first : Nat) :
    k.finished? first = k.returned? first (k.pipelines.length - first) := by
  rw [finished?, returned?, ← List.length_drop, List.take_length]

theorem exists_mapM_finished? {P : Type} {ps : List (Pipeline P)}
    (h : ∀ p ∈ ps, p.finished?.isSome) :
    ∃ xs, ps.mapM Pipeline.finished? = some xs := by
  induction ps with
  | nil => exact ⟨[], rfl⟩
  | cons p ps ih =>
    obtain ⟨x, hx⟩ := Option.isSome_iff_exists.1 (h p List.mem_cons_self)
    obtain ⟨xs, hxs⟩ := ih fun p hp => h p (List.mem_cons_of_mem _ hp)
    exact ⟨x :: xs, by rw [List.mapM_cons, hx, hxs]; rfl⟩

theorem exists_of_quiescent (h : k.Quiescent) : ∃ xs, k.finished? 0 = some xs := by
  rw [finished?, List.drop_zero]
  exact exists_mapM_finished? h

/-- The requests of a call that has ended are those for the cells of its list, one each, and in this
order. -/
theorem delivered_of_call {t : Tree} {c : Counter} {steps : List Step} {xs : List Finished}
    (h : (((start t c).submitAll d cells).run m s steps).finished? 0 = some xs) :
    xs.length = cells.length ∧ ∀ i cell x, cells[i]? = some cell → xs[i]? = some x →
      Delivered m s ((start t c).submitAll d cells) i (steps.map .step) d
        (.queued cell (c.last + 1 + i)) x ∧
      (Carried m s ((start t c).submitAll d cells) i (steps.map .step) ↔
        ∃ out, x.outcome = .ok out) := by
  rw [finished?_eq_returned?] at h
  obtain ⟨hlength, hall⟩ := delivered_of_returned? h (Nat.le_refl _)
  have hasked := congrArg List.length (asked_run (m := m) ((start t c).submitAll d cells) s steps)
  have hsubmit := pipelines_submitAll (m := m) (start t c) d cells
  refine ⟨?_, fun i cell x hi hx => ?_⟩
  · rw [asked, asked, List.length_map, List.length_map, hsubmit] at hasked
    rw [hlength, hasked, Counter.triggerAll_eq]
    simp [start]
  · have hp := pipeline_of_submitAll (k := (start t c : Kernel m.Job)) (d := d) hi
    have hx := hall i x hx
    simp only [start, List.length_nil, Nat.zero_add] at hp hx
    rw [← perform_steps] at hx
    exact ⟨delivered_of_queued hp rfl hx, carried_iff hp rfl hx⟩

end Kernel

end Notebook.Execution
