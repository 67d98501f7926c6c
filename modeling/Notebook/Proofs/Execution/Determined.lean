import Notebook.Proofs.Execution.Cleanup
import Notebook.Proofs.Execution.Isolation
import Notebook.Proofs.Files.Shape

/-!
Toolchains whose outcome is told by the manifest and the program. What comes of cells is then the
same whenever they are run, and in whatever order their pipelines go on.
-/

namespace Notebook.Execution

open Files (Place Tree Path)
open Program (Manifest Prepared Toolchain)

/-- How far a process may have come that was started in a directory with this manifest and this
program in it and nothing else. Whatever stands elsewhere may have changed meanwhile. -/
inductive Machine.Builds (m : Machine) (tc : Toolchain) (here d : Place) (mf : Manifest)
    (program : List Char) : m.Job → Tree → Prop where
  | start {t : Tree} {p : Path} {j : m.Job} (hd : t.lookup here p = .ok (d, .directory))
      (hcontents : ∀ r, t.get? (d ++ r) = Workspace.contents mf program r)
      (h : m.start tc t here p = .ok j) : m.Builds tc here d mf program j t
  | step {t u : Tree} {j j' : m.Job} (hj : m.Builds tc here d mf program j t)
      (h : m.step j t = (u, .inl j')) : m.Builds tc here d mf program j' u
  | elsewhere {t u : Tree} {j : m.Job} (hj : m.Builds tc here d mf program j t)
      (hu : ∀ r, u.get? (d ++ r) = t.get? (d ++ r)) : m.Builds tc here d mf program j u

/-- What comes of a toolchain in a new workspace is a function of the manifest and the program. -/
structure Machine.Determined (m : Machine) (tc : Toolchain)
    (result : Manifest → List Char → Outcome) : Prop where
  start : ∀ (t : Tree) (here d : Place) (p : Path) (mf : Manifest) (program : List Char)
    (f : Files.Fault), t.lookup here p = .ok (d, .directory) →
      (∀ r, t.get? (d ++ r) = Workspace.contents mf program r) → m.start tc t here p = .error f →
        result mf program = .error (.spawn tc.program f)
  finish : ∀ (here d : Place) (mf : Manifest) (program : List Char) (j : m.Job) (t u : Tree)
    (c : Completion), m.Builds tc here d mf program j t → m.step j t = (u, .inr c) →
      result mf program = outcome tc c

namespace Machine

/-- What processes come to that print the program. -/
def printed (program : List Char) : Outcome :=
  .ok ⟨Text.Utf8.decodeLossy (Text.Utf8.encode program), [], some 0⟩

theorem builds_printer {tc : Toolchain} {here d : Place} {mf : Manifest} {program : List Char}
    {j : printer.Job} {t : Tree} (h : printer.Builds tc here d mf program j t) :
    j = d ∧ ∀ r, t.get? (d ++ r) = Workspace.contents mf program r := by
  induction h with
  | start hd hcontents h => exact ⟨works_printer (.start hd h), hcontents⟩
  | step _ h => cases (Prod.mk.inj h).2
  | elsewhere _ hu ih => exact ⟨ih.1, fun r => (hu r).trans (ih.2 r)⟩

theorem determined_printer (tc : Toolchain) :
    printer.Determined tc fun _ program => printed program where
  start := by
    intro t here d p mf program f hd _ h
    simp only [printer, hd] at h
    cases h
  finish := by
    intro here d mf program j t u c hj h
    obtain ⟨hjob, hcontents⟩ := builds_printer hj
    have hprogram : t.get? (d ++ ["src".toList, "main.rs".toList]) =
        some (.file (Text.Utf8.encode program) false) := hcontents _
    subst hjob
    obtain ⟨-, hc⟩ := Prod.mk.inj h
    obtain rfl := Sum.inr.inj hc
    have hnil : Text.Utf8.decodeLossy [] = [] := by rw [Text.Utf8.decodeLossy]
    simp only [hprogram, outcome, printed, hnil]
    rfl

end Machine

/-- What comes of a cell, if there is room for its workspace. -/
def Settings.foreseen (s : Settings) (result : Manifest → List Char → Outcome) (d : Document)
    (i : Nat) : Outcome :=
  match Program.prepare s.shape s.manifest d i with
  | .error f => .error f
  | .ok q =>
    match (Workspace.ofKey s.scratch q.key).refusal? with
    | some f => .error f
    | none => result s.manifest q.program

namespace Kernel

variable {m : Machine} {s : Settings} {result : Manifest → List Char → Outcome}
  {t₀ t₁ t u : Tree} {R : Place} {k k₁ : Kernel m.Job} {i : Nat} {p p' : Pipeline m.Job}

/-- A pipeline that has a process has it in its own workspace, and one that has an outcome has the
one that was foreseen. -/
def Heeds (m : Machine) (s : Settings) (result : Manifest → List Char → Outcome) (R : Place)
    (t : Tree) (p : Pipeline m.Job) : Prop :=
  match p.phase with
  | .ready w => w.refusal? = none
  | .running w j => ∃ q, p.request? s = .ok q ∧ w = .ofKey s.scratch q.key ∧ w.refusal? = none ∧
      m.Builds s.toolchain s.here (w.place R) s.manifest q.program j t
  | .releasing _ o | .removing _ o | .unlocking o | .closing o | .finished o =>
    o = s.foreseen result p.document p.record.cellIndex
  | _ => True

theorem Heeds.congr (h : Heeds m s result R t p)
    (hu : ∀ w, p.phase.workspace? = some w → ∀ q, w.place R <+: q → u.get? q = t.get? q) :
    Heeds m s result R u p := by
  unfold Heeds at h ⊢
  cases hf : p.phase with
  | running w j =>
    rw [hf] at h hu
    obtain ⟨q, hq, hw, hrefusal, hbuilds⟩ := h
    exact ⟨q, hq, hw, hrefusal,
      hbuilds.elsewhere fun r => hu w rfl _ (List.prefix_append _ _)⟩
  | ready _ | queued | started | waiting _ | holding _ | releasing _ _ | removing _ _
  | unlocking _ | closing _ | finished _ | cancelled =>
    rw [hf] at h
    exact h

theorem foreseen_of_error {f : Failure} (h : p.request? s = .error f) :
    s.foreseen result p.document p.record.cellIndex = .error f := by
  rw [Pipeline.request?] at h
  rw [Settings.foreseen, h]

theorem foreseen_of_refused {q : Prepared} {f : Failure} (h : p.request? s = .ok q)
    (hr : (Workspace.ofKey s.scratch q.key).refusal? = some f) :
    s.foreseen result p.document p.record.cellIndex = .error f := by
  rw [Pipeline.request?] at h
  simp only [Settings.foreseen, h, hr]

theorem foreseen_of_granted {q : Prepared} (h : p.request? s = .ok q)
    (hr : (Workspace.ofKey s.scratch q.key).refusal? = none) :
    s.foreseen result p.document p.record.cellIndex = result s.manifest q.program := by
  rw [Pipeline.request?] at h
  simp only [Settings.foreseen, h, hr]

section

variable (htidy : k.Tidy m s t₀ t₁ R) (hs : s.Scratch t₀ t₁ R) (hp : k.pipelines[i]? = some p)

include htidy hs hp

/-- Whether a workspace can be had is told by its paths. -/
theorem acquired_iff {q : Prepared} (hf : p.phase = .holding q) {r : Except Failure Workspace}
    (h : (Workspace.acquire k.tree s.here s.scratch q.key s.manifest q.program).2 = r) :
    p.request? s = .ok q ∧ r = match (Workspace.ofKey s.scratch q.key).refusal? with
      | some f => .error f
      | none => .ok (.ofKey s.scratch q.key) := by
  obtain ⟨u, hroom, -⟩ := htidy.room hs hp hf
  refine ⟨htidy.stands_of hp hf, h ▸ ?_⟩
  cases hr : (Workspace.ofKey s.scratch q.key).refusal? with
  | some f =>
    obtain ⟨t', ht', -⟩ : ∃ t', Workspace.acquire k.tree s.here s.scratch q.key s.manifest
        q.program = (t', .error f) ∧ _ := hroom.acquire_refused hr
    rw [ht']
  | none => rw [hroom.acquire_granted hr]

/-- A pipeline that goes on comes to what was foreseen. -/
theorem Heeds.turn (hm : m.Determined s.toolchain result) {now : Moment}
    (htimely : Timely p.record p.phase) (h : Heeds m s result R k.tree p)
    (ht : Turn m s now k i p k₁ p') : Heeds m s result R k₁.tree p' := by
  have hlookup {w : Workspace} (hw : p.phase.workspace? = some w) :
      k.tree.lookup s.here w.root = .ok (w.place R, .directory) := by
    have hocc := occupant_of_workspace? (phase_of_pipeline hp) hw
    exact (htidy.shared hocc).2.lookup hs hocc (htidy.sited i w hocc)
  cases ht with
  | reject hf hstart =>
    rw [hf] at htimely
    rw [Record.start_of_queued htimely] at hstart
    cases hstart
  | begin_ _ _ | ask _ _ | hold _ _ => trivial
  | decline hf hq => exact (foreseen_of_error hq).symm
  | wait _ _ | await _ _ | rest _ => exact h
  | @refuse q t f hf hacquire =>
    obtain ⟨hq, hr⟩ := acquired_iff htidy hs hp hf (congrArg Prod.snd hacquire)
    split at hr
    · rename_i f' hrefusal
      cases hr
      exact (foreseen_of_refused hq hrefusal).symm
    · cases hr
  | @acquire q t w hf hacquire =>
    obtain ⟨-, hr⟩ := acquired_iff htidy hs hp hf (congrArg Prod.snd hacquire)
    split at hr
    · cases hr
    · rename_i hrefusal
      cases hr
      exact hrefusal
  | @stall w f hf hstart =>
    obtain ⟨q, hq, rfl, hcontents⟩ : Stands m s R k.tree { p with phase := .ready w } :=
      htidy.stands_of hp hf
    have hrefusal : (Workspace.ofKey s.scratch q.key).refusal? = none := by
      rw [Heeds, hf] at h
      exact h
    have hresult := hm.start k.tree s.here _ _ _ _ f (hlookup (by rw [hf]; rfl)) hcontents hstart
    exact ((foreseen_of_granted hq hrefusal).trans hresult).symm
  | @launch w j hf hstart =>
    obtain ⟨q, hq, rfl, hcontents⟩ : Stands m s R k.tree { p with phase := .ready w } :=
      htidy.stands_of hp hf
    rw [Heeds, hf] at h
    exact ⟨q, hq, rfl, h, .start (hlookup (by rw [hf]; rfl)) hcontents hstart⟩
  | work hf hstep =>
    rw [Heeds, hf] at h
    obtain ⟨q, hq, hw, hrefusal, hbuilds⟩ := h
    exact ⟨q, hq, hw, hrefusal, hbuilds.step hstep⟩
  | exit hf hstep =>
    rw [Heeds, hf] at h
    obtain ⟨q, hq, rfl, hrefusal, hbuilds⟩ := h
    have hresult := hm.finish _ _ _ _ _ _ _ _ hbuilds hstep
    exact ((foreseen_of_granted hq hrefusal).trans hresult).symm
  | release hf | clear hf _ | unlock hf =>
    rw [Heeds, hf] at h
    exact h
  | close hf hend =>
    rw [Heeds, hf] at h
    rw [Heeds, Record.conclude_cellIndex hend]
    exact h
  | misclose hf hend =>
    rw [hf] at htimely
    obtain ⟨r', hr', -⟩ := htimely.conclude now _
    rw [hr'] at hend
    cases hend

end

/-! ### Runs -/

/-- All goes as it was foreseen. -/
structure Steady (m : Machine) (s : Settings) (result : Manifest → List Char → Outcome)
    (t₀ t₁ : Tree) (R : Place) (k : Kernel m.Job) : Prop where
  kept : k.Kept m s t₀ t₁ R
  timely : ∀ (i : Nat) (p : Pipeline m.Job), k.pipelines[i]? = some p → Timely p.record p.phase
  heeds : ∀ (i : Nat) (p : Pipeline m.Job), k.pipelines[i]? = some p →
    Heeds m s result R k.tree p

theorem Steady.step (h : k.Steady m s result t₀ t₁ R) (hm : m.Confined)
    (hm' : m.Determined s.toolchain result) (hs : s.Scratch t₀ t₁ R) {a : Step}
    (ha : (Task.step a).Patient) : (k.step m s a).Steady m s result t₀ t₁ R := by
  have hkept := h.kept.step hm (.inl hs) ha
  have horderly : (Action.step a).Orderly s t₁ R := by
    cases a with
    | advance i now => trivial
    | cancel i => exact ha.elim
    | remove j => trivial
  have hboth : ∀ (i : Nat) (p' : Pipeline m.Job), (k.step m s a).pipelines[i]? = some p' →
      Timely p'.record p'.phase ∧ Heeds m s result R (k.step m s a).tree p' := by
    intro i p' hp'
    have hi : i < k.pipelines.length := by
      by_contra hi
      obtain ⟨d, r, ha', -⟩ := pipeline_new (a := .step a) (s := s) (Nat.not_lt.1 hi) hp'
      cases ha'
    have hp := List.getElem?_eq_getElem hi
    have htimely := h.timely i _ hp
    have hheeds := h.heeds i _ hp
    rcases act_cases s hp (.step a) with ⟨now, k₁, p'', ha', ht, hadvance, hp''⟩ | ⟨hown, hp''⟩
    · obtain rfl : p'' = p' := Option.some.inj (hp''.symm.trans hp')
      cases ha'
      have htree : (k.step m s (.advance i now)).tree = k₁.tree := by
        show (k.advance m s now i).tree = _
        rw [hadvance]
        rfl
      rw [htree]
      exact ⟨htimely.turn ht, hheeds.turn h.kept.tidy hs hp hm' htimely ht⟩
    · rcases hp'' with hsame | hcancelled
      · obtain rfl := Option.some.inj (hsame.symm.trans hp')
        exact ⟨htimely, hheeds.congr fun w hw q hq =>
          spares_act hm hs h.kept.tidy horderly (phase_of_pipeline hp) hw hown hq⟩
      · obtain rfl := Option.some.inj (hcancelled.symm.trans hp')
        exact ⟨trivial, trivial⟩
  exact ⟨hkept, fun i p' hp' => (hboth i p' hp').1, fun i p' hp' => (hboth i p' hp').2⟩

/-- The cells that were asked for. -/
def asked {P : Type} (k : Kernel P) : List (Document × Nat) :=
  k.pipelines.map fun p => (p.document, p.record.cellIndex)

theorem asked_step (k : Kernel m.Job) (s : Settings) (a : Step) :
    (k.step m s a).asked = k.asked := by
  have hset {p p' : Pipeline m.Job} {i : Nat} (hp : k.pipelines[i]? = some p)
      (hd : p'.document = p.document) (hc : p'.record.cellIndex = p.record.cellIndex) :
      (k.pipelines.set i p').map (fun p => (p.document, p.record.cellIndex)) = k.asked := by
    obtain ⟨hlt, rfl⟩ := List.getElem?_eq_some_iff.1 hp
    have hlt' : i < k.asked.length := by simpa [asked] using hlt
    have hself := List.set_getElem_self hlt'
    simp only [asked, List.getElem_map] at hself
    rw [List.map_set, hd, hc, asked, hself]
  cases a with
  | advance i now =>
    show (k.advance m s now i).asked = _
    rcases advance_pipelines k s now i with h | ⟨p, p', hp, hd, hc, h⟩
    · rw [asked, h, asked]
    · rw [asked, h, hset hp hd hc]
  | cancel i =>
    show (k.cancel s.here i).asked = _
    rcases cancel_pipelines k s.here i with h | ⟨p, hp, h⟩
    · rw [asked, h, asked]
    · rw [asked, h]
      exact hset hp rfl rfl
  | remove j =>
    show (k.remove s.here j).asked = _
    rw [asked, remove_pipelines, asked]

/-! ### Runs in which all requests end -/

theorem cancel_eq_or (k : Kernel m.Job) (here : Place) (i : Nat) :
    k.cancel here i = k ∨ (k.cancel here i).phase? i = some .cancelled := by
  rw [cancel]
  cases hp : k.pipelines[i]? with
  | none => exact .inl rfl
  | some p =>
    cases hf : p.phase with
    | queued | waiting q | removing j o | running w process =>
      simp only [hf]
      refine .inr ?_
      have hset (k' : Kernel m.Job)
          (h : k'.pipelines = k.pipelines.set i { p with phase := .cancelled }) :
          k'.phase? i = some .cancelled := phase?_set_self hp h
      exact hset _ rfl
    | started | holding q | ready w | releasing w o | unlocking o | closing o | finished o
    | cancelled =>
      simp only [hf]
      exact .inl trivial

/-- A request that ends has not been given up. -/
theorem exists_patient (k : Kernel m.Job) (s : Settings) (steps : List Step)
    (h : (k.run m s steps).Quiescent) :
    ∃ steps', (∀ a ∈ steps', (Task.step a).Patient) ∧ k.run m s steps' = k.run m s steps := by
  induction steps generalizing k with
  | nil => exact ⟨[], by simp, rfl⟩
  | cons a steps ih =>
    obtain ⟨steps', hpatient, heq⟩ := ih (k.step m s a) h
    have hkept (ha : (Task.step a).Patient) :
        ∃ steps', (∀ a ∈ steps', (Task.step a).Patient) ∧
          k.run m s steps' = k.run m s (a :: steps) := by
      refine ⟨a :: steps', ?_, heq⟩
      intro b hb
      rcases List.mem_cons.1 hb with rfl | hb
      · exact ha
      · exact hpatient b hb
    cases a with
    | advance i now => exact hkept trivial
    | remove j => exact hkept trivial
    | cancel i =>
      rcases cancel_eq_or k s.here i with hsame | hcancelled
      · refine ⟨steps', hpatient, ?_⟩
        have hstep : k.step m s (.cancel i) = k := hsame
        rw [hstep] at heq
        exact heq.trans (by rw [run, run, List.foldl_cons, hstep])
      · have hlast : (k.run m s (.cancel i :: steps)).phase? i = some .cancelled := by
          have hall := phase?_perform_of_cancelled (m := m) (s := s) hcancelled
            (steps.map Action.step)
          rw [perform, List.foldl_map] at hall
          exact hall
        obtain ⟨p, hp, hf⟩ := pipeline_of_phase hlast
        have hfinished := h p (List.mem_of_getElem? hp)
        rw [Pipeline.finished?, hf] at hfinished
        cases hfinished

theorem Steady.run (h : k.Steady m s result t₀ t₁ R) (hm : m.Confined)
    (hm' : m.Determined s.toolchain result) (hs : s.Scratch t₀ t₁ R) {steps : List Step}
    (hpatient : ∀ a ∈ steps, (Task.step a).Patient) :
    (k.run m s steps).Steady m s result t₀ t₁ R := by
  induction steps generalizing k with
  | nil => exact h
  | cons a steps ih =>
    exact ih (h.step hm hm' hs (hpatient a List.mem_cons_self))
      fun b hb => hpatient b (List.mem_cons_of_mem a hb)

theorem asked_run (k : Kernel m.Job) (s : Settings) (steps : List Step) :
    (k.run m s steps).asked = k.asked := by
  induction steps generalizing k with
  | nil => rfl
  | cons a steps ih => exact (ih (k.step m s a)).trans (asked_step k s a)

theorem asked_submitAll (k : Kernel m.Job) (d : Document) (cells : List Nat) :
    (k.submitAll d cells).asked = k.asked ++ cells.map fun cell => (d, cell) := by
  induction cells generalizing k with
  | nil => exact (List.append_nil _).symm
  | cons cell cells ih =>
    rw [submitAll_cons, ih]
    simp [asked, submit, Record.queued]

theorem steady_submitAll (result : Manifest → List Char → Outcome) (hkept : k.Kept m s t₀ t₁ R)
    (hqueued : ∀ p ∈ k.pipelines, p.phase = .queued ∧ p.record.state = .queued)
    {d : Document} {cells : List Nat}
    (hfree : ∀ i ∈ cells, ∀ q, Program.prepare s.shape s.manifest d i = .ok q → Free t₁ R q.key) :
    (k.submitAll d cells).Steady m s result t₀ t₁ R := by
  induction cells generalizing k with
  | nil =>
    refine ⟨hkept, fun i p hp => ?_, fun i p hp => ?_⟩
    · obtain ⟨hf, hr⟩ := hqueued p (List.mem_of_getElem? hp)
      rw [hf]
      exact hr
    · rw [Heeds, (hqueued p (List.mem_of_getElem? hp)).1]
      trivial
  | cons i cells ih =>
    rw [submitAll_cons]
    have hfirst : ∀ j ∈ [i], ∀ q, Program.prepare s.shape s.manifest d j = .ok q →
        Free t₁ R q.key := by simpa using hfree i List.mem_cons_self
    have hsubmit : ({ k.submit d (.queued i k.counter.next.1) with
        counter := k.counter.next.2 } : Kernel m.Job).Kept m s t₀ t₁ R := hkept.submitAll hfirst
    refine ih hsubmit ?_ fun j hj => hfree j (List.mem_cons_of_mem i hj)
    intro p hp
    rcases List.mem_append.1 hp with hp | hp
    · exact hqueued p hp
    · obtain rfl := List.mem_singleton.1 hp
      exact ⟨rfl, rfl⟩

theorem forall₂_of_mapM {α β : Type} {f : α → Option β} {xs : List α} {ys : List β}
    (h : xs.mapM f = some ys) : List.Forall₂ (fun x y => f x = some y) xs ys := by
  induction xs generalizing ys with
  | nil =>
    obtain rfl : ys = [] := by simpa using h
    exact .nil
  | cons x xs ih =>
    rw [List.mapM_cons] at h
    obtain ⟨y, hy, h⟩ := Option.bind_eq_some_iff.1 h
    obtain ⟨ys, hys, h⟩ := Option.bind_eq_some_iff.1 h
    cases h
    exact .cons hy (ih hys)

theorem mapM_of_forall₂ {α β : Type} {f : α → Option β} {xs : List α} {ys : List β}
    (h : List.Forall₂ (fun x y => f x = some y) xs ys) : xs.mapM f = some ys := by
  induction h with
  | nil => rfl
  | cons hx _ ih =>
    rw [List.mapM_cons, hx, ih]
    rfl

theorem quiescent_of_finished {xs : List Finished} (h : k.finished? 0 = some xs) :
    k.Quiescent ∧ List.Forall₂ (fun p x => p.finished? = some x) k.pipelines xs := by
  rw [finished?, List.drop_zero] at h
  have hall := forall₂_of_mapM h
  refine ⟨fun p hp => ?_, hall⟩
  obtain ⟨i, hi, rfl⟩ := List.mem_iff_getElem.1 hp
  have hfinished := hall.get hi (hall.length_eq ▸ hi)
  rw [List.get_eq_getElem] at hfinished
  rw [hfinished]
  rfl

/-- Whatever the schedule, once all cells have been run they have come to what was foreseen, and no
more than the way to the scratch directory is left of them. -/
theorem foreseen_of_run (hm : m.Confined) (hm' : m.Determined s.toolchain result)
    (hs : s.Scratch t₀ t₁ R) {c : Counter} {d : Document} {cells : List Nat}
    (hfree : ∀ i ∈ cells, ∀ q, Program.prepare s.shape s.manifest d i = .ok q → Free t₁ R q.key)
    {steps : List Step} {xs : List Finished}
    (h : (((start t₀ c).submitAll d cells).run m s steps).finished? 0 = some xs) :
    xs.map (fun x => (x.record.cellIndex, x.outcome)) =
        cells.map (fun i => (i, s.foreseen result d i)) ∧
      ((((start t₀ c).submitAll d cells).run m s steps).tree = t₀ ∨
        ∀ q, (((start t₀ c).submitAll d cells).run m s steps).tree.get? q = t₁.get? q) := by
  obtain ⟨hquiescent, hall⟩ := quiescent_of_finished h
  obtain ⟨steps', hpatient, heq⟩ := exists_patient _ s steps hquiescent
  have hstart : (start t₀ c : Kernel m.Job).Kept m s t₀ t₁ R :=
    ⟨tidy_start m s t₀ t₁ R c, [], Locks.lined_empty⟩
  have hsubmit := steady_submitAll result hstart (by rintro p ⟨⟩) hfree
  have hsteady := hsubmit.run hm hm' hs hpatient
  have hasked := asked_run (m := m) ((start t₀ c).submitAll d cells) s steps'
  rw [heq] at hsteady hasked
  refine ⟨?_, (hsteady.kept.quiescent hquiescent).2⟩
  have houtcome : ∀ p x, p ∈ (((start t₀ c).submitAll d cells).run m s steps).pipelines →
      p.finished? = some x → (x.record.cellIndex, x.outcome) =
        (p.record.cellIndex, s.foreseen result p.document p.record.cellIndex) := by
    intro p x hp hx
    obtain ⟨i, hi⟩ := List.mem_iff_getElem?.1 hp
    have hheeds := hsteady.heeds i p hi
    rw [Pipeline.finished?] at hx
    split at hx
    · rename_i o hf
      cases hx
      rw [Heeds, hf] at hheeds
      exact congrArg _ hheeds
    · cases hx
  have hxs : xs.map (fun x => (x.record.cellIndex, x.outcome)) =
      (((start t₀ c).submitAll d cells).run m s steps).asked.map
        fun a => (a.2, s.foreseen result a.1 a.2) := by
    rw [asked, List.map_map]
    clear h
    generalize (((start t₀ c).submitAll d cells).run m s steps).pipelines = ps at hall houtcome
    induction hall with
    | nil => rfl
    | cons hx _ ih =>
      rw [List.map_cons, List.map_cons, houtcome _ _ List.mem_cons_self hx,
        ih fun p x hp => houtcome p x (List.mem_cons_of_mem _ hp)]
      rfl
  rw [hxs, hasked, asked_submitAll, List.map_append, List.map_map]
  rfl

end Kernel

/-- A scratch directory that could be made can be made again, though files have changed. -/
theorem Settings.Scratch.again {s : Settings} {t₀ t₁ t : Tree} {R : Place}
    (hs : s.Scratch t₀ t₁ R) (h : t₀.SameShape t ∨ t₁.SameShape t) :
    ∃ u, s.Scratch t u R ∧ t₁.SameShape u := by
  rcases h with h | h
  · obtain ⟨hshape, hsame⟩ := h.makePath s.here s.scratch
    rw [hs.made] at hshape hsame
    refine ⟨_, ⟨Prod.ext rfl hsame.symm, ?_, ?_⟩, hshape⟩
    · rw [← hshape.walk]
      exact hs.walk
    · exact (hshape.directory R).1 hs.root
  · have hwalk : t.walk (s.scratch.origin s.here) s.scratch.steps = .ok R := by
      rw [← h.walk]
      exact hs.walk
    have hroot := (h.directory R).1 hs.root
    refine ⟨t, ⟨?_, hwalk, hroot⟩, h⟩
    by_cases hempty : s.scratch.text = []
    · rw [Tree.makePath, hempty]
      rfl
    · have hfault := hs.made
      rw [Tree.makePath_eq hempty (Tree.makeDirectories_of_makePath hs.made)] at hfault
      rw [Tree.makePath_eq hempty (Tree.makeDirectories_of_walk hwalk hroot)]
      cases hf : s.scratch.fault? with
      | none => rfl
      | some f =>
        rw [hf] at hfault
        cases hfault

end Notebook.Execution
