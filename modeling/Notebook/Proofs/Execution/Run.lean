import Notebook.Execution.Kernel
import Notebook.Proofs.Execution.Locks
import Mathlib.Data.List.Induction

/-!
Runs of a kernel: requests come in and steps are taken, in any order. Along a run, how far each
pipeline has come tells what it has of the lock of its key.
-/

namespace Notebook.Execution

open Files (Path Place Tree)
open Program (Key Prepared)

namespace Record

variable {r r' : Record}

theorem moveTo_ok {st : State} (h : r.moveTo st = .ok r') :
    r.state.leadsTo st = true ∧ r' = { r with state := st } := by
  rw [moveTo] at h
  split at h
  · rename_i hl
    cases h
    exact ⟨hl, rfl⟩
  · cases h

theorem cellIndex_of_moveTo {st : State} {f : Record → Record}
    (hf : ∀ r, (f r).cellIndex = r.cellIndex) (h : (r.moveTo st).map f = .ok r') :
    r'.cellIndex = r.cellIndex := by
  cases hm : r.moveTo st with
  | error e =>
    rw [hm] at h
    cases h
  | ok r₁ =>
    rw [hm] at h
    cases h
    obtain ⟨-, rfl⟩ := moveTo_ok hm
    exact hf _

theorem start_cellIndex {now : Moment} (h : r.start now = .ok r') : r'.cellIndex = r.cellIndex :=
  cellIndex_of_moveTo (f := fun r => { r with startedAt := some now }) (fun _ => rfl) h

theorem complete_cellIndex {now : Moment} (h : r.complete now = .ok r') :
    r'.cellIndex = r.cellIndex :=
  cellIndex_of_moveTo (f := fun r => { r with endedAt := some now }) (fun _ => rfl) h

theorem fail_cellIndex {now : Moment} (h : r.fail now = .ok r') : r'.cellIndex = r.cellIndex :=
  cellIndex_of_moveTo (f := fun r => { r with endedAt := some now }) (fun _ => rfl) h

end Record

/-- What can happen to a kernel. -/
inductive Action where
  | submit (document : Document) (record : Record)
  | step (step : Step)

/-- The workspace of a pipeline, from when it has got it until it starts to release it. -/
def Phase.workspace? {P : Type} : Phase P → Option Workspace
  | .ready w | .running w _ | .releasing w _ => some w
  | _ => none

/-- A request that has got the lock of a key. -/
def Locks.Holds (l : Locks) (i : Nat) (k : Key) : Prop :=
  ∃ u, l.user? i = some u ∧ u.isHolder = true ∧ u.key = k

theorem Locks.Sound.holds_unique {l : Locks} (h : l.Sound) {i j : Nat} {k : Key}
    (hi : l.Holds i k) (hj : l.Holds j k) : i = j := by
  obtain ⟨u, hu, hholder, hk⟩ := hi
  obtain ⟨v, hv, hholder', hk'⟩ := hj
  exact h.exclusive hu hv hholder hholder' (hk.trans hk'.symm)

/-- What a pipeline has of the lock of its key. -/
def Phase.Keeps {P : Type} (l : Locks) (rs : List Removal) (i : Nat) : Phase P → Prop
  | .queued | .started | .closing _ | .finished _ | .cancelled => l.user? i = none
  | .waiting q => ∃ u, l.user? i = some u ∧ u.key = q.key
  | .holding q => l.Holds i q.key
  | .ready w | .running w _ | .releasing w _ => l.Holds i w.key
  | .removing j _ => ∃ r, rs[j]? = some r ∧ l.Holds i r.workspace.key
  | .unlocking _ => ∃ k, l.Holds i k

theorem Phase.Keeps.holds {P : Type} {l : Locks} {rs : List Removal} {i : Nat} {f : Phase P}
    (h : f.Keeps l rs i) {w : Workspace} (hw : f.workspace? = some w) : l.Holds i w.key := by
  cases f with
  | ready _ | running _ _ | releasing _ _ =>
    cases hw
    exact h
  | queued | started | waiting _ | holding _ | removing _ _ | unlocking _ | closing _
  | finished _ | cancelled => cases hw

theorem Phase.Keeps.congr {P : Type} {l l' : Locks} {rs rs' : List Removal} {i : Nat} {f : Phase P}
    (h : f.Keeps l rs i) (hl : l'.user? i = l.user? i)
    (hrs : ∀ (j : Nat) (r : Removal), rs[j]? = some r →
      ∃ r', rs'[j]? = some r' ∧ r'.workspace = r.workspace) :
    f.Keeps l' rs' i := by
  cases f with
  | queued | started | closing _ | finished _ | cancelled => exact hl.trans h
  | waiting _ | holding _ | ready _ | running _ _ | releasing _ _ | unlocking _ =>
    simp only [Keeps, Locks.Holds, hl] at h ⊢
    exact h
  | removing j o =>
    obtain ⟨r, hr, hh⟩ := h
    obtain ⟨r', hr', hw⟩ := hrs j r hr
    refine ⟨r', hr', ?_⟩
    rw [hw]
    simpa only [Locks.Holds, hl] using hh

namespace Kernel

variable {P : Type}

/-- How far a pipeline has come. -/
def phase? (k : Kernel P) (i : Nat) : Option (Phase P) := k.pipelines[i]?.map (·.phase)

/-- The pipeline has a workspace of the key that it has not started to release. -/
def Uses (k : Kernel P) (i : Nat) (key : Key) : Prop :=
  ∃ f w, k.phase? i = some f ∧ f.workspace? = some w ∧ w.key = key

def act (m : Machine) (s : Settings) (k : Kernel m.Job) : Action → Kernel m.Job
  | .submit d r => k.submit d r
  | .step a => k.step m s a

def perform (m : Machine) (s : Settings) (k : Kernel m.Job) (as : List Action) : Kernel m.Job :=
  as.foldl (act m s) k

theorem perform_concat (m : Machine) (s : Settings) (k : Kernel m.Job) (as : List Action)
    (a : Action) : k.perform m s (as ++ [a]) = (k.perform m s as).act m s a := by
  rw [perform, List.foldl_append]
  rfl

/-- Every pipeline has what it should have of the lock of its key. -/
structure Guarded (k : Kernel P) : Prop where
  sound : k.locks.Sound
  known : ∀ i, k.pipelines.length ≤ i → k.locks.user? i = none
  keeps : ∀ i f, k.phase? i = some f → f.Keeps k.locks k.removals i

theorem guarded_start (t : Tree) (c : Counter) : (start t c : Kernel P).Guarded where
  sound := Locks.sound_empty
  known := by
    intro i _
    rfl
  keeps := by
    intro i f hf
    cases hf

/-- Two pipelines do not use the same key. -/
theorem Guarded.uses_unique {k : Kernel P} (h : k.Guarded) {i j : Nat} {key : Key}
    (hi : k.Uses i key) (hj : k.Uses j key) : i = j := by
  obtain ⟨f, w, hf, hw, hkey⟩ := hi
  obtain ⟨g, v, hg, hv, hkey'⟩ := hj
  have hholds := (h.keeps i f hf).holds hw
  have hholds' := (h.keeps j g hg).holds hv
  rw [hkey] at hholds
  rw [hkey'] at hholds'
  exact h.sound.holds_unique hholds hholds'

/-! ### One pipeline goes on -/

section

variable {k k' : Kernel P} {i : Nat} {p p' : Pipeline P}

theorem phase?_set_self (hp : k.pipelines[i]? = some p)
    (hset : k'.pipelines = k.pipelines.set i p') : k'.phase? i = some p'.phase := by
  have hlt := (List.getElem?_eq_some_iff.1 hp).1
  rw [phase?, hset, List.getElem?_set_self hlt]
  rfl

theorem phase?_set_ne (hset : k'.pipelines = k.pipelines.set i p') {j : Nat} (hj : j ≠ i) :
    k'.phase? j = k.phase? j := by
  rw [phase?, hset, List.getElem?_set_ne (Ne.symm hj), phase?]

/-- A pipeline may go on as long as it has what it should have afterwards and the others keep what
they have. -/
theorem Guarded.set (h : k.Guarded) (hp : k.pipelines[i]? = some p)
    (hset : k'.pipelines = k.pipelines.set i p') (hsound : k'.locks.Sound)
    (hothers : ∀ j, j ≠ i → k'.locks.user? j = k.locks.user? j)
    (hrs : ∀ (j : Nat) (r : Removal), k.removals[j]? = some r →
      ∃ r', k'.removals[j]? = some r' ∧ r'.workspace = r.workspace)
    (hkeeps : p'.phase.Keeps k'.locks k'.removals i) : k'.Guarded := by
  have hlt := (List.getElem?_eq_some_iff.1 hp).1
  refine ⟨hsound, fun j hj => ?_, fun j f hf => ?_⟩
  · rw [hset, List.length_set] at hj
    rw [hothers j (by omega)]
    exact h.known j hj
  · by_cases hj : j = i
    · subst hj
      rw [phase?_set_self hp hset] at hf
      cases hf
      exact hkeeps
    · rw [phase?_set_ne hset hj] at hf
      exact (h.keeps j f hf).congr (hothers j hj) hrs

/-- A pipeline goes on without touching locks and removals. -/
theorem Guarded.go (h : k.Guarded) (hp : k.pipelines[i]? = some p)
    (hset : k'.pipelines = k.pipelines.set i p') (hl : k'.locks = k.locks)
    (hrs : k'.removals = k.removals) (hkeeps : p'.phase.Keeps k.locks k.removals i) :
    k'.Guarded := by
  refine h.set hp hset (hl ▸ h.sound) (fun j _ => by rw [hl]) (fun j r hr => ?_) ?_
  · exact ⟨r, hrs ▸ hr, rfl⟩
  · rw [hl, hrs]
    exact hkeeps

end

section

variable {k : Kernel P} {i : Nat} {p : Pipeline P}

theorem Guarded.keeps_of (h : k.Guarded) (hp : k.pipelines[i]? = some p) {f : Phase P}
    (hf : p.phase = f) : f.Keeps k.locks k.removals i :=
  h.keeps i f (by rw [phase?, hp, Option.map_some, hf])

/-- The pipeline lets go of its lock. -/
theorem Guarded.drop (h : k.Guarded) (hp : k.pipelines[i]? = some p) {k' : Kernel P}
    {p' : Pipeline P} (hset : k'.pipelines = k.pipelines.set i p')
    (hl : k'.locks = k.locks.drop i) (hrs : k'.removals = k.removals)
    (hkeeps : k'.locks.user? i = none → p'.phase.Keeps k'.locks k'.removals i) : k'.Guarded := by
  refine h.set hp hset (hl ▸ Locks.sound_drop h.sound i) (fun j hj => ?_)
    (fun j r hr => ⟨r, hrs ▸ hr, rfl⟩) (hkeeps ?_)
  · rw [hl]
    exact Locks.user?_drop_ne hj
  · rw [hl]
    exact Locks.user?_drop_self k.locks i

/-! ### Steps -/

theorem guarded_begin (h : k.Guarded) (hp : k.pipelines[i]? = some p) (hf : p.phase = .queued)
    (now : Moment) : (k.begin_ now i p).Guarded := by
  have hnone : k.locks.user? i = none := h.keeps_of hp hf
  rw [begin_]
  split
  · exact h.go hp rfl rfl rfl hnone
  · exact h.go hp rfl rfl rfl hnone

theorem guarded_ask (h : k.Guarded) (hp : k.pipelines[i]? = some p) (hf : p.phase = .started)
    (s : Settings) : (k.ask s i p).Guarded := by
  have hnone : k.locks.user? i = none := h.keeps_of hp hf
  rw [ask]
  split
  · exact h.go hp rfl rfl rfl hnone
  · rename_i q _
    have hsound := Locks.sound_request h.sound hnone q.key
    have hothers (j : Nat) (hj : j ≠ i) :
        (k.locks.request i q.key).user? j = k.locks.user? j := Locks.user?_request_ne hj
    exact h.set hp rfl hsound hothers (fun j r hr => ⟨r, hr, rfl⟩)
      (k.locks.user?_request_self i q.key)

theorem guarded_wait (h : k.Guarded) (hp : k.pipelines[i]? = some p) {q : Prepared}
    (hf : p.phase = .waiting q) : (k.wait i p q).Guarded := by
  obtain ⟨u, hu, hkey⟩ : ∃ u, k.locks.user? i = some u ∧ u.key = q.key := h.keeps_of hp hf
  obtain ⟨b, hb, -⟩ := Locks.user?_poll_self hu
  have hsound := Locks.sound_poll h.sound i
  have hothers : ∀ j, j ≠ i → (k.locks.poll i).user? j = k.locks.user? j :=
    fun j hj => Locks.user?_poll_ne hj
  rw [wait]
  split
  · rename_i hholds
    rw [Locks.holds, hb] at hholds
    exact h.set hp rfl hsound hothers (fun j r hr => ⟨r, hr, rfl⟩) ⟨_, hb, hholds, hkey⟩
  · have hset : k.pipelines = k.pipelines.set i p := by
      obtain ⟨hlt, rfl⟩ := List.getElem?_eq_some_iff.1 hp
      rw [List.set_getElem_self]
    refine h.set hp hset hsound hothers (fun j r hr => ⟨r, hr, rfl⟩) ?_
    rw [hf]
    exact ⟨_, hb, hkey⟩

theorem acquire_key {t t' : Tree} {here : Place} {scratch : Path} {key : Key}
    {m : Program.Manifest} {program : List Char} {w : Workspace}
    (h : Workspace.acquire t here scratch key m program = (t', .ok w)) :
    w = Workspace.ofKey scratch key := by
  rw [Workspace.acquire] at h
  split at h
  · cases h
  · split at h <;> cases h
    rfl

theorem guarded_acquire (h : k.Guarded) (hp : k.pipelines[i]? = some p) {q : Prepared}
    (hf : p.phase = .holding q) (s : Settings) : (k.acquire s i p q).Guarded := by
  have hholds : k.locks.Holds i q.key := h.keeps_of hp hf
  rw [acquire]
  split
  · rename_i t w hw
    obtain rfl := acquire_key hw
    exact h.go hp rfl rfl rfl hholds
  · exact h.go hp rfl rfl rfl ⟨_, hholds⟩

theorem guarded_release (h : k.Guarded) (hp : k.pipelines[i]? = some p) {w : Workspace}
    {o : Outcome} (hf : p.phase = .releasing w o) : (k.release i p w o).Guarded := by
  have hholds : k.locks.Holds i w.key := h.keeps_of hp hf
  refine h.set hp rfl h.sound (fun _ _ => rfl) (fun j r hr => ⟨r, ?_, rfl⟩) ⟨⟨w, false⟩, ?_, hholds⟩
  · exact List.getElem?_append_left (List.getElem?_eq_some_iff.1 hr).1 ▸ hr
  · exact List.getElem?_concat_length

theorem guarded_awaitRemoval (h : k.Guarded) (hp : k.pipelines[i]? = some p) {j : Nat}
    {o : Outcome} (hf : p.phase = .removing j o) : (k.awaitRemoval i p j o).Guarded := by
  obtain ⟨r, -, hholds⟩ : ∃ r, k.removals[j]? = some r ∧ k.locks.Holds i r.workspace.key :=
    h.keeps_of hp hf
  rw [awaitRemoval]
  split
  · exact h.go hp rfl rfl rfl ⟨_, hholds⟩
  · exact h

theorem guarded_close (h : k.Guarded) (hp : k.pipelines[i]? = some p) {o : Outcome}
    (hf : p.phase = .closing o) (now : Moment) : (k.close now i p o).Guarded := by
  have hnone : k.locks.user? i = none := h.keeps_of hp hf
  exact h.go hp rfl rfl rfl hnone

theorem guarded_cancel (h : k.Guarded) (here : Place) (i : Nat) : (k.cancel here i).Guarded := by
  rw [cancel]
  split
  · exact h
  · rename_i p hp
    split
    · rename_i hf
      have hnone : k.locks.user? i = none := h.keeps_of hp hf
      exact h.go hp rfl rfl rfl hnone
    · exact h.drop hp rfl rfl rfl id
    · exact h.drop hp rfl rfl rfl id
    · exact h.drop hp rfl rfl rfl id
    · exact h

theorem guarded_remove (h : k.Guarded) (here : Place) (j : Nat) : (k.remove here j).Guarded := by
  rw [remove]
  split
  · rename_i w hw
    have hlt := (List.getElem?_eq_some_iff.1 hw).1
    refine ⟨h.sound, h.known, fun i f hf => (h.keeps i f hf).congr rfl fun j' r hr => ?_⟩
    by_cases hj : j' = j
    · subst hj
      rw [hw] at hr
      cases hr
      exact ⟨_, List.getElem?_set_self hlt, rfl⟩
    · exact ⟨r, by rw [List.getElem?_set_ne (Ne.symm hj), hr], rfl⟩
  · exact h

theorem guarded_submit (h : k.Guarded) (d : Document) (r : Record) : (k.submit d r).Guarded := by
  refine ⟨h.sound, fun i hi => h.known i ?_, fun i f hf => ?_⟩
  · rw [submit, List.length_append] at hi
    omega
  · rcases Nat.lt_trichotomy i k.pipelines.length with hi | rfl | hi
    · rw [phase?, submit, List.getElem?_append_left hi] at hf
      exact h.keeps i f hf
    · rw [phase?, submit, List.getElem?_concat_length] at hf
      cases hf
      exact h.known _ (Nat.le_refl _)
    · rw [phase?, submit, List.getElem?_eq_none (by rw [List.length_append]; exact hi)] at hf
      cases hf

end

/-! ### What a step leaves alone -/

theorem pipeline_of_phase {k : Kernel P} {i : Nat} {f : Phase P} (h : k.phase? i = some f) :
    ∃ p, k.pipelines[i]? = some p ∧ p.phase = f := by
  rw [phase?, Option.map_eq_some_iff] at h
  exact h

theorem phase_of_pipeline {k : Kernel P} {i : Nat} {p : Pipeline P}
    (hp : k.pipelines[i]? = some p) : k.phase? i = some p.phase := by
  rw [phase?, hp, Option.map_some]

theorem lt_of_phase {k : Kernel P} {i : Nat} {f : Phase P} (h : k.phase? i = some f) :
    i < k.pipelines.length := by
  obtain ⟨p, hp, -⟩ := pipeline_of_phase h
  exact (List.getElem?_eq_some_iff.1 hp).1

theorem close_pipelines (k : Kernel P) (now : Moment) (i : Nat) (p : Pipeline P) (o : Outcome) :
    ∃ p' o', p'.document = p.document ∧ p'.record.cellIndex = p.record.cellIndex ∧
      p'.phase = .finished o' ∧ (k.close now i p o).pipelines = k.pipelines.set i p' := by
  unfold close
  cases o with
  | ok out =>
    cases hr : p.record.complete now with
    | ok r =>
      exact ⟨{ p with record := r, phase := .finished (.ok out) }, _, rfl,
        Record.complete_cellIndex hr, rfl, rfl⟩
    | error f => exact ⟨{ p with phase := .finished (.error f) }, _, rfl, rfl, rfl, rfl⟩
  | error e =>
    cases hr : p.record.fail now with
    | ok r =>
      exact ⟨{ p with record := r, phase := .finished (.error e) }, _, rfl,
        Record.fail_cellIndex hr, rfl, rfl⟩
    | error f => exact ⟨{ p with phase := .finished (.error f) }, _, rfl, rfl, rfl, rfl⟩

/-- Only the pipeline that goes on changes, and it keeps what it has been asked for. -/
theorem advance_pipelines {m : Machine} (k : Kernel m.Job) (s : Settings) (now : Moment) (i : Nat) :
    (k.advance m s now i).pipelines = k.pipelines ∨ ∃ p p' : Pipeline m.Job,
      k.pipelines[i]? = some p ∧ p'.document = p.document ∧
        p'.record.cellIndex = p.record.cellIndex ∧
        (k.advance m s now i).pipelines = k.pipelines.set i p' := by
  rw [advance]
  cases hp : k.pipelines[i]? with
  | none => exact .inl rfl
  | some p =>
    have moved (f : Phase m.Job) : ∃ q p' : Pipeline m.Job, some p = some q ∧
        p'.document = q.document ∧ p'.record.cellIndex = q.record.cellIndex ∧
        k.pipelines.set i { p with phase := f } = k.pipelines.set i p' :=
      ⟨p, { p with phase := f }, rfl, rfl, rfl, rfl⟩
    cases hf : p.phase with
    | queued =>
      simp only [hf, begin_]
      cases hr : p.record.start now with
      | ok r =>
        exact .inr ⟨p, { p with record := r, phase := .started }, rfl, rfl,
          Record.start_cellIndex hr, rfl⟩
      | error f => exact .inr (moved _)
    | started =>
      simp only [hf, ask]
      split <;> exact .inr (moved _)
    | waiting q =>
      simp only [hf, wait]
      split
      · exact .inr (moved _)
      · exact .inl rfl
    | holding q =>
      simp only [hf, acquire]
      split <;> exact .inr (moved _)
    | ready w =>
      simp only [hf, launch]
      split <;> exact .inr (moved _)
    | running w process =>
      simp only [hf, work]
      split <;> exact .inr (moved _)
    | releasing w o =>
      simp only [hf, release]
      exact .inr (moved _)
    | removing j o =>
      simp only [hf, awaitRemoval]
      split
      · exact .inr (moved _)
      · exact .inl rfl
    | unlocking o =>
      simp only [hf, unlock]
      exact .inr (moved _)
    | closing o =>
      simp only [hf]
      obtain ⟨p', _, hd, hc, -, hset⟩ := close_pipelines k now i p o
      exact .inr ⟨p, p', rfl, hd, hc, hset⟩
    | finished o | cancelled =>
      simp only [hf]
      exact .inl trivial

theorem phase?_advance_ne {m : Machine} {k : Kernel m.Job} {i j : Nat} (h : j ≠ i) (s : Settings)
    (now : Moment) : (k.advance m s now i).phase? j = k.phase? j := by
  rcases advance_pipelines k s now i with hset | ⟨p, p', -, -, -, hset⟩
  · rw [phase?, hset, phase?]
  · exact phase?_set_ne hset h

/-- Only a pipeline that starts to release its workspace hands over a removal. -/
theorem advance_removals {m : Machine} {k : Kernel m.Job} {i : Nat}
    (h : ∀ w o, k.phase? i ≠ some (.releasing w o)) (s : Settings) (now : Moment) :
    (k.advance m s now i).removals = k.removals := by
  rw [advance]
  cases hp : k.pipelines[i]? with
  | none => rfl
  | some p =>
    have hphase := phase_of_pipeline hp
    cases hf : p.phase with
    | releasing w o => exact absurd (hphase.trans (congrArg some hf)) (h w o)
    | queued =>
      simp only [hf, begin_]
      split <;> rfl
    | started =>
      simp only [hf, ask]
      split <;> rfl
    | waiting q =>
      simp only [hf, wait]
      split <;> rfl
    | holding q =>
      simp only [hf, acquire]
      split <;> rfl
    | ready w =>
      simp only [hf, launch]
      split <;> rfl
    | running w process =>
      simp only [hf, work]
      split <;> rfl
    | removing j o =>
      simp only [hf, awaitRemoval]
      split <;> rfl
    | unlocking o =>
      simp only [hf]
      rfl
    | closing o =>
      simp only [hf]
      rfl
    | finished o | cancelled => simp only [hf]

theorem cancel_pipelines (k : Kernel P) (here : Place) (i : Nat) :
    (k.cancel here i).pipelines = k.pipelines ∨ ∃ p : Pipeline P, k.pipelines[i]? = some p ∧
      (k.cancel here i).pipelines = k.pipelines.set i { p with phase := .cancelled } := by
  rw [cancel]
  cases hp : k.pipelines[i]? with
  | none => exact .inl rfl
  | some p =>
    have moved : ∃ q : Pipeline P, some p = some q ∧
        k.pipelines.set i { p with phase := .cancelled } =
          k.pipelines.set i { q with phase := .cancelled } := ⟨p, rfl, rfl⟩
    cases hf : p.phase with
    | queued | waiting q | removing j o | running w process =>
      simp only [hf]
      exact .inr moved
    | started | holding q | ready w | releasing w o | unlocking o | closing o | finished o
    | cancelled =>
      simp only [hf]
      exact .inl trivial

theorem cancel_removals (k : Kernel P) (here : Place) (i : Nat) :
    (k.cancel here i).removals = k.removals := by
  rw [cancel]
  split
  · rfl
  · split <;> rfl

theorem remove_pipelines (k : Kernel P) (here : Place) (j : Nat) :
    (k.remove here j).pipelines = k.pipelines := by
  rw [remove]
  split <;> rfl

theorem phase?_cancel_ne {k : Kernel P} {i j : Nat} (h : j ≠ i) (here : Place) :
    (k.cancel here i).phase? j = k.phase? j := by
  rcases cancel_pipelines k here i with hset | ⟨p, -, hset⟩
  · rw [phase?, hset, phase?]
  · exact phase?_set_ne hset h

theorem phase?_remove (k : Kernel P) (here : Place) (i j : Nat) :
    (k.remove here j).phase? i = k.phase? i := by
  rw [phase?, remove_pipelines, phase?]

theorem phase?_submit {k : Kernel P} {i : Nat} (h : i < k.pipelines.length) (d : Document)
    (r : Record) : (k.submit d r).phase? i = k.phase? i := by
  rw [phase?, submit, List.getElem?_append_left h, phase?]

variable {m : Machine} {k : Kernel m.Job}

theorem guarded_advance (h : k.Guarded) (s : Settings) (now : Moment) (i : Nat) :
    (k.advance m s now i).Guarded := by
  rw [advance]
  split
  · exact h
  · rename_i p hp
    cases hf : p.phase with
    | queued => exact guarded_begin h hp hf now
    | started => exact guarded_ask h hp hf s
    | waiting q => exact guarded_wait h hp hf
    | holding q => exact guarded_acquire h hp hf s
    | ready w =>
      have hholds : k.locks.Holds i w.key := h.keeps_of hp hf
      show (k.launch m s i p w).Guarded
      rw [launch]
      split
      · exact h.go hp rfl rfl rfl hholds
      · exact h.go hp rfl rfl rfl hholds
    | running w process =>
      have hholds : k.locks.Holds i w.key := h.keeps_of hp hf
      show (k.work m s i p w process).Guarded
      rw [work]
      split
      · exact h.go hp rfl rfl rfl hholds
      · exact h.go hp rfl rfl rfl hholds
    | releasing w o => exact guarded_release h hp hf
    | removing j o => exact guarded_awaitRemoval h hp hf
    | unlocking o => exact h.drop hp rfl rfl rfl id
    | closing o => exact guarded_close h hp hf now
    | finished o => exact h
    | cancelled => exact h

theorem guarded_act (h : k.Guarded) (s : Settings) (a : Action) : (k.act m s a).Guarded := by
  cases a with
  | submit d r => exact guarded_submit h d r
  | step a =>
    cases a with
    | advance i now => exact guarded_advance h s now i
    | cancel i => exact guarded_cancel h s.here i
    | remove j => exact guarded_remove h s.here j

theorem guarded_perform (m : Machine) (s : Settings) (t : Tree) (c : Counter) (as : List Action) :
    ((start t c).perform m s as).Guarded := by
  induction as using List.reverseRecOn with
  | nil => exact guarded_start t c
  | append_singleton as a ih =>
    rw [perform_concat]
    exact guarded_act ih s a

end Kernel

end Notebook.Execution
