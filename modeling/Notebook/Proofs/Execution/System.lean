import Notebook.Proofs.Execution.Batch
import Notebook.Proofs.Execution.Tally

/-!
Kernels that may share counters, at work side by side. Between any two things that one of them does,
others may do theirs, and so may whoever else draws from a counter or works in the files.
-/

namespace Notebook.Execution

open Files (Tree)

/-- A kernel, and the user of counters as which it draws. Its own counter is not used. -/
structure Worker (m : Machine) where
  settings : Settings
  user : Nat
  kernel : Kernel m.Job

/-- A call for cells of a document. The requests get their numbers one after the other. Once all
have theirs, their pipelines stand side by side in the kernel, from the place `first` on. -/
structure Batch where
  worker : Nat
  document : Document
  cells : List Nat
  records : List Record
  first : Option Nat

structure System (m : Machine) where
  tree : Tree
  tally : Tally
  workers : List (Worker m)
  batches : List Batch

/-- What can happen next. -/
inductive Act where
  /-- A counter is made. -/
  | create
  /-- The counter of a user gets another user. -/
  | share (user : Nat)
  /-- A kernel is made that draws as this user. -/
  | attach (settings : Settings) (user : Nat)
  | next (user : Nat)
  | trigger (worker : Nat) (cell : Nat)
  /-- A request is run, wherever its record comes from. -/
  | run (worker : Nat) (document : Document) (record : Record)
  /-- Cells are called for: one, some, or all that `Document.codeIndices` lists. -/
  | execute (worker : Nat) (document : Document) (cells : List Nat)
  /-- The next request of a batch gets its number. -/
  | number (batch : Nat)
  /-- The requests of a batch, all of them numbered, are run. -/
  | launch (batch : Nat)
  | step (worker : Nat) (step : Step)
  /-- Others change the files. -/
  | disturb (tree : Tree)

namespace Act

/-- No request is given up. -/
def Patient : Act → Prop
  | .step _ a => (Task.step a).Patient
  | _ => True

end Act

namespace Worker

variable {m : Machine}

def submit (w : Worker m) (d : Document) (rs : List Record) : Worker m :=
  { w with kernel := rs.foldl (fun k r => k.submit d r) w.kernel }

/-- A step of the kernel in these files. -/
def step (w : Worker m) (t : Tree) (a : Step) : Worker m :=
  { w with kernel := { w.kernel with tree := t }.step m w.settings a }

end Worker

namespace System

variable {m : Machine}

def start (m : Machine) (t : Tree) : System m := ⟨t, .empty, [], []⟩

/-- What happens, if it can. -/
def act? (y : System m) : Act → Option (System m)
  | .create => some { y with tally := ⟨y.tally.counters.create, y.tally.drawn⟩ }
  | .share u => do
    let counters ← y.tally.counters.share u
    return { y with tally := ⟨counters, y.tally.drawn⟩ }
  | .attach s u => do
    let _ ← y.tally.counters.users[u]?
    return { y with workers := y.workers ++ [⟨s, u, .start y.tree .fresh⟩] }
  | .next u => do
    let (_, tally) ← y.tally.draw u Counter.next id
    return { y with tally }
  | .trigger n cell => do
    let w ← y.workers[n]?
    let (_, tally) ← y.tally.draw w.user (·.trigger cell) (·.order)
    return { y with tally }
  | .run n d r => do
    let w ← y.workers[n]?
    return { y with workers := y.workers.set n (w.submit d [r]) }
  | .execute n d cells => do
    let _ ← y.workers[n]?
    return { y with batches := y.batches ++ [⟨n, d, cells, [], none⟩] }
  | .number j => do
    let b ← y.batches[j]?
    let w ← y.workers[b.worker]?
    let cell ← b.cells[b.records.length]?
    let (r, tally) ← y.tally.draw w.user (·.trigger cell) (·.order)
    return { y with tally, batches := y.batches.set j { b with records := b.records ++ [r] } }
  | .launch j => do
    let b ← y.batches[j]?
    let w ← y.workers[b.worker]?
    if b.first = none ∧ b.records.length = b.cells.length then
      return { y with
        workers := y.workers.set b.worker (w.submit b.document b.records)
        batches := y.batches.set j { b with first := some w.kernel.pipelines.length } }
    else none
  | .step n a => do
    let w ← y.workers[n]?
    return { y with
      tree := (w.step y.tree a).kernel.tree
      workers := y.workers.set n (w.step y.tree a) }
  | .disturb tree => some { y with tree }

def act (y : System m) (a : Act) : System m := (y.act? a).getD y

def run (y : System m) (acts : List Act) : System m := acts.foldl act y

/-- The system after all of this has happened. -/
def after (m : Machine) (t : Tree) (acts : List Act) : System m := (start m t).run acts

/-- The user that draws, if anyone does. -/
def drawer? (y : System m) : Act → Option Nat
  | .next u => some u
  | .trigger n _ => (y.workers[n]?).map (·.user)
  | .number j => do
    let b ← y.batches[j]?
    let w ← y.workers[b.worker]?
    let _ ← b.cells[b.records.length]?
    return w.user
  | _ => none

/-- Who draws, and which number. -/
def draws? (y : System m) (a : Act) : Option (Nat × Nat) := (y.drawer? a).bind y.tally.next?

/-- The pipelines of a batch, once its requests are run. -/
def pipelines? (y : System m) (b : Batch) : Option (List (Pipeline m.Job)) := do
  let first ← b.first
  let w ← y.workers[b.worker]?
  return (w.kernel.pipelines.drop first).take b.cells.length

/-- What a call comes to, once all of its requests have ended. -/
def returned? (y : System m) (b : Batch) : Option (List Finished) := do
  (← y.pipelines? b).mapM Pipeline.finished?

end System

/-! ### What is kept of a pipeline -/

namespace Record

variable {r r' : Record} {now : Moment}

theorem order_of_moveTo {st : State} {f : Record → Record} (hf : ∀ r, (f r).order = r.order)
    (h : (r.moveTo st).map f = .ok r') : r'.order = r.order := by
  cases hm : r.moveTo st with
  | error e =>
    rw [hm] at h
    cases h
  | ok r₁ =>
    rw [hm] at h
    cases h
    obtain ⟨-, rfl⟩ := moveTo_ok hm
    exact hf _

theorem start_order (h : r.start now = .ok r') : r'.order = r.order :=
  order_of_moveTo (f := fun r => { r with startedAt := some now }) (fun _ => rfl) h

theorem conclude_order {o : Outcome} (h : r.conclude now o = .ok r') : r'.order = r.order := by
  cases o with
  | ok _ | error _ =>
    exact order_of_moveTo (f := fun r => { r with endedAt := some now }) (fun _ => rfl) h

end Record

/-- The later pipeline is for the same request, which has not ended in another way. -/
structure Pipeline.Follows {P : Type} (p p' : Pipeline P) : Prop where
  cell : p'.record.cellIndex = p.record.cellIndex
  order : p'.record.order = p.record.order
  finished : ∀ x, p.finished? = some x → p'.finished? = some x

namespace Kernel

variable {m : Machine} {s : Settings} {k k₁ k₂ : Kernel m.Job} {now : Moment} {i : Nat}
  {p p' : Pipeline m.Job}

theorem Turn.order (h : Turn m s now k i p k₁ p') : p'.record.order = p.record.order := by
  cases h with
  | begin_ _ hstart => exact Record.start_order hstart
  | close _ hend => exact Record.conclude_order hend
  | reject _ _ | decline _ _ | ask _ _ | wait _ _ | hold _ _ | refuse _ _ | acquire _ _ | stall _ _
  | launch _ _ | work _ _ | exit _ _ | release _ | await _ _ | clear _ _ | unlock _ | misclose _ _
  | rest _ => rfl

/-- Who has ended does not go on. -/
theorem Turn.of_finished (h : Turn m s now k i p k₁ p') {o : Outcome} (hf : p.phase = .finished o) :
    p' = p := by
  cases h with
  | rest _ | wait _ _ | await _ _ => rfl
  | reject h _ | begin_ h _ | decline h _ | ask h _ | hold h _ | refuse h _ | acquire h _
  | stall h _ | launch h _ | work h _ | exit h _ | release h | clear h _ | unlock h | close h _
  | misclose h _ =>
    rw [hf] at h
    cases h

theorem finished?_eq_some {x : Finished} (h : p.finished? = some x) :
    ∃ o, p.phase = .finished o := by
  rw [Pipeline.finished?] at h
  split at h
  · exact ⟨_, by assumption⟩
  · cases h

theorem cancel_of_finished {o : Outcome} (hp : k.pipelines[i]? = some p)
    (hf : p.phase = .finished o) (here : Files.Place) : k.cancel here i = k := by
  rw [cancel, hp]
  simp only [hf]

/-- Who has ended is not given up. -/
theorem phase?_act_of_finished {o : Outcome} (hp : k.pipelines[i]? = some p)
    (hf : p.phase = .finished o) {a : Action} (ha : ∀ now, a ≠ .step (.advance i now)) :
    (k.act m s a).phase? i = some (.finished o) := by
  have hphase : k.phase? i = some (.finished o) := by rw [phase_of_pipeline hp, hf]
  cases a with
  | submit d r => exact (phase?_submit (List.getElem?_eq_some_iff.1 hp).1 d r).trans hphase
  | step a =>
    cases a with
    | advance j now =>
      have hij : i ≠ j := fun h => ha now (by rw [h])
      exact (phase?_advance_ne hij s now).trans hphase
    | cancel j =>
      by_cases hij : i = j
      · subst hij
        exact (congrArg (phase? · i) (cancel_of_finished hp hf s.here)).trans hphase
      · exact (phase?_cancel_ne hij s.here).trans hphase
    | remove j => exact (phase?_remove k s.here i j).trans hphase

theorem follows_act (s : Settings) (hp : k.pipelines[i]? = some p) (a : Action) :
    ∃ p', (k.act m s a).pipelines[i]? = some p' ∧ p.Follows p' := by
  rcases act_cases s hp a with ⟨now, k₁, p', rfl, ht, -, hp'⟩ | ⟨hother, hp' | hp'⟩
  · refine ⟨p', hp', ht.asked.2, ht.order, fun x hx => ?_⟩
    obtain ⟨o, hf⟩ := finished?_eq_some hx
    rw [ht.of_finished hf]
    exact hx
  · exact ⟨p, hp', rfl, rfl, fun _ hx => hx⟩
  · refine ⟨_, hp', rfl, rfl, fun x hx => ?_⟩
    obtain ⟨o, hf⟩ := finished?_eq_some hx
    cases (phase_of_pipeline hp').symm.trans (phase?_act_of_finished hp hf hother)

/-- The kernel has the requests of the other one, and maybe more. -/
def Continues {P : Type} (k k' : Kernel P) : Prop :=
  ∀ (i : Nat) p, k.pipelines[i]? = some p → ∃ p', k'.pipelines[i]? = some p' ∧ p.Follows p'

theorem Continues.refl {P : Type} (k : Kernel P) : k.Continues k :=
  fun _ p hp => ⟨p, hp, rfl, rfl, fun _ hx => hx⟩

theorem continues_submitted {P : Type} (k : Kernel P) (d : Document) (rs : List Record) :
    (rs.foldl (fun k r => k.submit d r) k).pipelines = k.pipelines ++ rs.map (⟨d, ·, .queued⟩) := by
  induction rs generalizing k with
  | nil => exact (List.append_nil _).symm
  | cons r rs ih =>
    rw [List.foldl_cons, ih, List.map_cons]
    simp [submit]

end Kernel

namespace Worker

variable {m : Machine}

/-- The same user, with the requests that it had. -/
structure Continues (w w' : Worker m) : Prop where
  user : w'.user = w.user
  kernel : w.kernel.Continues w'.kernel

theorem pipelines_submit (w : Worker m) (d : Document) (rs : List Record) :
    (w.submit d rs).kernel.pipelines = w.kernel.pipelines ++ rs.map (⟨d, ·, .queued⟩) :=
  Kernel.continues_submitted w.kernel d rs

theorem continues_submit (w : Worker m) (d : Document) (rs : List Record) :
    w.Continues (w.submit d rs) := by
  refine ⟨rfl, fun i p hp => ⟨p, ?_, rfl, rfl, fun _ hx => hx⟩⟩
  rw [pipelines_submit, List.getElem?_append_left (List.getElem?_eq_some_iff.1 hp).1]
  exact hp

theorem continues_step (w : Worker m) (t : Tree) (a : Step) : w.Continues (w.step t a) :=
  ⟨rfl, fun _ _ hp => Kernel.follows_act (k := { w.kernel with tree := t }) w.settings hp (.step a)⟩

end Worker

end Notebook.Execution
