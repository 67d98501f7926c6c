import Notebook.Proofs.Execution.Run

/-!
How a pipeline goes on: what each phase leads to, and what else of the kernel changes with it.
-/

namespace Notebook.Execution

open Program (Prepared)

namespace Record

/-- The record of a request that ends with this outcome. -/
def conclude (r : Record) (now : Moment) : Outcome → Except Failure Record
  | .ok _ => r.complete now
  | .error _ => r.fail now

theorem conclude_cellIndex {r r' : Record} {now : Moment} {o : Outcome}
    (h : r.conclude now o = .ok r') : r'.cellIndex = r.cellIndex := by
  cases o with
  | ok out => exact complete_cellIndex h
  | error f => exact fail_cellIndex h

end Record

/-- What is told when a request ends. -/
def Event.ending (r : Record) : Outcome → Event
  | .ok _ => .completed r.order r.cellIndex
  | .error _ => .failed r.order r.cellIndex

/-- What a pipeline is asked for. -/
def Pipeline.request? {P : Type} (s : Settings) (p : Pipeline P) : Except Failure Prepared :=
  Program.prepare s.shape s.manifest p.document p.record.cellIndex

namespace Kernel

/-- The pipeline goes on and becomes another one, while the rest of the kernel becomes what is given
first. -/
inductive Turn (m : Machine) (s : Settings) (now : Moment) (k : Kernel m.Job) (i : Nat)
    (p : Pipeline m.Job) : Kernel m.Job → Pipeline m.Job → Prop where
  | reject {f : Failure} (hf : p.phase = .queued) (h : p.record.start now = .error f) :
      Turn m s now k i p k { p with phase := .finished (.error f) }
  | begin_ {r : Record} (hf : p.phase = .queued) (h : p.record.start now = .ok r) :
      Turn m s now k i p (k.tell (.started r.order r.cellIndex))
        { p with record := r, phase := .started }
  | decline {f : Failure} (hf : p.phase = .started) (h : p.request? s = .error f) :
      Turn m s now k i p k { p with phase := .closing (.error f) }
  | ask {q : Prepared} (hf : p.phase = .started) (h : p.request? s = .ok q) :
      Turn m s now k i p { k with locks := k.locks.request i q.key } { p with phase := .waiting q }
  | wait {q : Prepared} (hf : p.phase = .waiting q) (h : (k.locks.poll i).holds i = false) :
      Turn m s now k i p { k with locks := k.locks.poll i } p
  | hold {q : Prepared} (hf : p.phase = .waiting q) (h : (k.locks.poll i).holds i = true) :
      Turn m s now k i p { k with locks := k.locks.poll i } { p with phase := .holding q }
  | refuse {q : Prepared} {t : Files.Tree} {f : Failure} (hf : p.phase = .holding q)
      (h : Workspace.acquire k.tree s.here s.scratch q.key s.manifest q.program = (t, .error f)) :
      Turn m s now k i p { k with tree := t } { p with phase := .unlocking (.error f) }
  | acquire {q : Prepared} {t : Files.Tree} {w : Workspace} (hf : p.phase = .holding q)
      (h : Workspace.acquire k.tree s.here s.scratch q.key s.manifest q.program = (t, .ok w)) :
      Turn m s now k i p { k with tree := t } { p with phase := .ready w }
  | stall {w : Workspace} {f : Files.Fault} (hf : p.phase = .ready w)
      (h : m.start s.toolchain k.tree s.here w.root = .error f) :
      Turn m s now k i p k
        { p with phase := .releasing w (.error (.spawn s.toolchain.program f)) }
  | launch {w : Workspace} {j : m.Job} (hf : p.phase = .ready w)
      (h : m.start s.toolchain k.tree s.here w.root = .ok j) :
      Turn m s now k i p k { p with phase := .running w j }
  | work {w : Workspace} {j j' : m.Job} {t : Files.Tree} (hf : p.phase = .running w j)
      (h : m.step j k.tree = (t, .inl j')) :
      Turn m s now k i p { k with tree := t } { p with phase := .running w j' }
  | exit {w : Workspace} {j : m.Job} {t : Files.Tree} {c : Completion}
      (hf : p.phase = .running w j) (h : m.step j k.tree = (t, .inr c)) :
      Turn m s now k i p { k with tree := t }
        { p with phase := .releasing w (outcome s.toolchain c) }
  | release {w : Workspace} {o : Outcome} (hf : p.phase = .releasing w o) :
      Turn m s now k i p { k with removals := k.removals ++ [⟨w, false⟩] }
        { p with phase := .removing k.removals.length o }
  | await {n : Nat} {o : Outcome} (hf : p.phase = .removing n o)
      (h : ∀ w, k.removals[n]? ≠ some ⟨w, true⟩) : Turn m s now k i p k p
  | clear {n : Nat} {o : Outcome} {w : Workspace} (hf : p.phase = .removing n o)
      (h : k.removals[n]? = some ⟨w, true⟩) :
      Turn m s now k i p k { p with phase := .unlocking o }
  | unlock {o : Outcome} (hf : p.phase = .unlocking o) :
      Turn m s now k i p { k with locks := k.locks.drop i } { p with phase := .closing o }
  | close {o : Outcome} {r : Record} (hf : p.phase = .closing o)
      (h : p.record.conclude now o = .ok r) :
      Turn m s now k i p (k.tell (.ending r o)) { p with record := r, phase := .finished o }
  | misclose {o : Outcome} {f : Failure} (hf : p.phase = .closing o)
      (h : p.record.conclude now o = .error f) :
      Turn m s now k i p (k.tell (.ending p.record (.error f)))
        { p with phase := .finished (.error f) }
  | rest (hf : p.phase = .cancelled ∨ ∃ o, p.phase = .finished o) : Turn m s now k i p k p

variable {m : Machine} {s : Settings} {now : Moment} {k k₁ : Kernel m.Job} {i : Nat}
  {p p' : Pipeline m.Job}

theorem close_eq (k : Kernel m.Job) (now : Moment) (i : Nat) (p : Pipeline m.Job) (o : Outcome) :
    k.close now i p o = match p.record.conclude now o with
      | .ok r => (k.tell (.ending r o)).setPipeline i { p with record := r, phase := .finished o }
      | .error f => (k.tell (.ending p.record (.error f))).setPipeline i
          { p with phase := .finished (.error f) } := by
  cases o with
  | ok out =>
    simp only [close, Record.conclude]
    cases p.record.complete now <;> rfl
  | error e =>
    simp only [close, Record.conclude]
    cases p.record.fail now <;> rfl

theorem setPipeline_self (hp : k.pipelines[i]? = some p) : k.setPipeline i p = k := by
  obtain ⟨hlt, rfl⟩ := List.getElem?_eq_some_iff.1 hp
  rw [setPipeline, List.set_getElem_self]

theorem getElem?_setPipeline (hp : k.pipelines[i]? = some p) (hk : k₁.pipelines = k.pipelines) :
    (k₁.setPipeline i p').pipelines[i]? = some p' := by
  rw [setPipeline, hk, List.getElem?_set_self (List.getElem?_eq_some_iff.1 hp).1]

/-- Whatever a pipeline does when it goes on is one of the turns. -/
theorem advance_turn (s : Settings) (now : Moment) (hp : k.pipelines[i]? = some p) :
    ∃ k₁ p', Turn m s now k i p k₁ p' ∧ k₁.pipelines = k.pipelines ∧
      k.advance m s now i = k₁.setPipeline i p' := by
  rw [advance, hp]
  cases hf : p.phase with
  | queued =>
    simp only [hf, Kernel.begin_]
    cases h : p.record.start now with
    | error f => exact ⟨_, _, .reject hf h, rfl, rfl⟩
    | ok r => exact ⟨_, _, .begin_ hf h, rfl, rfl⟩
  | started =>
    simp only [hf, Kernel.ask]
    cases h : Program.prepare s.shape s.manifest p.document p.record.cellIndex with
    | error f => exact ⟨_, _, .decline hf h, rfl, rfl⟩
    | ok q => exact ⟨_, _, .ask hf h, rfl, rfl⟩
  | waiting q =>
    simp only [hf, Kernel.wait]
    cases h : (k.locks.poll i).holds i with
    | false =>
      have hself : ({ k with locks := k.locks.poll i } : Kernel m.Job).setPipeline i p =
          { k with locks := k.locks.poll i } := setPipeline_self hp
      exact ⟨_, _, .wait hf h, rfl, hself.symm⟩
    | true => exact ⟨_, _, .hold hf h, rfl, rfl⟩
  | holding q =>
    simp only [hf, Kernel.acquire]
    rcases h : Workspace.acquire k.tree s.here s.scratch q.key s.manifest q.program with ⟨t, f | w⟩
    · exact ⟨_, _, .refuse hf h, rfl, rfl⟩
    · exact ⟨_, _, .acquire hf h, rfl, rfl⟩
  | ready w =>
    simp only [hf, Kernel.launch]
    cases h : m.start s.toolchain k.tree s.here w.root with
    | error f => exact ⟨_, _, .stall hf h, rfl, rfl⟩
    | ok j => exact ⟨_, _, .launch hf h, rfl, rfl⟩
  | running w j =>
    simp only [hf, Kernel.work]
    rcases h : m.step j k.tree with ⟨t, j' | c⟩
    · exact ⟨_, _, .work hf h, rfl, rfl⟩
    · exact ⟨_, _, .exit hf h, rfl, rfl⟩
  | releasing w o =>
    simp only [hf]
    exact ⟨_, _, .release hf, rfl, rfl⟩
  | removing n o =>
    simp only [hf, awaitRemoval]
    split
    · rename_i w h
      exact ⟨_, _, .clear hf h, rfl, rfl⟩
    · rename_i h
      exact ⟨_, _, .await hf h, rfl, (setPipeline_self hp).symm⟩
  | unlocking o =>
    simp only [hf]
    exact ⟨_, _, .unlock hf, rfl, rfl⟩
  | closing o =>
    simp only [hf, close_eq]
    cases h : p.record.conclude now o with
    | ok r => exact ⟨_, _, .close hf h, rfl, rfl⟩
    | error f => exact ⟨_, _, .misclose hf h, rfl, rfl⟩
  | finished o =>
    simp only [hf]
    exact ⟨_, _, .rest (.inr ⟨o, hf⟩), rfl, (setPipeline_self hp).symm⟩
  | cancelled =>
    simp only [hf]
    exact ⟨_, _, .rest (.inl hf), rfl, (setPipeline_self hp).symm⟩

theorem Turn.asked (h : Turn m s now k i p k₁ p') :
    p'.document = p.document ∧ p'.record.cellIndex = p.record.cellIndex := by
  cases h with
  | begin_ hf hstart => exact ⟨rfl, Record.start_cellIndex hstart⟩
  | close hf hend => exact ⟨rfl, Record.conclude_cellIndex hend⟩
  | reject _ _ | decline _ _ | ask _ _ | wait _ _ | hold _ _ | refuse _ _ | acquire _ _ | stall _ _
  | launch _ _ | work _ _ | exit _ _ | release _ | await _ _ | clear _ _ | unlock _ | misclose _ _
  | rest _ => exact ⟨rfl, rfl⟩

theorem Turn.request? (h : Turn m s now k i p k₁ p') : p'.request? s = p.request? s := by
  obtain ⟨hdocument, hcell⟩ := h.asked
  rw [Pipeline.request?, hdocument, hcell, Pipeline.request?]

/-! ### What happens to others -/

theorem pipeline_act (hp : k.pipelines[i]? = some p) {a : Action}
    (ha : ∀ now, a ≠ .step (.advance i now)) :
    (k.act m s a).pipelines[i]? = some p ∨
      (k.act m s a).pipelines[i]? = some { p with phase := .cancelled } := by
  have hlt := (List.getElem?_eq_some_iff.1 hp).1
  cases a with
  | submit d r => exact .inl ((List.getElem?_append_left hlt).trans hp)
  | step a =>
    cases a with
    | advance j now =>
      have hj : j ≠ i := fun hj => ha now (by rw [hj])
      rcases advance_pipelines k s now j with hset | ⟨_, p', -, -, -, hset⟩
      · exact .inl ((congrArg (·[i]?) hset).trans hp)
      · exact .inl ((congrArg (·[i]?) hset).trans ((List.getElem?_set_ne hj).trans hp))
    | cancel j =>
      rcases cancel_pipelines k s.here j with hset | ⟨q, hq, hset⟩
      · exact .inl ((congrArg (·[i]?) hset).trans hp)
      · by_cases hj : j = i
        · subst hj
          rw [hp] at hq
          cases hq
          exact .inr ((congrArg (·[j]?) hset).trans (List.getElem?_set_self hlt))
        · exact .inl ((congrArg (·[i]?) hset).trans ((List.getElem?_set_ne hj).trans hp))
    | remove j => exact .inl ((congrArg (·[i]?) (remove_pipelines k s.here j)).trans hp)

/-- A pipeline goes on by a turn of its own, or else it stays as it is or is given up. -/
theorem act_cases (s : Settings) (hp : k.pipelines[i]? = some p) (a : Action) :
    (∃ now k₁ p', a = .step (.advance i now) ∧ Turn m s now k i p k₁ p' ∧
      k.advance m s now i = k₁.setPipeline i p' ∧ (k.act m s a).pipelines[i]? = some p') ∨
    ((∀ now, a ≠ .step (.advance i now)) ∧ ((k.act m s a).pipelines[i]? = some p ∨
      (k.act m s a).pipelines[i]? = some { p with phase := .cancelled })) := by
  by_cases ha : ∃ now, a = .step (.advance i now)
  · obtain ⟨now, rfl⟩ := ha
    obtain ⟨k₁, p', ht, hk₁, hadvance⟩ := advance_turn s now hp
    refine .inl ⟨now, k₁, p', rfl, ht, hadvance, ?_⟩
    show (k.advance m s now i).pipelines[i]? = some p'
    rw [hadvance]
    exact getElem?_setPipeline hp hk₁
  · have ha' : ∀ now, a ≠ .step (.advance i now) := fun now hnow => ha ⟨now, hnow⟩
    exact .inr ⟨ha', pipeline_act hp ha'⟩

theorem pipeline_new {a : Action} (hi : k.pipelines.length ≤ i)
    (hp : (k.act m s a).pipelines[i]? = some p) :
    ∃ d r, a = .submit d r ∧ p = ⟨d, r, .queued⟩ := by
  have hold (l : List (Pipeline m.Job)) (hl : l.length = k.pipelines.length) : l[i]? ≠ some p := by
    rw [List.getElem?_eq_none (by omega)]
    simp
  cases a with
  | submit d r =>
    have hp' : (k.pipelines ++ [⟨d, r, .queued⟩])[i]? = some p := hp
    rw [List.getElem?_append_right hi, List.getElem?_singleton] at hp'
    split at hp' <;> cases hp'
    exact ⟨d, r, rfl, rfl⟩
  | step a =>
    refine absurd hp (hold _ ?_)
    cases a with
    | advance j now =>
      rcases advance_pipelines k s now j with hset | ⟨_, _, -, -, -, hset⟩
      · exact congrArg _ hset
      · exact (congrArg _ hset).trans List.length_set
    | cancel j =>
      rcases cancel_pipelines k s.here j with hset | ⟨_, -, hset⟩
      · exact congrArg _ hset
      · exact (congrArg _ hset).trans List.length_set
    | remove j => exact congrArg _ (remove_pipelines k s.here j)

/-! ### What happens to the locks -/

/-- What the table of locks becomes by whatever happens to a kernel. -/
inductive Touches (s : Settings) (k : Kernel m.Job) : Locks → Prop where
  | keep : Touches s k k.locks
  | request {i : Nat} {p : Pipeline m.Job} {q : Program.Prepared} (hp : k.pipelines[i]? = some p)
      (hf : p.phase = .started) (hq : p.request? s = .ok q) : Touches s k (k.locks.request i q.key)
  | poll (i : Nat) : Touches s k (k.locks.poll i)
  | drop (i : Nat) : Touches s k (k.locks.drop i)

theorem touches_advance (s : Settings) (k : Kernel m.Job) (i : Nat) (now : Moment) :
    k.Touches s (k.advance m s now i).locks := by
  cases hp : k.pipelines[i]? with
  | none =>
    rw [advance, hp]
    exact .keep
  | some p =>
    obtain ⟨k₁, p', ht, -, hadvance⟩ := advance_turn s now hp
    rw [hadvance]
    cases ht with
    | ask hf hq => exact .request hp hf hq
    | wait _ _ | hold _ _ => exact .poll i
    | unlock _ => exact .drop i
    | reject _ _ | begin_ _ _ | decline _ _ | refuse _ _ | acquire _ _ | stall _ _ | launch _ _
    | work _ _ | exit _ _ | release _ | await _ _ | clear _ _ | close _ _ | misclose _ _
    | rest _ => exact .keep

theorem touches_act (s : Settings) (k : Kernel m.Job) (a : Action) :
    k.Touches s (k.act m s a).locks := by
  cases a with
  | submit d r => exact .keep
  | step a =>
    cases a with
    | advance i now => exact touches_advance s k i now
    | cancel i =>
      show k.Touches s (k.cancel s.here i).locks
      rw [cancel]
      split
      · exact .keep
      · split
        · exact .keep
        · exact .drop i
        · exact .drop i
        · exact .drop i
        · exact .keep
    | remove j =>
      show k.Touches s (k.remove s.here j).locks
      rw [remove]
      split
      · exact .keep
      · exact .keep

end Kernel

end Notebook.Execution
