import Notebook.Proofs.Execution.Turn

/-!
The course of a request, whatever else goes on in its kernel: what becomes of its record, what is
told of it, and where its outcome comes from.
-/

namespace Notebook

namespace Program

variable {shape : Shape} {m : Manifest} {d : Document} {i : Nat}

theorem prepare_of_none (h : d.cells[i]? = none) :
    prepare shape m d i = .error (.cellNotFound i) := by
  simp [prepare, Document.cell, h, bind, Except.bind]

theorem prepare_of_markup {t : List Char} (h : d.cells[i]? = some (.markup t)) :
    prepare shape m d i = .error (.notExecutable i) := by
  simp [prepare, Document.cell, h, Cell.isCode, Cell.source?, bind, Except.bind]

theorem prepare_of_code (shape : Shape) (m : Manifest) {c : Cell} (h : d.cells[i]? = some c)
    (hc : c.isCode = true) :
    ∃ q, prepare shape m d i = .ok q := by
  have hcell : d.cell i = .ok c := by rw [Document.cell, h]
  obtain ⟨cells, hcells⟩ : ∃ cells, d.sources i = .ok cells :=
    ⟨_, if_pos (List.getElem?_eq_some_iff.1 h).1⟩
  simp [prepare, hcell, hcells, hc, bind, Except.bind]

/-- A cell is not prepared exactly if there is none or it is not code. -/
theorem prepare_cases (shape : Shape) (m : Manifest) (d : Document) (i : Nat) :
    (d.cells[i]? = none ∧ prepare shape m d i = .error (.cellNotFound i)) ∨
    (∃ t, d.cells[i]? = some (.markup t) ∧ prepare shape m d i = .error (.notExecutable i)) ∨
    ∃ c q, d.cells[i]? = some c ∧ c.isCode = true ∧ prepare shape m d i = .ok q := by
  cases h : d.cells[i]? with
  | none => exact .inl ⟨rfl, prepare_of_none h⟩
  | some c =>
    cases c with
    | markup t => exact .inr (.inl ⟨t, rfl, prepare_of_markup h⟩)
    | code s =>
      obtain ⟨q, hq⟩ := prepare_of_code shape m h rfl
      exact .inr (.inr ⟨_, q, rfl, rfl, hq⟩)
    | evaluated s o e =>
      obtain ⟨q, hq⟩ := prepare_of_code shape m h rfl
      exact .inr (.inr ⟨_, q, rfl, rfl, hq⟩)

end Program

namespace Execution

open Files (Path Place Tree Fault)
open Program (Manifest Prepared)

theorem Workspace.writeFile_error {t : Tree} {here : Place} {p : Path} {content : List Char}
    {f : Failure} (h : writeFile t here p content = .error f) : ∃ c, f = .workspace p c := by
  rw [writeFile] at h
  split at h <;> cases h
  exact ⟨_, rfl⟩

theorem Workspace.acquire_error {t t' : Tree} {here : Place} {scratch : Path} {k : Program.Key}
    {m : Manifest} {program : List Char} {f : Failure}
    (h : acquire t here scratch k m program = (t', .error f)) : ∃ p c, f = .workspace p c := by
  rw [acquire] at h
  split at h
  · cases h
    exact ⟨_, _, rfl⟩
  · split at h
    · cases h
    · rename_i hpopulate
      cases h
      rw [populate] at hpopulate
      split at hpopulate
      · rename_i hwrite
        cases hpopulate
        exact ⟨_, writeFile_error hwrite⟩
      · split at hpopulate
        · rename_i hwrite
          cases hpopulate
          exact ⟨_, writeFile_error hwrite⟩
        · cases hpopulate

namespace Kernel

/-! ### Looking back at a run -/

/-- Some time in a run the pipeline goes on, from a kernel like this. -/
def Meets (m : Machine) (s : Settings) (k : Kernel m.Job) (i : Nat) (as : List Action)
    (C : Kernel m.Job → Prop) : Prop :=
  ∃ pre now post, as = pre ++ .step (.advance i now) :: post ∧ C (k.perform m s pre)

/-- The pipeline cannot have its workspace. -/
def Refused {P : Type} (s : Settings) (i : Nat) (f : Failure) (k : Kernel P) : Prop :=
  ∃ q, k.phase? i = some (.holding q) ∧
    (Workspace.acquire k.tree s.here s.scratch q.key s.manifest q.program).2 = .error f

/-- The toolchain of the pipeline cannot start. -/
def Stalled (m : Machine) (s : Settings) (i : Nat) (f : Fault) (k : Kernel m.Job) : Prop :=
  ∃ w, k.phase? i = some (.ready w) ∧ m.start s.toolchain k.tree s.here w.root = .error f

/-- The toolchain of the pipeline starts. -/
def Launched (m : Machine) (s : Settings) (i : Nat) (k : Kernel m.Job) : Prop :=
  ∃ w j, k.phase? i = some (.ready w) ∧ m.start s.toolchain k.tree s.here w.root = .ok j

/-- The process of the pipeline ends. -/
def Exited (m : Machine) (i : Nat) (c : Completion) (k : Kernel m.Job) : Prop :=
  ∃ w j, k.phase? i = some (.running w j) ∧ (m.step j k.tree).2 = .inr c

/-- When the pipeline goes on, more changes than itself. -/
def Affects (m : Machine) (s : Settings) (i : Nat) (k : Kernel m.Job) : Prop :=
  ∃ now, (k.advance m s now i).tree ≠ k.tree ∨ (k.advance m s now i).locks ≠ k.locks ∨
    (k.advance m s now i).removals ≠ k.removals

/-- What is told during a run when the pipeline goes on. -/
def told (m : Machine) (s : Settings) (i : Nat) : Kernel m.Job → List Action → List Event
  | _, [] => []
  | k, .step (.advance j now) :: as =>
    (if j = i then (k.advance m s now i).events.drop k.events.length else []) ++
      told m s i (k.advance m s now j) as
  | k, a :: as => told m s i (k.act m s a) as

/-- The record and the outcome of a pipeline that has ended. -/
def delivered? {P : Type} (k : Kernel P) (i : Nat) : Option Finished :=
  k.pipelines[i]?.bind Pipeline.finished?

section

variable {m : Machine} {s : Settings} {k : Kernel m.Job} {i : Nat} {as : List Action}
  {C : Kernel m.Job → Prop}

theorem Meets.concat (h : Meets m s k i as C) (a : Action) : Meets m s k i (as ++ [a]) C := by
  obtain ⟨pre, now, post, rfl, hC⟩ := h
  exact ⟨pre, now, post ++ [a], by rw [List.append_assoc, List.cons_append], hC⟩

theorem meets_concat (now : Moment) (h : C (k.perform m s as)) :
    Meets m s k i (as ++ [.step (.advance i now)]) C := ⟨as, now, [], rfl, h⟩

theorem told_concat (k : Kernel m.Job) (as : List Action) (a : Action) :
    told m s i k (as ++ [a]) = told m s i k as ++ told m s i (k.perform m s as) [a] := by
  induction as generalizing k with
  | nil => rfl
  | cons b as ih =>
    cases b with
    | submit d r => exact ih _
    | step b =>
      cases b with
      | advance j now =>
        rw [List.cons_append, told, told, ih, List.append_assoc]
        rfl
      | cancel j => exact ih _
      | remove j => exact ih _

theorem told_of_ne {a : Action} (ha : ∀ now, a ≠ .step (.advance i now)) :
    told m s i k [a] = [] := by
  cases a with
  | submit d r => rfl
  | step a =>
    cases a with
    | advance j now =>
      have hj : j ≠ i := fun hj => ha now (by rw [hj])
      rw [told, if_neg hj]
      rfl
    | cancel j => rfl
    | remove j => rfl

theorem told_advance {now : Moment} {k₁ : Kernel m.Job} {p' : Pipeline m.Job} {e : List Event}
    (h : k.advance m s now i = k₁.setPipeline i p') (he : k₁.events = k.events ++ e) :
    told m s i k [.step (.advance i now)] = e := by
  rw [told, if_pos rfl, h]
  show k₁.events.drop k.events.length ++ [] = e
  rw [he, List.drop_left, List.append_nil]

theorem delivered?_eq_some {x : Finished} (h : k.delivered? i = some x) :
    ∃ p, k.pipelines[i]? = some p ∧ p.record = x.record ∧ p.phase = .finished x.outcome := by
  obtain ⟨p, hp, hx⟩ := Option.bind_eq_some_iff.1 h
  refine ⟨p, hp, ?_⟩
  rw [Pipeline.finished?] at hx
  split at hx <;> cases hx
  exact ⟨rfl, by assumption⟩

theorem pipeline_of_submit (k : Kernel m.Job) (d : Document) (r : Record) :
    (k.submit d r).pipelines[k.pipelines.length]? = some ⟨d, r, .queued⟩ :=
  List.getElem?_concat_length

end

end Kernel

/-! ### The course of a queued request -/

namespace Record

/-- The record of a request that is under way. -/
structure Begun (r : Record) : Prop where
  running : r.state = .running
  started : r.startedAt.isSome

/-- The record of a request that has ended with this outcome. -/
structure Over (r : Record) (o : Outcome) : Prop where
  started : r.startedAt.isSome
  ended : r.endedAt.isSome
  state : r.state = match o with
    | .ok _ => .completed
    | .error _ => .failed

variable {r : Record}

theorem start_of_queued (h : r.state = .queued) (now : Moment) :
    r.start now = .ok { r with state := .running, startedAt := some now } := by
  rw [start, moveTo, h]
  rfl

theorem start_of_not_queued (h : r.state ≠ .queued) (now : Moment) :
    r.start now = .error (.invalidTransition r.state .running) := by
  have hno : r.state.leadsTo .running = false := by
    cases hs : r.state with
    | queued => exact absurd hs h
    | running | completed | failed => rfl
  rw [start, moveTo, hno]
  rfl

theorem Begun.conclude (h : r.Begun) (now : Moment) (o : Outcome) :
    ∃ r', r.conclude now o = .ok r' ∧ r'.Over o ∧ r'.cellIndex = r.cellIndex ∧
      r'.order = r.order := by
  cases o with
  | ok out =>
    refine ⟨{ r with state := .completed, endedAt := some now }, ?_, ⟨h.started, rfl, rfl⟩, rfl,
      rfl⟩
    rw [Record.conclude, complete, moveTo, h.running]
    rfl
  | error f =>
    refine ⟨{ r with state := .failed, endedAt := some now }, ?_, ⟨h.started, rfl, rfl⟩, rfl, rfl⟩
    rw [Record.conclude, fail, moveTo, h.running]
    rfl

end Record

theorem Event.ending_congr {r r' : Record} (hcell : r'.cellIndex = r.cellIndex)
    (horder : r'.order = r.order) (o : Outcome) : Event.ending r' o = .ending r o := by
  cases o <;> simp only [ending, hcell, horder]

namespace Kernel

variable {m : Machine} {s : Settings} {k k₁ : Kernel m.Job} {i : Nat} {as : List Action}
  {d : Document} {r : Record} {p p' : Pipeline m.Job} {now : Moment} {o : Outcome}

/-- Where the outcome of a request comes from. -/
inductive Cause (m : Machine) (s : Settings) (k : Kernel m.Job) (i : Nat) (as : List Action)
    (d : Document) (r : Record) : Outcome → Prop where
  | declined {f : Failure} (h : Program.prepare s.shape s.manifest d r.cellIndex = .error f) :
      Cause m s k i as d r (.error f)
  | refused {f : Failure} (h : Meets m s k i as (Refused s i f)) : Cause m s k i as d r (.error f)
  | stalled {f : Fault} (h : Meets m s k i as (Stalled m s i f)) :
      Cause m s k i as d r (.error (.spawn s.toolchain.program f))
  | exited {c : Completion} (h : Meets m s k i as (Exited m i c)) :
      Cause m s k i as d r (outcome s.toolchain c)

theorem Cause.concat (h : Cause m s k i as d r o) (a : Action) :
    Cause m s k i (as ++ [a]) d r o := by
  cases h with
  | declined h => exact .declined h
  | refused h => exact .refused (h.concat a)
  | stalled h => exact .stalled (h.concat a)
  | exited h => exact .exited (h.concat a)

/-- What is known in each phase of the record of a request, of what has been told of it, and of its
outcome. -/
def Stage {P : Type} (s : Settings) (d : Document) (r : Record) (now : Record) (es : List Event)
    (cause : Outcome → Prop) : Phase P → Prop
  | .queued => now = r ∧ es = []
  | .started => now.Begun ∧ es = [.started r.order r.cellIndex]
  | .waiting q | .holding q => now.Begun ∧ es = [.started r.order r.cellIndex] ∧
      Program.prepare s.shape s.manifest d r.cellIndex = .ok q
  | .ready _ | .running .. => now.Begun ∧ es = [.started r.order r.cellIndex] ∧
      ∃ q, Program.prepare s.shape s.manifest d r.cellIndex = .ok q
  | .releasing _ o | .removing _ o | .unlocking o =>
    now.Begun ∧ es = [.started r.order r.cellIndex] ∧ cause o ∧
      ∃ q, Program.prepare s.shape s.manifest d r.cellIndex = .ok q
  | .closing o => now.Begun ∧ es = [.started r.order r.cellIndex] ∧ cause o
  | .finished o => now.Over o ∧ es = [.started r.order r.cellIndex, .ending r o] ∧ cause o
  | .cancelled => True

/-- What is known of a queued request some time in a run. -/
structure Course (m : Machine) (s : Settings) (k : Kernel m.Job) (i : Nat) (as : List Action)
    (d : Document) (r : Record) (p : Pipeline m.Job) : Prop where
  document : p.document = d
  cell : p.record.cellIndex = r.cellIndex
  order : p.record.order = r.order
  stage : Stage s d r p.record (told m s i k as) (Cause m s k i as d r) p.phase

theorem Stage.mono {P : Type} {now : Record} {es : List Event} {cause cause' : Outcome → Prop}
    {f : Phase P} (h : Stage s d r now es cause f) (hcause : ∀ o, cause o → cause' o) :
    Stage s d r now es cause' f := by
  cases f with
  | releasing _ o | removing _ o | unlocking o => exact ⟨h.1, h.2.1, hcause o h.2.2.1, h.2.2.2⟩
  | closing o | finished o => exact ⟨h.1, h.2.1, hcause o h.2.2⟩
  | queued | started | waiting _ | holding _ | ready _ | running _ _ | cancelled => exact h

theorem Course.go (h : Course m s k i as d r p) {f : Phase m.Job}
    (hadvance : (k.perform m s as).advance m s now i = k₁.setPipeline i p')
    (hes : k₁.events = (k.perform m s as).events) (hp' : p' = { p with phase := f })
    (hf : Stage s d r p.record (told m s i k as)
      (Cause m s k i (as ++ [.step (.advance i now)]) d r) f) :
    Course m s k i (as ++ [.step (.advance i now)]) d r p' := by
  have htold : told m s i k (as ++ [.step (.advance i now)]) = told m s i k as := by
    rw [told_concat, told_advance (e := []) hadvance (by rw [hes, List.append_nil]),
      List.append_nil]
  subst hp'
  refine ⟨h.document, h.cell, h.order, ?_⟩
  rw [htold]
  exact hf

theorem Course.turn (h : Course m s k i as d r p) (hr : r.state = .queued)
    (hp : (k.perform m s as).pipelines[i]? = some p)
    (ht : Turn m s now (k.perform m s as) i p k₁ p')
    (hadvance : (k.perform m s as).advance m s now i = k₁.setPipeline i p') :
    Course m s k i (as ++ [.step (.advance i now)]) d r p' := by
  have hphase := phase_of_pipeline hp
  have hrequest : p.request? s = Program.prepare s.shape s.manifest d r.cellIndex := by
    rw [Pipeline.request?, h.document, h.cell]
  have hstage := h.stage
  have hnew := hstage.mono fun o (ho : Cause m s k i as d r o) =>
    ho.concat (.step (.advance i now))
  cases ht with
  | reject hf hstart =>
    rw [hf] at hstage
    obtain ⟨hrecord, -⟩ := hstage
    rw [hrecord, Record.start_of_queued hr] at hstart
    cases hstart
  | begin_ hf hstart =>
    rw [hf] at hstage
    obtain ⟨hrecord, hnone⟩ := hstage
    rw [hrecord, Record.start_of_queued hr] at hstart
    cases hstart
    have htold := told_advance hadvance rfl
    refine ⟨h.document, rfl, rfl, ⟨rfl, rfl⟩, ?_⟩
    rw [told_concat, hnone, htold]
    rfl
  | decline hf hdecline =>
    rw [hf] at hstage
    exact h.go hadvance rfl rfl ⟨hstage.1, hstage.2, .declined (hrequest ▸ hdecline)⟩
  | ask hf hq =>
    rw [hf] at hstage
    exact h.go hadvance rfl rfl ⟨hstage.1, hstage.2, hrequest ▸ hq⟩
  | wait hf _ => exact h.go hadvance rfl rfl hnew
  | hold hf _ =>
    rw [hf] at hnew
    exact h.go hadvance rfl rfl hnew
  | refuse hf hacquire =>
    rw [hf] at hstage hphase
    refine h.go hadvance rfl rfl
      ⟨hstage.1, hstage.2.1, .refused (meets_concat now ⟨_, hphase, ?_⟩), _, hstage.2.2⟩
    rw [hacquire]
  | acquire hf hacquire =>
    rw [hf] at hstage
    exact h.go hadvance rfl rfl ⟨hstage.1, hstage.2.1, _, hstage.2.2⟩
  | stall hf hstart =>
    rw [hf] at hstage hphase
    exact h.go hadvance rfl rfl
      ⟨hstage.1, hstage.2.1, .stalled (meets_concat now ⟨_, hphase, hstart⟩), hstage.2.2⟩
  | launch hf hstart =>
    rw [hf] at hnew
    exact h.go hadvance rfl rfl hnew
  | work hf hstep =>
    rw [hf] at hnew
    exact h.go hadvance rfl rfl hnew
  | exit hf hstep =>
    rw [hf] at hstage hphase
    refine h.go hadvance rfl rfl
      ⟨hstage.1, hstage.2.1, .exited (meets_concat now ⟨_, _, hphase, ?_⟩), hstage.2.2⟩
    rw [hstep]
  | release hf | clear hf _ =>
    rw [hf] at hnew
    exact h.go hadvance rfl rfl hnew
  | unlock hf =>
    rw [hf] at hnew
    exact h.go hadvance rfl rfl ⟨hnew.1, hnew.2.1, hnew.2.2.1⟩
  | await hf _ => exact h.go hadvance rfl rfl hnew
  -- What ends a record is one event, told with the record as it was when it began.
  | @close o r' hf hend =>
    rw [hf] at hnew
    obtain ⟨hbegun, hstarted, hcause⟩ := hnew
    obtain ⟨r'', hr'', hover, hcell, horder⟩ := hbegun.conclude now o
    obtain rfl : r'' = r' := Except.ok.inj (hr''.symm.trans hend)
    have hcell' := hcell.trans h.cell
    have horder' := horder.trans h.order
    have htold := told_advance hadvance rfl
    refine ⟨h.document, hcell', horder', hover, ?_, hcause⟩
    rw [told_concat, hstarted, htold, Event.ending_congr hcell' horder']
    rfl
  -- A record that has begun can be concluded, so that this turn is never taken.
  | misclose hf hend =>
    rw [hf] at hstage
    obtain ⟨r', hr', -⟩ := hstage.1.conclude now _
    rw [hr'] at hend
    cases hend
  | rest hf => exact h.go hadvance rfl rfl hnew

/-- The course of a request does not depend on what else happens. -/
theorem course_perform (hp : k.pipelines[i]? = some ⟨d, r, .queued⟩) (hr : r.state = .queued)
    (as : List Action) :
    ∃ p, (k.perform m s as).pipelines[i]? = some p ∧ Course m s k i as d r p := by
  induction as using List.reverseRecOn with
  | nil => exact ⟨_, hp, rfl, rfl, rfl, rfl, rfl⟩
  | append_singleton as a ih =>
    obtain ⟨p, hp, h⟩ := ih
    rw [perform_concat]
    rcases act_cases s hp a with ⟨now, k₁, p', rfl, ht, hadvance, hp'⟩ | ⟨ha, hp'⟩
    · exact ⟨p', hp', h.turn hr hp ht hadvance⟩
    · have htold : told m s i k (as ++ [a]) = told m s i k as := by
        rw [told_concat, told_of_ne ha, List.append_nil]
      rcases hp' with hp' | hp'
      · refine ⟨p, hp', h.document, h.cell, h.order, ?_⟩
        rw [htold]
        exact h.stage.mono fun o ho => ho.concat a
      · exact ⟨_, hp', h.document, h.cell, h.order, trivial⟩

/-- Only a cell that can be prepared gets so far that anything but its pipeline changes. -/
theorem Course.prepared_of_affects (h : Course m s k i as d r p)
    (hp : (k.perform m s as).pipelines[i]? = some p)
    (haffects : Affects m s i (k.perform m s as)) :
    ∃ q, Program.prepare s.shape s.manifest d r.cellIndex = .ok q := by
  obtain ⟨now, haffects⟩ := haffects
  obtain ⟨k₁, p', ht, -, hadvance⟩ := advance_turn s now hp
  have hrequest : p.request? s = Program.prepare s.shape s.manifest d r.cellIndex := by
    rw [Pipeline.request?, h.document, h.cell]
  have hstage := h.stage
  rw [hadvance] at haffects
  cases ht with
  | ask _ hq => exact ⟨_, hrequest ▸ hq⟩
  | wait hf _ | hold hf _ | refuse hf _ | acquire hf _ =>
    rw [hf] at hstage
    exact ⟨_, hstage.2.2⟩
  | work hf _ | exit hf _ =>
    rw [hf] at hstage
    exact hstage.2.2
  | release hf | unlock hf =>
    rw [hf] at hstage
    exact hstage.2.2.2
  | reject _ _ | begin_ _ _ | decline _ _ | stall _ _ | launch _ _ | await _ _ | clear _ _
  | close _ _ | misclose _ _ | rest _ => simp [setPipeline, tell] at haffects

/-! ### What follows from an incident -/

/-- The pipeline has this outcome, even if it is still to release what it has; or it has been given
up. -/
def Bound {P : Type} (o : Outcome) : Phase P → Prop
  | .releasing _ o' | .removing _ o' | .unlocking o' | .closing o' | .finished o' => o' = o
  | .cancelled => True
  | _ => False

/-- The process of the pipeline runs or has ended. -/
def Underway {P : Type} (tc : Program.Toolchain) (f : Phase P) : Prop :=
  (∃ w j, f = .running w j) ∨ ∃ c, Bound (outcome tc c) f

theorem Bound.turn (hbegun : ∀ o, p.phase = .closing o → p.record.Begun)
    (ht : Turn m s now k i p k₁ p') (h : Bound o p.phase) : Bound o p'.phase := by
  cases ht with
  | reject hf _ | begin_ hf _ | decline hf _ | ask hf _ | hold hf _ | refuse hf _
  | acquire hf _ | stall hf _ | launch hf _ | work hf _ | exit hf _ =>
    rw [hf] at h
    exact h.elim
  | wait _ _ | await _ _ | rest _ => exact h
  | release hf | clear hf _ | unlock hf | close hf _ =>
    rw [hf] at h
    exact h
  | misclose hf hend =>
    obtain ⟨r', hr', -⟩ := (hbegun _ hf).conclude now _
    rw [hr'] at hend
    cases hend

theorem Underway.turn (hbegun : ∀ o, p.phase = .closing o → p.record.Begun)
    (ht : Turn m s now k i p k₁ p') (h : Underway s.toolchain p.phase) :
    Underway s.toolchain p'.phase := by
  rcases h with ⟨w, j, hj⟩ | ⟨c, hc⟩
  · cases ht with
    | work hf _ => exact .inl ⟨_, _, rfl⟩
    | exit hf _ => exact .inr ⟨_, rfl⟩
    | wait _ _ | await _ _ | rest _ => exact .inl ⟨w, j, hj⟩
    | reject hf _ | begin_ hf _ | decline hf _ | ask hf _ | hold hf _ | refuse hf _ | acquire hf _
    | stall hf _ | launch hf _ | release hf | clear hf _ | unlock hf | close hf _
    | misclose hf _ =>
      rw [hf] at hj
      cases hj
  · exact .inr ⟨c, hc.turn hbegun ht⟩

/-- What holds of the phase of a pipeline however it goes on holds from then on. -/
theorem phase_perform {Q : Phase m.Job → Prop} (hcancelled : Q .cancelled)
    (hturn : ∀ (now : Moment) (k k₁ : Kernel m.Job) (p p' : Pipeline m.Job),
      (∀ o, p.phase = .closing o → p.record.Begun) → Turn m s now k i p k₁ p' →
        Q p.phase → Q p'.phase)
    (hp : k.pipelines[i]? = some ⟨d, r, .queued⟩) (hr : r.state = .queued) (pre post : List Action)
    (h : ∃ f, (k.perform m s pre).phase? i = some f ∧ Q f) :
    ∃ f, (k.perform m s (pre ++ post)).phase? i = some f ∧ Q f := by
  induction post using List.reverseRecOn with
  | nil => rwa [List.append_nil]
  | append_singleton post a ih =>
    obtain ⟨p, hp', hcourse⟩ := course_perform (s := s) hp hr (pre ++ post)
    obtain ⟨f, hf, hQ⟩ := ih
    obtain rfl : p.phase = f := Option.some.inj ((phase_of_pipeline hp').symm.trans hf)
    rw [← List.append_assoc, perform_concat]
    rcases act_cases s hp' a with ⟨now, k₁, p', rfl, ht, -, hp''⟩ | ⟨-, hp''⟩
    · refine ⟨_, phase_of_pipeline hp'', hturn now _ k₁ p p' (fun o ho => ?_) ht hQ⟩
      have hstage := hcourse.stage
      rw [ho] at hstage
      exact hstage.1
    · rcases hp'' with hp'' | hp''
      · exact ⟨_, phase_of_pipeline hp'', hQ⟩
      · exact ⟨_, phase_of_pipeline hp'', hcancelled⟩

/-- What follows from how the pipeline goes on once holds from then on. -/
theorem Meets.phase {Q : Phase m.Job → Prop} {C : Kernel m.Job → Prop} (hcancelled : Q .cancelled)
    (hturn : ∀ (now : Moment) (k k₁ : Kernel m.Job) (p p' : Pipeline m.Job),
      (∀ o, p.phase = .closing o → p.record.Begun) → Turn m s now k i p k₁ p' →
        Q p.phase → Q p'.phase)
    (hp : k.pipelines[i]? = some ⟨d, r, .queued⟩) (hr : r.state = .queued)
    (hC : ∀ (k : Kernel m.Job) (now : Moment), C k →
      ∃ f, (k.advance m s now i).phase? i = some f ∧ Q f)
    (h : Meets m s k i as C) : ∃ f, (k.perform m s as).phase? i = some f ∧ Q f := by
  obtain ⟨pre, now, post, rfl, hmet⟩ := h
  have hnext := hC _ now hmet
  rw [← List.singleton_append, ← List.append_assoc]
  refine phase_perform hcancelled hturn hp hr (pre ++ [.step (.advance i now)]) post ?_
  rw [perform_concat]
  exact hnext

theorem phase_of_refused {f : Failure} (h : Refused s i f k) (now : Moment) :
    (k.advance m s now i).phase? i = some (.unlocking (.error f)) := by
  obtain ⟨q, hq, hacquire⟩ := h
  obtain ⟨p, hp, hf⟩ := pipeline_of_phase hq
  obtain ⟨t, ht⟩ : ∃ t, Workspace.acquire k.tree s.here s.scratch q.key s.manifest q.program =
      (t, .error f) := ⟨_, Prod.ext rfl hacquire⟩
  rw [advance, hp]
  simp only [hf, Kernel.acquire, ht]
  exact phase_of_pipeline (getElem?_setPipeline hp rfl)

theorem phase_of_stalled {f : Fault} (h : Stalled m s i f k) (now : Moment) :
    ∃ w, (k.advance m s now i).phase? i =
      some (.releasing w (.error (.spawn s.toolchain.program f))) := by
  obtain ⟨w, hw, hstart⟩ := h
  obtain ⟨p, hp, hf⟩ := pipeline_of_phase hw
  refine ⟨w, ?_⟩
  rw [advance, hp]
  simp only [hf, Kernel.launch, hstart]
  exact phase_of_pipeline (getElem?_setPipeline hp rfl)

theorem phase_of_launched (h : Launched m s i k) (now : Moment) :
    ∃ w j, (k.advance m s now i).phase? i = some (.running w j) := by
  obtain ⟨w, j, hw, hstart⟩ := h
  obtain ⟨p, hp, hf⟩ := pipeline_of_phase hw
  refine ⟨w, j, ?_⟩
  rw [advance, hp]
  simp only [hf, Kernel.launch, hstart]
  exact phase_of_pipeline (getElem?_setPipeline hp rfl)

theorem phase_of_exited {c : Completion} (h : Exited m i c k) (now : Moment) :
    ∃ w, (k.advance m s now i).phase? i = some (.releasing w (outcome s.toolchain c)) := by
  obtain ⟨w, j, hw, hstep⟩ := h
  obtain ⟨p, hp, hf⟩ := pipeline_of_phase hw
  obtain ⟨t, ht⟩ : ∃ t, m.step j k.tree = (t, .inr c) := ⟨_, Prod.ext rfl hstep⟩
  refine ⟨w, ?_⟩
  rw [advance, hp]
  simp only [hf, Kernel.work, ht]
  exact phase_of_pipeline (getElem?_setPipeline hp rfl)

section

variable (hp : k.pipelines[i]? = some ⟨d, r, .queued⟩) (hr : r.state = .queued)
  {x : Finished} (hx : (k.perform m s as).delivered? i = some x)

include hp hr hx

theorem outcome_of_meets {C : Kernel m.Job → Prop} (h : Meets m s k i as C)
    (hC : ∀ (k : Kernel m.Job) (now : Moment), C k →
      ∃ f, (k.advance m s now i).phase? i = some f ∧ Bound o f) : x.outcome = o := by
  obtain ⟨f, hf, hbound⟩ := h.phase trivial (fun _ _ _ _ _ => Bound.turn) hp hr hC
  obtain ⟨p, hp', -, hfinished⟩ := delivered?_eq_some hx
  have heq := (phase_of_pipeline hp').symm.trans hf
  rw [hfinished] at heq
  cases heq
  exact hbound

theorem outcome_of_refused {f : Failure} (h : Meets m s k i as (Refused s i f)) :
    x.outcome = .error f :=
  outcome_of_meets hp hr hx h fun _ now hC => ⟨_, phase_of_refused hC now, rfl⟩

theorem outcome_of_stalled {f : Fault} (h : Meets m s k i as (Stalled m s i f)) :
    x.outcome = .error (.spawn s.toolchain.program f) :=
  outcome_of_meets hp hr hx h fun _ now hC =>
    let ⟨_, hw⟩ := phase_of_stalled hC now
    ⟨_, hw, rfl⟩

theorem outcome_of_exited {c : Completion} (h : Meets m s k i as (Exited m i c)) :
    x.outcome = outcome s.toolchain c :=
  outcome_of_meets hp hr hx h fun _ now hC =>
    let ⟨_, hw⟩ := phase_of_exited hC now
    ⟨_, hw, rfl⟩

theorem outcome_of_launched (h : Meets m s k i as (Launched m s i)) :
    ∃ c, x.outcome = outcome s.toolchain c := by
  obtain ⟨f, hf, hunderway⟩ := h.phase (Q := Underway s.toolchain)
    (.inr ⟨⟨.status 0, [], []⟩, trivial⟩) (fun _ _ _ _ _ => Underway.turn) hp hr fun _ now hC =>
      let ⟨w, j, hw⟩ := phase_of_launched hC now
      ⟨_, hw, .inl ⟨w, j, rfl⟩⟩
  obtain ⟨p, hp', -, hfinished⟩ := delivered?_eq_some hx
  have heq := (phase_of_pipeline hp').symm.trans hf
  rw [hfinished] at heq
  cases heq
  rcases hunderway with ⟨w, j, hj⟩ | ⟨c, hc⟩
  · cases hj
  · exact ⟨c, hc⟩

end

end Kernel

end Execution

end Notebook
