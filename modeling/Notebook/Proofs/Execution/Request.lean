import Notebook.Proofs.Execution.Progress
import Notebook.Proofs.Execution.Removal

/-!
One request from beginning to end: what is delivered, and that something is.
-/

namespace Notebook.Execution

open Files (Path Place Tree Fault)
open Program (Prepared Toolchain)

theorem outcome_cases (tc : Toolchain) (c : Completion) :
    (∃ code, c.exit = .status code ∧ outcome tc c =
      .ok ⟨Text.Utf8.decodeLossy c.stdout, Text.Utf8.decodeLossy c.stderr, some code⟩) ∨
    ∃ n, c.exit = .signal n ∧ outcome tc c = .error (.terminated tc.program (some n)) := by
  cases h : c.exit with
  | status code => exact .inl ⟨code, rfl, by rw [outcome, h]⟩
  | signal n => exact .inr ⟨n, rfl, by rw [outcome, h]⟩

namespace Kernel

variable {m : Machine} {s : Settings} {k k₁ : Kernel m.Job} {i : Nat} {as : List Action}
  {d : Document} {r : Record} {p p' : Pipeline m.Job} {x : Finished}

/-! ### Requests that are not queued -/

/-- A request that is not queued is done with at once, or given up before. -/
structure Void (m : Machine) (s : Settings) (k : Kernel m.Job) (i : Nat) (as : List Action)
    (r : Record) (p : Pipeline m.Job) : Prop where
  record : p.record = r
  untold : told m s i k as = []
  phase : p.phase = .queued ∨ p.phase = .cancelled ∨
    p.phase = .finished (.error (.invalidTransition r.state .running))

theorem Void.turn {now : Moment} (h : Void m s k i as r p) (hr : r.state ≠ .queued)
    (ht : Turn m s now (k.perform m s as) i p k₁ p')
    (hadvance : (k.perform m s as).advance m s now i = k₁.setPipeline i p') :
    k₁ = k.perform m s as ∧ Void m s k i (as ++ [.step (.advance i now)]) r p' := by
  have htold (hk₁ : k₁ = k.perform m s as) :
      told m s i k (as ++ [.step (.advance i now)]) = [] := by
    rw [told_concat, h.untold, told_advance (e := []) hadvance (by rw [hk₁, List.append_nil]),
      List.append_nil]
  cases ht with
  | reject hf hstart =>
    rw [h.record, Record.start_of_not_queued hr] at hstart
    cases hstart
    exact ⟨rfl, h.record, htold rfl, .inr (.inr rfl)⟩
  | begin_ hf hstart =>
    rw [h.record, Record.start_of_not_queued hr] at hstart
    cases hstart
  | rest hf => exact ⟨rfl, h.record, htold rfl, h.phase⟩
  | decline hf _ | ask hf _ | wait hf _ | hold hf _ | refuse hf _ | acquire hf _ | stall hf _
  | launch hf _ | work hf _ | exit hf _ | release hf | await hf _ | clear hf _ | unlock hf
  | close hf _ | misclose hf _ =>
    have hphase := h.phase
    rw [hf] at hphase
    rcases hphase with hphase | hphase | hphase <;> cases hphase

theorem void_perform (hp : k.pipelines[i]? = some ⟨d, r, .queued⟩) (hr : r.state ≠ .queued)
    (as : List Action) :
    ∃ p, (k.perform m s as).pipelines[i]? = some p ∧ Void m s k i as r p := by
  induction as using List.reverseRecOn with
  | nil => exact ⟨_, hp, rfl, rfl, .inl rfl⟩
  | append_singleton as a ih =>
    obtain ⟨p, hp, h⟩ := ih
    rw [perform_concat]
    rcases act_cases s hp a with ⟨now, k₁, p', rfl, ht, hadvance, hp'⟩ | ⟨ha, hp'⟩
    · exact ⟨p', hp', (h.turn hr ht hadvance).2⟩
    · have htold : told m s i k (as ++ [a]) = [] := by
        rw [told_concat, told_of_ne ha, h.untold, List.append_nil]
      rcases hp' with hp' | hp'
      · exact ⟨p, hp', h.record, htold, h.phase⟩
      · exact ⟨_, hp', h.record, htold, .inr (.inl rfl)⟩

theorem not_affects_of_not_queued (hp : k.pipelines[i]? = some ⟨d, r, .queued⟩)
    (hr : r.state ≠ .queued) : ¬ Meets m s k i as (Affects m s i) := by
  rintro ⟨pre, -, -, -, now, haffects⟩
  obtain ⟨p, hp', hvoid⟩ := void_perform (s := s) hp hr pre
  obtain ⟨k₁, p', ht, -, hadvance⟩ := advance_turn s now hp'
  rw [hadvance, (hvoid.turn hr ht hadvance).1] at haffects
  simp [setPipeline] at haffects

/-! ### Queued requests -/

/-- What a queued request comes to: its record is the one that was asked for, with its times and
with the state that its outcome calls for, its start and its end are told, and its outcome is what
happened on the way. -/
structure Delivered (m : Machine) (s : Settings) (k : Kernel m.Job) (i : Nat) (as : List Action)
    (d : Document) (r : Record) (x : Finished) : Prop where
  cell : x.record.cellIndex = r.cellIndex
  order : x.record.order = r.order
  ended : x.record.Over x.outcome
  told : told m s i k as = [.started r.order r.cellIndex, .ending x.record x.outcome]
  notFound : x.outcome = .error (.cellNotFound r.cellIndex) ↔ d.cells.length ≤ r.cellIndex
  notExecutable : x.outcome = .error (.notExecutable r.cellIndex) ↔
    ∃ t, d.cells[r.cellIndex]? = some (.markup t)
  unprepared : (d.cells.length ≤ r.cellIndex ∨ ∃ t, d.cells[r.cellIndex]? = some (.markup t)) →
    ¬ Meets m s k i as (Affects m s i) ∧ ¬ Meets m s k i as (Launched m s i)
  workspace : ∀ path cause, x.outcome = .error (.workspace path cause) ↔
    Meets m s k i as (Refused s i (.workspace path cause))
  refused : ∀ f, Meets m s k i as (Refused s i f) → (∃ path cause, f = .workspace path cause) ∧
    ¬ Meets m s k i as (Launched m s i)
  spawn : ∀ f, x.outcome = .error (.spawn s.toolchain.program f) ↔
    Meets m s k i as (Stalled m s i f)
  terminated : ∀ n : Nat, x.outcome = .error (.terminated s.toolchain.program (some n)) ↔
    ∃ c, Meets m s k i as (Exited m i c) ∧ c.exit = .signal n
  ok : ∀ out, x.outcome = .ok out ↔ ∃ c code, Meets m s k i as (Exited m i c) ∧
    c.exit = .status code ∧
      out = ⟨Text.Utf8.decodeLossy c.stdout, Text.Utf8.decodeLossy c.stderr, some code⟩
  failure : ∀ f, x.outcome = .error f → f = .cellNotFound r.cellIndex ∨
    f = .notExecutable r.cellIndex ∨ (∃ path cause, f = .workspace path cause) ∨
    (∃ cause, f = .spawn s.toolchain.program cause) ∨
    ∃ n : Nat, f = .terminated s.toolchain.program (some n)

theorem not_prepared
    (h : d.cells.length ≤ r.cellIndex ∨ ∃ t, d.cells[r.cellIndex]? = some (.markup t)) :
    ¬ ∃ q, Program.prepare s.shape s.manifest d r.cellIndex = .ok q := by
  rintro ⟨q, hq⟩
  rcases h with hd | ⟨t, ht⟩
  · rw [Program.prepare_of_none (List.getElem?_eq_none_iff.2 hd)] at hq
    cases hq
  · rw [Program.prepare_of_markup ht] at hq
    cases hq

section

variable (hp : k.pipelines[i]? = some ⟨d, r, .queued⟩) (hr : r.state = .queued)

include hp hr

theorem prepared_of_meets {C : Kernel m.Job → Prop} (h : Meets m s k i as C)
    (hC : ∀ k, C k → ∃ f, k.phase? i = some f ∧ ((∃ q, f = .holding q) ∨ f.workspace?.isSome)) :
    ∃ q, Program.prepare s.shape s.manifest d r.cellIndex = .ok q := by
  obtain ⟨pre, now, post, -, hmet⟩ := h
  obtain ⟨p, hp', hcourse⟩ := course_perform (s := s) hp hr pre
  obtain ⟨f, hf, hcases⟩ := hC _ hmet
  obtain rfl : p.phase = f := Option.some.inj ((phase_of_pipeline hp').symm.trans hf)
  have hstage := hcourse.stage
  rcases hcases with ⟨q, hq⟩ | hw
  · rw [hq] at hstage
    exact ⟨q, hstage.2.2⟩
  · cases hphase : p.phase with
    | ready _ | running _ _ =>
      rw [hphase] at hstage
      exact hstage.2.2
    | releasing _ _ =>
      rw [hphase] at hstage
      exact hstage.2.2.2
    | queued | started | waiting _ | holding _ | removing _ _ | unlocking _ | closing _
    | finished _ | cancelled =>
      rw [hphase] at hw
      cases hw

theorem prepared_of_refused {f : Failure} (h : Meets m s k i as (Refused s i f)) :
    ∃ q, Program.prepare s.shape s.manifest d r.cellIndex = .ok q :=
  prepared_of_meets hp hr h fun _ ⟨q, hq, _⟩ => ⟨_, hq, .inl ⟨q, rfl⟩⟩

theorem prepared_of_stalled {f : Fault} (h : Meets m s k i as (Stalled m s i f)) :
    ∃ q, Program.prepare s.shape s.manifest d r.cellIndex = .ok q :=
  prepared_of_meets hp hr h fun _ ⟨_, hw, _⟩ => ⟨_, hw, .inr rfl⟩

theorem prepared_of_launched (h : Meets m s k i as (Launched m s i)) :
    ∃ q, Program.prepare s.shape s.manifest d r.cellIndex = .ok q :=
  prepared_of_meets hp hr h fun _ ⟨_, _, hw, _⟩ => ⟨_, hw, .inr rfl⟩

theorem prepared_of_exited {c : Completion} (h : Meets m s k i as (Exited m i c)) :
    ∃ q, Program.prepare s.shape s.manifest d r.cellIndex = .ok q :=
  prepared_of_meets hp hr h fun _ ⟨_, _, hw, _⟩ => ⟨_, hw, .inr rfl⟩

theorem prepared_of_affects (h : Meets m s k i as (Affects m s i)) :
    ∃ q, Program.prepare s.shape s.manifest d r.cellIndex = .ok q := by
  obtain ⟨pre, now, post, -, haffects⟩ := h
  obtain ⟨p, hp', hcourse⟩ := course_perform (s := s) hp hr pre
  exact hcourse.prepared_of_affects hp' haffects

end

theorem failure_of_refused {f : Failure} (h : Meets m s k i as (Refused s i f)) :
    ∃ path cause, f = .workspace path cause := by
  obtain ⟨_, _, _, _, _, _, hacquire⟩ := h
  exact Workspace.acquire_error (Prod.ext rfl hacquire)

/-- How a request came to its outcome. -/
inductive Verdict (m : Machine) (s : Settings) (k : Kernel m.Job) (i : Nat) (as : List Action)
    (d : Document) (r : Record) : Outcome → Prop where
  | notFound (h : d.cells[r.cellIndex]? = none) :
      Verdict m s k i as d r (.error (.cellNotFound r.cellIndex))
  | notExecutable {t : List Char} (h : d.cells[r.cellIndex]? = some (.markup t)) :
      Verdict m s k i as d r (.error (.notExecutable r.cellIndex))
  | refused {path : Path} {cause : Fault}
      (h : Meets m s k i as (Refused s i (.workspace path cause))) :
      Verdict m s k i as d r (.error (.workspace path cause))
  | stalled {f : Fault} (h : Meets m s k i as (Stalled m s i f)) :
      Verdict m s k i as d r (.error (.spawn s.toolchain.program f))
  | terminated {c : Completion} {n : Nat} (h : Meets m s k i as (Exited m i c))
      (hn : c.exit = .signal n) :
      Verdict m s k i as d r (.error (.terminated s.toolchain.program (some n)))
  | exited {c : Completion} {code : Nat} (h : Meets m s k i as (Exited m i c))
      (hcode : c.exit = .status code) :
      Verdict m s k i as d r
        (.ok ⟨Text.Utf8.decodeLossy c.stdout, Text.Utf8.decodeLossy c.stderr, some code⟩)

theorem Cause.verdict {o : Outcome} (h : Cause m s k i as d r o) : Verdict m s k i as d r o := by
  cases h with
  | declined h =>
    rcases Program.prepare_cases s.shape s.manifest d r.cellIndex with ⟨hd, hp⟩ | ⟨t, hd, hp⟩ |
      ⟨c, q, -, -, hp⟩
    · rw [hp] at h
      cases h
      exact .notFound hd
    · rw [hp] at h
      cases h
      exact .notExecutable hd
    · rw [hp] at h
      cases h
  | refused h =>
    obtain ⟨path, cause, rfl⟩ := failure_of_refused h
    exact .refused h
  | stalled h => exact .stalled h
  | @exited c h =>
    rcases outcome_cases s.toolchain c with ⟨code, hcode, ho⟩ | ⟨n, hn, ho⟩
    · rw [ho]
      exact .exited h hcode
    · rw [ho]
      exact .terminated h hn

namespace Verdict

variable {o : Outcome}

theorem exited_of_terminated (h : Verdict m s k i as d r o) {n : Nat}
    (ho : o = .error (.terminated s.toolchain.program (some n))) :
    ∃ c, Meets m s k i as (Exited m i c) ∧ c.exit = .signal n := by
  cases h with
  | terminated hmet hn =>
    simp only [Except.error.injEq, Failure.terminated.injEq, Option.some.injEq, Int.natCast_inj,
      true_and] at ho
    exact ⟨_, hmet, ho ▸ hn⟩
  | notFound _ | notExecutable _ | refused _ | stalled _ | exited _ _ => cases ho

theorem exited_of_ok (h : Verdict m s k i as d r o) {out : Output} (ho : o = .ok out) :
    ∃ c code, Meets m s k i as (Exited m i c) ∧ c.exit = .status code ∧
      out = ⟨Text.Utf8.decodeLossy c.stdout, Text.Utf8.decodeLossy c.stderr, some code⟩ := by
  cases h with
  | exited hmet hcode => exact ⟨_, _, hmet, hcode, (Except.ok.inj ho).symm⟩
  | notFound _ | notExecutable _ | refused _ | stalled _ | terminated _ _ => cases ho

theorem failure_cases (h : Verdict m s k i as d r o) {f : Failure} (ho : o = .error f) :
    f = .cellNotFound r.cellIndex ∨ f = .notExecutable r.cellIndex ∨
      (∃ path cause, f = .workspace path cause) ∨
      (∃ cause, f = .spawn s.toolchain.program cause) ∨
      ∃ n : Nat, f = .terminated s.toolchain.program (some n) := by
  cases h with
  | notFound _ => exact .inl (Except.error.inj ho).symm
  | notExecutable _ => exact .inr (.inl (Except.error.inj ho).symm)
  | refused _ => exact .inr (.inr (.inl ⟨_, _, (Except.error.inj ho).symm⟩))
  | stalled _ => exact .inr (.inr (.inr (.inl ⟨_, (Except.error.inj ho).symm⟩)))
  | terminated _ _ => exact .inr (.inr (.inr (.inr ⟨_, (Except.error.inj ho).symm⟩)))
  | exited _ _ => cases ho

end Verdict

section

variable (hp : k.pipelines[i]? = some ⟨d, r, .queued⟩) (hr : r.state = .queued)
  (hx : (k.perform m s as).delivered? i = some x)

include hp hr hx

theorem course_of_delivered : x.record.cellIndex = r.cellIndex ∧ x.record.order = r.order ∧
    x.record.Over x.outcome ∧
    told m s i k as = [.started r.order r.cellIndex, .ending x.record x.outcome] ∧
    Cause m s k i as d r x.outcome := by
  obtain ⟨p, hp', hrecord, hfinished⟩ := delivered?_eq_some hx
  obtain ⟨p₁, hp₁, hcourse⟩ := course_perform (s := s) hp hr as
  obtain rfl : p₁ = p := Option.some.inj (hp₁.symm.trans hp')
  have hstage := hcourse.stage
  have hcell := hcourse.cell
  have horder := hcourse.order
  rw [hfinished] at hstage
  rw [hrecord] at hstage hcell horder
  obtain ⟨hover, htold, hcause⟩ := hstage
  exact ⟨hcell, horder, hover, by rw [htold, Event.ending_congr hcell horder], hcause⟩

theorem verdict_of_delivered : Verdict m s k i as d r x.outcome := by
  obtain ⟨-, -, -, -, hcause⟩ := course_of_delivered hp hr hx
  exact hcause.verdict

theorem outcome_of_declined {f : Failure}
    (hf : Program.prepare s.shape s.manifest d r.cellIndex = .error f) : x.outcome = .error f := by
  have hno : ¬ ∃ q, Program.prepare s.shape s.manifest d r.cellIndex = .ok q := by
    rintro ⟨q, hq⟩
    rw [hf] at hq
    cases hq
  obtain ⟨-, -, -, -, hcause⟩ := course_of_delivered hp hr hx
  generalize x.outcome = o at hcause ⊢
  cases hcause with
  | declined h => rw [Except.error.inj (hf.symm.trans h)]
  | refused h => exact absurd (prepared_of_refused hp hr h) hno
  | stalled h => exact absurd (prepared_of_stalled hp hr h) hno
  | exited h => exact absurd (prepared_of_exited hp hr h) hno

theorem not_launched_of_refused {f : Failure} (h : Meets m s k i as (Refused s i f)) :
    ¬ Meets m s k i as (Launched m s i) := by
  intro hlaunched
  obtain ⟨c, hc⟩ := outcome_of_launched hp hr hx hlaunched
  obtain ⟨path, cause, rfl⟩ := failure_of_refused h
  rw [outcome_of_refused hp hr hx h] at hc
  rcases outcome_cases s.toolchain c with ⟨code, -, ho⟩ | ⟨n, -, ho⟩
  · rw [ho] at hc
    cases hc
  · rw [ho] at hc
    cases hc

theorem outcome_notFound_iff :
    x.outcome = .error (.cellNotFound r.cellIndex) ↔ d.cells.length ≤ r.cellIndex := by
  constructor
  · intro h
    have hverdict := verdict_of_delivered hp hr hx
    rw [h] at hverdict
    cases hverdict with
    | notFound hd => exact List.getElem?_eq_none_iff.1 hd
  · intro hd
    exact outcome_of_declined hp hr hx (Program.prepare_of_none (List.getElem?_eq_none_iff.2 hd))

theorem outcome_notExecutable_iff :
    x.outcome = .error (.notExecutable r.cellIndex) ↔
      ∃ t, d.cells[r.cellIndex]? = some (.markup t) := by
  constructor
  · intro h
    have hverdict := verdict_of_delivered hp hr hx
    rw [h] at hverdict
    cases hverdict with
    | notExecutable hd => exact ⟨_, hd⟩
  · rintro ⟨t, ht⟩
    exact outcome_of_declined hp hr hx (Program.prepare_of_markup ht)

theorem outcome_workspace_iff (path : Path) (cause : Fault) :
    x.outcome = .error (.workspace path cause) ↔
      Meets m s k i as (Refused s i (.workspace path cause)) := by
  refine ⟨fun h => ?_, outcome_of_refused hp hr hx⟩
  have hverdict := verdict_of_delivered hp hr hx
  rw [h] at hverdict
  cases hverdict with
  | refused h => exact h

theorem outcome_spawn_iff (f : Fault) :
    x.outcome = .error (.spawn s.toolchain.program f) ↔ Meets m s k i as (Stalled m s i f) := by
  refine ⟨fun h => ?_, outcome_of_stalled hp hr hx⟩
  have hverdict := verdict_of_delivered hp hr hx
  rw [h] at hverdict
  cases hverdict with
  | stalled h => exact h

theorem outcome_terminated_iff (n : Nat) :
    x.outcome = .error (.terminated s.toolchain.program (some n)) ↔
      ∃ c, Meets m s k i as (Exited m i c) ∧ c.exit = .signal n := by
  constructor
  · exact fun h => (verdict_of_delivered hp hr hx).exited_of_terminated h
  · rintro ⟨c, hmet, hn⟩
    rw [outcome_of_exited hp hr hx hmet, outcome, hn]

theorem outcome_ok_iff (out : Output) :
    x.outcome = .ok out ↔ ∃ c code, Meets m s k i as (Exited m i c) ∧ c.exit = .status code ∧
      out = ⟨Text.Utf8.decodeLossy c.stdout, Text.Utf8.decodeLossy c.stderr, some code⟩ := by
  constructor
  · exact fun h => (verdict_of_delivered hp hr hx).exited_of_ok h
  · rintro ⟨c, code, hmet, hcode, rfl⟩
    rw [outcome_of_exited hp hr hx hmet, outcome, hcode]

theorem delivered_of_queued : Delivered m s k i as d r x := by
  obtain ⟨hcell, horder, hended, htold, -⟩ := course_of_delivered hp hr hx
  exact
    { cell := hcell
      order := horder
      ended := hended
      told := htold
      notFound := outcome_notFound_iff hp hr hx
      notExecutable := outcome_notExecutable_iff hp hr hx
      unprepared := fun hd =>
        ⟨fun h => not_prepared hd (prepared_of_affects hp hr h),
          fun h => not_prepared hd (prepared_of_launched hp hr h)⟩
      workspace := outcome_workspace_iff hp hr hx
      refused := fun f h => ⟨failure_of_refused h, not_launched_of_refused hp hr hx h⟩
      spawn := outcome_spawn_iff hp hr hx
      terminated := outcome_terminated_iff hp hr hx
      ok := outcome_ok_iff hp hr hx
      failure := fun f h => (verdict_of_delivered hp hr hx).failure_cases h }

end

/-- What a request comes to, and that it comes to something. One that is not queued is given back as
it is and changes nothing but its pipeline. A queued one is delivered. If nobody has or awaits its
key and its process ends, then steps of its own bring any request to its end. -/
theorem request_delivered (m : Machine) (s : Settings) (k : Kernel m.Job) (d : Document)
    (r : Record) :
    (∀ as x, ((k.submit d r).perform m s as).delivered? k.pipelines.length = some x →
      (r.state ≠ .queued →
        x = ⟨r, .error (.invalidTransition r.state .running)⟩ ∧
        told m s k.pipelines.length (k.submit d r) as = [] ∧
        ¬ Meets m s (k.submit d r) k.pipelines.length as (Affects m s k.pipelines.length)) ∧
      (r.state = .queued → Delivered m s (k.submit d r) k.pipelines.length as d r x)) ∧
    ∀ now, (∀ q, Program.prepare s.shape s.manifest d r.cellIndex = .ok q →
        k.locks.slot? q.key = none) → Terminates m s k.tree d r.cellIndex →
      Finishes m s now k.pipelines.length k.removals.length (k.submit d r) := by
  have hp := pipeline_of_submit k d r
  refine ⟨fun as x hx => ⟨fun hr => ⟨?_, ?_, not_affects_of_not_queued hp hr⟩,
      fun hr => delivered_of_queued hp hr hx⟩,
    fun now hfree hend => finishes_of_queued hp rfl hfree hend⟩
  · obtain ⟨p, hp', hrecord, hfinished⟩ := delivered?_eq_some hx
    obtain ⟨p₁, hp₁, hvoid⟩ := void_perform (s := s) hp hr as
    obtain rfl : p₁ = p := Option.some.inj (hp₁.symm.trans hp')
    have hphase := hvoid.phase
    rw [hfinished] at hphase
    rcases hphase with hphase | hphase | hphase
    · cases hphase
    · cases hphase
    · obtain ⟨r', o⟩ := x
      cases hphase
      exact congrArg (Finished.mk · _) (hrecord.symm.trans hvoid.record)
  · obtain ⟨p, -, hvoid⟩ := void_perform (s := s) hp hr as
    exact hvoid.untold

/-! A cell is run to its end, and a record that has been completed is given back. -/

def errand : List Action :=
  (List.replicate 7 (Step.advance 0 .epoch) ++ [Step.remove 0] ++
    List.replicate 3 (Step.advance 0 .epoch)).map .step

theorem request_delivered_errand :
    (∃ x, (((start .empty .fresh).submit ⟨[.code []]⟩ (.queued 0 1)).perform idle plain
        errand).delivered? 0 = some x ∧
      Delivered idle plain ((start .empty .fresh).submit ⟨[.code []]⟩ (.queued 0 1)) 0 errand
        ⟨[.code []]⟩ (.queued 0 1) x) ∧
    (∃ x, (((start .empty .fresh).submit ⟨[.code []]⟩ ⟨0, 1, .completed, none, none⟩).perform idle
        plain [.step (.advance 0 .epoch)]).delivered? 0 = some x ∧
      x = ⟨⟨0, 1, .completed, none, none⟩, .error (.invalidTransition .completed .running)⟩) ∧
    Finishes idle plain .epoch 0 0 ((start .empty .fresh).submit ⟨[.code []]⟩ (.queued 0 1)) := by
  have hqueued :=
    request_delivered idle plain (start .empty .fresh) ⟨[.code []]⟩ (.queued 0 1)
  have hcompleted :=
    request_delivered idle plain (start .empty .fresh) ⟨[.code []]⟩ ⟨0, 1, .completed, none, none⟩
  refine ⟨?_, ?_, ?_⟩
  · have hended : (((start .empty .fresh).submit ⟨[.code []]⟩ (.queued 0 1)).perform idle plain
        errand).delivered? 0 |>.isSome := by decide +kernel
    obtain ⟨x, hx⟩ := Option.isSome_iff_exists.1 hended
    exact ⟨x, hx, (hqueued.1 errand x hx).2 rfl⟩
  · refine ⟨_, rfl, ((hcompleted.1 [.step (.advance 0 .epoch)] _ rfl).1 ?_).1⟩
    decide
  · exact hqueued.2 .epoch (fun _ _ => rfl) fun _ _ _ _ _ _ _ => ⟨1, rfl⟩

end Kernel

end Notebook.Execution
