import Notebook.Execution.Record

/-!
The life of a record, whatever calls are made on it and whatever the clock says. The state tells
which of the two times are set, each of them is set once, by the call that took the record there,
and a call that is refused changes nothing.
-/

namespace Notebook.Execution

namespace State

/-- How far a state is on the way from the queue to an end. -/
def stage : State → Nat
  | queued => 0
  | running => 1
  | completed | failed => 2

theorem stage_of_leadsTo {s t : State} (h : s.leadsTo t = true) : t.stage = s.stage + 1 := by
  cases s <;> cases t <;> first | rfl | cases h

end State

namespace Record

/-- A call that is to take a record on. -/
inductive Call where
  | start
  | complete
  | fail
  deriving DecidableEq, Repr

/-- The state that a call asks for. -/
def Call.target : Call → State
  | start => .running
  | complete => .completed
  | fail => .failed

/-- What comes of a call at this time. -/
def call (r : Record) (c : Call) (now : Moment) : Except Failure Record :=
  match c with
  | .start => r.start now
  | .complete => r.complete now
  | .fail => r.fail now

/-- The record after a call. If the call is refused, it is the one from before. -/
def settle (r : Record) (a : Call × Moment) : Record :=
  match r.call a.1 a.2 with
  | .ok r => r
  | .error _ => r

def after (r : Record) (calls : List (Call × Moment)) : Record := calls.foldl settle r

/-- Those of the calls that succeed, in their order. -/
def accepted (r : Record) : List (Call × Moment) → List (Call × Moment)
  | [] => []
  | a :: calls =>
    match r.call a.1 a.2 with
    | .ok r => a :: r.accepted calls
    | .error _ => r.accepted calls

/-- The state of the record tells which of its times are set. -/
structure Timed (r : Record) : Prop where
  started : r.startedAt.isSome = true ↔ r.state ≠ .queued
  ended : r.endedAt.isSome = true ↔ r.state.isTerminal = true

variable {r : Record} {c : Call} {now : Moment} {calls later : List (Call × Moment)}

/-! ### One call -/

/-- The record in the state that a call asks for, stamped with the time of the call. -/
def stamped (r : Record) (c : Call) (now : Moment) : Record :=
  match c with
  | .start => { r with state := .running, startedAt := some now }
  | .complete => { r with state := .completed, endedAt := some now }
  | .fail => { r with state := .failed, endedAt := some now }

@[simp] theorem stamped_state : (r.stamped c now).state = c.target := by cases c <;> rfl

@[simp] theorem stamped_cellIndex : (r.stamped c now).cellIndex = r.cellIndex := by
  cases c <;> rfl

@[simp] theorem stamped_order : (r.stamped c now).order = r.order := by cases c <;> rfl

theorem call_of_leadsTo (h : r.state.leadsTo c.target = true) (now : Moment) :
    r.call c now = .ok (r.stamped c now) := by
  cases c <;> simp only [Call.target] at h <;>
    simp only [call, start, complete, fail, moveTo, h, if_true] <;> rfl

theorem call_of_not_leadsTo (h : r.state.leadsTo c.target = false) (now : Moment) :
    r.call c now = .error (.invalidTransition r.state c.target) := by
  cases c <;> simp only [Call.target] at h <;>
    simp only [call, start, complete, fail, moveTo, h, Bool.false_eq_true, if_false] <;> rfl

theorem settle_of_leadsTo (h : r.state.leadsTo c.target = true) :
    r.settle (c, now) = r.stamped c now := by
  rw [settle, call_of_leadsTo h]

theorem settle_of_not_leadsTo (h : r.state.leadsTo c.target = false) : r.settle (c, now) = r := by
  rw [settle, call_of_not_leadsTo h]

theorem accepted_of_leadsTo (h : r.state.leadsTo c.target = true) :
    r.accepted ((c, now) :: calls) = (c, now) :: (r.stamped c now).accepted calls := by
  rw [accepted, call_of_leadsTo h]

theorem accepted_of_not_leadsTo (h : r.state.leadsTo c.target = false) :
    r.accepted ((c, now) :: calls) = r.accepted calls := by
  rw [accepted, call_of_not_leadsTo h]

/-- What one call can do. -/
theorem settle_cases (r : Record) (a : Call × Moment) :
    r.settle a = r ∨ (r.state.leadsTo a.1.target = true ∧ r.settle a = r.stamped a.1 a.2) := by
  cases h : r.state.leadsTo a.1.target with
  | true => exact .inr ⟨rfl, settle_of_leadsTo h⟩
  | false => exact .inl (settle_of_not_leadsTo h)

theorem Timed.stamped (hr : r.Timed) (h : r.state.leadsTo c.target = true) :
    (r.stamped c now).Timed := by
  have hopen : r.state.leadsTo c.target = true → r.state.isTerminal = false := by
    cases r.state <;> simp [State.leadsTo, State.isTerminal]
  have hended : r.endedAt.isSome = false := by
    rw [← Bool.not_eq_true, hr.ended, hopen h]
    exact Bool.false_ne_true
  cases c with
  | start => exact ⟨by simp [Record.stamped], by simp [Record.stamped, State.isTerminal, hended]⟩
  | complete | fail =>
    have hrunning : r.state = .running := by
      cases hs : r.state <;> simp [hs, State.leadsTo, Call.target] at h ⊢
    have hstarted : r.startedAt.isSome = true := hr.started.2 (by simp [hrunning])
    exact ⟨by simp [Record.stamped, hstarted], by simp [Record.stamped, State.isTerminal]⟩

theorem Timed.settle (hr : r.Timed) (a : Call × Moment) : (r.settle a).Timed := by
  rcases settle_cases r a with heq | ⟨h, heq⟩
  · rw [heq]
    exact hr
  · rw [heq]
    exact hr.stamped h

/-! ### All calls -/

theorem after_append : r.after (calls ++ later) = (r.after calls).after later :=
  List.foldl_append

theorem Timed.after (hr : r.Timed) (calls : List (Call × Moment)) : (r.after calls).Timed := by
  induction calls generalizing r with
  | nil => exact hr
  | cons a calls ih => exact ih (hr.settle a)

theorem timed_queued (cell order : Nat) : (queued cell order).Timed :=
  ⟨by simp [queued], by simp [queued, State.isTerminal]⟩

theorem Timed.duration (hr : r.Timed) :
    r.duration?.isSome = true ↔ r.state.isTerminal = true := by
  rw [← hr.ended, duration?]
  cases hended : r.endedAt with
  | none => simp
  | some t =>
    have hterminal := hr.ended.1 (by simp [hended])
    have hstarted := hr.started.2 (by rintro hq; simp [hq, State.isTerminal] at hterminal)
    obtain ⟨s, hs⟩ := Option.isSome_iff_exists.1 hstarted
    simp [hs]

theorem after_request (r : Record) (calls : List (Call × Moment)) :
    (r.after calls).cellIndex = r.cellIndex ∧ (r.after calls).order = r.order := by
  induction calls generalizing r with
  | nil => exact ⟨rfl, rfl⟩
  | cons a calls ih =>
    obtain ⟨hcell, horder⟩ := ih (r.settle a)
    rw [after, List.foldl_cons]
    rcases settle_cases r a with heq | ⟨-, heq⟩
    · rw [heq] at hcell horder ⊢
      exact ⟨hcell, horder⟩
    · rw [heq] at hcell horder ⊢
      exact ⟨hcell.trans stamped_cellIndex, horder.trans stamped_order⟩

/-- A record that has left the queue keeps the time at which it started. -/
theorem after_startedAt (h : r.state ≠ .queued) (calls : List (Call × Moment)) :
    (r.after calls).startedAt = r.startedAt := by
  induction calls generalizing r with
  | nil => rfl
  | cons a calls ih =>
    rcases settle_cases r a with heq | ⟨hleads, heq⟩
    · rw [after, List.foldl_cons, heq]
      exact ih h
    · obtain ⟨c, now⟩ := a
      rw [after, List.foldl_cons, heq]
      cases c with
      | start => cases hs : r.state <;> simp [hs, State.leadsTo, Call.target] at hleads h
      | complete | fail => exact ih (by simp [Call.target])

/-- A record that has come to its end stays as it is. -/
theorem after_of_isTerminal (h : r.state.isTerminal = true) (calls : List (Call × Moment)) :
    r.after calls = r := by
  induction calls with
  | nil => rfl
  | cons a calls ih =>
    rw [after, List.foldl_cons,
      settle_of_not_leadsTo (State.leadsTo_of_isTerminal h a.1.target)]
    exact ih

/-- Of the calls for one stage at most one succeeds, and none if the record is as far already. -/
theorem countP_accepted_le (r : Record) (calls : List (Call × Moment)) (n : Nat) :
    (r.accepted calls).countP (fun a => a.1.target.stage = n) ≤
      if r.state.stage < n then 1 else 0 := by
  induction calls generalizing r with
  | nil => exact Nat.zero_le _
  | cons a calls ih =>
    obtain ⟨c, now⟩ := a
    cases h : r.state.leadsTo c.target with
    | false =>
      rw [accepted_of_not_leadsTo h]
      exact ih r
    | true =>
      have hstage := State.stage_of_leadsTo h
      have hrest := ih (r.stamped c now)
      rw [stamped_state] at hrest
      rw [accepted_of_leadsTo h, List.countP_cons]
      by_cases hn : c.target.stage = n
      · simp only [hn, decide_true, if_true]
        split at hrest <;> split <;> omega
      · simp only [hn, decide_false, Bool.false_eq_true, if_false]
        split at hrest <;> split <;> omega

/-- The time at which the call succeeded that took the record to this stage, if one did. -/
def reachedAt (r : Record) (calls : List (Call × Moment)) (n : Nat) : Option Moment :=
  ((r.accepted calls).find? fun a => a.1.target.stage = n).map (·.2)

theorem reachedAt_of_leadsTo (h : r.state.leadsTo c.target = true) (n : Nat) :
    r.reachedAt ((c, now) :: calls) n =
      if c.target.stage = n then some now else (r.stamped c now).reachedAt calls n := by
  rw [reachedAt, accepted_of_leadsTo h, List.find?_cons]
  by_cases hn : c.target.stage = n <;> simp [hn, reachedAt]

theorem reachedAt_of_not_leadsTo (h : r.state.leadsTo c.target = false) (n : Nat) :
    r.reachedAt ((c, now) :: calls) n = r.reachedAt calls n := by
  rw [reachedAt, accepted_of_not_leadsTo h, reachedAt]

/-- What is stamped is the time of the call that succeeded. -/
theorem times_after (r : Record) (calls : List (Call × Moment)) :
    (r.after calls).startedAt = (r.reachedAt calls 1).or r.startedAt ∧
      (r.after calls).endedAt = (r.reachedAt calls 2).or r.endedAt := by
  induction calls generalizing r with
  | nil => exact ⟨rfl, rfl⟩
  | cons a calls ih =>
    obtain ⟨c, now⟩ := a
    rw [after, List.foldl_cons]
    cases h : r.state.leadsTo c.target with
    | false =>
      rw [settle_of_not_leadsTo h, reachedAt_of_not_leadsTo h, reachedAt_of_not_leadsTo h]
      exact ih r
    | true =>
      rw [settle_of_leadsTo h, reachedAt_of_leadsTo h, reachedAt_of_leadsTo h]
      cases c with
      | start =>
        exact ⟨after_startedAt (by simp [Call.target]) calls, (ih (r.stamped .start now)).2⟩
      | complete =>
        refine ⟨(ih (r.stamped .complete now)).1, ?_⟩
        exact congrArg endedAt (after_of_isTerminal (r := r.stamped .complete now) rfl calls)
      | fail =>
        refine ⟨(ih (r.stamped .fail now)).1, ?_⟩
        exact congrArg endedAt (after_of_isTerminal (r := r.stamped .fail now) rfl calls)

theorem Timed.startedAt_after (hr : r.Timed) (calls : List (Call × Moment)) :
    r.startedAt = none ∨ (r.after calls).startedAt = r.startedAt := by
  by_cases hq : r.state = .queued
  · refine .inl (Option.not_isSome_iff_eq_none.1 fun hs => ?_)
    exact hr.started.1 hs hq
  · exact .inr (after_startedAt hq calls)

theorem Timed.endedAt_after (hr : r.Timed) (calls : List (Call × Moment)) :
    r.endedAt = none ∨ (r.after calls).endedAt = r.endedAt := by
  by_cases ht : r.state.isTerminal = true
  · exact .inr (congrArg endedAt (after_of_isTerminal ht calls))
  · refine .inl (Option.not_isSome_iff_eq_none.1 fun hs => ?_)
    exact ht (hr.ended.1 hs)

/-- Whatever calls are made on a queued record, its cell and its number stay. It has a start time as
soon as it is not queued any more, and an end time and a duration just in case that it has come to
an end. Of the calls that start it at most one succeeds, and of those that end it at most one, each
time is that of the call that succeeded, and once it is set it stays. A call succeeds just in case
that the state leads where it is to go. One that fails names both states, and the record is the same
afterwards. -/
theorem life_cycle (cell order : Nat) (calls : List (Call × Moment)) :
    let r := (queued cell order).after calls
    let log := (queued cell order).accepted calls
    (r.cellIndex = cell ∧ r.order = order) ∧
    (r.startedAt.isSome = true ↔ r.state ≠ .queued) ∧
    (r.endedAt.isSome = true ↔ r.state.isTerminal = true) ∧
    (r.duration?.isSome = true ↔ r.state.isTerminal = true) ∧
    (log.countP (fun a => a.1 = .start) ≤ 1 ∧ log.countP (fun a => a.1 ≠ .start) ≤ 1) ∧
    (r.startedAt = (log.find? fun a => a.1 = .start).map (·.2) ∧
      r.endedAt = (log.find? fun a => a.1 ≠ .start).map (·.2)) ∧
    (∀ later, (r.startedAt = none ∨ (r.after later).startedAt = r.startedAt) ∧
      (r.endedAt = none ∨ (r.after later).endedAt = r.endedAt)) ∧
    ∀ c now, (r.state.leadsTo c.target = true → ∃ r', r.call c now = .ok r' ∧
        r'.state = c.target) ∧
      ∀ f, r.call c now = .error f → r.state.leadsTo c.target = false ∧
        f = .invalidTransition r.state c.target ∧
        (queued cell order).after (calls ++ [(c, now)]) = r := by
  intro r log
  have hr : r.Timed := (timed_queued cell order).after calls
  have hstart : (fun a : Call × Moment => decide (a.1 = .start)) =
      fun a => decide (a.1.target.stage = 1) := by
    funext ⟨c, now⟩
    cases c <;> rfl
  have hend : (fun a : Call × Moment => decide (a.1 ≠ .start)) =
      fun a => decide (a.1.target.stage = 2) := by
    funext ⟨c, now⟩
    cases c <;> rfl
  have hcount := countP_accepted_le (queued cell order) calls
  have htimes := times_after (queued cell order) calls
  refine ⟨after_request _ calls, hr.started, hr.ended, hr.duration,
    ?_, ?_, fun later => ⟨hr.startedAt_after later, hr.endedAt_after later⟩, fun c now => ⟨?_, ?_⟩⟩
  · rw [hstart, hend]
    exact ⟨hcount 1, hcount 2⟩
  · rw [hstart, hend]
    exact ⟨htimes.1.trans Option.or_none, htimes.2.trans Option.or_none⟩
  · intro h
    exact ⟨_, call_of_leadsTo h now, stamped_state⟩
  · intro f hf
    cases h : r.state.leadsTo c.target with
    | true =>
      rw [call_of_leadsTo h] at hf
      cases hf
    | false =>
      rw [call_of_not_leadsTo h] at hf
      refine ⟨rfl, (Except.error.inj hf).symm, ?_⟩
      rw [after_append]
      exact settle_of_not_leadsTo h

/-- Calls out of turn and after the end, with a clock that goes backwards. -/
def restless : List (Call × Moment) :=
  [(.complete, ⟨4, 0, 0⟩), (.start, ⟨3, 0, 0⟩), (.start, ⟨2, 0, 0⟩), (.fail, ⟨1, 0, 0⟩),
    (.complete, .epoch)]

theorem life_cycle_restless :
    (queued 3 7).after restless = ⟨3, 7, .failed, some ⟨3, 0, 0⟩, some ⟨1, 0, 0⟩⟩ ∧
    ((queued 3 7).after restless).call .start .epoch =
      .error (.invalidTransition .failed .running) ∧
    (queued 3 7).after (restless ++ [(.start, .epoch)]) = (queued 3 7).after restless := by
  obtain ⟨-, -, -, -, -, -, -, hcalls⟩ := life_cycle 3 7 restless
  exact ⟨rfl, rfl, ((hcalls .start .epoch).2 _ rfl).2.2⟩

end Record

end Notebook.Execution
