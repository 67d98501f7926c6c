import Notebook.Proofs.Execution.Turn

/-!
What programs print, and with what status they exit, comes out in outputs and nowhere else: kernels
whose processes differ in no more than that go the same way.
-/

namespace Notebook.Execution

open Files (Tree)

/-- The processes ended in the same way, but for what they wrote and their status. -/
def Completion.Like (c c' : Completion) : Prop :=
  c'.exit = c.exit ∨ ∃ n n', c.exit = .status n ∧ c'.exit = .status n'

/-- The same failure, or two outputs. -/
def Outcome.Like (o o' : Outcome) : Prop := o' = o ∨ ∃ out out', o = .ok out ∧ o' = .ok out'

theorem Outcome.Like.isOk_iff {o o' : Outcome} (h : Outcome.Like o o') :
    (∃ out, o = .ok out) ↔ ∃ out, o' = .ok out := by
  rcases h with rfl | ⟨out, out', rfl, rfl⟩
  · rfl
  · simp

namespace Machine

/-- The machine with processes that work in another way. -/
abbrev withStep (m : Machine) (step : m.Job → Tree → Tree × (m.Job ⊕ Completion)) : Machine :=
  { m with step }

/-- The processes do the same, but for what they write and their status. -/
def Retells (m : Machine) (step : m.Job → Tree → Tree × (m.Job ⊕ Completion)) : Prop :=
  ∀ j t, (step j t).1 = (m.step j t).1 ∧
    Sum.LiftRel Eq Completion.Like (m.step j t).2 (step j t).2

end Machine

theorem outcome_like {c c' : Completion} (h : c.Like c') (tc : Program.Toolchain) :
    Outcome.Like (outcome tc c) (outcome tc c') := by
  rcases h with h | ⟨n, n', hn, hn'⟩
  · rw [outcome, outcome, h]
    cases c.exit with
    | status n => exact .inr ⟨_, _, rfl, rfl⟩
    | signal n => exact .inl rfl
  · rw [outcome, outcome, hn, hn']
    exact .inr ⟨_, _, rfl, rfl⟩

/-- Phases that differ at most in an output. -/
inductive Phase.Like {P : Type} : Phase P → Phase P → Prop where
  | same (f : Phase P) : Like f f
  | releasing {o o' : Outcome} (w : Workspace) (h : Outcome.Like o o') :
      Like (.releasing w o) (.releasing w o')
  | removing {o o' : Outcome} (n : Nat) (h : Outcome.Like o o') :
      Like (.removing n o) (.removing n o')
  | unlocking {o o' : Outcome} (h : Outcome.Like o o') : Like (.unlocking o) (.unlocking o')
  | closing {o o' : Outcome} (h : Outcome.Like o o') : Like (.closing o) (.closing o')
  | finished {o o' : Outcome} (h : Outcome.Like o o') : Like (.finished o) (.finished o')

structure Pipeline.Like {P : Type} (p p' : Pipeline P) : Prop where
  document : p'.document = p.document
  record : p'.record = p.record
  phase : p.phase.Like p'.phase

theorem Pipeline.like_refl {P : Type} (p : Pipeline P) : p.Like p := ⟨rfl, rfl, .same _⟩

namespace Kernel

/-- Kernels that differ at most in outputs. -/
structure Like {P : Type} (k k' : Kernel P) : Prop where
  tree : k'.tree = k.tree
  locks : k'.locks = k.locks
  pipelines : List.Forall₂ Pipeline.Like k.pipelines k'.pipelines
  removals : k'.removals = k.removals
  events : k'.events = k.events
  counter : k'.counter = k.counter

variable {m : Machine} {s : Settings} {k k' : Kernel m.Job} {i : Nat} {p p' : Pipeline m.Job}
  {now : Moment} {o o' : Outcome}

theorem like_refl (k : Kernel m.Job) : k.Like k :=
  ⟨rfl, rfl, List.forall₂_same.2 fun p _ => p.like_refl, rfl, rfl, rfl⟩

theorem Like.setPipeline (h : k.Like k') {p q : Pipeline m.Job} (hlike : p.Like q) (i : Nat) :
    (k.setPipeline i p).Like (k'.setPipeline i q) := by
  refine ⟨h.tree, h.locks, ?_, h.removals, h.events, h.counter⟩
  show List.Forall₂ _ (k.pipelines.set i p) (k'.pipelines.set i q)
  have hall := List.forall₂_iff_get.1 h.pipelines
  refine List.forall₂_iff_get.2
    ⟨by rw [List.length_set, List.length_set, hall.1], fun j h₁ h₂ => ?_⟩
  simp only [List.get_eq_getElem, List.getElem_set]
  split
  · exact hlike
  · exact hall.2 j (by simpa using h₁) (by simpa using h₂)

theorem Like.getElem? (h : k.Like k') (i : Nat) :
    (k.pipelines[i]? = none ∧ k'.pipelines[i]? = none) ∨
      ∃ p p', k.pipelines[i]? = some p ∧ k'.pipelines[i]? = some p' ∧ p.Like p' := by
  have hlength := h.pipelines.length_eq
  rcases Nat.lt_or_ge i k.pipelines.length with hlt | hge
  · refine .inr ⟨_, _, List.getElem?_eq_getElem hlt, List.getElem?_eq_getElem (hlength ▸ hlt), ?_⟩
    exact h.pipelines.get hlt (hlength ▸ hlt)
  · exact .inl ⟨List.getElem?_eq_none hge, List.getElem?_eq_none (hlength ▸ hge)⟩

theorem Like.setPhase (h : k.Like k') (hp : p.Like p') (i : Nat) {f f' : Phase m.Job}
    (hf : f.Like f') : (k.setPhase i p f).Like (k'.setPhase i p' f') :=
  h.setPipeline (p := { p with phase := f }) (q := { p' with phase := f' })
    ⟨hp.document, hp.record, hf⟩ i

theorem Like.tell (h : k.Like k') (e : Event) : (k.tell e).Like (k'.tell e) :=
  ⟨h.tree, h.locks, h.pipelines, h.removals, congrArg (· ++ [e]) h.events, h.counter⟩

theorem Like.withTree (h : k.Like k') (t : Tree) :
    ({ k with tree := t } : Kernel m.Job).Like { k' with tree := t } :=
  ⟨rfl, h.locks, h.pipelines, h.removals, h.events, h.counter⟩

theorem Like.withLocks (h : k.Like k') (l : Locks) :
    ({ k with locks := l } : Kernel m.Job).Like { k' with locks := l } :=
  ⟨h.tree, rfl, h.pipelines, h.removals, h.events, h.counter⟩

theorem Like.withRemovals (h : k.Like k') (rs : List Removal) :
    ({ k with removals := rs } : Kernel m.Job).Like { k' with removals := rs } :=
  ⟨h.tree, h.locks, h.pipelines, rfl, h.events, h.counter⟩

/-! ### Steps -/

theorem Like.begin_ (h : k.Like k') (now : Moment) (i : Nat) (p : Pipeline m.Job) :
    (k.begin_ now i p).Like (k'.begin_ now i p) := by
  rw [Kernel.begin_, Kernel.begin_]
  cases p.record.start now with
  | error f => exact h.setPhase p.like_refl i (.same _)
  | ok r => exact (h.setPipeline (Pipeline.like_refl _) i).tell _

theorem Like.ask (h : k.Like k') (s : Settings) (i : Nat) (p : Pipeline m.Job) :
    (k.ask s i p).Like (k'.ask s i p) := by
  rw [Kernel.ask, Kernel.ask, h.locks]
  cases Program.prepare s.shape s.manifest p.document p.record.cellIndex with
  | error f => exact h.setPhase p.like_refl i (.same _)
  | ok q => exact (h.withLocks _).setPhase p.like_refl i (.same _)

theorem Like.wait (h : k.Like k') (i : Nat) (p : Pipeline m.Job) (q : Program.Prepared) :
    (k.wait i p q).Like (k'.wait i p q) := by
  rw [Kernel.wait, Kernel.wait, h.locks]
  split
  · exact (h.withLocks _).setPhase p.like_refl i (.same _)
  · exact h.withLocks _

theorem Like.acquire (h : k.Like k') (s : Settings) (i : Nat) (p : Pipeline m.Job)
    (q : Program.Prepared) : (k.acquire s i p q).Like (k'.acquire s i p q) := by
  rw [Kernel.acquire, Kernel.acquire, h.tree]
  split
  · exact (h.withTree _).setPhase p.like_refl i (.same _)
  · exact (h.withTree _).setPhase p.like_refl i (.same _)

theorem Like.release (h : k.Like k') (hp : p.Like p') (ho : Outcome.Like o o') (i : Nat)
    (w : Workspace) : (k.release i p w o).Like (k'.release i p' w o') := by
  rw [Kernel.release, Kernel.release, h.removals]
  exact (h.withRemovals _).setPhase hp i (.removing _ ho)

theorem Like.awaitRemoval (h : k.Like k') (hp : p.Like p') (ho : Outcome.Like o o') (i n : Nat) :
    (k.awaitRemoval i p n o).Like (k'.awaitRemoval i p' n o') := by
  rw [Kernel.awaitRemoval, Kernel.awaitRemoval, h.removals]
  split
  · exact h.setPhase hp i (.unlocking ho)
  · exact h

theorem Like.unlock (h : k.Like k') (hp : p.Like p') (ho : Outcome.Like o o') (i : Nat) :
    (k.unlock i p o).Like (k'.unlock i p' o') := by
  rw [Kernel.unlock, Kernel.unlock, h.locks]
  exact (h.withLocks _).setPhase hp i (.closing ho)

theorem Like.close (h : k.Like k') (hp : p.Like p') (ho : Outcome.Like o o') (i : Nat)
    (now : Moment) : (k.close now i p o).Like (k'.close now i p' o') := by
  have hconclude : p'.record.conclude now o' = p.record.conclude now o := by
    rw [hp.record]
    rcases ho with rfl | ⟨out, out', rfl, rfl⟩ <;> rfl
  have hending (r : Record) : Event.ending r o' = Event.ending r o := by
    rcases ho with rfl | ⟨out, out', rfl, rfl⟩ <;> rfl
  rw [close_eq, close_eq, hconclude]
  cases p.record.conclude now o with
  | ok r =>
    simp only [hending]
    exact (h.tell _).setPipeline (p := { p with record := r, phase := .finished o })
      (q := { p' with record := r, phase := .finished o' }) ⟨hp.document, rfl, .finished ho⟩ i
  | error f =>
    have hset := (h.tell (.ending p.record (.error f))).setPhase hp i (.same (.finished (.error f)))
    simpa only [Kernel.setPhase, hp.record] using hset

theorem Like.work {g : m.Job → Tree → Tree × (m.Job ⊕ Completion)} (h : k.Like k')
    (hm : m.Retells g) (s : Settings) (i : Nat) (p : Pipeline m.Job) (w : Workspace) (j : m.Job) :
    (k.work m s i p w j).Like (Kernel.work (m.withStep g) s i p w j k') := by
  obtain ⟨htree, hend⟩ := hm j k.tree
  rw [Kernel.work, Kernel.work, h.tree]
  rcases hstep : m.step j k.tree with ⟨t, r⟩
  rcases hstep' : (m.withStep g).step j k.tree with ⟨t', r'⟩
  have heq : g j k.tree = (t', r') := hstep'
  rw [hstep, heq] at htree hend
  obtain rfl : t' = t := htree
  cases hend with
  | inl hj =>
    cases hj
    exact (h.withTree _).setPhase p.like_refl i (.same _)
  | inr hc => exact (h.withTree _).setPhase p.like_refl i (.releasing w (outcome_like hc _))

theorem Like.advance {g : m.Job → Tree → Tree × (m.Job ⊕ Completion)} (h : k.Like k')
    (hm : m.Retells g) (s : Settings) (now : Moment) (i : Nat) :
    (k.advance m s now i).Like (Kernel.advance (m.withStep g) s now i k') := by
  rcases h.getElem? i with ⟨hp, hp'⟩ | ⟨p, p', hp, hp', hlike⟩
  · rw [Kernel.advance, Kernel.advance, hp, hp']
    exact h
  · rw [Kernel.advance, Kernel.advance, hp, hp']
    have hphase := hlike.phase
    obtain ⟨d, r, f⟩ := p
    obtain ⟨d', r', f'⟩ := p'
    obtain rfl : d' = d := hlike.document
    obtain rfl : r' = r := hlike.record
    cases hphase with
    | same f =>
      cases f with
      | queued => exact h.begin_ now i _
      | started => exact h.ask s i _
      | waiting q => exact h.wait i _ q
      | holding q => exact h.acquire s i _ q
      | ready w =>
        show (k.launch m s i _ w).Like (Kernel.launch (m.withStep g) s i _ w k')
        rw [Kernel.launch, Kernel.launch, h.tree]
        cases m.start s.toolchain k.tree s.here w.root with
        | ok j => exact h.setPhase (Pipeline.like_refl _) i (.same _)
        | error f => exact h.setPhase (Pipeline.like_refl _) i (.same _)
      | running w j => exact h.work hm s i _ w j
      | releasing w o => exact h.release hlike (.inl rfl) i w
      | removing n o => exact h.awaitRemoval hlike (.inl rfl) i n
      | unlocking o => exact h.unlock hlike (.inl rfl) i
      | closing o => exact h.close hlike (.inl rfl) i now
      | finished _ | cancelled => exact h
    | releasing w ho => exact h.release hlike ho i w
    | removing n ho => exact h.awaitRemoval hlike ho i n
    | unlocking ho => exact h.unlock hlike ho i
    | closing ho => exact h.close hlike ho i now
    | finished ho => exact h

theorem Like.cancel (h : k.Like k') (here : Files.Place) (i : Nat) :
    (k.cancel here i).Like (k'.cancel here i) := by
  rcases h.getElem? i with ⟨hp, hp'⟩ | ⟨p, p', hp, hp', hlike⟩
  · rw [Kernel.cancel, Kernel.cancel, hp, hp']
    exact h
  · have hset := h.setPhase hlike i (.same .cancelled)
    have hdrop := (h.withLocks (k.locks.drop i)).setPhase hlike i (.same .cancelled)
    rw [Kernel.cancel, Kernel.cancel, hp, hp', h.locks]
    have hphase := hlike.phase
    obtain ⟨d, r, f⟩ := p
    obtain ⟨d', r', f'⟩ := p'
    cases hphase with
    | same f =>
      cases f with
      | queued => exact hset
      | waiting q => exact hdrop
      | removing n o => exact hdrop
      | running w j =>
        have hgone := hdrop.withTree (w.remove k.tree here)
        rw [← h.tree] at hgone ⊢
        exact hgone
      | started | holding _ | ready _ | releasing _ _ | unlocking _ | closing _ | finished _
      | cancelled => exact h
    | removing n ho => exact hdrop
    | releasing w ho | unlocking ho | closing ho | finished ho => exact h

theorem Like.remove (h : k.Like k') (here : Files.Place) (j : Nat) :
    (k.remove here j).Like (k'.remove here j) := by
  rw [Kernel.remove, Kernel.remove, h.removals, h.tree]
  split
  · exact (h.withTree _).withRemovals _
  · exact h

variable {g : m.Job → Tree → Tree × (m.Job ⊕ Completion)}

theorem Like.step (h : k.Like k') (hm : m.Retells g) (s : Settings) (a : Step) :
    (k.step m s a).Like (Kernel.step (m.withStep g) s k' a) := by
  cases a with
  | advance i now => exact h.advance hm s now i
  | cancel i => exact h.cancel s.here i
  | remove j => exact h.remove s.here j

theorem Like.run (h : k.Like k') (hm : m.Retells g) (s : Settings) (steps : List Step) :
    (k.run m s steps).Like (Kernel.run (m.withStep g) s k' steps) := by
  induction steps generalizing k k' with
  | nil => exact h
  | cons a steps ih => exact ih (h.step hm s a)

end Kernel

/-- Requests that ended in the same way, but for their outputs. -/
structure Finished.Like (x x' : Finished) : Prop where
  record : x'.record = x.record
  outcome : Outcome.Like x.outcome x'.outcome

theorem Pipeline.Like.finished? {P : Type} {p p' : Pipeline P} (h : p.Like p') :
    (p.finished? = none ∧ p'.finished? = none) ∨
      ∃ x x', p.finished? = some x ∧ p'.finished? = some x' ∧ x.Like x' := by
  have hrecord := h.record
  have hphase := h.phase
  obtain ⟨d, r, f⟩ := p
  obtain ⟨d', r', f'⟩ := p'
  rw [Pipeline.finished?, Pipeline.finished?]
  cases hphase with
  | same f =>
    cases f with
    | finished o => exact .inr ⟨_, _, rfl, rfl, hrecord, .inl rfl⟩
    | queued | started | waiting _ | holding _ | ready _ | running _ _ | releasing _ _
    | removing _ _ | unlocking _ | closing _ | cancelled => exact .inl ⟨rfl, rfl⟩
  | finished ho => exact .inr ⟨_, _, rfl, rfl, hrecord, ho⟩
  | releasing _ _ | removing _ _ | unlocking _ | closing _ => exact .inl ⟨rfl, rfl⟩

theorem Kernel.Like.finished? {P : Type} {k k' : Kernel P} (h : k.Like k') (first : Nat) :
    (k.finished? first = none ∧ k'.finished? first = none) ∨ ∃ xs xs',
      k.finished? first = some xs ∧ k'.finished? first = some xs' ∧
        List.Forall₂ Finished.Like xs xs' := by
  have hall := List.forall₂_drop first h.pipelines
  rw [Kernel.finished?, Kernel.finished?]
  generalize k.pipelines.drop first = ps at hall
  generalize k'.pipelines.drop first = ps' at hall
  induction hall with
  | nil => exact .inr ⟨[], [], rfl, rfl, .nil⟩
  | cons hp _ ih =>
    rw [List.mapM_cons, List.mapM_cons]
    rcases hp.finished? with ⟨hx, hx'⟩ | ⟨x, x', hx, hx', hlike⟩
    · rw [hx, hx']
      exact .inl ⟨rfl, rfl⟩
    · rw [hx, hx']
      rcases ih with ⟨hxs, hxs'⟩ | ⟨xs, xs', hxs, hxs', hlikes⟩
      · rw [hxs, hxs']
        exact .inl ⟨rfl, rfl⟩
      · rw [hxs, hxs']
        exact .inr ⟨_, _, rfl, rfl, .cons hlike hlikes⟩

end Notebook.Execution
