import Notebook.Proofs.Execution.Run

/-!
Removals of workspaces, when pipelines may be given up at any time. A removal that somebody still
waits for disturbs nobody. One whose pipeline has been given up meanwhile does, as soon as another
pipeline has got the key.
-/

namespace Notebook.Execution

open Files (Path Place Tree)
open Program (Key Prepared)

namespace Kernel

/-- The step removes a workspace, on its own or on behalf of a pipeline that does so in this very
step: one that is given up at work, or one that cannot populate what it has made. -/
inductive Removes {P : Type} (s : Settings) (k : Kernel P) :
    Step → Workspace → Option Nat → Prop where
  | task {j : Nat} {w : Workspace} (h : k.removals[j]? = some ⟨w, false⟩) :
      Removes s k (.remove j) w none
  | drop {i : Nat} {w : Workspace} {process : P} (h : k.phase? i = some (.running w process)) :
      Removes s k (.cancel i) w (some i)
  | undo {i : Nat} {now : Moment} {q : Prepared} {t t' : Tree} {f : Failure}
      (h : k.phase? i = some (.holding q))
      (hmade : k.tree.makePath s.here (Workspace.ofKey s.scratch q.key).sourceDirectory = (t, none))
      (hfailed : (Workspace.ofKey s.scratch q.key).populate t s.here s.manifest q.program =
        .error (t', f)) :
      Removes s k (.advance i now) (.ofKey s.scratch q.key) (some i)

/-- No workspace is removed while another pipeline uses its key. -/
def Exclusive {P : Type} (s : Settings) (k : Kernel P) (a : Step) : Prop :=
  ∀ w remover i, k.Removes s a w remover → remover ≠ some i → ¬ k.Uses i w.key

variable {m : Machine} {s : Settings} {k : Kernel m.Job}

/-- Such a step leaves the tree without the workspace. -/
theorem tree_of_removes {a : Step} {w : Workspace} {remover : Option Nat}
    (h : k.Removes s a w remover) : ∃ t, (k.step m s a).tree = w.remove t s.here := by
  cases h with
  | task h =>
    refine ⟨k.tree, ?_⟩
    rw [step, remove, h]
  | drop h =>
    obtain ⟨p, hp, hf⟩ := pipeline_of_phase h
    refine ⟨k.tree, ?_⟩
    rw [step, cancel, hp]
    simp only [hf]
    rfl
  | @undo i now q t t' f h hmade hfailed =>
    obtain ⟨p, hp, hf⟩ := pipeline_of_phase h
    refine ⟨t', ?_⟩
    rw [step, advance, hp]
    simp only [hf, acquire, Workspace.acquire, hmade, hfailed]
    rfl

/-! ### Pipelines that have been given up -/

theorem phase?_act_of_cancelled {i : Nat} (h : k.phase? i = some .cancelled) (a : Action) :
    (k.act m s a).phase? i = some .cancelled := by
  obtain ⟨p, hp, hf⟩ := pipeline_of_phase h
  cases a with
  | submit d r => exact (phase?_submit (lt_of_phase h) d r).trans h
  | step a =>
    cases a with
    | advance j now =>
      by_cases hj : i = j
      · subst hj
        show (k.advance m s now i).phase? i = _
        rw [advance, hp]
        simp only [hf]
        exact h
      · exact (phase?_advance_ne hj s now).trans h
    | cancel j =>
      by_cases hj : i = j
      · subst hj
        show (k.cancel s.here i).phase? i = _
        rw [cancel, hp]
        simp only [hf]
        exact h
      · exact (phase?_cancel_ne hj s.here).trans h
    | remove j => exact (phase?_remove k s.here i j).trans h

theorem phase?_perform_of_cancelled {i : Nat} (h : k.phase? i = some .cancelled)
    (as : List Action) : (k.perform m s as).phase? i = some .cancelled := by
  induction as generalizing k with
  | nil => exact h
  | cons a as ih => exact ih (phase?_act_of_cancelled h a)

/-! ### Who waits for a removal -/

/-- Some pipeline waits for the removal. -/
def Awaited {P : Type} (k : Kernel P) (j : Nat) : Prop :=
  ∃ i o, k.phase? i = some (.removing j o)

/-- The pipeline that waited for the removal was given up while it did. -/
def Abandoned (m : Machine) (s : Settings) (k : Kernel m.Job) (as : List Action) (j : Nat) : Prop :=
  ∃ pre i o post, as = pre ++ .step (.cancel i) :: post ∧
    (k.perform m s pre).phase? i = some (.removing j o)

theorem Abandoned.concat {as : List Action} {j : Nat} (h : Abandoned m s k as j) (a : Action) :
    Abandoned m s k (as ++ [a]) j := by
  obtain ⟨pre, i, o, post, rfl, hpre⟩ := h
  exact ⟨pre, i, o, post ++ [a], by rw [List.append_assoc, List.cons_append], hpre⟩

/-- A removal is handed over by a pipeline that waits for it from then on. -/
theorem pending_of_advance {now : Moment} {i j : Nat} {w : Workspace}
    (h : (k.advance m s now i).removals[j]? = some ⟨w, false⟩) :
    k.removals[j]? = some ⟨w, false⟩ ∨ (k.advance m s now i).Awaited j := by
  by_cases hf : ∃ v o, k.phase? i = some (.releasing v o)
  · obtain ⟨v, o, hf⟩ := hf
    obtain ⟨p, hp, hphase⟩ := pipeline_of_phase hf
    have hstep : k.advance m s now i = k.release i p v o := by
      rw [advance, hp]
      simp only [hphase]
    rw [hstep] at h ⊢
    rcases Nat.lt_or_ge j k.removals.length with hlt | hge
    · rw [release] at h
      exact .inl ((List.getElem?_append_left hlt).symm.trans h)
    · have hlen : j < (k.removals ++ [Removal.mk v false]).length :=
        (List.getElem?_eq_some_iff.1 h).1
      rw [List.length_append, List.length_singleton] at hlen
      have hj : j = k.removals.length := by omega
      subst hj
      have hset : (k.release i p v o).pipelines =
          k.pipelines.set i { p with phase := .removing k.removals.length o } := rfl
      exact .inr ⟨i, o, phase?_set_self hp hset⟩
  · have hnot : ∀ v o, k.phase? i ≠ some (.releasing v o) := fun v o hf' => hf ⟨v, o, hf'⟩
    rw [advance_removals hnot s now] at h
    exact .inl h

/-- Nobody goes on before the removal that it waits for is done. -/
theorem awaited_advance {j : Nat} {w : Workspace} (h : k.Awaited j)
    (hj : k.removals[j]? = some ⟨w, false⟩) (now : Moment) (i : Nat) :
    (k.advance m s now i).Awaited j := by
  obtain ⟨i', o, hf⟩ := h
  refine ⟨i', o, ?_⟩
  by_cases hi : i' = i
  · subst hi
    obtain ⟨p, hp, hphase⟩ := pipeline_of_phase hf
    rw [advance, hp]
    simp only [hphase, awaitRemoval, hj]
    exact hf
  · exact (phase?_advance_ne hi s now).trans hf

theorem pending_of_act {a : Action} {j : Nat} {w : Workspace}
    (h : (k.act m s a).removals[j]? = some ⟨w, false⟩) :
    k.removals[j]? = some ⟨w, false⟩ ∨ (k.act m s a).Awaited j := by
  cases a with
  | submit d r => exact .inl h
  | step a =>
    cases a with
    | advance i now => exact pending_of_advance h
    | cancel i => exact .inl (cancel_removals k s.here i ▸ h)
    | remove i =>
      left
      have h' : (k.remove s.here i).removals[j]? = some ⟨w, false⟩ := h
      rw [remove] at h'
      split at h'
      · rename_i v hv
        by_cases hi : i = j
        · subst hi
          rw [List.getElem?_set_self (List.getElem?_eq_some_iff.1 hv).1] at h'
          cases h'
        · rwa [List.getElem?_set_ne hi] at h'
      · exact h'

theorem awaited_act {a : Action} {j : Nat} {w : Workspace} (h : k.Awaited j)
    (hj : k.removals[j]? = some ⟨w, false⟩) :
    (k.act m s a).Awaited j ∨ ∃ i o, a = .step (.cancel i) ∧ k.phase? i = some (.removing j o) := by
  cases a with
  | submit d r =>
    obtain ⟨i, o, hf⟩ := h
    exact .inl ⟨i, o, (phase?_submit (lt_of_phase hf) d r).trans hf⟩
  | step a =>
    cases a with
    | advance i now => exact .inl (awaited_advance h hj now i)
    | cancel i =>
      obtain ⟨i', o, hf⟩ := h
      by_cases hi : i' = i
      · subst hi
        exact .inr ⟨i', o, rfl, hf⟩
      · exact .inl ⟨i', o, (phase?_cancel_ne hi s.here).trans hf⟩
    | remove i =>
      obtain ⟨i', o, hf⟩ := h
      exact .inl ⟨i', o, (phase?_remove k s.here i' i).trans hf⟩

theorem awaited_or_abandoned (m : Machine) (s : Settings) (t : Tree) (c : Counter)
    (as : List Action) {j : Nat} {w : Workspace}
    (h : ((start t c).perform m s as).removals[j]? = some ⟨w, false⟩) :
    ((start t c).perform m s as).Awaited j ∨ Abandoned m s (start t c) as j := by
  induction as using List.reverseRecOn with
  | nil => cases h
  | append_singleton as a ih =>
    rw [perform_concat] at h ⊢
    rcases pending_of_act h with hj | hawaited
    · rcases ih hj with hawaited | habandoned
      · rcases awaited_act (a := a) hawaited hj with hawaited' | ⟨i, o, rfl, hf⟩
        · exact .inl hawaited'
        · exact .inr ⟨as, i, o, [], rfl, hf⟩
      · exact .inr (habandoned.concat a)
    · exact .inl hawaited

/-! ### Removals and users -/

theorem uses_of_phase {P : Type} {k : Kernel P} {i : Nat} {f : Phase P} {w : Workspace}
    (hf : k.phase? i = some f) (hw : f.workspace? = some w) : k.Uses i w.key := ⟨f, w, hf, hw, rfl⟩

/-- Who uses a key holds its lock. -/
theorem Guarded.holds_of_uses {P : Type} {k : Kernel P} (h : k.Guarded) {i : Nat} {key : Key}
    (hi : k.Uses i key) : k.locks.Holds i key := by
  obtain ⟨f, w, hf, hw, rfl⟩ := hi
  exact (h.keeps i f hf).holds hw

/-- A removal that somebody waits for concerns a workspace that nobody uses. -/
theorem Guarded.not_uses_of_awaited {P : Type} {k : Kernel P} (h : k.Guarded) {i j : Nat}
    {w : Workspace} {b : Bool} (hj : k.removals[j]? = some ⟨w, b⟩) (hawaited : k.Awaited j) :
    ¬ k.Uses i w.key := by
  intro hi
  obtain ⟨i', o, hf⟩ := hawaited
  obtain ⟨r, hr, hholds⟩ : ∃ r, k.removals[j]? = some r ∧ k.locks.Holds i' r.workspace.key :=
    h.keeps i' _ hf
  rw [hj] at hr
  cases hr
  obtain rfl := h.sound.holds_unique (h.holds_of_uses hi) hholds
  obtain ⟨f, v, hf', hv, -⟩ := hi
  rw [hf] at hf'
  cases hf'
  cases hv

/-- A step that removes a workspace disturbs another user of its key if and only if it is a removal
whose pipeline has been given up while it waited for that removal. -/
theorem exclusive_iff (m : Machine) (s : Settings) (t : Tree) (c : Counter) (as : List Action)
    (a : Step) :
    Exclusive s ((start t c).perform m s as) a ↔
      ∀ j w i, a = .remove j →
        ((start t c).perform m s as).removals[j]? = some ⟨w, false⟩ →
        Abandoned m s (start t c) as j → ¬ ((start t c).perform m s as).Uses i w.key := by
  have h := guarded_perform m s t c as
  constructor
  · rintro hexclusive j w i rfl hj -
    exact hexclusive w none i (.task hj) (fun hnone => by cases hnone)
  · intro hall w remover i hremoves hother hi
    cases hremoves with
    | task hj =>
      rcases awaited_or_abandoned m s t c as hj with hawaited | habandoned
      · exact h.not_uses_of_awaited hj hawaited hi
      · exact hall _ w i rfl hj habandoned hi
    | drop hf =>
      have heq := h.uses_unique (uses_of_phase hf rfl) hi
      exact hother (congrArg some heq)
    | undo hf hmade hfailed =>
      have hholds : ((start t c).perform m s as).locks.Holds _ _ := h.keeps _ _ hf
      exact hother (congrArg some (h.sound.holds_unique hholds (h.holds_of_uses hi)))

/-! A notebook with one empty cell is run twice. The first pipeline is given up while its workspace
waits to be removed, and the second one gets its workspace before that is done. -/

/-- Processes that end at once. -/
def idle : Machine where
  Job := Unit
  start := fun _ _ _ _ => .ok ()
  step := fun _ t => (t, .inr ⟨.status 0, [], []⟩)

def plain : Settings := ⟨.standard, ⟨[]⟩, ⟨"scratch".toList⟩, .verbatim, []⟩

def overtaken : List Action :=
  [.submit ⟨[.code []]⟩ (.queued 0 1), .submit ⟨[.code []]⟩ (.queued 0 2)] ++
    (List.replicate 7 0 ++ [1, 1]).map (fun i => .step (.advance i .epoch)) ++
    [.step (.cancel 0), .step (.advance 1 .epoch), .step (.advance 1 .epoch)]

theorem exclusive_overtaken :
    ¬ Exclusive plain ((start .empty .fresh).perform idle plain overtaken) (.remove 0) := by
  have hremoval : (((start .empty .fresh).perform idle plain overtaken).removals.map
      fun r => (r.workspace.key, r.isDone)) = [(.derive [] ⟨[]⟩, false)] := by decide +kernel
  have huser : ((((start .empty .fresh).perform idle plain overtaken).phase? 1).bind
      Phase.workspace?).map Workspace.key = some (.derive [] ⟨[]⟩) := by decide +kernel
  intro h
  obtain ⟨⟨w, b⟩, hw, heq⟩ := List.map_eq_singleton_iff.1 hremoval
  obtain ⟨hkey, rfl⟩ : w.key = .derive [] ⟨[]⟩ ∧ b = false := Prod.mk.inj heq
  obtain ⟨v, hv, hkey'⟩ := Option.map_eq_some_iff.1 huser
  obtain ⟨f, hf, hfv⟩ := Option.bind_eq_some_iff.1 hv
  have hj : ((start .empty .fresh).perform idle plain overtaken).removals[0]? =
      some ⟨w, false⟩ := by
    rw [hw]
    rfl
  exact h w none 1 (.task hj) (fun hnone => by cases hnone) ⟨f, v, hf, hfv, hkey'.trans hkey.symm⟩

end Kernel

end Notebook.Execution
