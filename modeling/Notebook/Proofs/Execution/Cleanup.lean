import Notebook.Proofs.Execution.Session
import Notebook.Proofs.Execution.Tidy

/-!
What is left once all requests have ended: no workspace, no lock, and of everything else what was
there before and the way to the scratch directory.
-/

namespace Notebook.Execution

open Files (Path Place Tree Entry)
open Program (Key Prepared)

namespace Locks.Lined

theorem slots_eq_nil {l : Locks} {a : List (Nat × Key)} (h : l.Lined a)
    (hno : ∀ i, l.user? i = none) : l.slots = [] := by
  refine List.eq_nil_iff_forall_not_mem.2 fun ⟨k, e⟩ hmem => ?_
  obtain ⟨hline, -⟩ := h.slots k e (lookup_of_mem h.keys hmem)
  obtain ⟨i, hi⟩ := List.exists_mem_of_ne_nil _ hline
  obtain ⟨u, hu, -⟩ := (h.users i k).1 (mem_lineOf.1 hi)
  rw [hno] at hu
  cases hu

end Locks.Lined

/-- The way to the scratch directory is all that is new on the ground. -/
theorem get?_ground (s : Settings) (t₀ : Tree) (q : Place) :
    (s.ground t₀).get? q = t₀.get? q ∨ (t₀.get? q = none ∧
      (s.ground t₀).get? q = some .directory ∧ s.scratch.Passes s.here q) := by
  rw [Settings.ground, Tree.makePath]
  split
  · exact .inl rfl
  · split
    · exact .inl rfl
    · split
      · exact .inl rfl
      · exact Tree.get?_of_makeDirectories rfl q

theorem get?_of_ground_none {s : Settings} {t₀ : Tree} {q : Place}
    (h : (s.ground t₀).get? q = none) : t₀.get? q = none := by
  rcases get?_ground s t₀ q with heq | ⟨hnone, -⟩
  · rw [← heq, h]
  · exact hnone

/-- What is asked of a notebook: to run cells of a document, all at once, or to go on. -/
inductive Task where
  | execute (document : Document) (cells : List Nat)
  | step (step : Step)

namespace Task

/-- The key is that of a cell that is to be run. -/
def Uses (s : Settings) (key : Key) : Task → Prop
  | .execute d cells =>
    ∃ i ∈ cells, ∃ q, Program.prepare s.shape s.manifest d i = .ok q ∧ q.key = key
  | .step _ => False

/-- No request is given up. -/
def Patient : Task → Prop
  | .step (.cancel _) => False
  | .step (.advance ..) | .step (.remove _) | .execute .. => True

instance : DecidablePred Patient
  | .step (.cancel _) => isFalse id
  | .step (.advance ..) | .step (.remove _) | .execute .. => isTrue trivial

end Task

namespace Kernel

def attend (m : Machine) (s : Settings) (k : Kernel m.Job) : Task → Kernel m.Job
  | .execute d cells => k.submitAll d cells
  | .step a => k.step m s a

def attendAll (m : Machine) (s : Settings) (k : Kernel m.Job) (tasks : List Task) :
    Kernel m.Job :=
  tasks.foldl (attend m s) k

/-- All requests have ended. -/
def Quiescent {P : Type} (k : Kernel P) : Prop := ∀ p ∈ k.pipelines, p.finished?.isSome

theorem submitAll_cons {P : Type} (k : Kernel P) (d : Document) (i : Nat) (cells : List Nat) :
    k.submitAll d (i :: cells) =
      { k.submit d (.queued i k.counter.next.1) with counter := k.counter.next.2 }.submitAll d
        cells := rfl

variable {m : Machine} {s : Settings} {t₀ t₁ : Tree} {R : Place} {k : Kernel m.Job}

/-- What is kept while requests come and go on: the tree is tidy and the table of locks fits those
who use it. -/
structure Kept (m : Machine) (s : Settings) (t₀ t₁ : Tree) (R : Place) (k : Kernel m.Job) :
    Prop where
  tidy : k.Tidy m s t₀ t₁ R
  lined : ∃ a, k.locks.Lined a

theorem Touches.lined {l : Locks} (h : k.Touches s l) (hg : k.Guarded)
    (hlined : ∃ a, k.locks.Lined a) : ∃ a, l.Lined a := by
  obtain ⟨a, ha⟩ := hlined
  cases h with
  | keep => exact ⟨a, ha⟩
  | request hp hf hq =>
    have hnone : k.locks.user? _ = none := hg.keeps_of hp hf
    exact ⟨_, ha.request (ha.user?_eq_none_iff.1 hnone) _⟩
  | poll i => exact ⟨a, ha.poll i⟩
  | drop i => exact ⟨_, ha.drop i⟩

theorem Kept.step (h : k.Kept m s t₀ t₁ R) (hm : m.Confined)
    (hst : s.Scratch t₀ t₁ R ∨ s.Closed t₀ t₁) {a : Step} (ha : (Task.step a).Patient) :
    (k.step m s a).Kept m s t₀ t₁ R := by
  have hlined := (touches_act s k (.step a)).lined h.tidy.guarded h.lined
  cases a with
  | advance i now => exact ⟨tidy_act hm hst h.tidy (a := .step (.advance i now)) trivial, hlined⟩
  | cancel i => exact ha.elim
  | remove j => exact ⟨tidy_act hm hst h.tidy (a := .step (.remove j)) trivial, hlined⟩

theorem Kept.submitAll (h : k.Kept m s t₀ t₁ R) {d : Document} {cells : List Nat}
    (hfree : ∀ i ∈ cells, ∀ q, Program.prepare s.shape s.manifest d i = .ok q → Free t₁ R q.key) :
    (k.submitAll d cells).Kept m s t₀ t₁ R := by
  induction cells generalizing k with
  | nil => exact h
  | cons i cells ih =>
    rw [submitAll_cons]
    have hsubmit := h.tidy.submit (r := .queued i k.counter.next.1) (hfree i List.mem_cons_self)
    refine ih ⟨?_, h.lined⟩ fun j hj => hfree j (List.mem_cons_of_mem i hj)
    exact ⟨⟨hsubmit.guarded.sound, hsubmit.guarded.known, hsubmit.guarded.keeps⟩, hsubmit.awaited,
      hsubmit.free, hsubmit.sited, hsubmit.grounds, hsubmit.stands⟩

theorem Kept.attendAll (h : k.Kept m s t₀ t₁ R) (hm : m.Confined)
    (hst : s.Scratch t₀ t₁ R ∨ s.Closed t₀ t₁) {tasks : List Task}
    (hpatient : ∀ a ∈ tasks, a.Patient) (hfree : ∀ a ∈ tasks, ∀ key, a.Uses s key → Free t₁ R key) :
    (k.attendAll m s tasks).Kept m s t₀ t₁ R := by
  induction tasks generalizing k with
  | nil => exact h
  | cons a tasks ih =>
    refine ih ?_ (fun b hb => hpatient b (List.mem_cons_of_mem a hb))
      (fun b hb => hfree b (List.mem_cons_of_mem a hb))
    cases a with
    | execute d cells =>
      exact h.submitAll fun i hi q hq => hfree _ List.mem_cons_self q.key ⟨i, hi, q, hq, rfl⟩
    | step a => exact h.step hm hst (hpatient _ List.mem_cons_self)

theorem Quiescent.phase (hq : k.Quiescent) {i : Nat} {f : Phase m.Job} (hf : k.phase? i = some f) :
    ∃ o, f = .finished o := by
  obtain ⟨p, hp, rfl⟩ := pipeline_of_phase hf
  have hfinished := hq p (List.mem_of_getElem? hp)
  rw [Pipeline.finished?] at hfinished
  split at hfinished
  · exact ⟨_, by assumption⟩
  · cases hfinished

theorem Quiescent.occupant (hq : k.Quiescent) (i : Nat) : k.occupant i = none := by
  rw [Kernel.occupant]
  cases hf : k.phase? i with
  | none => rfl
  | some f =>
    obtain ⟨o, rfl⟩ := hq.phase hf
    rfl

theorem Kept.quiescent (h : k.Kept m s t₀ t₁ R) (hq : k.Quiescent) :
    k.locks.slots = [] ∧ (k.tree = t₀ ∨ ∀ q, k.tree.get? q = t₁.get? q) := by
  have huser (i : Nat) : k.locks.user? i = none := by
    rcases Nat.lt_or_ge i k.pipelines.length with hi | hi
    · have hphase := phase_of_pipeline (List.getElem?_eq_getElem hi)
      obtain ⟨o, ho⟩ := hq.phase hphase
      have hkeeps := h.tidy.guarded.keeps i _ hphase
      rw [ho] at hkeeps
      exact hkeeps
    · exact h.tidy.guarded.known i hi
  obtain ⟨a, ha⟩ := h.lined
  refine ⟨ha.slots_eq_nil huser, ?_⟩
  rcases h.tidy.grounds with ⟨ht | ht, -⟩ | ⟨-, hshared⟩
  · exact .inl ht
  · exact .inr fun q => by rw [ht]
  · refine .inr fun q => hshared.outside q fun i w hw => ?_
    rw [hq.occupant] at hw
    cases hw

/-- However cells are run, if no request is given up and there was nothing where their workspaces
were to stand, then nothing of them is left when all have ended: there is no workspace, the table of
locks is empty, and everything else is as it was but for the way to the scratch directory. -/
theorem cleaned_up (m : Machine) (s : Settings) (t₀ : Tree) (c : Counter) (tasks : List Task)
    (hm : m.Confined) (hpatient : ∀ a ∈ tasks, a.Patient)
    (hfree : ∀ a ∈ tasks, ∀ key, a.Uses s key → Free (s.ground t₀) s.root key)
    (hended : ((start t₀ c).attendAll m s tasks).Quiescent) :
    (∀ a ∈ tasks, ∀ key, a.Uses s key → Free ((start t₀ c).attendAll m s tasks).tree s.root key) ∧
    ((start t₀ c).attendAll m s tasks).locks.slots = [] ∧
    ∀ q, ((start t₀ c).attendAll m s tasks).tree.get? q = t₀.get? q ∨ (t₀.get? q = none ∧
      ((start t₀ c).attendAll m s tasks).tree.get? q = some .directory ∧
        s.scratch.Passes s.here q) := by
  -- The tree at the start settles whether there can be workspaces at all.
  have hst : s.Scratch t₀ (s.ground t₀) s.root ∨ s.Closed t₀ (s.ground t₀) := by
    by_cases hs : s.Scratch t₀ (s.ground t₀) s.root
    · exact .inl hs
    · exact .inr (closed_of_not_scratch hs)
  have hstart : (start t₀ c : Kernel m.Job).Kept m s t₀ (s.ground t₀) s.root :=
    ⟨tidy_start m s t₀ _ _ c, [], Locks.lined_empty⟩
  obtain ⟨hslots, htree⟩ := (hstart.attendAll hm hst hpatient hfree).quiescent hended
  refine ⟨fun a ha key hkey q hq => ?_, hslots, fun q => ?_⟩
  · have hnone := hfree a ha key hkey q hq
    rcases htree with heq | heq
    · rw [heq, get?_of_ground_none hnone]
    · rw [heq, hnone]
  · rcases htree with heq | heq
    · exact .inl (by rw [heq])
    · rw [heq]
      exact get?_ground s t₀ q

/-! A cell is run in a directory that has no scratch directory yet. -/

/-- The steps of a pipeline whose process ends in one step, and the removal of its workspace. -/
def serve (i j : Nat) : List Task :=
  (List.replicate 7 (Step.advance i .epoch) ++ [Step.remove j] ++
    List.replicate 3 (Step.advance i .epoch)).map .step

def once : List Task := .execute ⟨[.code []]⟩ [0] :: serve 0 0

theorem cleaned_up_once :
    ((start .empty .fresh).attendAll Machine.printer plain once).locks.slots = [] ∧
    ∀ q, ((start .empty .fresh).attendAll Machine.printer plain once).tree.get? q =
        Tree.empty.get? q ∨
      (Tree.empty.get? q = none ∧
        ((start .empty .fresh).attendAll Machine.printer plain once).tree.get? q =
          some .directory ∧ plain.scratch.Passes plain.here q) := by
  refine (cleaned_up .printer plain .empty .fresh once Machine.confined_printer (by decide)
    (fun _ _ key _ => bare_plain.free key) ?_).2
  show ∀ p ∈ _, _
  decide +kernel

/-! If the way to the scratch directory leads through the workspace of a cell, then it is made again
for the next cell after that workspace has been removed. -/

def winding : Settings :=
  { plain with scratch := ⟨(Key.derive [] ⟨[]⟩).digits ++ "/..".toList⟩ }

def twice : List Task :=
  .execute ⟨[.code [], .code []]⟩ [0] :: serve 0 0 ++
    .execute ⟨[.code [], .code []]⟩ [1] :: serve 1 1

theorem left_behind :
    ¬ ∀ (m : Machine) (s : Settings) (t₀ : Tree) (c : Counter) (tasks : List Task), m.Confined →
      (∀ a ∈ tasks, a.Patient) → (∀ a ∈ tasks, ∀ key, a.Uses s key → Free t₀ s.root key) →
      ((start t₀ c).attendAll m s tasks).Quiescent →
        ∀ a ∈ tasks, ∀ key, a.Uses s key →
          Free ((start t₀ c).attendAll m s tasks).tree s.root key := by
  intro h
  have hquiescent : ((start .empty .fresh).attendAll Machine.printer winding twice).Quiescent := by
    show ∀ p ∈ _, _
    decide +kernel
  have hused : (Task.execute ⟨[.code [], .code []]⟩ [0]).Uses winding (.derive [] ⟨[]⟩) :=
    ⟨0, List.mem_cons_self, ⟨[], .derive [] ⟨[]⟩, []⟩, rfl, rfl⟩
  have hleft : ((start .empty .fresh).attendAll Machine.printer winding twice).tree.get?
      (winding.root ++ [(Key.derive [] ⟨[]⟩).digits]) = some .directory := by decide +kernel
  have hfree : ∀ a ∈ twice, ∀ key, a.Uses winding key → Free .empty winding.root key := by
    intro a _ key _ q hq
    have hnil : q ≠ [] := by
      rintro rfl
      exact absurd (List.prefix_nil.1 hq) (by simp)
    rw [Tree.get?, if_neg hnil]
    rfl
  have hnone := h .printer winding .empty .fresh twice Machine.confined_printer (by decide) hfree
    hquiescent _ List.mem_cons_self _ hused _ (List.prefix_refl _)
  rw [hleft] at hnone
  cases hnone

end Kernel

end Notebook.Execution
