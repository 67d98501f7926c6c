import Notebook.Execution.Kernel
import Notebook.Proofs.Execution.Workspace

/-!
A cell that is run alone, on the files as they are before anything else happens: what comes of it
if the toolchain keeps to its workspace.
-/

namespace Notebook.Execution

open Files (Path Place Tree)
open Program (Prepared Toolchain)

/-- Trees that differ at most in what else than `d` is in the directory `R`. -/
def Agree (R d : Place) (t u : Tree) : Prop :=
  ∀ q, (R <+: q → q ≠ R → d <+: q) → t.get? q = u.get? q

theorem Agree.trans {R d : Place} {t u v : Tree} (h : Agree R d t u) (h' : Agree R d u v) :
    Agree R d t v :=
  fun q hq => (h q hq).trans (h' q hq)

namespace Machine

/-- The processes that have been started in a directory. -/
inductive Works (m : Machine) : m.Job → Place → Prop where
  | start {tc : Toolchain} {t : Tree} {here d : Place} {p : Path} {j : m.Job}
      (hd : t.lookup here p = .ok (d, .directory)) (h : m.start tc t here p = .ok j) : Works m j d
  | step {t t' : Tree} {d : Place} {j j' : m.Job} (hj : Works m j d)
      (h : m.step j t = (t', .inl j')) : Works m j' d

/-- Processes write only below the directory that they work in. -/
def Confined (m : Machine) : Prop :=
  ∀ (j : m.Job) (d : Place) (t : Tree) (q : Place), m.Works j d → (d <+: q → q = d) →
    (m.step j t).1.get? q = t.get? q

/-- What processes do does not depend on what else is in `R` than the directory that they work
in. -/
structure Secluded (m : Machine) (R : Place) : Prop where
  start : ∀ (tc : Toolchain) (t u : Tree) (here d : Place) (p : Path),
    t.lookup here p = .ok (d, .directory) → u.lookup here p = .ok (d, .directory) →
      Agree R d t u → m.start tc t here p = m.start tc u here p
  step : ∀ (j : m.Job) (d : Place) (t u : Tree), m.Works j d → Agree R d t u →
    (m.step j t).2 = (m.step j u).2 ∧ Agree R d (m.step j t).1 (m.step j u).1

/-- Processes that print the program in their directory and leave a directory there. -/
def printer : Machine where
  Job := Place
  start := fun _ t here p => (t.lookup here p).map (·.1)
  step := fun d t =>
    (t.put (d ++ ["target".toList]) .directory, .inr ⟨.status 0,
      match t.get? (d ++ ["src".toList, "main.rs".toList]) with
      | some (.file content _) => content
      | _ => [], []⟩)

theorem works_printer {j : printer.Job} {d : Place} (h : printer.Works j d) : j = d := by
  cases h with
  | start hd h =>
    simp only [printer, hd, Except.map] at h
    exact (Except.ok.inj h).symm
  | step _ h => cases (Prod.mk.inj h).2

theorem confined_printer : printer.Confined := by
  intro j d t q hj hq
  obtain rfl : d = j := (works_printer hj).symm
  refine Tree.get?_put_of_ne ?_
  rintro rfl
  have hnil : d ++ ["target".toList] = d := hq (List.prefix_append _ _)
  simp at hnil

theorem secluded_printer (R : Place) : printer.Secluded R where
  start := by
    intro tc t u here d p ht hu _
    simp only [printer, ht, hu]
  step := by
    intro j d t u hj h
    obtain rfl : d = j := (works_printer hj).symm
    have hbelow (q : Place) : t.get? (d ++ q) = u.get? (d ++ q) :=
      h _ fun _ _ => List.prefix_append _ _
    refine ⟨?_, fun q hq => ?_⟩
    · simp only [printer, hbelow]
    · show (t.put _ _).get? q = (u.put _ _).get? q
      rw [Tree.get?_put (by simp), Tree.get?_put (by simp), h q hq]

theorem complete_succ {m : Machine} {n : Nat} {j : m.Job} {t : Tree} {r : Tree × Completion}
    (h : m.complete n j t = some r) : m.complete (n + 1) j t = some r := by
  induction n generalizing j t with
  | zero => cases h
  | succ n ih =>
    rw [complete] at h ⊢
    split at h
    · exact ih h
    · exact h

theorem complete_of_le {m : Machine} {n n' : Nat} {j : m.Job} {t : Tree} {r : Tree × Completion}
    (hn : n ≤ n') (h : m.complete n j t = some r) : m.complete n' j t = some r := by
  induction hn with
  | refl => exact h
  | step _ ih => exact complete_succ ih

end Machine

/-- What comes of a cell, once its process has ended within so many steps. -/
def alone (m : Machine) (s : Settings) (t : Tree) (d : Document) (i n : Nat) : Option Outcome :=
  match Program.prepare s.shape s.manifest d i with
  | .error f => some (.error f)
  | .ok q =>
    match Workspace.acquire t s.here s.scratch q.key s.manifest q.program with
    | (_, .error f) => some (.error f)
    | (t, .ok w) =>
      match m.start s.toolchain t s.here w.root with
      | .error f => some (.error (.spawn s.toolchain.program f))
      | .ok process => (m.complete n process t).map fun r => outcome s.toolchain r.2

section

variable {m : Machine} {s : Settings} {t : Tree} {d : Document} {i n n' : Nat} {o o' : Outcome}

theorem alone_of_le (hn : n ≤ n') (h : alone m s t d i n = some o) :
    alone m s t d i n' = some o := by
  rw [alone] at h ⊢
  cases hq : Program.prepare s.shape s.manifest d i with
  | error f =>
    rw [hq] at h
    exact h
  | ok q =>
    rw [hq] at h
    simp only at h ⊢
    split at h
    · exact h
    · split at h
      · exact h
      · obtain ⟨r, hr, ho⟩ := Option.map_eq_some_iff.1 h
        rw [Machine.complete_of_le hn hr, Option.map_some, ho]

theorem alone_unique (h : alone m s t d i n = some o) (h' : alone m s t d i n' = some o') :
    o = o' := by
  rcases Nat.le_total n n' with hn | hn
  · rw [alone_of_le hn h] at h'
    exact Option.some.inj h'
  · rw [alone_of_le hn h'] at h
    exact (Option.some.inj h).symm

end

end Notebook.Execution
