import Notebook.Proofs.Execution.Removal

/-!
Who has a workspace: a pipeline has one from when it gets it until the removal is done, and nobody
else has one of the same key.
-/

namespace Notebook.Execution

open Files (Place)

namespace Phase

variable {P : Type} {l : Locks} {rs rs' : List Removal} {i : Nat} {f : Phase P} {w : Workspace}

/-- The workspace that stands because of a pipeline, from when it has got it until the removal is
done. -/
def occupies? (rs : List Removal) : Phase P → Option Workspace
  | .ready w | .running w _ | .releasing w _ => some w
  | .removing j _ =>
    match rs[j]? with
    | some ⟨w, false⟩ => some w
    | _ => none
  | _ => none

theorem occupies?_removing (rs : List Removal) (w : Workspace) (o : Outcome) :
    (removing rs.length o : Phase P).occupies? (rs ++ [⟨w, false⟩]) = some w := by
  simp only [occupies?, List.getElem?_concat_length]

theorem occupies?_of_workspace? (h : f.workspace? = some w) (rs : List Removal) :
    f.occupies? rs = some w := by
  cases f with
  | ready _ | running _ _ | releasing _ _ => exact h
  | queued | started | waiting _ | holding _ | removing _ _ | unlocking _ | closing _
  | finished _ | cancelled => cases h

theorem Keeps.holds_of_occupies (h : f.Keeps l rs i) (hw : f.occupies? rs = some w) :
    l.Holds i w.key := by
  cases f with
  | ready _ | running _ _ | releasing _ _ =>
    cases hw
    exact h
  | removing j o =>
    obtain ⟨⟨v, b⟩, hr, hholds⟩ := h
    simp only [occupies?, hr] at hw
    cases b with
    | false =>
      cases hw
      exact hholds
    | true => cases hw
  | queued | started | waiting _ | holding _ | unlocking _ | closing _ | finished _
  | cancelled => cases hw

theorem Keeps.occupies?_eq (h : f.Keeps l rs i)
    (hrs : ∀ (j : Nat) (r : Removal), rs[j]? = some r → rs'[j]? = some r) :
    f.occupies? rs' = f.occupies? rs := by
  cases f with
  | removing j o =>
    obtain ⟨r, hr, -⟩ := h
    simp only [occupies?, hr, hrs j r hr]
  | queued | started | waiting _ | holding _ | ready _ | running _ _ | releasing _ _ | unlocking _
  | closing _ | finished _ | cancelled => rfl

end Phase

namespace Kernel

/-- The workspace that stands because of a pipeline. -/
def occupant {P : Type} (k : Kernel P) (i : Nat) : Option Workspace :=
  (k.phase? i).bind (·.occupies? k.removals)

section

variable {P : Type} {k k' : Kernel P} {i j : Nat} {w v : Workspace}

theorem occupant_of_phase {f : Phase P} (h : k.phase? i = some f) :
    k.occupant i = f.occupies? k.removals := by
  rw [occupant, h, Option.bind_some]

theorem occupant_of_workspace? {f : Phase P} (h : k.phase? i = some f)
    (hw : f.workspace? = some w) : k.occupant i = some w :=
  (occupant_of_phase h).trans (f.occupies?_of_workspace? hw k.removals)

theorem Guarded.holds_of_occupant (h : k.Guarded) (hw : k.occupant i = some w) :
    k.locks.Holds i w.key := by
  obtain ⟨f, hf, hw⟩ := Option.bind_eq_some_iff.1 hw
  exact (h.keeps i f hf).holds_of_occupies hw

theorem Guarded.occupant_unique (h : k.Guarded) (hw : k.occupant i = some w)
    (hv : k.occupant j = some v) (hkey : w.key = v.key) : i = j := by
  have hholds := h.holds_of_occupant hv
  rw [← hkey] at hholds
  exact h.sound.holds_unique (h.holds_of_occupant hw) hholds

theorem Guarded.key_ne (h : k.Guarded) (hj : j ≠ i) (hw : k.occupant i = some w)
    (hv : k.occupant j = some v) : v.key ≠ w.key :=
  fun hkey => hj (h.occupant_unique hv hw hkey)

theorem Guarded.occupant_eq (h : k.Guarded) (hphase : k'.phase? i = k.phase? i)
    (hrs : ∀ (j : Nat) (r : Removal), k.removals[j]? = some r → k'.removals[j]? = some r) :
    k'.occupant i = k.occupant i := by
  rw [occupant, occupant, hphase]
  cases hf : k.phase? i with
  | none => rfl
  | some f => exact (h.keeps i f hf).occupies?_eq hrs

end

/-- Who goes on and has the same workspace as before changes nothing for anybody. -/
theorem Guarded.occupant_set {P : Type} {k k' : Kernel P} {i : Nat} {p p' : Pipeline P}
    (h : k.Guarded) (hp : k.pipelines[i]? = some p) (hset : k'.pipelines = k.pipelines.set i p')
    (hrs : ∀ (j : Nat) (r : Removal), k.removals[j]? = some r → k'.removals[j]? = some r)
    (ho : p'.phase.occupies? k'.removals = p.phase.occupies? k.removals) (j : Nat) :
    k'.occupant j = k.occupant j := by
  by_cases hj : j = i
  · subst hj
    rw [occupant_of_phase (phase?_set_self hp hset), ho, occupant_of_phase (phase_of_pipeline hp)]
  · exact h.occupant_eq (phase?_set_ne hset hj) hrs

/-- Once a removal is done nobody has its workspace, and the others have what they had. -/
theorem Guarded.occupant_remove {P : Type} {k : Kernel P} (h : k.Guarded) {i j : Nat}
    {w : Workspace} (hw : k.removals[j]? = some ⟨w, false⟩) {o : Outcome}
    (hf : k.phase? i = some (.removing j o)) (here : Place) :
    (k.remove here j).occupant i = none ∧
      ∀ l, l ≠ i → (k.remove here j).occupant l = k.occupant l := by
  have hlt := (List.getElem?_eq_some_iff.1 hw).1
  have hrs : (k.remove here j).removals = k.removals.set j ⟨w, true⟩ := by
    rw [remove, hw]
  have hholds : k.locks.Holds i w.key := by
    obtain ⟨r, hr, hholds⟩ := h.keeps i _ hf
    rw [hw] at hr
    cases hr
    exact hholds
  refine ⟨?_, fun l hl => ?_⟩
  · rw [occupant_of_phase ((phase?_remove k here i j).trans hf), hrs]
    simp only [Phase.occupies?, List.getElem?_set_self hlt]
  · rw [occupant, occupant, phase?_remove, hrs]
    cases hg : k.phase? l with
    | none => rfl
    | some f =>
      cases f with
      | removing j' o' =>
        have hj : j ≠ j' := by
          rintro rfl
          obtain ⟨r, hr, hholds'⟩ := h.keeps l _ hg
          rw [hw] at hr
          cases hr
          exact hl (h.sound.holds_unique hholds' hholds)
        simp only [Option.bind_some, Phase.occupies?, List.getElem?_set_ne hj]
      | queued | started | waiting _ | holding _ | ready _ | running _ _ | releasing _ _
      | unlocking _ | closing _ | finished _ | cancelled => rfl

theorem occupant_submit {P : Type} (k : Kernel P) (d : Document) (r : Record) (i : Nat) :
    (k.submit d r).occupant i = k.occupant i := by
  rw [occupant, occupant]
  rcases Nat.lt_trichotomy i k.pipelines.length with hi | rfl | hi
  · rw [phase?_submit hi]
    rfl
  · have hnone : k.phase? k.pipelines.length = none := by
      rw [phase?, List.getElem?_eq_none (Nat.le_refl _), Option.map_none]
    rw [hnone, phase?, submit, List.getElem?_concat_length]
    rfl
  · have hnone : k.phase? i = none := by
      rw [phase?, List.getElem?_eq_none (Nat.le_of_lt hi), Option.map_none]
    rw [hnone, phase?, submit, List.getElem?_eq_none (by rw [List.length_append]; exact hi)]
    rfl

end Kernel

end Notebook.Execution
