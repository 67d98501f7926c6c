import Notebook.Proofs.Execution.Occupancy
import Notebook.Proofs.Execution.Shared
import Notebook.Proofs.Execution.Turn

/-!
The tree while nobody gives up a request: everybody has his workspace for himself, and the rest is
as it was.
-/

namespace Notebook

theorem Program.key_of_prepare {shape : Program.Shape} {m : Program.Manifest} {d : Document}
    {i : Nat} {q : Program.Prepared} (h : Program.prepare shape m d i = .ok q) :
    q.key = .derive q.source m := by
  rw [prepare] at h
  cases hc : d.cell i with
  | error f =>
    rw [hc] at h
    cases h
  | ok c =>
    rw [hc] at h
    cases hcode : c.isCode with
    | false => simp [hcode, bind, Except.bind] at h
    | true =>
      cases hs : d.sources i with
      | error f => simp [hcode, hs, bind, Except.bind] at h
      | ok cells =>
        simp only [hcode, hs, bind, Except.bind, Bool.not_true, Bool.false_eq_true, if_false,
          Except.ok.injEq] at h
        rw [← h]

namespace Execution

open Files (Name Path Place Tree)
open Program (Key Prepared)

theorem Workspace.fault?_of_refusal {scratch : Path} {k : Key} (hk : Name.Plain k.digits)
    (h : (ofKey scratch k).refusal? = none) : (ofKey scratch k).root.fault? = none := by
  rw [refusal?] at h
  split at h
  · cases h
  · rename_i hsource
    exact fault?_root hk hsource

/-- Nobody gives up a request, and there is nothing yet where the workspaces of those that come are
to stand. -/
def Action.Orderly (s : Settings) (t₁ : Tree) (R : Place) : Action → Prop
  | .submit d r => ∀ q, Program.prepare s.shape s.manifest d r.cellIndex = .ok q → Free t₁ R q.key
  | .step (.cancel _) => False
  | .step (.advance ..) | .step (.remove _) => True

namespace Kernel

/-- What a pipeline is given is what it has asked for: its own program and its own workspace, which
is new until the process starts. -/
def Stands (m : Machine) (s : Settings) (R : Place) (t : Tree) (p : Pipeline m.Job) : Prop :=
  match p.phase with
  | .waiting q | .holding q => p.request? s = .ok q
  | .ready w => ∃ q, p.request? s = .ok q ∧ w = .ofKey s.scratch q.key ∧
      ∀ r, t.get? (w.place R ++ r) = Workspace.contents s.manifest q.program r
  | .running w j => m.Works j (w.place R)
  | _ => True

/-- Nobody has a workspace, and the tree is as it was but for the way to the scratch directory, or
else those who have one share that directory. -/
def Grounds (s : Settings) (t₀ t₁ : Tree) (R : Place) (t : Tree) (occ : Nat → Option Workspace) :
    Prop :=
  ((t = t₀ ∨ t = t₁) ∧ ∀ i, occ i = none) ∨ (s.Scratch t₀ t₁ R ∧ Shared t₁ R t occ)

/-- Nobody who has a workspace is disturbed, and the tree is as it was but for the workspaces and
the way to the scratch directory. -/
structure Tidy (m : Machine) (s : Settings) (t₀ t₁ : Tree) (R : Place) (k : Kernel m.Job) :
    Prop where
  guarded : k.Guarded
  awaited : ∀ (j : Nat) (w : Workspace), k.removals[j]? = some ⟨w, false⟩ → k.Awaited j
  free : ∀ (i : Nat) (p : Pipeline m.Job) (q : Prepared), k.pipelines[i]? = some p →
    p.request? s = .ok q → Free t₁ R q.key
  sited : ∀ i w, k.occupant i = some w → s.Sited w
  grounds : Grounds s t₀ t₁ R k.tree k.occupant
  stands : ∀ (i : Nat) (p : Pipeline m.Job), k.pipelines[i]? = some p → Stands m s R k.tree p

/-- Trees that are the same in the workspaces of all pipelines but one. -/
def Spares {P : Type} (R : Place) (k : Kernel P) (i : Nat) (t : Tree) : Prop :=
  ∀ j w, j ≠ i → k.occupant j = some w → ∀ q, w.place R <+: q → t.get? q = k.tree.get? q

variable {m : Machine} {s : Settings} {t₀ t₁ t u : Tree} {R : Place} {k k' k₁ : Kernel m.Job}
  {i j : Nat} {p p' : Pipeline m.Job} {w v : Workspace}

theorem plain_of_request {P : Type} {p : Pipeline P} {q : Prepared} (h : p.request? s = .ok q) :
    Name.Plain q.key.digits := by
  rw [Program.key_of_prepare h]
  exact Key.plain_derive q.source s.manifest

theorem Stands.congr (h : Stands m s R t p)
    (hu : ∀ w, p.phase.workspace? = some w → ∀ q, w.place R <+: q → u.get? q = t.get? q) :
    Stands m s R u p := by
  unfold Stands at h ⊢
  cases hf : p.phase with
  | ready w =>
    rw [hf] at h hu
    obtain ⟨q, hq, hw, hcontents⟩ := h
    refine ⟨q, hq, hw, fun r => ?_⟩
    rw [hu w rfl _ (List.prefix_append _ _), hcontents]
  | queued | started | waiting _ | holding _ | running _ _ | releasing _ _ | removing _ _
  | unlocking _ | closing _ | finished _ | cancelled =>
    rw [hf] at h
    exact h

namespace Tidy

/-! ### A pipeline goes on -/

/-- A pipeline goes on and spares the workspaces of the others. -/
theorem go (h : k.Tidy m s t₀ t₁ R) (hg : k'.Guarded)
    (hawaited : ∀ (j : Nat) (w : Workspace), k'.removals[j]? = some ⟨w, false⟩ → k'.Awaited j)
    (hp : k.pipelines[i]? = some p) (hset : k'.pipelines = k.pipelines.set i p')
    (hrs : ∀ (j : Nat) (r : Removal), k.removals[j]? = some r → k'.removals[j]? = some r)
    (hrequest : p'.request? s = p.request? s) (hsited : ∀ w, k'.occupant i = some w → s.Sited w)
    (hgrounds : Grounds s t₀ t₁ R k'.tree k'.occupant)
    (hspares : k.Spares R i k'.tree) (hstands : Stands m s R k'.tree p') :
    k'.Tidy m s t₀ t₁ R := by
  have hcases {j : Nat} {q : Pipeline m.Job} (hq : k'.pipelines[j]? = some q) :
      (j = i ∧ q = p') ∨ (j ≠ i ∧ k.pipelines[j]? = some q) := by
    rw [hset] at hq
    by_cases hj : j = i
    · subst hj
      rw [List.getElem?_set_self (List.getElem?_eq_some_iff.1 hp).1] at hq
      exact .inl ⟨rfl, (Option.some.inj hq).symm⟩
    · rw [List.getElem?_set_ne (Ne.symm hj)] at hq
      exact .inr ⟨hj, hq⟩
  refine ⟨hg, hawaited, fun j q a hq ha => ?_, fun j w hw => ?_, hgrounds, fun j q hq => ?_⟩
  · rcases hcases hq with ⟨rfl, rfl⟩ | ⟨-, hold⟩
    · exact h.free j p a hp (hrequest ▸ ha)
    · exact h.free j q a hold ha
  · by_cases hj : j = i
    · subst hj
      exact hsited w hw
    · rw [h.guarded.occupant_eq (phase?_set_ne hset hj) hrs] at hw
      exact h.sited j w hw
  · rcases hcases hq with ⟨rfl, rfl⟩ | ⟨hj, hold⟩
    · exact hstands
    · exact (h.stands j q hold).congr fun w hw =>
        hspares j w hj (occupant_of_workspace? (phase_of_pipeline hold) hw)

/-- A pipeline goes on without touching files. -/
theorem quiet (h : k.Tidy m s t₀ t₁ R) (hg : k'.Guarded)
    (hawaited : ∀ (j : Nat) (w : Workspace), k'.removals[j]? = some ⟨w, false⟩ → k'.Awaited j)
    (hp : k.pipelines[i]? = some p) (hset : k'.pipelines = k.pipelines.set i p')
    (hrs : ∀ (j : Nat) (r : Removal), k.removals[j]? = some r → k'.removals[j]? = some r)
    (hrequest : p'.request? s = p.request? s) (ht : k'.tree = k.tree)
    (ho : p'.phase.occupies? k'.removals = p.phase.occupies? k.removals)
    (hstands : Stands m s R k.tree p') : k'.Tidy m s t₀ t₁ R := by
  have hocc := h.guarded.occupant_set hp hset hrs ho
  refine h.go hg hawaited hp hset hrs hrequest (fun w hw => h.sited i w (hocc i ▸ hw)) ?_
    (fun _ _ _ _ q _ => by rw [ht]) (ht ▸ hstands)
  rcases h.grounds with ⟨htree, hnone⟩ | ⟨hs, hshared⟩
  · exact .inl ⟨ht ▸ htree, fun j => (hocc j).trans (hnone j)⟩
  · exact .inr ⟨hs, hshared.congr (fun q => by rw [ht]) hocc⟩

theorem shared (h : k.Tidy m s t₀ t₁ R) (hw : k.occupant i = some w) :
    s.Scratch t₀ t₁ R ∧ Shared t₁ R k.tree k.occupant := by
  rcases h.grounds with ⟨-, hnone⟩ | hshared
  · rw [hnone] at hw
    cases hw
  · exact hshared

theorem stands_of (h : k.Tidy m s t₀ t₁ R) (hp : k.pipelines[i]? = some p) {f : Phase m.Job}
    (hf : p.phase = f) : Stands m s R k.tree { p with phase := f } := by
  rw [← hf]
  exact h.stands i p hp

/-- Nobody has a workspace of the key that a pipeline holds. -/
theorem key_ne_of_holding (h : k.Tidy m s t₀ t₁ R) (hp : k.pipelines[i]? = some p) {q : Prepared}
    (hf : p.phase = .holding q) (hv : k.occupant j = some v) : v.key ≠ q.key := by
  intro hkey
  have hholds : k.locks.Holds i q.key := h.guarded.keeps_of hp hf
  have hv' := h.guarded.holds_of_occupant hv
  rw [hkey] at hv'
  obtain rfl := h.guarded.sound.holds_unique hv' hholds
  rw [occupant_of_phase (phase_of_pipeline hp), hf] at hv
  cases hv

/-- Who holds a key finds room for its workspace, if a scratch directory can be had. -/
theorem room (h : k.Tidy m s t₀ t₁ R) (hs : s.Scratch t₀ t₁ R) (hp : k.pipelines[i]? = some p)
    {q : Prepared} (hf : p.phase = .holding q) :
    ∃ u, Workspace.Room k.tree u s.here s.scratch R q.key ∧ Shared t₁ R u k.occupant ∧
      ∀ j v, k.occupant j = some v → u = k.tree := by
  have hq : p.request? s = .ok q := h.stands_of hp hf
  have hplain := plain_of_request hq
  have hfree := h.free i p q hp hq
  rcases h.grounds with ⟨htree, hnone⟩ | ⟨-, hshared⟩
  · refine ⟨t₁, ?_, .of_none hnone, fun j v hv => ?_⟩
    · rcases htree with ht | ht
      · rw [ht]
        exact hs.room hplain hfree
      · rw [ht]
        exact (Shared.of_none (fun _ => rfl) : Shared t₁ R t₁ fun _ => none).room hs hplain hfree
          (by rintro j v ⟨⟩)
    · rw [hnone] at hv
      cases hv
  · exact ⟨k.tree, hshared.room hs hplain hfree fun j v => h.key_ne_of_holding hp hf, hshared,
      fun _ _ _ => rfl⟩

theorem scratch_or_closed (h : k.Tidy m s t₀ t₁ R) (hst : s.Scratch t₀ t₁ R ∨ s.Closed t₀ t₁) :
    s.Scratch t₀ t₁ R ∨
      (s.Closed t₀ t₁ ∧ (k.tree = t₀ ∨ k.tree = t₁) ∧ ∀ i, k.occupant i = none) := by
  rcases h.grounds with hgrounds | ⟨hs, -⟩
  · rcases hst with hs | hclosed
    · exact .inl hs
    · exact .inr ⟨hclosed, hgrounds⟩
  · exact .inl hs

/-- Who holds a key gets a new workspace, or none and nothing of it is left. -/
theorem acquire_cases (h : k.Tidy m s t₀ t₁ R) (hst : s.Scratch t₀ t₁ R ∨ s.Closed t₀ t₁)
    (hp : k.pipelines[i]? = some p) {q : Prepared} (hf : p.phase = .holding q) :
    (∃ t f, Workspace.acquire k.tree s.here s.scratch q.key s.manifest q.program = (t, .error f) ∧
      k.Spares R i t ∧ Grounds s t₀ t₁ R t k.occupant) ∨
    ∃ u, Workspace.acquire k.tree s.here s.scratch q.key s.manifest q.program =
        (Workspace.populated u (R ++ [q.key.digits]) s.manifest q.program,
          .ok (.ofKey s.scratch q.key)) ∧
      s.Scratch t₀ t₁ R ∧ s.Sited (.ofKey s.scratch q.key) ∧ Shared t₁ R u k.occupant ∧
      (∀ q', R ++ [q.key.digits] <+: q' → u.get? q' = none) ∧
      ∀ j v, k.occupant j = some v → u = k.tree := by
  have hplain := plain_of_request (h.stands_of hp hf : p.request? s = .ok q)
  rcases h.scratch_or_closed hst with hs | ⟨hclosed, htree, hnone⟩
  -- The tree may still lack the way to the scratch directory, which is made in any case. Whether
  -- the workspace is made there hangs on its paths alone.
  · obtain ⟨u, hroom, hshared, hsame⟩ := h.room hs hp hf
    cases hr : (Workspace.ofKey s.scratch q.key).refusal? with
    | some f =>
      obtain ⟨t, hacquire, ht⟩ : ∃ t, Workspace.acquire k.tree s.here s.scratch q.key s.manifest
          q.program = (t, .error f) ∧ (t = k.tree ∨ ∀ q, t.get? q = u.get? q) :=
        hroom.acquire_refused hr
      refine .inl ⟨t, f, hacquire, fun j w _ hw q' _ => ?_, ?_⟩
      · rcases ht with rfl | ht
        · rfl
        · rw [ht, hsame j w hw]
      · rcases ht with rfl | ht
        · exact h.grounds
        · exact .inr ⟨hs, hshared.congr ht fun _ => rfl⟩
    | none =>
      have hsited : s.Sited (.ofKey s.scratch q.key) :=
        ⟨rfl, hplain, Workspace.fault?_of_refusal hplain hr⟩
      exact .inr ⟨u, hroom.acquire_granted hr, hs, hsited, hshared, hroom.free, hsame⟩
  · obtain ⟨t, f, hacquire, ht⟩ := hclosed k.tree q.key s.manifest q.program htree hplain
    refine .inl ⟨t, f, hacquire, fun j w _ hw => ?_, .inl ⟨ht, hnone⟩⟩
    rw [hnone] at hw
    cases hw

theorem spares_of_not_isPrefix (h : k.Tidy m s t₀ t₁ R) (hw : k.occupant i = some w)
    (hu : ∀ q, ¬ w.place R <+: q → u.get? q = k.tree.get? q) : k.Spares R i u :=
  fun _ _ hj hv q hq => hu q fun hpre =>
    h.guarded.key_ne hj hw hv (key_of_place_isPrefix hq hpre)

theorem spares_work (h : k.Tidy m s t₀ t₁ R) (hm : m.Confined) (hp : k.pipelines[i]? = some p)
    {process : m.Job} (hf : p.phase = .running w process) :
    k.Spares R i (m.step process k.tree).1 := by
  have hworks : m.Works process (w.place R) := h.stands_of hp hf
  have hw : k.occupant i = some w :=
    occupant_of_workspace? (phase_of_pipeline hp) (by rw [hf]; rfl)
  exact h.spares_of_not_isPrefix hw fun q hq =>
    hm process _ k.tree q hworks fun hpre => absurd hpre hq

theorem shared_work (h : k.Tidy m s t₀ t₁ R) (hm : m.Confined) (hp : k.pipelines[i]? = some p)
    {process : m.Job} (hf : p.phase = .running w process) :
    s.Scratch t₀ t₁ R ∧ Shared t₁ R (m.step process k.tree).1 k.occupant := by
  have hworks : m.Works process (w.place R) := h.stands_of hp hf
  have hw : k.occupant i = some w :=
    occupant_of_workspace? (phase_of_pipeline hp) (by rw [hf]; rfl)
  obtain ⟨hs, hshared⟩ := h.shared hw
  exact ⟨hs, hshared.write hw fun q hq => hm process _ k.tree q hworks hq⟩

/-- Whatever a pipeline does spares the workspaces of the others. -/
theorem spares_turn (h : k.Tidy m s t₀ t₁ R) (hm : m.Confined)
    (hst : s.Scratch t₀ t₁ R ∨ s.Closed t₀ t₁) (hp : k.pipelines[i]? = some p) {now : Moment}
    (ht : Turn m s now k i p k₁ p') : k.Spares R i k₁.tree := by
  cases ht with
  | refuse hf hacquire =>
    rcases h.acquire_cases hst hp hf with ⟨t, f, hacquire', hspares, -⟩ | ⟨u, hacquire', -⟩
    · rw [hacquire'] at hacquire
      cases hacquire
      exact hspares
    · rw [hacquire'] at hacquire
      cases hacquire
  | @acquire q _ _ hf hacquire =>
    rcases h.acquire_cases hst hp hf with ⟨t, f, hacquire', -⟩ |
      ⟨u, hacquire', -, -, -, -, hsame⟩
    · rw [hacquire'] at hacquire
      cases hacquire
    · rw [hacquire'] at hacquire
      cases hacquire
      intro j v _ hv q' hq'
      have hpre : ¬ R ++ [q.key.digits] <+: q' := fun hpre =>
        h.key_ne_of_holding hp hf hv
          (key_of_place_isPrefix (w := v) (v := .ofKey s.scratch q.key) hq' hpre)
      show (Workspace.populated u _ _ _).get? q' = _
      rw [Workspace.get?_populated_of_not_isPrefix (by simp) hpre, hsame j v hv]
  | work hf hstep | exit hf hstep =>
    have hspares := h.spares_work hm hp hf
    rw [hstep] at hspares
    exact hspares
  | reject _ _ | begin_ _ _ | decline _ _ | ask _ _ | wait _ _ | hold _ _ | stall _ _ | launch _ _
  | release _ | await _ _ | clear _ _ | unlock _ | close _ _ | misclose _ _ | rest _ =>
    exact fun _ _ _ _ _ _ => rfl

/-- A pipeline goes on and changes files, but keeps the workspace that it has, if any. -/
theorem keep (h : k.Tidy m s t₀ t₁ R) (hg : k'.Guarded)
    (hawaited : ∀ (j : Nat) (w : Workspace), k'.removals[j]? = some ⟨w, false⟩ → k'.Awaited j)
    (hp : k.pipelines[i]? = some p) (hset : k'.pipelines = k.pipelines.set i p')
    (hrs : k'.removals = k.removals) (hrequest : p'.request? s = p.request? s)
    (ho : p'.phase.occupies? k.removals = p.phase.occupies? k.removals)
    (hgrounds : Grounds s t₀ t₁ R k'.tree k.occupant)
    (hspares : k.Spares R i k'.tree) (hstands : Stands m s R k'.tree p') :
    k'.Tidy m s t₀ t₁ R := by
  have hrs' : ∀ (j : Nat) (r : Removal), k.removals[j]? = some r → k'.removals[j]? = some r :=
    fun j r hr => hrs ▸ hr
  have hocc := h.guarded.occupant_set hp hset hrs' (hrs ▸ ho)
  refine h.go hg hawaited hp hset hrs' hrequest (fun w hw => h.sited i w (hocc i ▸ hw)) ?_ hspares
    hstands
  rcases hgrounds with ⟨ht, hnone⟩ | ⟨hs, hshared⟩
  · exact .inl ⟨ht, fun j => (hocc j).trans (hnone j)⟩
  · exact .inr ⟨hs, hshared.congr (fun _ => rfl) hocc⟩

theorem works_launch (h : k.Tidy m s t₀ t₁ R) (hp : k.pipelines[i]? = some p)
    (hf : p.phase = .ready w) {process : m.Job}
    (hstart : m.start s.toolchain k.tree s.here w.root = .ok process) :
    m.Works process (w.place R) := by
  have hw : k.occupant i = some w :=
    occupant_of_workspace? (phase_of_pipeline hp) (by rw [hf]; rfl)
  obtain ⟨hs, hshared⟩ := h.shared hw
  exact .start (hshared.lookup hs hw (h.sited i w hw)) hstart

theorem turn_acquire (h : k.Tidy m s t₀ t₁ R) (hst : s.Scratch t₀ t₁ R ∨ s.Closed t₀ t₁)
    (hp : k.pipelines[i]? = some p) {q : Prepared} (hf : p.phase = .holding q)
    (hacquire : Workspace.acquire k.tree s.here s.scratch q.key s.manifest q.program = (t, .ok w))
    (hspares : k.Spares R i t)
    (hset : k'.pipelines = k.pipelines.set i { p with phase := .ready w })
    (hrs : k'.removals = k.removals) (htree : k'.tree = t) (hg : k'.Guarded)
    (hawaited : ∀ (j : Nat) (w : Workspace), k'.removals[j]? = some ⟨w, false⟩ → k'.Awaited j) :
    k'.Tidy m s t₀ t₁ R := by
  have hq : p.request? s = .ok q := h.stands_of hp hf
  have hnone : k.occupant i = none := by
    rw [occupant_of_phase (phase_of_pipeline hp), hf]
    rfl
  subst htree
  rcases h.acquire_cases hst hp hf with ⟨t, f, hacquire', -⟩ |
    ⟨u, hacquire', hs, hsited, hshared, hfree, -⟩
  · rw [hacquire'] at hacquire
    cases hacquire
  · rw [hacquire'] at hacquire
    obtain ⟨htree, rfl⟩ :
        Workspace.populated u (R ++ [q.key.digits]) s.manifest q.program = k'.tree ∧
          Workspace.ofKey s.scratch q.key = w := by simpa using hacquire
    have hself : k'.occupant i = some (.ofKey s.scratch q.key) :=
      occupant_of_phase (phase?_set_self hp hset)
    have hrs' : ∀ (j : Nat) (r : Removal), k.removals[j]? = some r → k'.removals[j]? = some r :=
      fun j r hr => hrs ▸ hr
    have hrest (j : Nat) (hj : j ≠ i) : k'.occupant j = k.occupant j :=
      h.guarded.occupant_eq (phase?_set_ne hset hj) hrs'
    refine h.go hg hawaited hp hset hrs' rfl (fun w hw => ?_) (.inr ⟨hs, ?_⟩) hspares
      ⟨q, hq, rfl, fun r => ?_⟩
    · rw [hself] at hw
      cases hw
      exact hsited
    · rw [← htree]
      exact hshared.populate (w := .ofKey s.scratch q.key) (h.free i p q hp hq)
        (fun j v => h.key_ne_of_holding hp hf) hself hrest hnone s.manifest q.program
    · rw [← htree]
      exact Workspace.get?_populated_append (by simp) hfree r

theorem turn (h : k.Tidy m s t₀ t₁ R) (hm : m.Confined) (hst : s.Scratch t₀ t₁ R ∨ s.Closed t₀ t₁)
    (hp : k.pipelines[i]? = some p) {now : Moment} (ht : Turn m s now k i p k₁ p')
    (hg : (k₁.setPipeline i p').Guarded) (hawaited : ∀ (j : Nat) (w : Workspace),
      (k₁.setPipeline i p').removals[j]? = some ⟨w, false⟩ → (k₁.setPipeline i p').Awaited j) :
    (k₁.setPipeline i p').Tidy m s t₀ t₁ R := by
  have hspares := h.spares_turn hm hst hp ht
  have hrequest := ht.request?
  cases ht with
  | reject hf _ | begin_ hf _ | decline hf _ | unlock hf | close hf _ | misclose hf _ =>
    exact h.quiet hg hawaited hp rfl (fun _ _ hr => hr) hrequest rfl (by rw [hf]; rfl) trivial
  | ask hf hq =>
    exact h.quiet hg hawaited hp rfl (fun _ _ hr => hr) hrequest rfl (by rw [hf]; rfl) hq
  | hold hf _ =>
    have hq := h.stands_of hp hf
    exact h.quiet hg hawaited hp rfl (fun _ _ hr => hr) hrequest rfl (by rw [hf]; rfl) hq
  | wait _ _ | await _ _ | rest _ =>
    exact h.quiet hg hawaited hp rfl (fun _ _ hr => hr) hrequest rfl rfl (h.stands i p hp)
  | refuse hf hacquire =>
    rcases h.acquire_cases hst hp hf with ⟨t, f, hacquire', -, hgrounds⟩ | ⟨u, hacquire', -⟩
    · rw [hacquire'] at hacquire
      cases hacquire
      exact h.keep hg hawaited hp rfl rfl hrequest (by rw [hf]; rfl) hgrounds hspares trivial
    · rw [hacquire'] at hacquire
      cases hacquire
  | acquire hf hacquire =>
    exact h.turn_acquire hst hp hf hacquire hspares rfl rfl rfl hg hawaited
  | stall hf _ =>
    exact h.quiet hg hawaited hp rfl (fun _ _ hr => hr) hrequest rfl (by rw [hf]; rfl) trivial
  | launch hf hstart =>
    exact h.quiet hg hawaited hp rfl (fun _ _ hr => hr) hrequest rfl (by rw [hf]; rfl)
      (h.works_launch hp hf hstart)
  | @work w j j' t hf hstep =>
    have hworks : m.Works j (w.place R) := h.stands_of hp hf
    have hshared := h.shared_work hm hp hf
    rw [hstep] at hshared
    exact h.keep hg hawaited hp rfl rfl hrequest (by rw [hf]; rfl) (.inr hshared) hspares
      (.step hworks hstep)
  | exit hf hstep =>
    have hshared := h.shared_work hm hp hf
    rw [hstep] at hshared
    exact h.keep hg hawaited hp rfl rfl hrequest (by rw [hf]; rfl) (.inr hshared) hspares trivial
  | @release w o hf =>
    refine h.quiet hg hawaited hp rfl (fun j r hr => ?_) hrequest rfl ?_ trivial
    · exact List.getElem?_append_left (List.getElem?_eq_some_iff.1 hr).1 ▸ hr
    · rw [hf]
      exact Phase.occupies?_removing k.removals w o
  | clear hf hdone =>
    refine h.quiet hg hawaited hp rfl (fun _ _ hr => hr) hrequest rfl ?_ trivial
    rw [hf]
    show none = _
    simp only [Phase.occupies?, hdone]

/-! ### Removals and requests -/

theorem spares_remove (h : k.Tidy m s t₀ t₁ R) {o : Outcome}
    (hf : k.phase? i = some (.removing j o)) : k.Spares R i (k.remove s.here j).tree := by
  rw [remove]
  split
  · rename_i w hw
    have hocc : k.occupant i = some w := by
      rw [occupant_of_phase hf]
      simp only [Phase.occupies?, hw]
    obtain ⟨hs, hshared⟩ := h.shared hocc
    refine h.spares_of_not_isPrefix hocc fun q hq => ?_
    show (w.remove k.tree s.here).get? q = k.tree.get? q
    rw [hshared.remove_eq hs hocc (h.sited i w hocc), Tree.get?_erase_of_not_isPrefix hq]
  · exact fun _ _ _ _ _ _ => rfl

theorem remove (h : k.Tidy m s t₀ t₁ R) (j : Nat) (hawaited : ∀ (l : Nat) (w : Workspace),
    (k.remove s.here j).removals[l]? = some ⟨w, false⟩ → (k.remove s.here j).Awaited l) :
    (k.remove s.here j).Tidy m s t₀ t₁ R := by
  by_cases hw : ∃ w, k.removals[j]? = some ⟨w, false⟩
  · obtain ⟨w, hw⟩ := hw
    obtain ⟨i, o, hf⟩ := h.awaited j w hw
    obtain ⟨hself, hrest⟩ := h.guarded.occupant_remove hw hf s.here
    have hspares := h.spares_remove hf
    have hocc : k.occupant i = some w := by
      rw [occupant_of_phase hf]
      simp only [Phase.occupies?, hw]
    obtain ⟨hs, hshared⟩ := h.shared hocc
    have htree : (k.remove s.here j).tree = k.tree.erase (w.place R) := by
      rw [Kernel.remove, hw]
      exact hshared.remove_eq hs hocc (h.sited i w hocc)
    have hpipelines := remove_pipelines k s.here j
    refine ⟨guarded_remove h.guarded s.here j, hawaited, fun l p q hp => ?_, fun l v hv => ?_,
      .inr ⟨hs, ?_⟩, fun l p hp => ?_⟩
    · rw [hpipelines] at hp
      exact h.free l p q hp
    · by_cases hl : l = i
      · rw [hl, hself] at hv
        cases hv
      · exact h.sited l v (hrest l hl ▸ hv)
    · rw [htree]
      exact hshared.erase hself hrest hocc fun l v hl hv => h.guarded.key_ne hl hocc hv
    · rw [hpipelines] at hp
      refine (h.stands l p hp).congr fun v hv => hspares l v ?_ ?_
      · rintro rfl
        rw [Option.some.inj ((phase_of_pipeline hp).symm.trans hf)] at hv
        cases hv
      · exact occupant_of_workspace? (phase_of_pipeline hp) hv
  · have hsame : k.remove s.here j = k := by
      rw [Kernel.remove]
      split
      · rename_i w hw'
        exact absurd ⟨w, hw'⟩ hw
      · rfl
    rw [hsame]
    exact h

theorem submit (h : k.Tidy m s t₀ t₁ R) {d : Document} {r : Record}
    (hfree : ∀ q, Program.prepare s.shape s.manifest d r.cellIndex = .ok q → Free t₁ R q.key) :
    (k.submit d r).Tidy m s t₀ t₁ R := by
  have hcases {i : Nat} {p : Pipeline m.Job} (hp : (k.submit d r).pipelines[i]? = some p) :
      k.pipelines[i]? = some p ∨ p = ⟨d, r, .queued⟩ := by
    rcases Nat.lt_or_ge i k.pipelines.length with hi | hi
    · exact .inl ((List.getElem?_append_left hi).symm.trans hp)
    · obtain ⟨_, _, ha, rfl⟩ := pipeline_new (s := s) (a := .submit d r) hi hp
      cases ha
      exact .inr rfl
  refine ⟨guarded_submit h.guarded d r, fun j w hj => ?_, fun i p q hp hq => ?_, fun i w hw => ?_,
    ?_, fun i p hp => ?_⟩
  · obtain ⟨i, o, hf⟩ := h.awaited j w hj
    exact ⟨i, o, (phase?_submit (lt_of_phase hf) d r).trans hf⟩
  · rcases hcases hp with hold | rfl
    · exact h.free i p q hold hq
    · exact hfree q hq
  · rw [occupant_submit] at hw
    exact h.sited i w hw
  · have hocc : (k.submit d r).occupant = k.occupant := funext (occupant_submit k d r)
    rw [hocc]
    exact h.grounds
  · rcases hcases hp with hold | rfl
    · exact h.stands i p hold
    · trivial

end Tidy

/-! ### Runs -/

theorem tidy_start (m : Machine) (s : Settings) (t₀ t₁ : Tree) (R : Place) (c : Counter) :
    (start t₀ c : Kernel m.Job).Tidy m s t₀ t₁ R where
  guarded := guarded_start t₀ c
  awaited := by rintro j w ⟨⟩
  free := by rintro i p q ⟨⟩
  sited := by rintro i w ⟨⟩
  grounds := .inl ⟨.inl rfl, fun _ => rfl⟩
  stands := by rintro i p ⟨⟩

theorem tidy_act (hm : m.Confined) (hst : s.Scratch t₀ t₁ R ∨ s.Closed t₀ t₁)
    (h : k.Tidy m s t₀ t₁ R) {a : Action} (ha : a.Orderly s t₁ R) :
    (k.act m s a).Tidy m s t₀ t₁ R := by
  have hg := guarded_act h.guarded s a
  have hawaited (j : Nat) (w : Workspace) (hj : (k.act m s a).removals[j]? = some ⟨w, false⟩) :
      (k.act m s a).Awaited j := by
    rcases pending_of_act hj with hold | hnew
    · rcases awaited_act (a := a) (h.awaited j w hold) hold with hawaited | ⟨i, o, rfl, -⟩
      · exact hawaited
      · exact ha.elim
    · exact hnew
  cases a with
  | submit d r => exact h.submit ha
  | step a =>
    cases a with
    | advance i now =>
      cases hp : k.pipelines[i]? with
      | none =>
        have hsame : k.act m s (.step (.advance i now)) = k := by
          show k.advance m s now i = k
          rw [advance, hp]
        rw [hsame]
        exact h
      | some p =>
        obtain ⟨k₁, p', ht, -, hadvance⟩ := advance_turn s now hp
        have hact : k.act m s (.step (.advance i now)) = k₁.setPipeline i p' := hadvance
        rw [hact] at hg hawaited ⊢
        exact h.turn hm hst hp ht hg hawaited
    | cancel i => exact ha.elim
    | remove j => exact h.remove j hawaited

theorem tidy_perform (hm : m.Confined) (hst : s.Scratch t₀ t₁ R ∨ s.Closed t₀ t₁)
    (h : k.Tidy m s t₀ t₁ R) {as : List Action} (has : ∀ a ∈ as, a.Orderly s t₁ R) :
    (k.perform m s as).Tidy m s t₀ t₁ R := by
  induction as generalizing k with
  | nil => exact h
  | cons a as ih =>
    refine ih (tidy_act hm hst h (has a List.mem_cons_self)) fun b hb => ?_
    exact has b (List.mem_cons_of_mem a hb)

/-! An empty tree, in which there is no scratch directory yet. -/

theorem ground_plain : plain.ground .empty = ⟨[(["scratch".toList], .directory)]⟩ := rfl

theorem bare_plain : Bare (plain.ground .empty) plain.root := by
  intro q hq hne
  have hroot : ["scratch".toList] ≠ q := Ne.symm hne
  have hnil : q ≠ [] := by
    rintro rfl
    cases List.prefix_nil.1 hq
  rw [ground_plain, Tree.get?, if_neg hnil]
  simp only [List.find?_cons, hroot, decide_false, List.find?_nil, Option.map_none]

end Kernel

end Execution

end Notebook
