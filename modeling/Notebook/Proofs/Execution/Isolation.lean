import Notebook.Proofs.Execution.Progress
import Notebook.Proofs.Execution.Tidy

/-!
Isolation. While nobody gives up a request, nobody touches the workspace of another, so that at
every moment each pipeline is where it would be if its cell were run alone.
-/

namespace Notebook.Execution

open Files (Path Place Tree)
open Program (Prepared)

/-- A queued request comes, or something happens other than that a request is given up. -/
def Action.Regular : Action → Prop
  | .submit _ r => r.state = .queued
  | .step (.cancel _) => False
  | .step (.advance ..) | .step (.remove _) => True

instance : DecidablePred Action.Regular
  | .submit _ r => inferInstanceAs (Decidable (r.state = .queued))
  | .step (.cancel _) => isFalse id
  | .step (.advance ..) | .step (.remove _) => isTrue trivial

theorem Action.Regular.orderly {a : Action} (ha : a.Regular) (s : Settings) {t₁ : Tree} {R : Place}
    (h : Bare t₁ R) : a.Orderly s t₁ R := by
  cases a with
  | submit d r => exact fun q _ => h.free q.key
  | step a =>
    cases a with
    | advance i now => trivial
    | cancel i => exact ha.elim
    | remove j => trivial

/-- Trees that are shared differ at most in the scratch directory. -/
theorem Shared.agree {t₁ t u : Tree} {R d : Place} {occ occ' : Nat → Option Workspace}
    (ht : Shared t₁ R t occ) (hu : Shared t₁ R u occ')
    (hd : ∀ q, d <+: q → t.get? q = u.get? q) : Agree R d t u := by
  intro q hq
  by_cases hpre : d <+: q
  · exact hd q hpre
  · have hout {w : Workspace} : ¬ w.place R <+: q := fun hw =>
      hpre (hq (root_isPrefix_place.trans hw) (ne_root_of_place_isPrefix hw))
    rw [ht.outside q fun _ _ _ => hout, hu.outside q fun _ _ _ => hout]

namespace Kernel

variable {m : Machine} {s : Settings} {t₀ t₁ t u : Tree} {R : Place} {k k₁ : Kernel m.Job}
  {i : Nat} {p p' : Pipeline m.Job} {w : Workspace} {d : Document} {c : Nat}

/-! ### Workspaces of others -/

/-- Whatever happens spares the workspace of a pipeline that does not go on itself. -/
theorem spares_act (hm : m.Confined) (hs : s.Scratch t₀ t₁ R) (h : k.Tidy m s t₀ t₁ R) {a : Action}
    (ha : a.Orderly s t₁ R) {f : Phase m.Job} (hf : k.phase? i = some f)
    (hw : f.workspace? = some w) (hown : ∀ now, a ≠ .step (.advance i now)) {q : Place}
    (hq : w.place R <+: q) : (k.act m s a).tree.get? q = k.tree.get? q := by
  have hocc := occupant_of_workspace? hf hw
  cases a with
  | submit d r => rfl
  | step a =>
    cases a with
    | advance j now =>
      have hj : i ≠ j := fun hj => hown now (by rw [hj])
      show (k.advance m s now j).tree.get? q = _
      cases hp : k.pipelines[j]? with
      | none => rw [advance, hp]
      | some p =>
        obtain ⟨k₁, p', ht, -, hadvance⟩ := advance_turn s now hp
        have hspares := h.spares_turn hm (.inl hs) hp ht
        rw [hadvance]
        exact hspares i w hj hocc q hq
    | cancel j => exact ha.elim
    | remove j =>
      show (k.remove s.here j).tree.get? q = _
      by_cases hj : ∃ v, k.removals[j]? = some ⟨v, false⟩
      · obtain ⟨v, hv⟩ := hj
        obtain ⟨l, o, hl⟩ := h.awaited j v hv
        refine h.spares_remove hl i w ?_ hocc q hq
        rintro rfl
        rw [Option.some.inj (hf.symm.trans hl)] at hw
        cases hw
      · rw [remove]
        split
        · rename_i v hv
          exact absurd ⟨v, hv⟩ hj
        · rfl

/-! ### Where a pipeline would be if it were alone -/

/-- The workspace is the one that the cell gets if it is run alone, in the tree that there is
then. -/
def Gets (s : Settings) (t₀ : Tree) (d : Document) (c : Nat) (w : Workspace) (t : Tree) : Prop :=
  ∃ q, Program.prepare s.shape s.manifest d c = .ok q ∧
    Workspace.acquire t₀ s.here s.scratch q.key s.manifest q.program = (t, .ok w)

/-- The process is one that the cell has some time if it is run alone, in the tree that there is
then. -/
def Reaches (m : Machine) (s : Settings) (t₀ : Tree) (d : Document) (c : Nat) (w : Workspace)
    (process : m.Job) (t : Tree) : Prop :=
  ∃ u j n, Gets s t₀ d c w u ∧ m.start s.toolchain u s.here w.root = .ok j ∧
    ∀ n', m.complete (n + n') j u = m.complete n' process t

/-- What the pipeline has come to is what it would have come to if it were alone. -/
def Alike (m : Machine) (s : Settings) (t₀ : Tree) (R : Place) (t : Tree) (d : Document) (c : Nat) :
    Phase m.Job → Prop
  | .queued | .started | .waiting _ | .holding _ | .cancelled => True
  | .ready w => ∃ u, Gets s t₀ d c w u ∧ Agree R (w.place R) t u
  | .running w process => ∃ u, Reaches m s t₀ d c w process u ∧ Agree R (w.place R) t u
  | .releasing _ o | .removing _ o | .unlocking o | .closing o | .finished o =>
    ∃ n, alone m s t₀ d c n = some o

/-- The record of a pipeline is as far as the pipeline. -/
def Timely {P : Type} (r : Record) : Phase P → Prop
  | .queued => r.state = .queued
  | .finished _ | .cancelled => True
  | _ => r.Begun

/-- The pipeline is where it would be if it were alone. -/
structure Follows (m : Machine) (s : Settings) (t₀ : Tree) (R : Place) (t : Tree)
    (p : Pipeline m.Job) : Prop where
  timely : Timely p.record p.phase
  alike : Alike m s t₀ R t p.document p.record.cellIndex p.phase

theorem Timely.turn {now : Moment} (h : Timely p.record p.phase) (ht : Turn m s now k i p k₁ p') :
    Timely p'.record p'.phase := by
  cases ht with
  | reject _ _ | close _ _ | misclose _ _ => trivial
  | begin_ hf hstart =>
    rw [hf] at h
    rw [Record.start_of_queued h] at hstart
    cases hstart
    exact ⟨rfl, rfl⟩
  | wait _ _ | await _ _ | rest _ => exact h
  | decline hf _ | ask hf _ | hold hf _ | refuse hf _ | acquire hf _ | stall hf _ | launch hf _
  | work hf _ | exit hf _ | release hf | clear hf _ | unlock hf =>
    rw [hf] at h
    exact h

theorem Alike.congr {f : Phase m.Job} (h : Alike m s t₀ R t d c f)
    (hu : ∀ w, f.workspace? = some w → Agree R (w.place R) u t) : Alike m s t₀ R u d c f := by
  cases f with
  | ready w =>
    obtain ⟨v, hgets, hagree⟩ := h
    exact ⟨v, hgets, (hu w rfl).trans hagree⟩
  | running w process =>
    obtain ⟨v, hreaches, hagree⟩ := h
    exact ⟨v, hreaches, (hu w rfl).trans hagree⟩
  | queued | started | waiting _ | holding _ | releasing _ _ | removing _ _ | unlocking _
  | closing _ | finished _ | cancelled => exact h

theorem alone_of_gets (h : Gets s t₀ d c w u) (n : Nat) :
    alone m s t₀ d c n =
      match m.start s.toolchain u s.here w.root with
      | .error f => some (.error (.spawn s.toolchain.program f))
      | .ok j => (m.complete n j u).map fun r => outcome s.toolchain r.2 := by
  obtain ⟨q, hq, hacquire⟩ := h
  rw [alone, hq]
  cases hj : m.start s.toolchain u s.here w.root <;> simp only [hacquire, hj]

section

variable {j j' : m.Job}

theorem Gets.reaches (h : Gets s t₀ d c w u)
    (hstart : m.start s.toolchain u s.here w.root = .ok j) :
    Reaches m s t₀ d c w j u :=
  ⟨u, j, 0, h, hstart, fun n => by rw [Nat.zero_add]⟩

theorem Reaches.work {u' : Tree} (h : Reaches m s t₀ d c w j u) (hu : m.step j u = (u', .inl j')) :
    Reaches m s t₀ d c w j' u' := by
  obtain ⟨u₀, j₀, n, hgets, hstart, hcomplete⟩ := h
  refine ⟨u₀, j₀, n + 1, hgets, hstart, fun n' => ?_⟩
  rw [Nat.add_assoc, Nat.add_comm 1, hcomplete, Machine.complete, hu]

theorem Reaches.exit {u' : Tree} {e : Completion} (h : Reaches m s t₀ d c w j u)
    (hu : m.step j u = (u', .inr e)) :
    ∃ n, alone m s t₀ d c n = some (outcome s.toolchain e) := by
  obtain ⟨u₀, j₀, n, hgets, hstart, hcomplete⟩ := h
  refine ⟨n + 1, ?_⟩
  rw [alone_of_gets hgets, hstart]
  show (m.complete (n + 1) j₀ u₀).map _ = _
  rw [hcomplete, Machine.complete, hu]
  rfl

end

/-- The tree in which a cell has its workspace if it is run alone. -/
theorem shared_of_gets (hs : s.Scratch t₀ t₁ R) (h : Gets s t₀ d c w u)
    (hfree : ∀ q, Program.prepare s.shape s.manifest d c = .ok q → Free t₁ R q.key) :
    s.Sited w ∧ Shared t₁ R u fun j => if j = 0 then some w else none := by
  obtain ⟨q, hq, hacquire⟩ := h
  have hplain : Files.Name.Plain q.key.digits := by
    rw [Program.key_of_prepare hq]
    exact Program.Key.plain_derive q.source s.manifest
  have hroom := hs.room hplain (hfree q hq)
  cases hr : (Workspace.ofKey s.scratch q.key).refusal? with
  | some f =>
    obtain ⟨t', ht', -⟩ : ∃ t', Workspace.acquire t₀ s.here s.scratch q.key s.manifest q.program =
        (t', .error f) ∧ _ := hroom.acquire_refused hr
    rw [ht'] at hacquire
    cases hacquire
  | none =>
    rw [hroom.acquire_granted hr] at hacquire
    cases hacquire
    refine ⟨⟨rfl, hplain, Workspace.fault?_of_refusal hplain hr⟩, ?_⟩
    have hnone : Shared t₁ R t₁ fun _ => none := .of_none fun _ => rfl
    exact hnone.populate (w := .ofKey s.scratch q.key) (i := 0) (hfree q hq) (by simp) (if_pos rfl)
      (fun j hj => if_neg hj) rfl s.manifest q.program

/-! ### A pipeline goes on -/

section

variable (htidy : k.Tidy m s t₀ t₁ R) (hs : s.Scratch t₀ t₁ R) (hp : k.pipelines[i]? = some p)

include htidy hs hp

theorem alone_of_refused {q : Prepared} (hf : p.phase = .holding q) {f : Failure}
    (hacquire : Workspace.acquire k.tree s.here s.scratch q.key s.manifest q.program =
      (t, .error f)) (n : Nat) :
    alone m s t₀ p.document p.record.cellIndex n = some (.error f) := by
  have hq : Program.prepare s.shape s.manifest p.document p.record.cellIndex = .ok q :=
    htidy.stands_of hp hf
  obtain ⟨u, hroom, -⟩ := htidy.room hs hp hf
  have hroom₀ := hs.room (plain_of_request hq) (htidy.free i p q hp hq)
  cases hr : (Workspace.ofKey s.scratch q.key).refusal? with
  | some f' =>
    obtain ⟨t', ht', -⟩ : ∃ t', Workspace.acquire k.tree s.here s.scratch q.key s.manifest
        q.program = (t', .error f') ∧ _ := hroom.acquire_refused hr
    obtain ⟨t'', ht'', -⟩ : ∃ t'', Workspace.acquire t₀ s.here s.scratch q.key s.manifest
        q.program = (t'', .error f') ∧ _ := hroom₀.acquire_refused hr
    rw [ht'] at hacquire
    cases hacquire
    rw [alone, hq]
    simp only [ht'']
  | none =>
    rw [hroom.acquire_granted hr] at hacquire
    cases hacquire

/-- Who gets a workspace would get the same one alone. -/
theorem gets_of_acquired {q : Prepared} (hf : p.phase = .holding q)
    (hacquire : Workspace.acquire k.tree s.here s.scratch q.key s.manifest q.program =
      (t, .ok w)) (htidy' : k₁.Tidy m s t₀ t₁ R) (htree : k₁.tree = t)
    (hocc : k₁.occupant i = some w) :
    ∃ u, Gets s t₀ p.document p.record.cellIndex w u ∧ Agree R (w.place R) t u := by
  have hq : Program.prepare s.shape s.manifest p.document p.record.cellIndex = .ok q :=
    htidy.stands_of hp hf
  have hfree := htidy.free i p q hp hq
  obtain ⟨u, hroom, -⟩ := htidy.room hs hp hf
  have hroom₀ := hs.room (plain_of_request hq) hfree
  cases hr : (Workspace.ofKey s.scratch q.key).refusal? with
  | some f =>
    obtain ⟨t', ht', -⟩ : ∃ t', Workspace.acquire k.tree s.here s.scratch q.key s.manifest
        q.program = (t', .error f) ∧ _ := hroom.acquire_refused hr
    rw [ht'] at hacquire
    cases hacquire
  | none =>
    rw [hroom.acquire_granted hr] at hacquire
    cases hacquire
    have hgets : Gets s t₀ p.document p.record.cellIndex (.ofKey s.scratch q.key) _ :=
      ⟨q, hq, hroom₀.acquire_granted hr⟩
    obtain ⟨-, hshared⟩ := shared_of_gets hs hgets fun q' hq' => by
      rw [hq] at hq'
      cases hq'
      exact hfree
    obtain ⟨-, hshared'⟩ := htidy'.shared hocc
    rw [htree] at hshared'
    refine ⟨_, hgets, hshared'.agree hshared fun q' hq' => ?_⟩
    obtain ⟨r, rfl⟩ := hq'
    have hD : R ++ [q.key.digits] ≠ [] := by simp
    exact (Workspace.get?_populated_append hD hroom.free r).trans
      (Workspace.get?_populated_append hD hroom₀.free r).symm

theorem start_eq_alone (hm : m.Secluded R) (hf : p.phase = .ready w)
    (hgets : Gets s t₀ p.document p.record.cellIndex w u) (hagree : Agree R (w.place R) k.tree u) :
    m.start s.toolchain k.tree s.here w.root = m.start s.toolchain u s.here w.root := by
  have hocc : k.occupant i = some w :=
    occupant_of_workspace? (phase_of_pipeline hp) (by rw [hf]; rfl)
  obtain ⟨hsited, hshared⟩ := shared_of_gets hs hgets fun q hq => htidy.free i p q hp hq
  exact hm.start s.toolchain k.tree u s.here _ _
    ((htidy.shared hocc).2.lookup hs hocc (htidy.sited i w hocc))
    (hshared.lookup (i := 0) hs (if_pos rfl) hsited) hagree

/-- Whatever a pipeline does, it would have done if it were alone. -/
theorem Alike.turn (hm : m.Secluded R) {now : Moment} (htimely : Timely p.record p.phase)
    (h : Alike m s t₀ R k.tree p.document p.record.cellIndex p.phase)
    (ht : Turn m s now k i p k₁ p') (htidy' : (k₁.setPipeline i p').Tidy m s t₀ t₁ R) :
    Alike m s t₀ R k₁.tree p.document p.record.cellIndex p'.phase := by
  cases ht with
  | reject hf hstart =>
    rw [hf] at htimely
    rw [Record.start_of_queued htimely] at hstart
    cases hstart
  | begin_ _ _ | ask _ _ | hold _ _ => trivial
  | decline hf hq =>
    refine ⟨0, ?_⟩
    rw [Pipeline.request?] at hq
    rw [alone, hq]
  | wait _ _ | await _ _ | rest _ => exact h
  | refuse hf hacquire => exact ⟨0, alone_of_refused htidy hs hp hf hacquire 0⟩
  | acquire hf hacquire =>
    exact gets_of_acquired htidy hs hp hf hacquire htidy' rfl
      (occupant_of_workspace? (phase?_set_self hp rfl) rfl)
  | stall hf hstart =>
    rw [hf] at h
    obtain ⟨u, hgets, hagree⟩ := h
    refine ⟨0, ?_⟩
    rw [alone_of_gets hgets, ← start_eq_alone htidy hs hp hm hf hgets hagree, hstart]
  | launch hf hstart =>
    rw [hf] at h
    obtain ⟨u, hgets, hagree⟩ := h
    rw [start_eq_alone htidy hs hp hm hf hgets hagree] at hstart
    exact ⟨u, hgets.reaches hstart, hagree⟩
  | @work w j j' t hf hstep =>
    rw [hf] at h
    obtain ⟨u, hreaches, hagree⟩ := h
    obtain ⟨hresult, hagree'⟩ := hm.step j _ k.tree u (htidy.stands_of hp hf) hagree
    rw [hstep] at hresult hagree'
    exact ⟨_, hreaches.work (Prod.ext rfl hresult.symm), hagree'⟩
  | @exit w j t e hf hstep =>
    rw [hf] at h
    obtain ⟨u, hreaches, hagree⟩ := h
    obtain ⟨hresult, -⟩ := hm.step j _ k.tree u (htidy.stands_of hp hf) hagree
    rw [hstep] at hresult
    exact hreaches.exit (Prod.ext rfl hresult.symm)
  | release hf | clear hf _ | unlock hf | close hf _ =>
    rw [hf] at h
    exact h
  | misclose hf hend =>
    rw [hf] at htimely
    obtain ⟨r', hr', -⟩ := htimely.conclude now _
    rw [hr'] at hend
    cases hend

end

/-! ### Runs -/

/-- All pipelines are where they would be if they were alone. -/
structure Separate (m : Machine) (s : Settings) (t₀ t₁ : Tree) (R : Place) (k : Kernel m.Job) :
    Prop where
  tidy : k.Tidy m s t₀ t₁ R
  follows : ∀ (i : Nat) (p : Pipeline m.Job), k.pipelines[i]? = some p → Follows m s t₀ R k.tree p

theorem separate_act (hm : m.Confined) (hm' : m.Secluded R) (hs : s.Scratch t₀ t₁ R)
    (hbare : Bare t₁ R) (h : k.Separate m s t₀ t₁ R) {a : Action} (ha : a.Regular) :
    (k.act m s a).Separate m s t₀ t₁ R := by
  have horderly := ha.orderly s hbare
  have htidy' := tidy_act hm (.inl hs) h.tidy horderly
  refine ⟨htidy', fun i p' hp' => ?_⟩
  rcases Nat.lt_or_ge i k.pipelines.length with hi | hi
  -- A pipeline that goes on does what it would do alone. One that does not go on keeps its phase,
  -- and nobody touches its workspace.
  · obtain ⟨p, hp⟩ : ∃ p, k.pipelines[i]? = some p := ⟨_, List.getElem?_eq_getElem hi⟩
    have hfollows := h.follows i p hp
    rcases act_cases s hp a with ⟨now, k₁, p'', rfl, ht, hadvance, hp''⟩ | ⟨hown, hp''⟩
    · obtain rfl : p'' = p' := Option.some.inj (hp''.symm.trans hp')
      have hact : k.act m s (.step (.advance i now)) = k₁.setPipeline i p'' := hadvance
      rw [hact] at htidy' ⊢
      obtain ⟨hdocument, hcell⟩ := ht.asked
      have halike := Alike.turn h.tidy hs hp hm' hfollows.timely hfollows.alike ht htidy'
      refine ⟨hfollows.timely.turn ht, ?_⟩
      rw [hdocument, hcell]
      exact halike
    · rcases hp'' with hsame | hcancelled
      · obtain rfl : p = p' := Option.some.inj (hsame.symm.trans hp')
        refine ⟨hfollows.timely, hfollows.alike.congr fun w hw => ?_⟩
        have hphase := phase_of_pipeline hp
        obtain ⟨-, hshared⟩ := h.tidy.shared (occupant_of_workspace? hphase hw)
        obtain ⟨-, hshared'⟩ := htidy'.shared (occupant_of_workspace? (phase_of_pipeline hp') hw)
        exact hshared'.agree hshared fun q hq =>
          spares_act hm hs h.tidy horderly hphase hw hown hq
      · obtain rfl : _ = p' := Option.some.inj (hcancelled.symm.trans hp')
        exact ⟨trivial, trivial⟩
  · obtain ⟨d, r, rfl, rfl⟩ := pipeline_new hi hp'
    exact ⟨ha, trivial⟩

theorem separate_perform (hm : m.Confined) (hm' : m.Secluded R) (hs : s.Scratch t₀ t₁ R)
    (hbare : Bare t₁ R) (c : Counter) {as : List Action} (has : ∀ a ∈ as, a.Regular) :
    ((start t₀ c).perform m s as).Separate m s t₀ t₁ R := by
  induction as using List.reverseRecOn with
  | nil => exact ⟨tidy_start m s t₀ t₁ R c, by rintro i p ⟨⟩⟩
  | append_singleton as a ih =>
    rw [perform_concat]
    exact separate_act hm hm' hs hbare
      (ih fun b hb => has b (List.mem_append_left [a] hb)) (has a (by simp))

theorem Separate.alone (h : k.Separate m s t₀ t₁ R) (hp : k.pipelines[i]? = some p) {x : Finished}
    (hx : p.finished? = some x) : ∃ n, alone m s t₀ p.document p.record.cellIndex n =
      some x.outcome := by
  have halike := (h.follows i p hp).alike
  rw [Pipeline.finished?] at hx
  split at hx <;> cases hx
  rename_i hf
  rw [hf] at halike
  exact halike

/-! ### Cells that are run alone -/

/-- The outcome is one that a request for the cell comes to when nothing else goes on. -/
def Solo (m : Machine) (s : Settings) (t₀ : Tree) (d : Document) (c : Nat) (o : Outcome) : Prop :=
  ∃ (steps : List Step) (x : Finished), (∀ a ∈ steps, ∀ i, a ≠ .cancel i) ∧
    (((start t₀ .fresh).submit d (.queued c 1)).run m s steps).delivered? 0 = some x ∧
    x.outcome = o

theorem alone_of_solo (hm : m.Confined) (hm' : m.Secluded R) (hs : s.Scratch t₀ t₁ R)
    (hbare : Bare t₁ R) {o : Outcome} (h : Solo m s t₀ d c o) :
    ∃ n, Execution.alone m s t₀ d c n = some o := by
  obtain ⟨steps, x, hsteps, hx, rfl⟩ := h
  obtain ⟨p, hp, hfinished⟩ := Option.bind_eq_some_iff.1 hx
  have hperform : ((start t₀ .fresh).submit d (.queued c 1)).run m s steps =
      ((start t₀ .fresh).submit d (.queued c 1)).perform m s (steps.map .step) := by
    rw [perform, List.foldl_map]
    rfl
  have hregular : ∀ a ∈ Action.submit d (.queued c 1) :: steps.map .step, a.Regular := by
    intro a ha
    rcases List.mem_cons.1 ha with rfl | ha
    · rfl
    · obtain ⟨b, hb, rfl⟩ := List.mem_map.1 ha
      cases b with
      | advance i now => trivial
      | cancel i => exact absurd rfl (hsteps _ hb i)
      | remove j => trivial
  have hseparate : (((start t₀ .fresh).submit d (.queued c 1)).perform m s
      (steps.map .step)).Separate m s t₀ t₁ R := separate_perform hm hm' hs hbare .fresh hregular
  rw [hperform] at hp
  obtain ⟨p₁, hp₁, hcourse⟩ := course_perform (s := s) (i := 0)
    (k := (start t₀ .fresh).submit d (.queued c 1)) rfl rfl (steps.map .step)
  obtain rfl : p₁ = p := Option.some.inj (hp₁.symm.trans hp)
  have halone := hseparate.alone hp hfinished
  rw [hcourse.document, hcourse.cell] at halone
  exact halone

theorem terminates_of_alone {n : Nat} {o : Outcome} (h : Execution.alone m s t₀ d c n = some o) :
    Terminates m s t₀ d c := by
  intro q t w j hq hacquire hstart
  rw [Execution.alone, hq] at h
  simp only [hacquire, hstart] at h
  obtain ⟨r, hr, -⟩ := Option.map_eq_some_iff.1 h
  exact ⟨n, by rw [hr]; rfl⟩

/-- What comes of a cell when it is run alone is one outcome, if its process ends. -/
theorem solo_iff (hm : m.Confined) (hm' : m.Secluded R) (hs : s.Scratch t₀ t₁ R)
    (hbare : Bare t₁ R) {n : Nat} {o o' : Outcome}
    (h : Execution.alone m s t₀ d c n = some o) : Solo m s t₀ d c o' ↔ o' = o := by
  have hunique {o' : Outcome} (ho' : Solo m s t₀ d c o') : o' = o := by
    obtain ⟨n', hn'⟩ := alone_of_solo hm hm' hs hbare ho'
    exact alone_unique hn' h
  refine ⟨hunique, ?_⟩
  rintro rfl
  -- Some run comes to an end, and its outcome can only be this one.
  obtain ⟨steps, hsteps, hend⟩ :
      Finishes m s .epoch 0 0 ((start t₀ .fresh).submit d (.queued c 1)) :=
    finishes_of_queued (k := (start t₀ .fresh).submit d (.queued c 1))
      (p := ⟨d, .queued c 1, .queued⟩) rfl rfl (fun _ _ => rfl) (terminates_of_alone h)
  obtain ⟨x, hx⟩ := Option.isSome_iff_exists.1 hend
  have hsolo : Solo m s t₀ d c x.outcome := by
    refine ⟨steps, x, fun a ha i => ?_, hx, rfl⟩
    rcases hsteps a ha with rfl | rfl <;> exact Step.noConfusion
  rw [← hunique hsolo]
  exact hsolo

/-- While nobody gives up a request and the scratch directory has been empty, nobody else touches
the workspace of a pipeline, a toolchain finds the manifest and the program of its own pipeline and
nothing else, and if toolchains keep to their workspaces, then what comes of each cell is what comes
of it when it is run alone. -/
theorem isolated (m : Machine) (s : Settings) (t₀ t₁ : Tree) (R : Place) (c : Counter)
    (as : List Action) (hm : m.Confined) (hs : s.Scratch t₀ t₁ R) (hbare : Bare t₁ R)
    (has : ∀ a ∈ as, a.Regular) :
    (∀ (i : Nat) (f : Phase m.Job) (w : Workspace) (a : Action),
      ((start t₀ c).perform m s as).phase? i = some f → f.workspace? = some w → a.Regular →
      (∀ now, a ≠ .step (.advance i now)) → ∀ q, w.place R <+: q →
        (((start t₀ c).perform m s as).act m s a).tree.get? q =
          ((start t₀ c).perform m s as).tree.get? q) ∧
    (∀ (i : Nat) (p : Pipeline m.Job) (w : Workspace),
      ((start t₀ c).perform m s as).pipelines[i]? = some p → p.phase = .ready w →
        ∃ q, p.request? s = .ok q ∧ w = .ofKey s.scratch q.key ∧ ∀ r,
          ((start t₀ c).perform m s as).tree.get? (w.place R ++ r) =
            Workspace.contents s.manifest q.program r) ∧
    (m.Secluded R → ∀ (pre post : List Action) (d : Document) (r : Record) (x : Finished),
      as = pre ++ .submit d r :: post →
      ((start t₀ c).perform m s as).delivered? ((start t₀ c).perform m s pre).pipelines.length =
        some x → ∀ o, Solo m s t₀ d r.cellIndex o ↔ o = x.outcome) := by
  have htidy : ((start t₀ c).perform m s as).Tidy m s t₀ t₁ R :=
    tidy_perform hm (.inl hs) (tidy_start m s t₀ t₁ R c) fun a ha => (has a ha).orderly s hbare
  refine ⟨fun i f w a hf hw ha hown q hq => ?_, fun i p w hp hf => htidy.stands_of hp hf,
    fun hm' pre post d r x has' hx o => ?_⟩
  · exact spares_act hm hs htidy (ha.orderly s hbare) hf hw hown hq
  · subst has'
    have hr : r.state = .queued := has (.submit d r) (by simp)
    obtain ⟨p, hp, hfinished⟩ := Option.bind_eq_some_iff.1 hx
    have hperform : (start t₀ c).perform m s (pre ++ .submit d r :: post) =
        (((start t₀ c).perform m s pre).submit d r).perform m s post := List.foldl_append
    obtain ⟨p₁, hp₁, hcourse⟩ := course_perform (s := s)
      (pipeline_of_submit ((start t₀ c).perform m s pre) d r) hr post
    rw [← hperform] at hp₁
    obtain rfl : p₁ = p := Option.some.inj (hp₁.symm.trans hp)
    obtain ⟨n, hn⟩ := (separate_perform hm hm' hs hbare c has).alone hp hfinished
    rw [hcourse.document, hcourse.cell] at hn
    exact solo_iff hm hm' hs hbare hn

/-! Two documents have the same code, in one cell and in two. Their last cells have one key, but
different programs. They are run at once, and the second one gets its workspace when the first one
is done with it. -/

def joined : Document := ⟨[.code "1\n2".toList]⟩

def parted : Document := ⟨[.code "1".toList, .code "2".toList]⟩

def evaluating : Settings := { plain with shape := .evaluate }

def entwined : List Action :=
  [.submit joined (.queued 0 1), .submit parted (.queued 1 2)] ++
    [0, 0, 1, 1, 0, 0, 1, 0, 0, 0].map (fun i => .step (.advance i .epoch)) ++
    [.step (.remove 0)] ++ [0, 0, 0, 1, 1].map (fun i => .step (.advance i .epoch))

def meeting : Kernel Machine.printer.Job :=
  (start .empty .fresh).perform .printer evaluating entwined

theorem isolated_entwined :
    (∃ x, meeting.delivered? 0 = some x ∧
      ∀ o, Solo .printer evaluating .empty joined 0 o ↔ o = x.outcome) ∧
    ∃ p w q, meeting.pipelines[1]? = some p ∧ p.phase = .ready w ∧
      p.request? evaluating = .ok q ∧
      (∀ r, meeting.tree.get? (w.place plain.root ++ r) =
        Workspace.contents plain.manifest q.program r) ∧
      ∀ r, (meeting.act .printer evaluating (.step (.remove 0))).tree.get?
        (w.place plain.root ++ r) = meeting.tree.get? (w.place plain.root ++ r) := by
  have hscratch : evaluating.Scratch .empty (plain.ground .empty) plain.root := ⟨rfl, rfl, rfl⟩
  obtain ⟨hspared, hstands, hsolo⟩ :=
    isolated .printer evaluating .empty (plain.ground .empty) plain.root .fresh entwined
      Machine.confined_printer hscratch bare_plain (by decide)
  have hended : (meeting.delivered? 0).isSome := by decide +kernel
  have hready : (meeting.phase? 1).any fun | .ready _ => true | _ => false := by decide +kernel
  obtain ⟨x, hx⟩ := Option.isSome_iff_exists.1 hended
  refine ⟨⟨x, hx, hsolo (Machine.secluded_printer _) [] _ joined (.queued 0 1) x rfl hx⟩, ?_⟩
  obtain ⟨f, hf, hisReady⟩ := (Option.any_eq_true _ _).1 hready
  obtain ⟨p, hp, rfl⟩ := pipeline_of_phase hf
  cases hphase : p.phase with
  | ready w =>
    obtain ⟨q, hq, -, hcontents⟩ := hstands 1 p w hp hphase
    refine ⟨p, w, q, hp, hphase, hq, hcontents, fun r => ?_⟩
    refine hspared 1 p.phase w (.step (.remove 0)) hf ?_ trivial ?_ _ (List.prefix_append _ r)
    · rw [hphase]
      rfl
    · rintro now ⟨⟩
  | _ =>
    rw [hphase] at hisReady
    cases hisReady

end Kernel

end Notebook.Execution
