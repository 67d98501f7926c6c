import Notebook.Proofs.Document.History
import Notebook.Proofs.Execution.System

/-!
Who asks for which key. A request for a cell asks for the key of that cell alone, so requests for
different cells of one document stay out of each other's way. If nobody else is around, none of them
ever has to wait.
-/

namespace Notebook.Execution

open Files (Tree)
open Program (Key)

namespace Kernel

variable {m : Machine} {s : Settings} {k k' : Kernel m.Job} {i j n : Nat} {d : Document}
  {p : Pipeline m.Job} {key : Key}

/-! ### What is asked for -/

/-- The key of the cell that a pipeline is for, if that is one of code. -/
def key? {P : Type} (s : Settings) (k : Kernel P) (i : Nat) : Option Key :=
  k.asked[i]?.bind fun a => (Program.prepare s.shape s.manifest a.1 a.2).toOption.map (·.key)

theorem asked_of_pipeline (hp : k.pipelines[i]? = some p) :
    k.asked[i]? = some (p.document, p.record.cellIndex) := by
  rw [asked, List.getElem?_map, hp]
  rfl

theorem asked_act (s : Settings) (k : Kernel m.Job) (a : Action) :
    ∃ added, (k.act m s a).asked = k.asked ++ added := by
  cases a with
  | submit d r => exact ⟨[(d, r.cellIndex)], List.map_append⟩
  | step a => exact ⟨[], (asked_step k s a).trans (List.append_nil _).symm⟩

theorem asked_perform (s : Settings) (k : Kernel m.Job) (as : List Action) :
    ∃ added, (k.perform m s as).asked = k.asked ++ added := by
  induction as generalizing k with
  | nil => exact ⟨[], (List.append_nil _).symm⟩
  | cons a as ih =>
    obtain ⟨first, hfirst⟩ := asked_act s k a
    obtain ⟨rest, hrest⟩ := ih (k.act m s a)
    exact ⟨first ++ rest, by rw [← List.append_assoc, ← hfirst]; exact hrest⟩

theorem locks_submitAll (k : Kernel m.Job) (d : Document) (cells : List Nat) :
    (k.submitAll d cells).locks = k.locks := by
  induction cells generalizing k with
  | nil => rfl
  | cons cell cells ih =>
    rw [submitAll_cons, ih]
    rfl

theorem key?_of_request {q : Program.Prepared} (hp : k.pipelines[i]? = some p)
    (hq : p.request? s = .ok q) : k.key? s i = some q.key := by
  rw [Pipeline.request?] at hq
  rw [key?, asked_of_pipeline hp, Option.bind_some, hq]
  rfl

theorem key?_of_asked {added : List (Document × Nat)} (h : k'.asked = k.asked ++ added)
    (hkey : k.key? s i = some key) : k'.key? s i = some key := by
  obtain ⟨a, ha, hkey⟩ := Option.bind_eq_some_iff.1 hkey
  rw [key?, h, List.getElem?_append_left (List.getElem?_eq_some_iff.1 ha).1, ha]
  exact hkey

theorem key?_act (hkey : k.key? s i = some key) (a : Action) :
    (k.act m s a).key? s i = some key := by
  obtain ⟨added, hadded⟩ := asked_act s k a
  exact key?_of_asked hadded hkey

theorem key?_step (k : Kernel m.Job) (s : Settings) (a : Step) (i : Nat) :
    (k.step m s a).key? s i = k.key? s i := by
  rw [key?, asked_step, key?]

theorem key?_perform (hkey : k.key? s i = some key) (as : List Action) :
    (k.perform m s as).key? s i = some key := by
  obtain ⟨added, hadded⟩ := asked_perform s k as
  exact key?_of_asked hadded hkey

theorem key?_submitAll (hi : i < d.codeIndices.length) :
    (k.submitAll d d.codeIndices).key? s (k.pipelines.length + i) =
      some (Key.derive (d.history d.codeIndices[i]) s.manifest) := by
  have hcode := Document.mem_codeIndices_iff_hasCode.1 (List.getElem_mem hi)
  have hlen : k.asked.length = k.pipelines.length := List.length_map _
  rw [key?, asked_submitAll, List.getElem?_append_right (by omega), hlen, Nat.add_sub_cancel_left,
    List.getElem?_map, List.getElem?_eq_getElem hi, Option.map_some, Option.bind_some,
    Document.prepare_of_hasCode hcode]
  rfl

theorem key?_submitAll_unique (hdigests : Set.InjOn Digest.sha256 (d.messages s.manifest))
    (hi : i < d.codeIndices.length) (hj : j < d.codeIndices.length)
    (hki : (k.submitAll d d.codeIndices).key? s (k.pipelines.length + i) = some key)
    (hkj : (k.submitAll d d.codeIndices).key? s (k.pipelines.length + j) = some key) : i = j := by
  rw [key?_submitAll hi] at hki
  rw [key?_submitAll hj] at hkj
  have hcell := Document.eq_of_derive_eq hdigests
    (Document.mem_codeIndices_iff_hasCode.1 (List.getElem_mem hi))
    (Document.mem_codeIndices_iff_hasCode.1 (List.getElem_mem hj))
    (Option.some.inj (hki.trans hkj.symm))
  exact (d.nodup_codeIndices.getElem_inj_iff).1 hcell

/-! ### Who uses which lock -/

/-- Everybody in the table of locks is there for the key of the own cell. -/
structure Keyed (s : Settings) (k : Kernel m.Job) : Prop where
  guarded : k.Guarded
  lined : ∃ a, k.locks.Lined a
  own : ∀ i u, k.locks.user? i = some u → k.key? s i = some u.key

theorem keyed_start (s : Settings) (t : Tree) (c : Counter) :
    Keyed s (start t c : Kernel m.Job) where
  guarded := guarded_start t c
  lined := ⟨[], Locks.lined_empty⟩
  own := by rintro i u ⟨⟩

theorem Touches.own {l : Locks} (h : k.Touches s l) (hk : k.Keyed s) {u : User}
    (hu : l.user? i = some u) : k.key? s i = some u.key := by
  cases h with
  | keep => exact hk.own i u hu
  | @request j p q hp hf hq =>
    by_cases hij : i = j
    · subst hij
      obtain ⟨v, hv, hkey⟩ := k.locks.user?_request_self i q.key
      obtain rfl := Option.some.inj (hv.symm.trans hu)
      rw [hkey]
      exact key?_of_request hp hq
    · rw [Locks.user?_request_ne hij] at hu
      exact hk.own i u hu
  | poll j =>
    have hsame := Locks.Lined.key_poll k.locks j i
    rw [hu] at hsame
    obtain ⟨v, hv, hkey⟩ := Option.map_eq_some_iff.1 hsame.symm
    rw [hk.own i v hv]
    exact congrArg some hkey
  | drop j =>
    rw [Locks.user?_drop_ne (Locks.ne_of_user?_drop hu)] at hu
    exact hk.own i u hu

theorem Keyed.act (h : k.Keyed s) (a : Action) : (k.act m s a).Keyed s := by
  have htouches := touches_act s k a
  exact ⟨guarded_act h.guarded s a, htouches.lined h.guarded h.lined,
    fun i u hu => key?_act (htouches.own h hu) a⟩

theorem Keyed.perform (h : k.Keyed s) (as : List Action) : (k.perform m s as).Keyed s := by
  induction as generalizing k with
  | nil => exact h
  | cons a as ih => exact ih (h.act a)

theorem Keyed.submitAll (h : k.Keyed s) (d : Document) (cells : List Nat) :
    (k.submitAll d cells).Keyed s := by
  induction cells generalizing k with
  | nil => exact h
  | cons cell cells ih =>
    rw [submitAll_cons]
    have hsubmit := h.act (.submit d (.queued cell k.counter.next.1))
    exact ih ⟨⟨hsubmit.guarded.sound, hsubmit.guarded.known, hsubmit.guarded.keeps⟩,
      hsubmit.lined, hsubmit.own⟩

/-- The pipeline waits for the key, or has got it. -/
def Claims {P : Type} (k : Kernel P) (i : Nat) (key : Key) : Prop :=
  (∃ q, k.phase? i = some (.waiting q) ∧ q.key = key) ∨ k.locks.Holds i key

theorem Claims.user {P : Type} {k : Kernel P} (h : k.Claims i key) (hg : k.Guarded) :
    ∃ u, k.locks.user? i = some u ∧ u.key = key := by
  rcases h with ⟨q, hf, rfl⟩ | ⟨u, hu, -, hkey⟩
  · exact hg.keeps i _ hf
  · exact ⟨u, hu, hkey⟩

theorem Keyed.key?_of_claims (h : k.Keyed s) (hi : k.Claims i key) : k.key? s i = some key := by
  obtain ⟨u, hu, rfl⟩ := hi.user h.guarded
  exact h.own i u hu

/-! ### Nobody waits -/

/-- Those before the `n`-th are done, no two of the others are for the same key, and all that are in
the table of locks have got theirs. -/
structure Smooth (s : Settings) (n : Nat) (k : Kernel m.Job) : Prop where
  keyed : k.Keyed s
  ended : ∀ i < n, ∃ p, k.pipelines[i]? = some p ∧ p.finished?.isSome
  apart : ∀ i j key, n ≤ i → n ≤ j → k.key? s i = some key → k.key? s j = some key → i = j
  granted : ∀ i u, k.locks.user? i = some u → u.isHolder = true

theorem Smooth.user?_eq_none (h : k.Smooth s n) (hi : i < n) : k.locks.user? i = none := by
  obtain ⟨p, hp, hfinished⟩ := h.ended i hi
  obtain ⟨x, hx⟩ := Option.isSome_iff_exists.1 hfinished
  obtain ⟨o, hf⟩ := finished?_eq_some hx
  exact h.keyed.guarded.keeps_of hp hf

theorem Smooth.slot?_eq_none (h : k.Smooth s n) {q : Program.Prepared}
    (hp : k.pipelines[i]? = some p) (hf : p.phase = .started) (hq : p.request? s = .ok q) :
    k.locks.slot? q.key = none := by
  have hself : k.locks.user? i = none := h.keyed.guarded.keeps_of hp hf
  have hni : n ≤ i := by
    by_contra hlt
    obtain ⟨p', hp', hfinished⟩ := h.ended i (by omega)
    obtain rfl := Option.some.inj (hp'.symm.trans hp)
    rw [Pipeline.finished?, hf] at hfinished
    cases hfinished
  -- A slot would have a user, one of the call and for the same key, which is the pipeline itself.
  obtain ⟨a, ha⟩ := h.keyed.lined
  apply ha.slot?_eq_none
  rw [List.eq_nil_iff_forall_not_mem]
  intro j hj
  obtain ⟨u, hu, hkey⟩ := (ha.users j q.key).1 (mem_lineOf.1 hj)
  have hnj : n ≤ j := by
    by_contra hlt
    rw [h.user?_eq_none (by omega)] at hu
    cases hu
  have hij := h.apart i j q.key hni hnj (key?_of_request hp hq) (hkey ▸ h.keyed.own j u hu)
  rw [← hij, hself] at hu
  cases hu

theorem Touches.granted {l : Locks} (h : k.Touches s l) (hk : k.Smooth s n) {u : User}
    (hu : l.user? i = some u) : u.isHolder = true := by
  cases h with
  | keep => exact hk.granted i u hu
  | @request j p q hp hf hq =>
    by_cases hij : i = j
    · subst hij
      have hholds := Locks.holds_request (hk.slot?_eq_none hp hf hq) i
      rwa [Locks.holds, hu] at hholds
    · rw [Locks.user?_request_ne hij] at hu
      exact hk.granted i u hu
  | poll j =>
    by_cases hij : i = j
    · subst hij
      have hsame := Locks.Lined.key_poll k.locks i i
      rw [hu] at hsame
      obtain ⟨v, hv, -⟩ := Option.map_eq_some_iff.1 hsame.symm
      obtain ⟨b, hb, hkeep⟩ := Locks.user?_poll_self hv
      obtain rfl := Option.some.inj (hb.symm.trans hu)
      exact hkeep (hk.granted i v hv)
    · rw [Locks.user?_poll_ne hij] at hu
      exact hk.granted i u hu
  | drop j =>
    rw [Locks.user?_drop_ne (Locks.ne_of_user?_drop hu)] at hu
    exact hk.granted i u hu

theorem Smooth.step (h : k.Smooth s n) (a : Step) : (k.step m s a).Smooth s n where
  keyed := h.keyed.act (.step a)
  ended := by
    intro i hi
    obtain ⟨p, hp, hfinished⟩ := h.ended i hi
    obtain ⟨x, hx⟩ := Option.isSome_iff_exists.1 hfinished
    obtain ⟨p', hp', hfollows⟩ := follows_act s hp (.step a)
    exact ⟨p', hp', by rw [hfollows.finished x hx]; rfl⟩
  apart := by
    intro i j key
    rw [key?_step, key?_step]
    exact h.apart i j key
  granted := fun _ _ => (touches_act s k (.step a)).granted h

theorem Smooth.run (h : k.Smooth s n) (steps : List Step) : (k.run m s steps).Smooth s n := by
  induction steps generalizing k with
  | nil => exact h
  | cons a steps ih => exact ih (h.step a)

theorem Smooth.phase?_advance (h : k.Smooth s n) {q : Program.Prepared}
    (hf : k.phase? i = some (.waiting q)) (now : Moment) :
    (k.advance m s now i).phase? i = some (.holding q) := by
  obtain ⟨p, hp, hphase⟩ := pipeline_of_phase hf
  obtain ⟨u, hu, -⟩ : ∃ u, k.locks.user? i = some u ∧ u.key = q.key := h.keyed.guarded.keeps i _ hf
  have hholds : k.locks.holds i = true := Locks.Lined.holds_iff.2 ⟨u, hu, h.granted i u hu⟩
  have hadvance : k.advance m s now i = k.wait i p q := by
    rw [advance, hp]
    simp only [hphase]
  rw [hadvance, wait]
  simp only [Locks.holds_poll_of_holds hholds, if_true]
  exact phase_of_pipeline (getElem?_setPipeline hp rfl)

theorem smooth_submitAll (hdigests : Set.InjOn Digest.sha256 (d.messages s.manifest))
    (h : k.Keyed s) (hq : k.Quiescent) :
    (k.submitAll d d.codeIndices).Smooth s k.pipelines.length where
  keyed := h.submitAll d d.codeIndices
  ended := by
    intro i hi
    refine ⟨k.pipelines[i], ?_, hq _ (List.getElem_mem hi)⟩
    rw [pipelines_submitAll, List.getElem?_append_left hi, List.getElem?_eq_getElem hi]
  apart := by
    intro i j key hi hj hki hkj
    obtain ⟨i, rfl⟩ := Nat.exists_eq_add_of_le hi
    obtain ⟨j, rfl⟩ := Nat.exists_eq_add_of_le hj
    have hlt {i : Nat} (hki : (k.submitAll d d.codeIndices).key? s (k.pipelines.length + i) =
        some key) : i < d.codeIndices.length := by
      obtain ⟨a, ha, -⟩ := Option.bind_eq_some_iff.1 hki
      have hlen := (List.getElem?_eq_some_iff.1 ha).1
      rw [asked_submitAll, List.length_append, List.length_map, asked, List.length_map] at hlen
      omega
    rw [key?_submitAll_unique hdigests (hlt hki) (hlt hkj) hki hkj]
  granted := by
    intro i u hu
    have hnone : k.locks.user? i = none := by
      rcases Nat.lt_or_ge i k.pipelines.length with hi | hi
      · have hphase := phase_of_pipeline (List.getElem?_eq_getElem hi)
        obtain ⟨o, ho⟩ := hq.phase hphase
        rw [ho] at hphase
        exact h.guarded.keeps i _ hphase
      · exact h.guarded.known i hi
    rw [locks_submitAll, hnone] at hu
    cases hu

/-! ### Cells of one document -/

/-- The code up to a cell, with a line feed after it, starts the code up to any later cell. So, as
long as the digests of these do not collide, the cells of a document have different keys and
different workspaces, and no two requests of one call for all of them ever wait for the same key,
whatever else goes on. If everything before the call has ended and nothing else is asked for, none
of them waits at all: each has its key the next time it goes on. -/
theorem histories_apart (d : Document) (m : Machine) (s : Settings) :
    (∀ i j, i < j → d.HasCode i → d.HasCode j → ∃ a b, d.cumulativeSource i = .ok a ∧
      d.cumulativeSource j = .ok b ∧ a ++ ['\n'] <+: b) ∧
    (Set.InjOn Digest.sha256 (d.messages s.manifest) →
      (∀ i j, i ≠ j → d.HasCode i → d.HasCode j →
        ∃ p q, Program.prepare s.shape s.manifest d i = .ok p ∧
          Program.prepare s.shape s.manifest d j = .ok q ∧ p.key ≠ q.key ∧
          (Workspace.ofKey s.scratch p.key).root ≠ (Workspace.ofKey s.scratch q.key).root ∧
          ∀ R e, (Workspace.ofKey s.scratch p.key).place R <+: e →
            ¬ (Workspace.ofKey s.scratch q.key).place R <+: e) ∧
      ∀ (t : Tree) (c : Counter) (before : List Action) (k : Kernel m.Job),
        k = (start t c).perform m s before →
        (∀ (after : List Action) (i j : Nat), i < d.codeIndices.length →
          j < d.codeIndices.length → i ≠ j → ∀ key,
          ((k.submitAll d d.codeIndices).perform m s after).Claims (k.pipelines.length + i) key →
          ¬ ((k.submitAll d d.codeIndices).perform m s after).Claims (k.pipelines.length + j) key) ∧
        (k.Quiescent → ∀ (steps : List Step) (i : Nat) (q : Program.Prepared) (now : Moment),
          ((k.submitAll d d.codeIndices).run m s steps).phase? i = some (.waiting q) →
          (((k.submitAll d d.codeIndices).run m s steps).advance m s now i).phase? i =
            some (.holding q))) := by
  constructor
  · intro i j hij hi hj
    exact ⟨d.history i, d.history j, Document.cumulativeSource_of_hasCode hi,
      Document.cumulativeSource_of_hasCode hj, Document.history_prefix_of_lt hij hi hj⟩
  intro hdigests
  constructor
  · intro i j hij hi hj
    exact Document.prepare_apart hdigests hi hj hij s.shape s.scratch
  intro t c before k hk
  have hkeyed : k.Keyed s := by
    rw [hk]
    exact (keyed_start s t c).perform before
  constructor
  · intro after i j hi hj hij key hclaimi hclaimj
    have hafter := (hkeyed.submitAll d d.codeIndices).perform after
    -- What they claim are the keys that they have been submitted for.
    have hown {i : Nat} (hi : i < d.codeIndices.length)
        (hclaim : ((k.submitAll d d.codeIndices).perform m s after).Claims
          (k.pipelines.length + i) key) :
        (k.submitAll d d.codeIndices).key? s (k.pipelines.length + i) = some key := by
      have hfirst := key?_submitAll (k := k) (s := s) hi
      have hlast := key?_perform hfirst after
      rw [hfirst, ← hlast]
      exact hafter.key?_of_claims hclaim
    apply hij
    exact key?_submitAll_unique hdigests hi hj (hown hi hclaimi) (hown hj hclaimj)
  · intro hq steps i q now hwait
    have hsmooth := (smooth_submitAll hdigests hkeyed hq).run steps
    exact hsmooth.phase?_advance hwait now

/-! Two cells without any text, and markup between them. -/

def blank : Document := ⟨[.code [], .markup ['x'], .code []]⟩

theorem message_blank {b : List UInt8} (h : b ∈ blank.messages plain.manifest) :
    b = [] ∨ b = [10] := by
  obtain ⟨i, source, hi, hsource, rfl⟩ := h
  have hmem : i ∈ [0, 2] := Document.mem_codeIndices_iff_hasCode.2 hi
  rw [List.mem_pair] at hmem
  rcases hmem with rfl | rfl
  · cases hsource
    exact .inl rfl
  · cases hsource
    exact .inr rfl

def asking : List Step := [0, 0, 1, 1].map (.advance · .epoch)

theorem histories_apart_blank :
    (∃ a b, blank.cumulativeSource 0 = .ok a ∧ blank.cumulativeSource 2 = .ok b ∧
      a ++ ['\n'] <+: b) ∧
    (∃ p q, Program.prepare plain.shape plain.manifest blank 0 = .ok p ∧
      Program.prepare plain.shape plain.manifest blank 2 = .ok q ∧ p.key ≠ q.key) ∧
    (∀ after key, (((start .empty .fresh).submitAll blank [0, 2]).perform idle plain after).Claims 0
      key → ¬ (((start .empty .fresh).submitAll blank [0, 2]).perform idle plain after).Claims 1
        key) ∧
    ∃ q, ((((start .empty .fresh).submitAll blank [0, 2]).run idle plain asking).advance idle plain
      .epoch 1).phase? 1 = some (.holding q) := by
  have hdigests : Set.InjOn Digest.sha256 (blank.messages plain.manifest) := by
    have hne : Digest.sha256 [] ≠ Digest.sha256 [10] := by decide +kernel
    intro b hb b' hb' heq
    rcases message_blank hb with rfl | rfl <;> rcases message_blank hb' with rfl | rfl
    · rfl
    · exact absurd heq hne
    · exact absurd heq.symm hne
    · rfl
  have hfirst : blank.HasCode 0 := ⟨_, rfl, rfl⟩
  have hsecond : blank.HasCode 2 := ⟨_, rfl, rfl⟩
  obtain ⟨hgrow, hall⟩ := histories_apart blank idle plain
  obtain ⟨hprepare, hcalls⟩ := hall hdigests
  obtain ⟨hclaims, hwait⟩ := hcalls .empty .fresh [] _ rfl
  refine ⟨hgrow 0 2 (by decide) hfirst hsecond, ?_, fun after => hclaims after 0 1 (by decide)
    (by decide) (by decide), ?_⟩
  · obtain ⟨p, q, hp, hq, hne, -⟩ := hprepare 0 2 (by decide) hfirst hsecond
    exact ⟨p, q, hp, hq, hne⟩
  · have hwaiting : ((((start .empty .fresh).submitAll blank [0, 2]).run idle plain
        asking).phase? 1).any fun | .waiting _ => true | _ => false := by decide +kernel
    obtain ⟨f, hf, hisWaiting⟩ := (Option.any_eq_true _ _).1 hwaiting
    cases f with
    | waiting q => exact ⟨q, hwait (by rintro p ⟨⟩) asking 1 q .epoch hf⟩
    | _ => cases hisWaiting

end Kernel

end Notebook.Execution
