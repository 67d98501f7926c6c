import Notebook.Proofs.Command.Exit
import Notebook.Proofs.Command.Results

/-!
What an evaluation leaves in the file that it was asked to write.
-/

namespace Notebook

open Execution (Finished Settings)
open Execution.Kernel (Delivered)
open Files (Path Place Tree)

namespace Files.Tree

variable {t u : Tree} {here : Place} {p : Path} {content : List UInt8}

theorem wantsDirectory_of_write (h : t.write here p content = .ok u) :
    p.wantsDirectory = false := by
  cases hwants : p.wantsDirectory with
  | false => rfl
  | true =>
    rw [write, hwants] at h
    cases hr : t.resolve here p with
    | error f =>
      rw [hr] at h
      cases h
    | ok place =>
      rw [hr] at h
      cases h

/-- What has been written can be read, unless it went to a device. -/
theorem read_of_write (h : t.write here p content = .ok u) :
    u.get? (p.place here) = some .sink ∨ u.read here p = .ok content := by
  have hp := wantsDirectory_of_write h
  by_cases hsink : t.get? (p.place here) = some .sink
  · rcases write_cases h with ⟨-, rfl⟩ | ⟨x, hr, -, -⟩
    · exact .inl hsink
    · rw [write, hr] at h
      simp only [bind, Except.bind, hp, hsink, Bool.false_eq_true, if_false] at h
      cases h
      exact .inl hsink
  · obtain ⟨⟨x, hx⟩, -⟩ := holds_of_write h hp hsink
    exact .inr hx.read

end Files.Tree

namespace Command

/-- The notebook with what came of its cells. Each cell of code has the outcome of its own request:
what its program wrote or, if the request failed, why. All else is as it was. -/
structure Answers (w : World) (s : Settings) (d : Document) (xs : List Finished) (e : Document) :
    Prop where
  length : xs.length = d.codeIndices.length
  others : ∀ i : Nat, i ∉ d.codeIndices → e.cells[i]? = d.cells[i]?
  own : ∀ (n i : Nat) (x : Finished), d.codeIndices[n]? = some i → xs[n]? = some x →
    Delivered w.machine s (requests w d d.codeIndices) n
      ((w.schedule d.codeIndices.length).map .step) d (.queued i (1 + n)) x
  code : ∀ (n i : Nat) (x : Finished), d.codeIndices[n]? = some i → xs[n]? = some x →
    ∃ (c : Cell) (source : List Char), d.cells[i]? = some c ∧ c.source? = some source ∧
      (∀ out, x.outcome = .ok out →
        e.cells[i]? = some (.evaluated source out.stdout out.stderr)) ∧
      ∀ f, x.outcome = .error f →
        e.cells[i]? = some (.evaluated source "error".toList f.message)

/-- A notebook is in the file of this path, in the format that its name tells, unless that is a
device. -/
def Written (w : World) (t : Tree) (p : Path) (e : Document) : Prop :=
  t.get? (p.place w.here) = some .sink ∨ t.read w.here p = .ok ((Format.ofPath p).encode e)

variable {w : World} {v : Invocation} {s : Settings} {d e : Document} {ran : Ran} {r : Report}
  {p : Path}

theorem answers_of_runCells (hran : runCells w s d d.codeIndices = some ran)
    (he : recordAll d ran.finished = .ok e) : Answers w s d ran.finished e := by
  obtain ⟨hlength, hall⟩ := delivered_of_runCells hran
  have hcells := cells_of_runCells hran
  have hkeys : (ran.finished.map keeping).map Prod.fst = d.codeIndices := by
    rw [List.map_map]
    exact hcells
  rw [recordAll_perm hcells (.refl _), Except.ok.injEq] at he
  subst he
  refine ⟨hlength, fun i hi => ?_, fun n i x hi hx => (hall n i x hi hx).1,
    fun n i x hi hx => ?_⟩
  · exact Document.recordAll_unrecorded (hkeys ▸ hi)
  · obtain ⟨source, hsource⟩ :=
      Document.mem_codeIndices_iff_hasSource.1 (List.mem_of_getElem? hi)
    obtain ⟨c, hc, hs⟩ := Document.hasSource_iff.1 hsource
    have hmem : (i, x.outcome) ∈ ran.finished.map keeping := by
      have hcell : x.record.cellIndex = i := (hall n i x hi hx).1.cell
      exact List.mem_map.2 ⟨x, List.mem_of_getElem? hx, by rw [keeping, hcell]⟩
    have hkept := Document.recordAll_last hsource
      (Document.last?_of_mem (nodup_keeping hcells) hmem)
    exact ⟨c, source, hc, hs, hkept.printed, hkept.failed⟩

/-- With its last steps an evaluation writes the notebook, if it can be written. -/
theorem conclude_tree (w : World) (ran : Ran) (p : Path) (e : Document) (printed : Printed)
    (htakes : ran.tree.Takes w.here p) :
    Written w (conclude w ran (some p) e printed).tree p e := by
  obtain ⟨u, hu⟩ := (Tree.takes_iff ((Format.ofPath p).encode e)).1 htakes
  have htree : (conclude w ran (some p) e printed).tree = u := by
    simp only [conclude, Document.save, hu]
    split <;> rfl
  rw [htree]
  exact Tree.read_of_write hu

theorem eval_without_code (hload : Document.load w.tree w.here v.notebook = .ok d)
    (hcode : d.codeIndices = []) {target : Option Path} (hr : eval w v s target = some r) :
    r.exit = 0 ∧ r.tree = w.tree := by
  rw [eval] at hr
  simp only [hload, hcode, List.isEmpty_nil, if_true] at hr
  cases hr
  exact ⟨rfl, rfl⟩

/-- A request that was lost has failed. -/
theorem exists_failed {x : Finished} (h : ¬ isLost x = false) : ∃ f, x.outcome = .error f := by
  rw [isLost] at h
  split at h
  · exact absurd rfl h
  · exact ⟨_, by assumption⟩

/-- An evaluation of a notebook with code leaves the notebook with what came of its cells in the
file that was asked for. It does so if it exits with status 0, and also if it does not while that
file can be written; then some cell has failed. Without code it succeeds and changes no file. -/
theorem target_written (w : World) (args : List Argument) (v : Invocation) (p : Path)
    (s : Settings) (d : Document) (r : Report) (hv : invocation args = .ok v)
    (htask : v.task = .eval (some p)) (hset : settings w v = .ok s)
    (hload : Document.load w.tree w.here v.notebook = .ok d) (hr : respond w args = some r) :
    (d.codeIndices = [] → r.exit = 0 ∧ r.tree = w.tree) ∧
    (d.codeIndices ≠ [] → ∃ (xs : List Finished) (e : Document), Answers w s d xs e ∧
      (r.exit = 0 → (∀ x ∈ xs, ∃ out, x.outcome = .ok out) ∧ Written w r.tree p e) ∧
      (r.exit ≠ 0 → (settled w s d d.codeIndices).tree.Takes w.here p →
        (∃ x ∈ xs, ∃ f, x.outcome = .error f) ∧ Written w r.tree p e)) := by
  have heval : eval w v s (some p) = some r := by
    rw [respond, hv] at hr
    simp only [perform, htask, hset] at hr
    exact hr
  refine ⟨fun hcode => eval_without_code hload hcode heval, fun hcode => ?_⟩
  obtain ⟨ran, e, printed, hran, he, rfl⟩ := eval_concludes hload hcode heval
  have hanswers := answers_of_runCells hran he
  obtain ⟨hexit, -⟩ := conclude_exit w ran (some p) e printed
  refine ⟨ran.finished, e, hanswers, fun hzero => ⟨fun x hx => ?_, ?_⟩, fun hone htakes => ⟨?_, ?_⟩⟩
  · obtain ⟨n, hn, rfl⟩ := List.mem_iff_getElem.1 hx
    have hn' : n < d.codeIndices.length := hanswers.length ▸ hn
    have hown := hanswers.own n _ _ (List.getElem?_eq_getElem hn') (List.getElem?_eq_getElem hn)
    exact (isLost_eq_false_iff hown (List.getElem_mem hn')).1 ((hexit.1 hzero).1 _ hx)
  · exact conclude_tree w ran p e printed ((hexit.1 hzero).2 p rfl)
  · by_contra hnone
    refine hone (hexit.2 ⟨fun x hx => ?_, fun q hq => ?_⟩)
    · by_contra hlost
      exact hnone ⟨x, hx, exists_failed hlost⟩
    · cases hq
      exact (runCells_eq_some hran).1 ▸ htakes
  · exact conclude_tree w ran p e printed ((runCells_eq_some hran).1 ▸ htakes)

/-! A notebook is evaluated into another file, one with a cell of code and one without. -/

def intoFile (name : String) : List Argument :=
  ["eval", "n.md", "--output", name, "--scratch-dir", "scratch"].map String.toList

/-- What `intoFile` asks for. -/
def evaluateInto (name : String) : Invocation :=
  ⟨⟨"n.md".toList⟩, .eval (some ⟨name.toList⟩), Program.Toolchain.standard.program, none,
    some ⟨"scratch".toList⟩, .evaluate⟩

def intoFileSettings : Settings :=
  ⟨.standard, .standard, ⟨"scratch".toList⟩, .evaluate, []⟩

theorem invocation_intoFile : invocation (intoFile "out.json") = .ok (evaluateInto "out.json") := by
  have h : (invocation (intoFile "out.json")).toOption = some (evaluateInto "out.json") := by
    decide +kernel
  cases hv : invocation (intoFile "out.json") with
  | error f => rw [hv] at h; cases h
  | ok v => rw [hv] at h; exact congrArg Except.ok (Option.some.inj h)

theorem target_written_json : ∃ r xs e,
    respond (bench .printer .empty) (intoFile "out.json") = some r ∧ r.exit = 0 ∧
    Answers (bench .printer .empty) intoFileSettings ⟨[.code ['1']]⟩ xs e ∧
    r.tree.read [] ⟨"out.json".toList⟩ = .ok (Format.json.encode e) := by
  have hdone : (respond (bench .printer .empty) (intoFile "out.json")).map (fun r =>
      (r.exit, decide (r.tree.get? ["out.json".toList] = some .sink))) = some (0, false) := by
    decide +kernel
  obtain ⟨r, hr, hpair⟩ := Option.map_eq_some_iff.1 hdone
  obtain ⟨hzero, hsink⟩ := Prod.mk.inj hpair
  have hload : Document.load (bench .printer .empty).tree [] ⟨"n.md".toList⟩ =
      .ok ⟨[.code ['1']]⟩ := by
    rw [Document.load, read_bench]
    exact decode_sheet
  obtain ⟨xs, e, hanswers, hok, -⟩ := (target_written (bench .printer .empty)
    (intoFile "out.json") (evaluateInto "out.json") ⟨"out.json".toList⟩ intoFileSettings _ r
    invocation_intoFile rfl rfl hload hr).2 (by decide)
  refine ⟨r, xs, e, hr, hzero, hanswers, ?_⟩
  exact (hok hzero).2.resolve_left (of_decide_eq_false hsink)

def prose : World :=
  { bench .printer .empty with
    tree := Tree.empty.put ["n.md".toList] (.file (Text.Utf8.encode "# Notes\n".toList) false) }

theorem not_target_written_prose :
    ¬ ∀ (w : World) (args : List Argument) (v : Invocation) (p : Path) (s : Settings)
      (d : Document) (r : Report), invocation args = .ok v → v.task = .eval (some p) →
      settings w v = .ok s → Document.load w.tree w.here v.notebook = .ok d →
      respond w args = some r → r.exit = 0 → ∃ xs e, Answers w s d xs e ∧ Written w r.tree p e := by
  intro h
  have hload : Document.load prose.tree [] ⟨"n.md".toList⟩ = .ok ⟨[.markup "# Notes".toList]⟩ := by
    decide +kernel
  have hdone : (respond prose (intoFile "out.json")).map (fun r => (r.exit,
      r.tree.get? ["out.json".toList], (r.tree.read [] ⟨"out.json".toList⟩).isOk)) =
        some (0, none, false) := by
    decide +kernel
  obtain ⟨r, hr, htriple⟩ := Option.map_eq_some_iff.1 hdone
  simp only [Prod.mk.injEq] at htriple
  obtain ⟨hzero, hnone, hunread⟩ := htriple
  obtain ⟨xs, e, -, hsink | hread⟩ := h prose (intoFile "out.json") (evaluateInto "out.json")
    ⟨"out.json".toList⟩ intoFileSettings _ r invocation_intoFile rfl rfl hload hr hzero
  · exact absurd (hnone.symm.trans hsink) (by simp)
  · have hread' : r.tree.read [] ⟨"out.json".toList⟩ = .ok (Format.json.encode e) := hread
    rw [hread'] at hunread
    cases hunread

end Command

end Notebook
