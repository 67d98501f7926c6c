import Notebook.Command.Perform
import Notebook.Proofs.Document.Evaluated
import Notebook.Proofs.Document.Order
import Notebook.Proofs.Execution.Determined

/-!
A notebook that is evaluated in place can be evaluated again: nothing changes any more.
-/

namespace Notebook.Command

open Document (SameCode)
open Execution (Finished Free Kernel Outcome Schedule Settings)
open Files (Tree Place Path)
open Program (Manifest)

/-! ### Outcomes of all cells -/

section

variable {d : Document} {g : Nat → Outcome} {es : List Finished}

theorem record_of_code {i : Nat} (hi : i ∈ d.codeIndices) (o : Outcome) :
    ∃ e, d.record i o = .ok e ∧ e.SameCode d := by
  obtain ⟨s, hs⟩ := Document.mem_codeIndices.1 hi
  rw [List.getElem?_map, Option.map_eq_some_iff] at hs
  obtain ⟨c, hc, hs⟩ := hs
  refine ⟨_, Document.record_of_source? hc hs o, Document.sameCode_of_recorded ?_⟩
  rw [List.forall₂_iff_get]
  refine ⟨by simp, fun j h1 h2 => ?_⟩
  simp only [List.get_eq_getElem, List.getElem_set]
  split
  · rename_i hij
    subst hij
    obtain ⟨out, r, heq⟩ := Document.evaluation_eq s o
    refine .inr ⟨s, out, r, ?_, heq⟩
    rw [← hs]
    exact congrArg _ (List.getElem?_eq_some_iff.1 hc).2
  · exact .inl rfl

def keeping (x : Finished) : Nat × Outcome := (x.record.cellIndex, x.outcome)

theorem recordAll_eq (h : ∀ x ∈ es, x.record.cellIndex ∈ d.codeIndices) :
    recordAll d es = .ok (d.recordAll (es.map keeping)).1 := by
  induction es generalizing d with
  | nil => rfl
  | cons x es ih =>
    obtain ⟨e, he, hsame⟩ := record_of_code (h x List.mem_cons_self) x.outcome
    have hrest := ih fun y hy => hsame.mem_codeIndices.2 (h y (List.mem_cons_of_mem x hy))
    rw [List.map_cons, keeping, Document.recordAll_cons, Document.attempt, he]
    simp only [recordAll, he, bind, Except.bind, hrest]

theorem recordAll_codeIndices (hes : es.map keeping = d.codeIndices.map fun i => (i, g i)) :
    recordAll d es = .ok (d.evaluated g) := by
  have hcells : (es.map keeping).map Prod.fst = d.codeIndices := by
    rw [hes, List.map_map]
    exact List.map_id _
  have hcode : ∀ x ∈ es, x.record.cellIndex ∈ d.codeIndices := by
    intro x hx
    rw [← hcells, List.map_map]
    exact List.mem_map_of_mem hx
  have hall : (d.recordAll (es.map keeping)).1.cells = (d.evaluated g).cells := by
    refine List.ext_getElem? fun j => ?_
    rw [Document.recordAll_getElem?, Document.evaluated, List.getElem?_mapIdx]
    cases hc : d.cells[j]? with
    | none => rfl
    | some c =>
      cases hs : c.source? with
      | none =>
        simp only [Option.map_some, hs]
        cases Document.last? (es.map keeping) j with
        | none => rfl
        | some o => exact congrArg some (Cell.keep_of_none hs o)
      | some s =>
        have hj : j ∈ d.codeIndices := by
          refine Document.mem_codeIndices.2 ⟨s, ?_⟩
          rw [List.getElem?_map, hc, Option.map_some, hs]
        have hmem : (j, g j) ∈ es.map keeping := hes ▸ List.mem_map_of_mem hj
        have hlast := Document.last?_of_mem (hcells ▸ d.nodup_codeIndices) hmem
        simp only [Option.map_some, hs, hlast]
        exact congrArg some (Cell.keep_of_source? hs (g j))
  rw [recordAll_eq hcode]
  exact congrArg _ (congrArg Document.mk hall)

end

/-! ### One evaluation -/

section

variable {w : World} {v : Invocation} {s : Settings} {result : Manifest → List Char → Outcome}
  {bytes : List UInt8} {d : Document} {r : Report} {t₁ : Tree} {R : Place}

theorem decode_nil {f : Format} (h : f.decode [] = .ok d) : d.codeIndices = [] := by
  cases f with
  | markdown =>
    have hnone : Format.markdown.decode [] = .ok ⟨[]⟩ := by decide +kernel
    rw [hnone] at h
    cases h
    rfl
  | json =>
    have hnone : (Format.json.decode []).toOption = none := by decide +kernel
    rw [h] at hnone
    cases hnone

/-- What a path leads to is still there when the way to the scratch directory has been made. -/
theorem holds_ground (hs : s.Scratch w.tree t₁ R) {t : Tree}
    (ht : t = w.tree ∨ ∀ q, t.get? q = t₁.get? q) {here place : Place} {p : Path} {x : Bool}
    (h : w.tree.Holds here p place bytes x) : t.Holds here p place bytes x := by
  rcases ht with rfl | ht
  · exact h
  · have hground : t₁ = s.ground w.tree := (congrArg Prod.fst hs.made).symm
    have hkept {q : Place} (hq : w.tree.get? q ≠ none) : t.get? q = w.tree.get? q := by
      rw [ht, hground]
      rcases Execution.get?_ground s w.tree q with heq | ⟨hnone, -⟩
      · exact heq
      · exact absurd hnone hq
    refine h.of_get? (fun q hq => ?_) (hkept (by rw [h.2.2]; simp))
    rw [hkept (by rw [hq]; simp), hq]

/-- An evaluation in place leaves the files as they were, if there is no code, and else the file
with the outcomes in it, the others being as they were but for the way to the scratch directory. -/
theorem eval_tree (hm : w.machine.Confined) (hresult : w.machine.Determined s.toolchain result)
    (hs : s.Scratch w.tree t₁ R) (hread : w.tree.read w.here v.notebook = .ok bytes)
    (hd : (Format.ofPath v.notebook).decode bytes = .ok d)
    (hfree : ∀ i q, Program.prepare s.shape s.manifest d i = .ok q → Free t₁ R q.key)
    (hr : eval w v s (some v.notebook) = some r) :
    (d.codeIndices = [] ∧ r.tree = w.tree) ∨ (d.codeIndices ≠ [] ∧
      ∃ t place x, t.Holds w.here v.notebook place bytes x ∧
        (w.tree.SameShape t ∨ t₁.SameShape t) ∧
        r.tree = t.put place
          (.file ((Format.ofPath v.notebook).encode (d.evaluated (s.foreseen result d))) x)) := by
  have hload : Document.load w.tree w.here v.notebook = .ok d := by
    rw [Document.load, hread]
    exact hd
  rw [eval] at hr
  simp only [hload] at hr
  by_cases hempty : d.codeIndices = []
  · simp only [hempty, List.isEmpty_nil, if_true] at hr
    cases hr
    exact .inl ⟨hempty, rfl⟩
  · have hnonempty : d.codeIndices.isEmpty = false := by simpa using hempty
    simp only [hnonempty, Bool.false_eq_true, if_false] at hr
    obtain ⟨ran, hran, hr⟩ := Option.bind_eq_some_iff.1 hr
    obtain ⟨place, x, hholds⟩ : ∃ place x, w.tree.Holds w.here v.notebook place bytes x := by
      rcases Tree.read_cases hread with rfl | hholds
      · exact absurd (decode_nil hd) hempty
      · exact hholds
    obtain ⟨xs, hxs, hran⟩ := Option.bind_eq_some_iff.1 hran
    cases hran
    obtain ⟨houtcomes, htree⟩ :=
      Kernel.foreseen_of_run hm hresult hs (fun i _ => hfree i) hxs
    simp only [recordAll_codeIndices houtcomes] at hr
    have hholds := holds_ground hs htree hholds
    have hshape := htree.imp (fun h => Tree.SameShape.of_eq h.symm)
      fun h => Tree.SameShape.of_get? fun q => (h q).symm
    refine .inr ⟨hempty, _, place, x, hholds, hshape, ?_⟩
    have hwrite := hholds.write
      ((Format.ofPath v.notebook).encode (d.evaluated (s.foreseen result d)))
    simp only [conclude, Document.save, hwrite] at hr
    split at hr <;> cases hr <;> rfl

theorem foreseen_congr {e : Document} (h : e.SameCode d) :
    s.foreseen result e = s.foreseen result d := by
  funext i
  rw [Settings.foreseen, Settings.foreseen, Document.prepare_congr h.sources]

/-- A notebook is evaluated in place, and then once more, in whatever order pipelines go on. If
toolchains keep to their workspaces and what comes of them is told by the manifest and the program,
if there is or can be a scratch directory, and nothing where the workspaces are to stand, then the
second evaluation leaves the very file that the first one left, and all cells have the programs and
the keys that they had. -/
theorem evaluated_again (w : World) (v : Invocation) (s : Settings)
    (result : Manifest → List Char → Outcome) (bytes : List UInt8) (d : Document)
    (htask : v.task = .eval (some v.notebook)) (hset : settings w v = .ok s)
    (hm : w.machine.Confined) (hresult : w.machine.Determined s.toolchain result)
    (hs : s.Scratch w.tree (s.ground w.tree) s.root)
    (hread : w.tree.read w.here v.notebook = .ok bytes)
    (hd : (Format.ofPath v.notebook).decode bytes = .ok d)
    (hkeeps : Document.Keeps (Format.ofPath v.notebook) bytes d)
    (hfree : ∀ i q, Program.prepare s.shape s.manifest d i = .ok q →
      Free (s.ground w.tree) s.root q.key)
    (r r' : Report) (σ : Schedule) (n : Nat) (hr : perform w v = some r)
    (hset' : settings { w with tree := r.tree, schedule := σ, elapsed := n } v = .ok s)
    (hr' : perform { w with tree := r.tree, schedule := σ, elapsed := n } v = some r') :
    (∃ content, r.tree.read w.here v.notebook = .ok content ∧
      r'.tree.read w.here v.notebook = .ok content) ∧
    ∃ e, Document.load r.tree w.here v.notebook = .ok e ∧
      ∀ i, Program.prepare s.shape s.manifest e i = Program.prepare s.shape s.manifest d i := by
  simp only [perform, htask, hset] at hr
  simp only [perform, htask, hset'] at hr'
  have hload {t : Tree} {b : List UInt8} (ht : t.read w.here v.notebook = .ok b) :
      Document.load t w.here v.notebook = (Format.ofPath v.notebook).decode b := by
    rw [Document.load, ht]
  rcases eval_tree hm hresult hs hread hd hfree hr with
    ⟨hempty, htree⟩ | ⟨hcode, t, place, x, hholds, hshape, htree⟩
  · -- Without code nothing is written.
    have hread₁ : r.tree.read w.here v.notebook = .ok bytes := by rw [htree, hread]
    have hs₁ : s.Scratch r.tree (s.ground w.tree) s.root := by rw [htree]; exact hs
    rcases eval_tree (w := { w with tree := r.tree, schedule := σ, elapsed := n }) hm hresult hs₁
      hread₁ hd hfree hr' with ⟨-, htree'⟩ | ⟨hcode, -⟩
    · refine ⟨⟨bytes, hread₁, ?_⟩, d, (hload hread₁).trans hd, fun i => rfl⟩
      rw [htree']
      exact hread₁
    · exact absurd hempty hcode
  · obtain ⟨e, he, hsame⟩ := Document.decode_evaluated hd hkeeps (s.foreseen result d)
    have hholds₁ := hholds.put
      ((Format.ofPath v.notebook).encode (d.evaluated (s.foreseen result d)))
    have hshape₁ := hholds.sameShape
      ((Format.ofPath v.notebook).encode (d.evaluated (s.foreseen result d)))
    rw [← htree] at hholds₁ hshape₁
    have hprepare (i : Nat) : Program.prepare s.shape s.manifest e i =
        Program.prepare s.shape s.manifest d i := Document.prepare_congr hsame.sources _ _ i
    obtain ⟨u, hs₁, hground⟩ := hs.again (hshape.imp (·.trans hshape₁) (·.trans hshape₁))
    have hfree₁ : ∀ i q, Program.prepare s.shape s.manifest e i = .ok q → Free u s.root q.key :=
      fun i q hq q' hq' => (hground.none q').1 (hfree i q (hprepare i ▸ hq) q' hq')
    refine ⟨⟨_, hholds₁.read, ?_⟩, e, (hload hholds₁.read).trans he, hprepare⟩
    rcases eval_tree (w := { w with tree := r.tree, schedule := σ, elapsed := n }) hm hresult hs₁
      hholds₁.read he hfree₁ hr' with ⟨hempty, -⟩ | ⟨-, t', place', x', hholds', -, htree'⟩
    · refine absurd (List.eq_nil_iff_forall_not_mem.2 fun i hi => ?_) hcode
      have := hsame.mem_codeIndices.2 hi
      rw [hempty] at this
      cases this
    · rw [htree', (hholds'.put _).read, foreseen_congr hsame, hsame.evaluated_eq]

end

/-! ### One cell -/

def sheet : List UInt8 := Text.Utf8.encode "```rust\n1\n```\n".toList

/-- A place with one notebook in it, beside other files. -/
def bench (m : Execution.Machine) (t : Tree) : World where
  machine := m
  tree := t.put ["n.md".toList] (.file sheet false)
  here := []
  temporary := ⟨"tmp".toList⟩
  schedule := .fair .epoch
  elapsed := 0

def inPlace (scratch : String) : Invocation :=
  ⟨⟨"n.md".toList⟩, .eval (some ⟨"n.md".toList⟩), "cat".toList, none, some ⟨scratch.toList⟩,
    .verbatim⟩

def inPlaceSettings (scratch : String) : Settings :=
  ⟨.ofProgram "cat".toList, .standard, ⟨scratch.toList⟩, .verbatim, []⟩

theorem read_bench (m : Execution.Machine) (t : Tree) :
    (bench m t).tree.read [] ⟨"n.md".toList⟩ = .ok sheet := by
  have hholds : (bench m t).tree.Holds [] ⟨"n.md".toList⟩ ["n.md".toList] sheet false :=
    ⟨rfl, rfl, Tree.get?_put_self (by simp)⟩
  exact hholds.read

theorem decode_sheet : Format.markdown.decode sheet = .ok ⟨[.code ['1']]⟩ := by
  decide +kernel

theorem keeps_sheet : Document.Keeps .markdown sheet ⟨[.code ['1']]⟩ := by
  refine fun _ => ⟨fun text h => ?_, fun s hs => ?_⟩
  · rw [sheet, Text.Utf8.decode_encode] at h
    cases h
    decide
  · obtain rfl := Cell.code.inj (List.mem_singleton.1 hs)
    decide

theorem bare_bench (m : Execution.Machine) :
    Execution.Bare ((inPlaceSettings "scratch").ground (bench m .empty).tree)
      (inPlaceSettings "scratch").root := by
  intro q hq hne
  have hground : (inPlaceSettings "scratch").ground (bench m .empty).tree =
      ⟨[(["scratch".toList], .directory), (["n.md".toList], .file sheet false)]⟩ := rfl
  have hroot : (inPlaceSettings "scratch").root = ["scratch".toList] := rfl
  rw [hroot] at hq hne
  obtain ⟨ns, rfl⟩ := hq
  have hnote : ["n.md".toList] ≠ ["scratch".toList] ++ ns := by
    intro h
    have := (List.cons.inj h).1
    revert this
    decide
  rw [hground, Tree.get?, if_neg (by simp)]
  simp only [List.find?_cons, Ne.symm hne, hnote, decide_false, List.find?_nil, Option.map_none]

theorem evaluated_again_printed : ∃ content r r',
    perform (bench .printer .empty) (inPlace "scratch") = some r ∧
    perform { bench .printer .empty with tree := r.tree } (inPlace "scratch") = some r' ∧
    r.tree.read [] ⟨"n.md".toList⟩ = .ok content ∧ r'.tree.read [] ⟨"n.md".toList⟩ = .ok content := by
  have hboth : ((perform (bench .printer .empty) (inPlace "scratch")).bind fun r =>
      perform { bench .printer .empty with tree := r.tree } (inPlace "scratch")).isSome := by
    decide +kernel
  obtain ⟨r', hr'⟩ := Option.isSome_iff_exists.1 hboth
  obtain ⟨r, hr, hr'⟩ := Option.bind_eq_some_iff.1 hr'
  have hscratch : (inPlaceSettings "scratch").Scratch (bench .printer .empty).tree
      ((inPlaceSettings "scratch").ground (bench .printer .empty).tree)
      (inPlaceSettings "scratch").root := ⟨rfl, rfl, rfl⟩
  obtain ⟨⟨content, hcontent, hcontent'⟩, -⟩ := evaluated_again (bench .printer .empty)
    (inPlace "scratch") (inPlaceSettings "scratch") _ sheet ⟨[.code ['1']]⟩ rfl rfl
    Execution.Machine.confined_printer (Execution.Machine.determined_printer _) hscratch
    (read_bench _ _) decode_sheet keeps_sheet (fun _ q _ => (bare_bench _).free q.key) r r' (.fair .epoch) 0 hr rfl hr'
  exact ⟨content, r, r', hr, hr', hcontent, hcontent'⟩

/-! ### Where evaluating again changes the file

Without what `evaluated_again` asks for, a second evaluation may leave another file: if a directory
stands where a manifest is to be written, then the first evaluation fails and removes it; if the
scratch directory cannot be made, then the way to it that the first one has made leads to another
refusal; and a process may leave something where its workspace has been. -/

/-- The second of two evaluations leaves another file than the first one, though what comes of the
toolchain is told by the manifest and the program. -/
def Drifts (w : World) (v : Invocation) (s : Settings) : Prop :=
  ∃ result bytes d r r', v.task = .eval (some v.notebook) ∧ settings w v = .ok s ∧
    w.machine.Determined s.toolchain result ∧ w.tree.read w.here v.notebook = .ok bytes ∧
    (Format.ofPath v.notebook).decode bytes = .ok d ∧
    Document.Keeps (Format.ofPath v.notebook) bytes d ∧ perform w v = some r ∧
    settings { w with tree := r.tree } v = .ok s ∧
    perform { w with tree := r.tree } v = some r' ∧
    r.tree.read w.here v.notebook ≠ r'.tree.read w.here v.notebook

/-- What is read of a notebook after each of two evaluations. -/
def readTwice (w : World) (v : Invocation) : Option (Option (List UInt8) × Option (List UInt8)) := do
  let r ← perform w v
  let r' ← perform { w with tree := r.tree } v
  return ((r.tree.read w.here v.notebook).toOption, (r'.tree.read w.here v.notebook).toOption)

theorem drifts_bench (m : Execution.Machine) (t : Tree) (scratch : String)
    {result : Manifest → List Char → Outcome}
    (hm : m.Determined (inPlaceSettings scratch).toolchain result)
    (h : (readTwice (bench m t) (inPlace scratch)).any fun a => a.1 ≠ a.2) :
    Drifts (bench m t) (inPlace scratch) (inPlaceSettings scratch) := by
  obtain ⟨a, ha, hne⟩ := (Option.any_eq_true _ _).1 h
  obtain ⟨r, hr, ha⟩ := Option.bind_eq_some_iff.1 ha
  obtain ⟨r', hr', ha⟩ := Option.bind_eq_some_iff.1 ha
  cases ha
  refine ⟨result, sheet, ⟨[.code ['1']]⟩, r, r', rfl, rfl, hm, read_bench m t, decode_sheet,
    keeps_sheet, hr, rfl, hr', fun heq => ?_⟩
  rw [heq] at hne
  simp at hne

/-- Processes that put a file where they work. -/
def usurper : Execution.Machine where
  Job := Place
  start := fun _ t here p => (t.lookup here p).map (·.1)
  step := fun d t => (t.put d (.file [] false), .inr ⟨.status 0, [], []⟩)

theorem determined_usurper (tc : Program.Toolchain) :
    usurper.Determined tc fun _ _ => .ok ⟨[], [], some 0⟩ where
  start := by
    intro t here d p mf program f hd _ h
    simp only [usurper, hd] at h
    cases h
  finish := by
    intro here d mf program j t u c _ h
    obtain rfl := Sum.inr.inj (Prod.mk.inj h).2
    have hnil : Text.Utf8.decodeLossy [] = [] := by rw [Text.Utf8.decodeLossy]
    simp only [Execution.outcome, hnil]
    rfl

/-- A directory where the manifest of the only cell is to be written. -/
def blocked : Tree :=
  let workspace : Place := ["scratch".toList, (Program.Key.derive ['1'] .standard).digits]
  ((Tree.empty.put ["scratch".toList] .directory).put workspace .directory).put
    (workspace ++ ["Cargo.toml".toList]) .directory

theorem evaluated_again_drifts :
    (∃ w v s, Drifts w v s ∧ w.machine.Confined ∧
      s.Scratch w.tree (s.ground w.tree) s.root) ∧
    (∃ w v s, Drifts w v s ∧ w.machine.Confined ∧ ∀ k, Free (s.ground w.tree) s.root k) ∧
    (∃ w v s, Drifts w v s ∧ s.Scratch w.tree (s.ground w.tree) s.root ∧
      ∀ k, Free (s.ground w.tree) s.root k) := by
  have hprinter := Execution.Machine.determined_printer (inPlaceSettings "scratch").toolchain
  refine ⟨⟨_, _, _, drifts_bench .printer blocked "scratch" hprinter (by decide +kernel),
      Execution.Machine.confined_printer, ⟨Prod.ext rfl (by decide +kernel), rfl, by decide +kernel⟩⟩,
    ⟨_, _, _, drifts_bench .printer .empty "new/../n.md/x" hprinter (by decide +kernel),
      Execution.Machine.confined_printer, fun k q hq => ?_⟩,
    ⟨_, _, _, drifts_bench usurper .empty "scratch" (determined_usurper _) (by decide +kernel),
      ⟨rfl, rfl, rfl⟩, (bare_bench _).free⟩⟩
  -- The way that was made leads to another directory.
  have hground : (inPlaceSettings "new/../n.md/x").ground (bench .printer .empty).tree =
      ⟨[(["new".toList], .directory), (["n.md".toList], .file sheet false)]⟩ := rfl
  have hroot : (inPlaceSettings "new/../n.md/x").root = ["n.md".toList, "x".toList] := rfl
  rw [hroot] at hq
  obtain ⟨ns, rfl⟩ := hq
  rw [hground, Tree.get?, if_neg (by simp)]
  simp

end Notebook.Command
