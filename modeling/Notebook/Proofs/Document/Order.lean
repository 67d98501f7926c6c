import Notebook.Execution.Kernel
import Notebook.Proofs.Document.Recording
import Notebook.Proofs.Execution.Locks

/-!
Outcomes that are kept one after the other. What a cell is in the end is told by what it was at
first and by the last outcome for it, so that the order does not matter otherwise.
-/

namespace Notebook

open Execution (Outcome)

/-- The cell with an outcome, which only code can keep. -/
def Cell.keep (c : Cell) (o : Outcome) : Cell :=
  match c.source? with
  | some s => Document.evaluation s o
  | none => c

theorem Cell.keep_of_none {c : Cell} (h : c.source? = none) (o : Outcome) : c.keep o = c := by
  rw [keep, h]

theorem Cell.keep_of_source? {c : Cell} {s : List Char} (h : c.source? = some s) (o : Outcome) :
    c.keep o = Document.evaluation s o := by
  rw [keep, h]

theorem Cell.source?_keep (c : Cell) (o : Outcome) : (c.keep o).source? = c.source? := by
  cases h : c.source? with
  | none => rw [keep_of_none h, h]
  | some s =>
    obtain ⟨out, r, heq⟩ := Document.evaluation_eq s o
    rw [keep_of_source? h, heq]
    rfl

theorem Cell.keep_keep (c : Cell) (o o' : Outcome) : (c.keep o).keep o' = c.keep o' := by
  cases h : c.source? with
  | none => rw [keep_of_none h]
  | some s =>
    rw [keep_of_source? ((source?_keep c o).trans h), keep_of_source? h]

namespace Document

variable {d e : Document} {calls calls' : List (Nat × Outcome)} {i j : Nat} {o o' : Outcome}
  {f : Failure}

theorem record_of_none (h : d.cells[i]? = none) (o : Outcome) :
    d.record i o = .error (.cellNotFound i) := by
  simp [record, cell, h, bind, Except.bind]

theorem record_of_markup {t : List Char} (h : d.cells[i]? = some (.markup t)) (o : Outcome) :
    d.record i o = .error (.notExecutable i) := by
  simp [record, cell, h, bind, Except.bind, Cell.source?]

theorem record_of_source? {c : Cell} {s : List Char} (hc : d.cells[i]? = some c)
    (hs : c.source? = some s) (o : Outcome) :
    d.record i o = .ok ⟨d.cells.set i (evaluation s o)⟩ := by
  simp [record, cell, hc, bind, Except.bind, hs]

theorem record_error_iff : d.record i o = .error f ↔
    (d.cells.length ≤ i ∧ f = .cellNotFound i) ∨
    ((∃ t, d.cells[i]? = some (.markup t)) ∧ f = .notExecutable i) := by
  constructor
  · intro h
    cases hc : d.cells[i]? with
    | none =>
      rw [record_of_none hc] at h
      exact .inl ⟨List.getElem?_eq_none_iff.1 hc, (Except.error.inj h).symm⟩
    | some c =>
      cases c with
      | markup t =>
        rw [record_of_markup hc] at h
        exact .inr ⟨⟨t, rfl⟩, (Except.error.inj h).symm⟩
      | code s | evaluated s out r =>
        rw [record_of_source? hc rfl] at h
        cases h
  · rintro (⟨hlen, rfl⟩ | ⟨⟨t, ht⟩, rfl⟩)
    · exact record_of_none (List.getElem?_eq_none_iff.2 hlen) o
    · exact record_of_markup ht o

/-- The document after a call, which changes nothing if it fails. -/
def attempt (d : Document) (i : Nat) (o : Outcome) : Document :=
  match d.record i o with
  | .ok e => e
  | .error _ => d

theorem attempt_cell (d : Document) (i : Nat) (o : Outcome) (j : Nat) :
    (d.attempt i o).cells[j]? = if j = i then d.cells[j]?.map (·.keep o) else d.cells[j]? := by
  rw [attempt]
  cases h : d.record i o with
  | ok e =>
    obtain ⟨c, s, hc, hs, he⟩ := record_ok h
    have hlt := (List.getElem?_eq_some_iff.1 hc).1
    simp only [he]
    by_cases hj : j = i
    · subst hj
      rw [if_pos rfl, List.getElem?_set_self hlt, hc, Option.map_some, Cell.keep_of_source? hs]
    · rw [if_neg hj, List.getElem?_set_ne (Ne.symm hj)]
  | error f =>
    by_cases hj : j = i
    · subst hj
      rw [if_pos rfl]
      rcases record_error_iff.1 h with ⟨hlen, -⟩ | ⟨⟨t, ht⟩, -⟩
      · rw [List.getElem?_eq_none_iff.2 hlen]
        rfl
      · rw [ht, Option.map_some, Cell.keep_of_none rfl]
    · rw [if_neg hj]

theorem recordAll_cons (d : Document) (i : Nat) (o : Outcome) (calls : List (Nat × Outcome)) :
    (d.recordAll ((i, o) :: calls)).1 = ((d.attempt i o).recordAll calls).1 := by
  rw [recordAll, attempt]
  cases d.record i o <;> rfl

theorem recordAll_skip {earlier : List (Nat × Outcome)}
    (h : (d.recordAll earlier).1.record i o = .error f) (later : List (Nat × Outcome)) :
    d.recordAll (earlier ++ (i, o) :: later) = d.recordAll (earlier ++ later) := by
  induction earlier generalizing d with
  | nil =>
    change d.record i o = .error f at h
    rw [List.nil_append, recordAll, h, List.nil_append]
  | cons call earlier ih =>
    obtain ⟨j, o'⟩ := call
    rw [recordAll_cons, attempt] at h
    rw [List.cons_append, List.cons_append, recordAll, recordAll]
    cases hj : d.record j o' with
    | ok e =>
      rw [hj] at h
      simp only [ih h]
    | error f' =>
      rw [hj] at h
      exact ih h

/-- The last outcome for a cell, if there is any. -/
def last? (calls : List (Nat × Outcome)) (i : Nat) : Option Outcome := calls.reverse.lookup i

theorem last?_cons_self (i : Nat) (o : Outcome) (calls : List (Nat × Outcome)) :
    last? ((i, o) :: calls) i = some ((last? calls i).getD o) := by
  rw [last?, List.reverse_cons, List.lookup_append, last?]
  cases calls.reverse.lookup i <;> simp

theorem last?_cons_ne (h : i ≠ j) (o : Outcome) (calls : List (Nat × Outcome)) :
    last? ((j, o) :: calls) i = last? calls i := by
  rw [last?, List.reverse_cons, List.lookup_append, last?]
  cases calls.reverse.lookup i <;> simp [List.lookup_cons, beq_false_of_ne h]

theorem last?_eq_none (h : i ∉ calls.map Prod.fst) : last? calls i = none := by
  rw [last?, List.lookup_eq_none_iff]
  intro call hcall
  refine bne_iff_ne.2 fun heq => h ?_
  rw [heq]
  exact List.mem_map_of_mem (List.mem_reverse.1 hcall)

theorem last?_append (earlier later : List (Nat × Outcome)) (i : Nat) :
    last? (earlier ++ later) i = (last? later i).or (last? earlier i) := by
  rw [last?, List.reverse_append, List.lookup_append, last?, last?]

theorem recordAll_getElem? (d : Document) (calls : List (Nat × Outcome)) (i : Nat) :
    (d.recordAll calls).1.cells[i]? = d.cells[i]?.map fun c => (last? calls i).elim c c.keep := by
  induction calls generalizing d with
  | nil => exact (Option.map_id' ..).symm
  | cons call calls ih =>
    obtain ⟨j, o⟩ := call
    rw [recordAll_cons, ih, attempt_cell]
    by_cases hij : i = j
    · subst hij
      rw [if_pos rfl, last?_cons_self, Option.map_map]
      congr 1
      funext c
      cases last? calls i with
      | none => rfl
      | some o' => exact c.keep_keep o o'
    · rw [if_neg hij, last?_cons_ne hij]

theorem recordAll_congr (h : ∀ i, last? calls i = last? calls' i) :
    (d.recordAll calls).1 = (d.recordAll calls').1 := by
  have hcells : (d.recordAll calls).1.cells = (d.recordAll calls').1.cells := by
    refine List.ext_getElem? fun i => ?_
    rw [recordAll_getElem?, recordAll_getElem?, h]
  exact congrArg Document.mk hcells

theorem recordAll_markup (t : List Char) :
    (d.recordAll calls).1.cells[i]? = some (.markup t) ↔ d.cells[i]? = some (.markup t) := by
  rw [recordAll_getElem?, Option.map_eq_some_iff]
  constructor
  · rintro ⟨c, hc, heq⟩
    cases ho : last? calls i with
    | none =>
      rw [ho] at heq
      rw [hc, ← heq]
      rfl
    | some o =>
      rw [ho] at heq
      change c.keep o = .markup t at heq
      have hs := c.source?_keep o
      rw [heq] at hs
      rw [Cell.keep, ← hs] at heq
      rw [hc]
      exact congrArg some heq
  · intro hc
    refine ⟨_, hc, ?_⟩
    cases last? calls i <;> rfl

theorem recordAll_unrecorded (h : i ∉ calls.map Prod.fst) :
    (d.recordAll calls).1.cells[i]? = d.cells[i]? := by
  rw [recordAll_getElem?, last?_eq_none h]
  exact Option.map_id' ..

/-- There is code in a cell, whether it has been evaluated or not. -/
def HasSource (d : Document) (i : Nat) (source : List Char) : Prop :=
  d.cells[i]? = some (.code source) ∨
    ∃ output report, d.cells[i]? = some (.evaluated source output report)

theorem hasSource_iff {source : List Char} :
    d.HasSource i source ↔ ∃ c, d.cells[i]? = some c ∧ c.source? = some source := by
  constructor
  · rintro (h | ⟨output, report, h⟩)
    · exact ⟨_, h, rfl⟩
    · exact ⟨_, h, rfl⟩
  · rintro ⟨c, hc, hs⟩
    cases c with
    | markup t => cases hs
    | code s =>
      obtain rfl := Option.some.inj hs
      exact .inl hc
    | evaluated s output report =>
      obtain rfl := Option.some.inj hs
      exact .inr ⟨output, report, hc⟩

/-- A cell keeps its code and an outcome: what the program wrote or, if the request failed, why. -/
structure Records (d : Document) (i : Nat) (source : List Char) (o : Outcome) : Prop where
  printed : ∀ out, o = .ok out → d.cells[i]? = some (.evaluated source out.stdout out.stderr)
  failed : ∀ f, o = .error f → d.cells[i]? = some (.evaluated source "error".toList f.message)

theorem recordAll_last {source : List Char} (hs : d.HasSource i source)
    (ho : last? calls i = some o) : (d.recordAll calls).1.Records i source o := by
  obtain ⟨c, hc, hs⟩ := hasSource_iff.1 hs
  have hcell : (d.recordAll calls).1.cells[i]? = some (evaluation source o) := by
    rw [recordAll_getElem?, hc, ho]
    exact congrArg some (Cell.keep_of_source? hs o)
  constructor
  · rintro out rfl
    exact hcell
  · rintro f rfl
    exact hcell

theorem recordAll_swap (hij : i ≠ j) (earlier later : List (Nat × Outcome)) :
    (d.recordAll (earlier ++ (i, o) :: (j, o') :: later)).1 =
      (d.recordAll (earlier ++ (j, o') :: (i, o) :: later)).1 := by
  refine recordAll_congr fun n => ?_
  rw [last?_append, last?_append]
  congr 1
  by_cases hi : n = i
  · subst hi
    rw [last?_cons_self, last?_cons_ne hij, last?_cons_ne hij, last?_cons_self]
  · by_cases hj : n = j
    · subst hj
      rw [last?_cons_ne hi, last?_cons_self, last?_cons_self, last?_cons_ne hi]
    · rw [last?_cons_ne hi, last?_cons_ne hj, last?_cons_ne hj, last?_cons_ne hi]

theorem last?_perm (hperm : calls.Perm calls') (hnodup : (calls.map Prod.fst).Nodup) (i : Nat) :
    last? calls i = last? calls' i := by
  have hmem {l : List (Nat × Outcome)} (hl : l.Perm calls) (o : Outcome) :
      last? l i = some o ↔ (i, o) ∈ calls := by
    have hkeys : (l.reverse.map Prod.fst).Nodup :=
      (((List.reverse_perm l).trans hl).map Prod.fst).nodup_iff.2 hnodup
    rw [last?, ← hl.mem_iff, ← List.mem_reverse]
    exact ⟨Execution.mem_of_lookup, Execution.lookup_of_mem hkeys⟩
  refine Option.ext fun o => ?_
  rw [hmem (.refl calls), hmem hperm.symm]

theorem last?_of_mem (hnodup : (calls.map Prod.fst).Nodup) (h : (i, o) ∈ calls) :
    last? calls i = some o := by
  rw [last?_perm (List.reverse_perm calls).symm hnodup, last?, List.reverse_reverse]
  exact Execution.lookup_of_mem hnodup h

end Document

end Notebook
