import Notebook.Proofs.Execution.Numbering

/-!
What is promised of order numbers, and of calls for many cells. If nothing comes between, then a
batch is what `Kernel.submitAll` makes of its cells. Whatever has become of it so far, it can be
brought to its end.
-/

namespace Notebook.Execution

open Files (Tree)

namespace System

variable {m : Machine} {y y' : System m} {a : Act} {b : Batch} {w : Worker m} {j k n cell : Nat}
  {c : Counter}

theorem run_append (y : System m) (acts acts' : List Act) :
    y.run (acts ++ acts') = (y.run acts).run acts' := List.foldl_append

/-! ### Numbers, one after the other -/

theorem act_number (hb : y.batches[j]? = some b) (hw : y.workers[b.worker]? = some w)
    (hcell : b.cells[b.records.length]? = some cell)
    (hu : y.tally.counters.users[w.user]? = some k)
    (hk : y.tally.counters.counters[k]? = some c) :
    y.act (.number j) = { y with
      tally := y.tally.take w.user k c
      batches := y.batches.set j { b with records := b.records ++ [(c.trigger cell).1] } } := by
  have hdraw : y.tally.draw w.user (·.trigger cell) (·.order) =
      some ((c.trigger cell).1, y.tally.take w.user k c) :=
    (Tally.draw_eq_some fun _ => rfl).2 ⟨k, c, hu, hk, rfl, rfl⟩
  simp only [act, act?, hb, hw, hcell, hdraw, bind, Option.bind_some]
  rfl

theorem act_launch (hb : y.batches[j]? = some b) (hw : y.workers[b.worker]? = some w)
    (hfirst : b.first = none) (hall : b.records.length = b.cells.length) :
    y.act (.launch j) = { y with
      workers := y.workers.set b.worker (w.submit b.document b.records)
      batches := y.batches.set j { b with first := some w.kernel.pipelines.length } } := by
  simp only [act, act?, hb, hw, bind, Option.bind_some, if_pos (And.intro hfirst hall)]
  rfl

/-- The rest of a batch gets its numbers, and nothing comes between. -/
theorem run_number {rest : List Nat} (hb : y.batches[j]? = some b)
    (hw : y.workers[b.worker]? = some w) (hu : y.tally.counters.users[w.user]? = some k)
    (hk : y.tally.counters.counters[k]? = some c) (hrest : b.cells.drop b.records.length = rest) :
    ∃ tally, y.run (List.replicate rest.length (.number j)) = { y with
      tally
      batches := y.batches.set j { b with records := b.records ++ (c.triggerAll rest).1 } } ∧
    tally.counters.users = y.tally.counters.users ∧
    tally.counters.counters[k]? = some (c.triggerAll rest).2 := by
  induction rest generalizing y b c with
  | nil =>
    obtain ⟨hlt, hget⟩ := List.getElem?_eq_some_iff.1 hb
    refine ⟨y.tally, ?_, rfl, hk⟩
    have hsame : { b with records := b.records ++ (c.triggerAll []).1 } = y.batches[j] := by
      rw [hget]
      show { b with records := b.records ++ [] } = b
      rw [List.append_nil]
    rw [hsame, List.set_getElem_self]
    rfl
  | cons cell rest ih =>
    have hcell : b.cells[b.records.length]? = some cell := by
      rw [← List.head?_drop, hrest]
      rfl
    have hrest' : b.cells.drop (b.records ++ [(c.trigger cell).1]).length = rest := by
      rw [List.length_append, List.length_singleton, ← List.drop_drop, hrest]
      rfl
    have hact := act_number hb hw hcell hu hk
    have hb' : (y.act (.number j)).batches[j]? =
        some { b with records := b.records ++ [(c.trigger cell).1] } := by
      rw [hact]
      exact List.getElem?_set_self (List.getElem?_eq_some_iff.1 hb).1
    have hk' : (y.act (.number j)).tally.counters.counters[k]? = some (c.trigger cell).2 := by
      rw [hact]
      exact List.getElem?_set_self (List.getElem?_eq_some_iff.1 hk).1
    obtain ⟨tally, hrun, husers, hcounter⟩ :=
      ih hb' (by rw [hact]; exact hw) (by rw [hact]; exact hu) hk' hrest'
    refine ⟨tally, hrun.trans ?_, by rw [husers, hact]; rfl, hcounter⟩
    rw [hact]
    simp only [List.set_set, List.append_assoc]
    rfl

/-- What remains to be done for the requests of a batch to be run. -/
def launching (j : Nat) (b : Batch) : List Act :=
  List.replicate (b.cells.drop b.records.length).length (.number j) ++ [.launch j]

/-- The requests of a batch are run, and nothing comes between. -/
theorem run_launching (hb : y.batches[j]? = some b) (hw : y.workers[b.worker]? = some w)
    (hu : y.tally.counters.users[w.user]? = some k)
    (hk : y.tally.counters.counters[k]? = some c) (hfirst : b.first = none)
    (hle : b.records.length ≤ b.cells.length) {rs : List Record}
    (hrs : b.records ++ (c.triggerAll (b.cells.drop b.records.length)).1 = rs) :
    ∃ tally, y.run (launching j b) = { y with
      tally
      workers := y.workers.set b.worker (w.submit b.document rs)
      batches := y.batches.set j
        { b with records := rs, first := some w.kernel.pipelines.length } } := by
  obtain ⟨tally, hrun, -, -⟩ := run_number hb hw hu hk rfl
  rw [hrs] at hrun
  have hall : rs.length = b.cells.length := by
    rw [← hrs, List.length_append, Counter.triggerAll_eq, List.length_mapIdx, List.length_drop]
    omega
  have hlaunch := act_launch (y := { y with
      tally, batches := y.batches.set j { b with records := rs } })
    (List.getElem?_set_self (List.getElem?_eq_some_iff.1 hb).1) hw hfirst hall
  refine ⟨tally, ?_⟩
  rw [launching, run_append, hrun]
  refine hlaunch.trans ?_
  simp only [List.set_set]

/-- With nothing between, a call leads to the same requests as in a kernel that has the counter for
itself. -/
theorem run_execute (hw : y.workers[n]? = some w) (hu : y.tally.counters.users[w.user]? = some k)
    (hk : y.tally.counters.counters[k]? = some c) (d : Document) (cells : List Nat) :
    ∃ w', (y.run (.execute n d cells ::
        launching y.batches.length ⟨n, d, cells, [], none⟩)).workers[n]? = some w' ∧
      { w'.kernel with counter := (c.triggerAll cells).2 } =
        Kernel.submitAll { w.kernel with counter := c } d cells := by
  have hact : y.act (.execute n d cells) =
      { y with batches := y.batches ++ [⟨n, d, cells, [], none⟩] } := by
    simp only [act, act?, hw, bind, Option.bind_some]
    rfl
  obtain ⟨tally, hrun⟩ := run_launching (y := { y with
      batches := y.batches ++ [⟨n, d, cells, [], none⟩] })
    List.getElem?_concat_length hw hu hk rfl (Nat.zero_le _) rfl
  refine ⟨w.submit d (c.triggerAll cells).1, ?_, ?_⟩
  · show ((y.act (.execute n d cells)).run _).workers[n]? = _
    rw [hact, hrun]
    exact List.getElem?_set_self (List.getElem?_eq_some_iff.1 hw).1
  · have hcounter (k : Kernel m.Job) (rs : List Record) (c' : Counter) :
        { rs.foldl (fun k r => k.submit d r) k with counter := c' } =
          rs.foldl (fun k r => k.submit d r) { k with counter := c' } := by
      induction rs generalizing k with
      | nil => rfl
      | cons r rs ih => exact ih (k.submit d r)
    exact hcounter w.kernel (c.triggerAll cells).1 (c.triggerAll cells).2

/-! ### The end -/

/-- Steps of one kernel, with nothing between. -/
theorem run_steps (hw : y.workers[n]? = some w) (steps : List Step) :
    (y.run (steps.map (.step n))).batches = y.batches ∧
    ∃ w', (y.run (steps.map (.step n))).workers[n]? = some w' ∧
      { w'.kernel with tree := (y.run (steps.map (.step n))).tree } =
        { w.kernel with tree := y.tree }.run m w.settings steps := by
  induction steps generalizing y w with
  | nil => exact ⟨rfl, w, hw, rfl⟩
  | cons a steps ih =>
    have hact : y.act (.step n a) = { y with
        tree := (w.step y.tree a).kernel.tree
        workers := y.workers.set n (w.step y.tree a) } := by
      simp only [act, act?, hw, bind, Option.bind_some]
      rfl
    have hw' : (y.act (.step n a)).workers[n]? = some (w.step y.tree a) := by
      rw [hact]
      exact List.getElem?_set_self (List.getElem?_eq_some_iff.1 hw).1
    obtain ⟨hbatches, w', hlast, hkernel⟩ := ih hw'
    refine ⟨hbatches.trans (by rw [hact]), w', hlast, hkernel.trans ?_⟩
    rw [hact]
    rfl

/-- No request has been given up. -/
def Orderly (y : System m) : Prop := ∀ w ∈ y.workers, w.kernel.Orderly

theorem orderly_submit (h : w.kernel.Orderly) (d : Document) (rs : List Record) :
    (w.submit d rs).kernel.Orderly := by
  show (rs.foldl (fun k r => k.submit d r) w.kernel).Orderly
  generalize w.kernel = k at h
  induction rs generalizing k with
  | nil => exact h
  | cons r rs ih => exact ih _ (h.submit d r)

theorem orderly_step (h : w.kernel.Orderly) (t : Tree) {a : Step} (ha : (Task.step a).Patient) :
    (w.step t a).kernel.Orderly :=
  (h.withTree t).step w.settings ha

theorem Orderly.move (h : y.Orderly) (ha : a.Patient) (hmove : Move y a y') : y'.Orderly := by
  have hset {n : Nat} {v v' : Worker m} (hv : y.workers[n]? = some v)
      (hv' : v.kernel.Orderly → v'.kernel.Orderly) (w : Worker m) (hw : w ∈ y.workers.set n v') :
      w.kernel.Orderly := by
    rcases List.mem_or_eq_of_mem_set hw with hw | rfl
    · exact h w hw
    · exact hv' (h v (List.mem_of_getElem? hv))
  cases hmove with
  | tally _ | execute _ _ _ | number _ _ _ _ _ => exact h
  | attach _ =>
    intro w hw
    rcases List.mem_append.1 hw with hw | hw
    · exact h w hw
    · rw [List.mem_singleton.1 hw]
      exact Kernel.orderly_start _ _
  | run hw d r => exact hset hw fun hv => orderly_submit hv d [r]
  | launch _ hw _ _ => exact hset hw fun hv => orderly_submit hv _ _
  | step hw a => exact hset hw fun hv => orderly_step hv _ ha

theorem Orderly.run (h : y.Orderly) {acts : List Act} (hacts : ∀ a ∈ acts, a.Patient) :
    (y.run acts).Orderly := by
  induction acts generalizing y with
  | nil => exact h
  | cons a acts ih =>
    exact ih (h.move (hacts a List.mem_cons_self) (act_move y a))
      fun b hb => hacts b (List.mem_cons_of_mem a hb)

/-- Whatever has become of it so far, the requests of a batch can be run. -/
theorem Sound.exists_launched (h : y.Sound) (hb : y.batches[j]? = some b) :
    ∃ rest b', (∀ a ∈ rest, a.Patient) ∧ (y.run rest).batches[j]? = some b' ∧
      b'.cells = b.cells ∧ b'.first.isSome := by
  cases hfirst : b.first with
  | some first => exact ⟨[], b, by simp, hb, rfl, by rw [hfirst]; rfl⟩
  | none =>
    obtain ⟨w, k, hw, hu, hkept⟩ := h.batches b (List.mem_of_getElem? hb)
    obtain ⟨c, hk⟩ := h.tally.counter_of_user hu
    have hle : b.records.length ≤ b.cells.length := by
      have hlength := congrArg List.length hkept.cells
      rw [List.length_map, List.length_take] at hlength
      omega
    obtain ⟨tally, hrun⟩ := run_launching hb hw hu hk hfirst hle rfl
    have hb' : (y.run (launching j b)).batches[j]? = some { b with
        records := b.records ++ (c.triggerAll (b.cells.drop b.records.length)).1
        first := some w.kernel.pipelines.length } := by
      rw [hrun]
      exact List.getElem?_set_self (List.getElem?_eq_some_iff.1 hb).1
    refine ⟨launching j b, _, fun a ha => ?_, hb', rfl, rfl⟩
    rcases List.mem_append.1 ha with ha | ha
    · rw [List.eq_of_mem_replicate ha]
      trivial
    · rw [List.mem_singleton.1 ha]
      trivial

/-- Whatever has become of it so far, a batch can be brought to its end. -/
theorem Sound.exists_returned (h : y.Sound) (horderly : y.Orderly) (hm : m.Ends)
    (hb : y.batches[j]? = some b) : ∃ rest b' xs, (y.run rest).batches[j]? = some b' ∧
      b'.cells = b.cells ∧ (y.run rest).returned? b' = some xs := by
  obtain ⟨rest, b', hpatient, hb', hcells, hfirst⟩ := h.exists_launched hb
  obtain ⟨first, hfirst⟩ := Option.isSome_iff_exists.1 hfirst
  obtain ⟨w, k, hw, -, -⟩ := (h.run rest).batches b' (List.mem_of_getElem? hb')
  have hkernel : Kernel.Orderly { w.kernel with tree := (y.run rest).tree } :=
    ((horderly.run hpatient) w (List.mem_of_getElem? hw)).withTree _
  obtain ⟨steps, -, hall⟩ := hkernel.completes hm w.settings .epoch
  obtain ⟨hbatches, w', hw', hend⟩ := run_steps hw steps
  rw [← hend] at hall
  have hended : ∀ p ∈ (w'.kernel.pipelines.drop first).take b'.cells.length, p.finished?.isSome :=
    fun p hp => hall p (List.mem_of_mem_drop (List.mem_of_mem_take hp))
  obtain ⟨xs, hxs⟩ := Kernel.exists_mapM_finished? hended
  refine ⟨rest ++ steps.map (.step b'.worker), b', xs, ?_, hcells, ?_⟩
  · rw [run_append, hbatches, hb']
  · rw [run_append]
    exact returned?_eq_some.2 ⟨_, pipelines?_eq_some.2 ⟨first, w', hfirst, hw', rfl⟩, hxs⟩

/-! ### Order numbers -/

theorem orderly_after {acts : List Act} (t : Tree) (hacts : ∀ a ∈ acts, a.Patient) :
    (after m t acts).Orderly := by
  have hstart : (start m t).Orderly := by rintro w ⟨⟩
  exact hstart.run hacts

/-- However counters are made, shared, handed to kernels and drawn from, by triggers and calls for
any cells: the numbers that come from a counter are those from one on, in turn, and the last one
says how many have been drawn. Who draws changes no other counter. A call returns one execution for
each cell of its list, in the order of the list and with numbers that grow along it, all of them
drawn before any of the cells starts. And if processes end and no request is given up, then it can
always be brought to return. -/
theorem order_numbers (m : Machine) (t : Tree) (acts : List Act) :
    (∀ u k : Nat, (after m t acts).tally.counters.users[u]? = some k →
      ∃ c, (after m t acts).tally.counters.counter? u = some c ∧
        (after m t acts).tally.drawnFrom k = List.range' 1 c.last) ∧
    (∀ a, ((after m t acts).act a).tally.drawn =
      (after m t acts).tally.drawn ++ ((after m t acts).draws? a).toList) ∧
    (∀ a v, v < (after m t acts).tally.counters.users.length →
      (∀ e, (after m t acts).draws? a = some e →
        (after m t acts).tally.counters.users[e.1]? ≠ (after m t acts).tally.counters.users[v]?) →
      ((after m t acts).act a).tally.counters.counter? v =
        (after m t acts).tally.counters.counter? v) ∧
    (∀ b ∈ (after m t acts).batches, (after m t acts).Numbered b ∧
      ∀ a xs, (after m t acts).returned? b = some xs →
        ((after m t acts).act a).returned? b = some xs) ∧
    (m.Ends → (∀ a ∈ acts, a.Patient) → ∀ (j : Nat) b, (after m t acts).batches[j]? = some b →
      ∃ rest b' xs, (after m t (acts ++ rest)).batches[j]? = some b' ∧ b'.cells = b.cells ∧
        (after m t (acts ++ rest)).returned? b' = some xs) := by
  have h := sound_after m t acts
  refine ⟨fun u k hu => ?_, drawn_act _, fun a v hv hother => h.counter?_act hv hother,
    fun b hb => ⟨(h.batches b hb).numbered, fun a xs hxs => ?_⟩, fun hm hacts j b hb => ?_⟩
  · obtain ⟨c, hc⟩ := h.tally.counter_of_user hu
    exact ⟨c, Tally.counter?_eq_some.2 ⟨k, hu, hc⟩, h.tally.numbers k c hc⟩
  · have hcontinues := (act_move (after m t acts) a).continues
    exact (h.batches b hb).returned_again ((h.batches b hb).mono h.tally hcontinues) hcontinues hxs
  · obtain ⟨rest, b', xs, hb', hcells, hxs⟩ := h.exists_returned (orderly_after t hacts) hm hb
    have happend : after m t (acts ++ rest) = (after m t acts).run rest := run_append _ acts rest
    rw [← happend] at hb' hxs
    exact ⟨rest, b', xs, hb', hcells, hxs⟩

/-- Two kernels share a counter. Calls of both get their numbers by turns, with other draws
between. -/
def crossing : List Act :=
  [.create, .share 0, .attach Kernel.evaluating 0, .attach Kernel.evaluating 1,
    .execute 0 Kernel.parted [1, 7, 1], .number 0, .execute 1 Kernel.joined [0], .number 1, .next 0,
    .number 0, .trigger 1 3, .number 0, .launch 0, .launch 1]

theorem order_numbers_crossing :
    (after .printer .empty crossing).batches.map (fun b => b.records.map (·.order)) =
      [[1, 4, 6], [2]] ∧
    (after .printer .empty crossing).tally.drawnFrom 0 = [1, 2, 3, 4, 5, 6] ∧
    ∃ rest b xs, (after .printer .empty (crossing ++ rest)).returned? b = some xs ∧
      xs.map (·.record.cellIndex) = [1, 7, 1] := by
  obtain ⟨hnumbers, -, -, -, hends⟩ := order_numbers .printer .empty crossing
  obtain ⟨c, hc, hdrawn⟩ := hnumbers 0 0 rfl
  obtain rfl : c = ⟨6⟩ := (Option.some.inj hc).symm
  have hprinter : Machine.printer.Ends := fun d t => ⟨1, rfl⟩
  obtain ⟨rest, b, xs, hb, hcells, hxs⟩ := hends hprinter (by simp [crossing, Act.Patient]) 0 _ rfl
  obtain ⟨-, -, -, hbatches, -⟩ := order_numbers .printer .empty (crossing ++ rest)
  obtain ⟨hnumbered, -⟩ := hbatches b (List.mem_of_getElem? hb)
  exact ⟨rfl, hdrawn, rest, b, xs, hxs, (hnumbered.returned xs hxs).1.trans hcells⟩

end System

end Notebook.Execution
