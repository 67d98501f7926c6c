import Notebook.Proofs.Execution.System

/-!
The numbers of requests when kernels share counters. A batch has one request for each of its cells,
with numbers that grow along the list, and all of them are drawn before any of the cells starts.
-/

namespace Notebook.Execution

open Files (Tree)

namespace System

variable {m : Machine} {y y' : System m} {a : Act} {b : Batch} {w : Worker m} {j n : Nat}

/-- What an act does. -/
inductive Move (y : System m) : Act → System m → Prop where
  /-- At most counters and files change. -/
  | tally {a : Act} {tree : Tree} {tally : Tally} (h : y.tally.Change tally) :
      Move y a { y with tree, tally }
  | attach {s : Settings} {u k : Nat} (hu : y.tally.counters.users[u]? = some k) :
      Move y (.attach s u) { y with workers := y.workers ++ [⟨s, u, .start y.tree .fresh⟩] }
  | run {n : Nat} {w : Worker m} (hw : y.workers[n]? = some w) (d : Document) (r : Record) :
      Move y (.run n d r) { y with workers := y.workers.set n (w.submit d [r]) }
  | execute {n : Nat} {w : Worker m} (hw : y.workers[n]? = some w) (d : Document)
      (cells : List Nat) :
      Move y (.execute n d cells) { y with batches := y.batches ++ [⟨n, d, cells, [], none⟩] }
  | number {j k cell : Nat} {b : Batch} {w : Worker m} {c : Counter}
      (hb : y.batches[j]? = some b) (hw : y.workers[b.worker]? = some w)
      (hcell : b.cells[b.records.length]? = some cell)
      (hu : y.tally.counters.users[w.user]? = some k)
      (hk : y.tally.counters.counters[k]? = some c) :
      Move y (.number j) { y with
        tally := y.tally.take w.user k c
        batches := y.batches.set j { b with records := b.records ++ [(c.trigger cell).1] } }
  | launch {j : Nat} {b : Batch} {w : Worker m} (hb : y.batches[j]? = some b)
      (hw : y.workers[b.worker]? = some w) (hfirst : b.first = none)
      (hall : b.records.length = b.cells.length) :
      Move y (.launch j) { y with
        workers := y.workers.set b.worker (w.submit b.document b.records)
        batches := y.batches.set j { b with first := some w.kernel.pipelines.length } }
  | step {n : Nat} {w : Worker m} (hw : y.workers[n]? = some w) (a : Step) :
      Move y (.step n a) { y with
        tree := (w.step y.tree a).kernel.tree
        workers := y.workers.set n (w.step y.tree a) }

theorem act?_move (h : y.act? a = some y') : Move y a y' := by
  cases a with
  | create =>
    cases h
    exact .tally .create
  | share u =>
    obtain ⟨counters, hshare, h⟩ := Option.bind_eq_some_iff.1 h
    obtain ⟨k, hu, rfl⟩ := Option.map_eq_some_iff.1 hshare
    cases h
    exact .tally (.share hu)
  | attach s u =>
    obtain ⟨k, hu, h⟩ := Option.bind_eq_some_iff.1 h
    cases h
    exact .attach hu
  | next u =>
    obtain ⟨⟨i, t⟩, hdraw, h⟩ := Option.bind_eq_some_iff.1 h
    obtain ⟨k, c, hu, hk, -, rfl⟩ := (Tally.draw_eq_some fun _ => rfl).1 hdraw
    cases h
    exact .tally (.take hu hk)
  | trigger n cell =>
    obtain ⟨w, -, h⟩ := Option.bind_eq_some_iff.1 h
    obtain ⟨⟨r, t⟩, hdraw, h⟩ := Option.bind_eq_some_iff.1 h
    obtain ⟨k, c, hu, hk, -, rfl⟩ := (Tally.draw_eq_some fun _ => rfl).1 hdraw
    cases h
    exact .tally (.take hu hk)
  | run n d r =>
    obtain ⟨w, hw, h⟩ := Option.bind_eq_some_iff.1 h
    cases h
    exact .run hw d r
  | execute n d cells =>
    obtain ⟨w, hw, h⟩ := Option.bind_eq_some_iff.1 h
    cases h
    exact .execute hw d cells
  | number j =>
    obtain ⟨b, hb, h⟩ := Option.bind_eq_some_iff.1 h
    obtain ⟨w, hw, h⟩ := Option.bind_eq_some_iff.1 h
    obtain ⟨cell, hcell, h⟩ := Option.bind_eq_some_iff.1 h
    obtain ⟨⟨r, t⟩, hdraw, h⟩ := Option.bind_eq_some_iff.1 h
    obtain ⟨k, c, hu, hk, rfl, rfl⟩ := (Tally.draw_eq_some fun _ => rfl).1 hdraw
    cases h
    exact .number hb hw hcell hu hk
  | launch j =>
    obtain ⟨b, hb, h⟩ := Option.bind_eq_some_iff.1 h
    obtain ⟨w, hw, h⟩ := Option.bind_eq_some_iff.1 h
    split at h
    · rename_i hready
      cases h
      exact .launch hb hw hready.1 hready.2
    · cases h
  | step n a =>
    obtain ⟨w, hw, h⟩ := Option.bind_eq_some_iff.1 h
    cases h
    exact .step hw a
  | disturb tree =>
    cases h
    exact .tally .keep

theorem act_move (y : System m) (a : Act) : Move y a (y.act a) := by
  rw [act]
  cases h : y.act? a with
  | none => exact .tally .keep
  | some y' => exact act?_move h

/-- Who draws gets the next number of the counter, and nobody else gets one. -/
theorem drawn_act (y : System m) (a : Act) :
    (y.act a).tally.drawn = y.tally.drawn ++ (y.draws? a).toList := by
  have hnone : y.tally.drawn = y.tally.drawn ++ [] := (List.append_nil _).symm
  rw [act]
  cases a with
  | create | disturb _ => exact hnone
  | share u =>
    simp only [act?]
    cases y.tally.counters.share u <;> exact hnone
  | attach s u =>
    simp only [act?]
    cases y.tally.counters.users[u]? <;> exact hnone
  | next u =>
    have hdrawn := Tally.drawn_draw (f := Counter.next) (g := id) (fun _ => rfl) y.tally u
    simp only [act?]
    cases hdraw : y.tally.draw u Counter.next id <;> rw [hdraw] at hdrawn <;> exact hdrawn
  | trigger n cell =>
    simp only [act?, draws?, drawer?]
    cases y.workers[n]? with
    | none => exact hnone
    | some w =>
      have hdrawn := Tally.drawn_draw (f := (·.trigger cell)) (g := (·.order)) (fun _ => rfl)
        y.tally w.user
      simp only [bind, Option.bind_some]
      cases hdraw : y.tally.draw w.user (·.trigger cell) (·.order) <;> rw [hdraw] at hdrawn <;>
        exact hdrawn
  | run n d r | execute n d cells | step n a =>
    simp only [act?]
    cases y.workers[n]? <;> exact hnone
  | number j =>
    simp only [act?, draws?, drawer?]
    cases y.batches[j]? with
    | none => exact hnone
    | some b =>
      simp only [bind, Option.bind_some]
      cases y.workers[b.worker]? with
      | none => exact hnone
      | some w =>
        simp only [Option.bind_some]
        cases b.cells[b.records.length]? with
        | none => exact hnone
        | some cell =>
          have hdrawn := Tally.drawn_draw (f := (·.trigger cell)) (g := (·.order))
            (fun _ => rfl) y.tally w.user
          simp only [Option.bind_some]
          cases hdraw : y.tally.draw w.user (·.trigger cell) (·.order) <;> rw [hdraw] at hdrawn <;>
            exact hdrawn
  | launch j =>
    simp only [act?]
    cases y.batches[j]? with
    | none => exact hnone
    | some b =>
      simp only [bind, Option.bind_some]
      cases y.workers[b.worker]? with
      | none => exact hnone
      | some w =>
        simp only [Option.bind_some]
        split <;> exact hnone

/-! ### What is kept -/

/-- The workers go on from where they were. -/
structure Continues (y y' : System m) : Prop where
  tally : y.tally.Change y'.tally
  workers : ∀ (n : Nat) w, y.workers[n]? = some w →
    ∃ w', y'.workers[n]? = some w' ∧ w.Continues w'

theorem continues_set {w' : Worker m} (hw : y.workers[n]? = some w) (h : w.Continues w') (i : Nat)
    (v : Worker m) (hv : y.workers[i]? = some v) :
    ∃ v', (y.workers.set n w')[i]? = some v' ∧ v.Continues v' := by
  by_cases hi : n = i
  · subst hi
    obtain rfl := Option.some.inj (hw.symm.trans hv)
    exact ⟨w', List.getElem?_set_self (List.getElem?_eq_some_iff.1 hw).1, h⟩
  · exact ⟨v, (List.getElem?_set_ne hi).trans hv, rfl, .refl _⟩

theorem Move.continues (h : Move y a y') : y.Continues y' := by
  have hsame (n : Nat) (w : Worker m) (hw : y.workers[n]? = some w) :
      ∃ w', y.workers[n]? = some w' ∧ w.Continues w' := ⟨w, hw, rfl, .refl _⟩
  cases h with
  | tally h => exact ⟨h, hsame⟩
  | attach _ =>
    refine ⟨.keep, fun n w hw => ⟨w, ?_, rfl, .refl _⟩⟩
    exact (List.getElem?_append_left (List.getElem?_eq_some_iff.1 hw).1).trans hw
  | run hw d r => exact ⟨.keep, continues_set hw (Worker.continues_submit _ d [r])⟩
  | execute _ _ _ => exact ⟨.keep, hsame⟩
  | number _ _ _ hu hk => exact ⟨.take hu hk, hsame⟩
  | launch _ hw _ _ => exact ⟨.keep, continues_set hw (Worker.continues_submit _ _ _)⟩
  | step hw a => exact ⟨.keep, continues_set hw (Worker.continues_step _ _ a)⟩

end System

/-- The records of a batch are for its cells, with numbers that grow and that have been drawn. If
its requests are run, then all of them have their numbers, and they have a pipeline each. -/
structure Batch.Kept {P : Type} (b : Batch) (drawn : List Nat) (k : Kernel P) : Prop where
  cells : b.records.map (·.cellIndex) = b.cells.take b.records.length
  increasing : (b.records.map (·.order)).Pairwise (· < ·)
  drawn : ∀ r ∈ b.records, r.order ∈ drawn
  launched : ∀ first, b.first = some first → b.records.length = b.cells.length ∧
    ∀ (i : Nat) r, b.records[i]? = some r → ∃ p, k.pipelines[first + i]? = some p ∧
      p.record.cellIndex = r.cellIndex ∧ p.record.order = r.order

namespace Batch.Kept

variable {P : Type} {b : Batch} {drawn drawn' : List Nat} {k k' : Kernel P}

theorem mono (h : b.Kept drawn k) (hdrawn : ∀ n ∈ drawn, n ∈ drawn') (hk : k.Continues k') :
    b.Kept drawn' k' where
  cells := h.cells
  increasing := h.increasing
  drawn := fun r hr => hdrawn _ (h.drawn r hr)
  launched := by
    intro first hfirst
    obtain ⟨hall, hpipelines⟩ := h.launched first hfirst
    refine ⟨hall, fun i r hr => ?_⟩
    obtain ⟨p, hp, hcell, horder⟩ := hpipelines i r hr
    obtain ⟨p', hp', hfollows⟩ := hk _ p hp
    exact ⟨p', hp', hfollows.cell.trans hcell, hfollows.order.trans horder⟩

/-- One more request has got its number, which is the next one of the counter. -/
theorem number {c : Counter} {cell : Nat} (h : b.Kept (List.range' 1 c.last) k)
    (hcell : b.cells[b.records.length]? = some cell) :
    { b with records := b.records ++ [(c.trigger cell).1] : Batch }.Kept
      (List.range' 1 c.last ++ [c.last + 1]) k where
  cells := by
    show (b.records ++ [(c.trigger cell).1]).map (·.cellIndex) =
      b.cells.take (b.records ++ [(c.trigger cell).1]).length
    rw [List.map_append, h.cells, List.length_append, List.length_singleton, List.take_add_one,
      hcell]
    rfl
  increasing := by
    show ((b.records ++ [(c.trigger cell).1]).map (·.order)).Pairwise (· < ·)
    rw [List.map_append, List.pairwise_append]
    refine ⟨h.increasing, List.pairwise_singleton _ _, fun i hi n hn => ?_⟩
    obtain ⟨r, hr, rfl⟩ := List.mem_map.1 hi
    have hle := (List.mem_range'_1.1 (h.drawn r hr)).2
    obtain rfl : n = c.last + 1 := List.mem_singleton.1 hn
    show r.order < c.last + 1
    omega
  drawn := by
    intro r hr
    rcases List.mem_append.1 hr with hr | hr
    · exact List.mem_append_left _ (h.drawn r hr)
    · rw [List.mem_singleton.1 hr]
      exact List.mem_append_right _ (List.mem_singleton_self _)
  launched := by
    intro first hfirst
    have hlt := (List.getElem?_eq_some_iff.1 hcell).1
    have hall := (h.launched first hfirst).1
    omega

/-- The requests are run, after those that the kernel has got before. -/
theorem launch (h : b.Kept drawn k) (hall : b.records.length = b.cells.length)
    (hk : k'.pipelines = k.pipelines ++ b.records.map (⟨b.document, ·, .queued⟩)) :
    { b with first := some k.pipelines.length : Batch }.Kept drawn k' where
  cells := h.cells
  increasing := h.increasing
  drawn := h.drawn
  launched := by
    rintro first hfirst
    obtain rfl := Option.some.inj hfirst
    refine ⟨hall, fun i r hr => ⟨⟨b.document, r, .queued⟩, ?_, rfl, rfl⟩⟩
    have hr' : b.records[i]? = some r := hr
    rw [hk, List.getElem?_append_right (Nat.le_add_right _ _), Nat.add_sub_cancel_left,
      List.getElem?_map, hr']
    rfl

end Batch.Kept

namespace System

variable {m : Machine} {y y' : System m} {a : Act} {b : Batch} {w : Worker m} {j n : Nat}

/-- What is kept of a batch, with the counter and the kernel that it belongs to. -/
def Keeps (y : System m) (b : Batch) : Prop :=
  ∃ w k, y.workers[b.worker]? = some w ∧ y.tally.counters.users[w.user]? = some k ∧
    b.Kept (y.tally.drawnFrom k) w.kernel

structure Sound (y : System m) : Prop where
  tally : y.tally.Sound
  users : ∀ w ∈ y.workers, ∃ k, y.tally.counters.users[w.user]? = some k
  batches : ∀ b ∈ y.batches, y.Keeps b

theorem sound_start (m : Machine) (t : Tree) : (start m t).Sound where
  tally := Tally.sound_empty
  users := by rintro w ⟨⟩
  batches := by rintro b ⟨⟩

theorem Keeps.mono (h : y.Keeps b) (hy : y.tally.Sound) (hcontinues : y.Continues y') :
    y'.Keeps b := by
  obtain ⟨w, k, hw, hu, hkept⟩ := h
  obtain ⟨w', hw', hcont⟩ := hcontinues.workers _ w hw
  have hk := hy.users k (List.mem_of_getElem? hu)
  refine ⟨w', k, hw', ?_, hkept.mono ?_ hcont.kernel⟩
  · rw [hcont.user]
    exact hcontinues.tally.user hu
  · exact fun n hn => hy.mem_drawnFrom hcontinues.tally hk hn

theorem Keeps.number {k cell : Nat} {c : Counter} (h : y.Keeps b) (hy : y.tally.Sound)
    (hw : y.workers[b.worker]? = some w) (hcell : b.cells[b.records.length]? = some cell)
    (hu : y.tally.counters.users[w.user]? = some k)
    (hk : y.tally.counters.counters[k]? = some c) (bs : List Batch) :
    { y with tally := y.tally.take w.user k c, batches := bs : System m }.Keeps
      { b with records := b.records ++ [(c.trigger cell).1] } := by
  obtain ⟨w', k', hw', hu', hkept⟩ := h
  obtain rfl := Option.some.inj (hw.symm.trans hw')
  obtain rfl := Option.some.inj (hu.symm.trans hu')
  refine ⟨w, k, hw, hu, ?_⟩
  have hdrawn : (y.tally.take w.user k c).drawnFrom k = y.tally.drawnFrom k ++ [c.last + 1] := by
    rw [Tally.drawnFrom_take y.tally c hu, if_pos rfl]
  rw [hy.numbers k c hk] at hkept hdrawn
  show Batch.Kept _ ((y.tally.take w.user k c).drawnFrom k) _
  rw [hdrawn]
  exact hkept.number hcell

theorem Keeps.launch (h : y.Keeps b) (hw : y.workers[b.worker]? = some w)
    (hall : b.records.length = b.cells.length) (bs : List Batch) :
    { y with workers := y.workers.set b.worker (w.submit b.document b.records),
             batches := bs : System m }.Keeps
      { b with first := some w.kernel.pipelines.length } := by
  obtain ⟨w', k, hw', hu, hkept⟩ := h
  obtain rfl := Option.some.inj (hw.symm.trans hw')
  refine ⟨w.submit b.document b.records, k, ?_, hu, hkept.launch hall ?_⟩
  · exact List.getElem?_set_self (List.getElem?_eq_some_iff.1 hw).1
  · exact w.pipelines_submit b.document b.records

theorem Sound.move (h : y.Sound) (hmove : Move y a y') : y'.Sound := by
  have hcontinues := hmove.continues
  have htally := h.tally.change hcontinues.tally
  have hkeeps (b : Batch) (hb : b ∈ y.batches) : y'.Keeps b :=
    (h.batches b hb).mono h.tally hcontinues
  have husers (w : Worker m) (hw : w ∈ y.workers) :
      ∃ k, y'.tally.counters.users[w.user]? = some k := by
    obtain ⟨k, hk⟩ := h.users w hw
    exact ⟨k, hcontinues.tally.user hk⟩
  have hset {n : Nat} {v v' : Worker m} (hv : y.workers[n]? = some v) (hcont : v.Continues v')
      (w : Worker m) (hw : w ∈ y.workers.set n v') :
      ∃ k, y'.tally.counters.users[w.user]? = some k := by
    rcases List.mem_or_eq_of_mem_set hw with hw | rfl
    · exact husers w hw
    · rw [hcont.user]
      exact husers v (List.mem_of_getElem? hv)
  cases hmove with
  | tally _ => exact ⟨htally, husers, hkeeps⟩
  | attach hu =>
    refine ⟨htally, fun w hw => ?_, hkeeps⟩
    rcases List.mem_append.1 hw with hw | hw
    · exact husers w hw
    · rw [List.mem_singleton.1 hw]
      exact ⟨_, hu⟩
  | run hw d r => exact ⟨htally, hset hw (Worker.continues_submit _ d [r]), hkeeps⟩
  | @execute n w hw d cells =>
    refine ⟨htally, husers, fun b hb => ?_⟩
    rcases List.mem_append.1 hb with hb | hb
    · exact hkeeps b hb
    · obtain rfl := List.mem_singleton.1 hb
      obtain ⟨k, hk⟩ := h.users w (List.mem_of_getElem? hw)
      refine ⟨w, k, hw, hk, rfl, List.Pairwise.nil, ?_, ?_⟩
      · rintro r ⟨⟩
      · rintro first ⟨⟩
  | number hb hw hcell hu hk =>
    refine ⟨htally, husers, fun b' hb' => ?_⟩
    rcases List.mem_or_eq_of_mem_set hb' with hb' | rfl
    · exact hkeeps b' hb'
    · exact (h.batches _ (List.mem_of_getElem? hb)).number h.tally hw hcell hu hk _
  | launch hb hw _ hall =>
    refine ⟨htally, hset hw (Worker.continues_submit _ _ _), fun b' hb' => ?_⟩
    rcases List.mem_or_eq_of_mem_set hb' with hb' | rfl
    · exact hkeeps b' hb'
    · exact (h.batches _ (List.mem_of_getElem? hb)).launch hw hall _
  | step hw a => exact ⟨htally, hset hw (Worker.continues_step _ _ a), hkeeps⟩

theorem Sound.run (h : y.Sound) (acts : List Act) : (y.run acts).Sound := by
  induction acts generalizing y with
  | nil => exact h
  | cons a acts ih => exact ih (h.move (act_move y a))

theorem sound_after (m : Machine) (t : Tree) (acts : List Act) : (after m t acts).Sound :=
  (sound_start m t).run acts

/-! ### What a batch comes to -/

theorem pipelines?_eq_some {ps : List (Pipeline m.Job)} : y.pipelines? b = some ps ↔
    ∃ first w, b.first = some first ∧ y.workers[b.worker]? = some w ∧
      (w.kernel.pipelines.drop first).take b.cells.length = ps := by
  rw [pipelines?]
  constructor
  · intro h
    obtain ⟨first, hfirst, h⟩ := Option.bind_eq_some_iff.1 h
    obtain ⟨w, hw, h⟩ := Option.bind_eq_some_iff.1 h
    cases h
    exact ⟨first, w, hfirst, hw, rfl⟩
  · rintro ⟨first, w, hfirst, hw, rfl⟩
    exact Option.bind_eq_some_iff.2 ⟨first, hfirst, Option.bind_eq_some_iff.2 ⟨w, hw, rfl⟩⟩

theorem returned?_eq_some {xs : List Finished} : y.returned? b = some xs ↔
    ∃ ps, y.pipelines? b = some ps ∧ ps.mapM Pipeline.finished? = some xs :=
  Option.bind_eq_some_iff

/-- The pipelines of a batch are those for its cells, with the numbers that were drawn. -/
theorem Keeps.pipelines (h : y.Keeps b) {ps : List (Pipeline m.Job)}
    (hps : y.pipelines? b = some ps) : b.records.length = b.cells.length ∧
      ps.map (fun p => (p.record.cellIndex, p.record.order)) =
        b.records.map fun r => (r.cellIndex, r.order) := by
  obtain ⟨first, w, hfirst, hw, rfl⟩ := pipelines?_eq_some.1 hps
  obtain ⟨w', k, hw', -, hkept⟩ := h
  obtain rfl := Option.some.inj (hw.symm.trans hw')
  obtain ⟨hall, hpipelines⟩ := hkept.launched first hfirst
  refine ⟨hall, List.ext_getElem? fun i => ?_⟩
  rw [List.getElem?_map, List.getElem?_map]
  rcases Nat.lt_or_ge i b.records.length with hlt | hge
  · obtain ⟨p, hp, hcell, horder⟩ := hpipelines i _ (List.getElem?_eq_getElem hlt)
    rw [List.getElem?_take_of_lt (hall ▸ hlt), List.getElem?_drop, hp,
      List.getElem?_eq_getElem hlt, Option.map_some, Option.map_some, hcell, horder]
  · have hge' := Nat.le_trans (List.length_take_le b.cells.length (w.kernel.pipelines.drop first))
      (hall ▸ hge)
    rw [List.getElem?_eq_none hge, List.getElem?_eq_none hge']
    rfl

theorem Keeps.returned (h : y.Keeps b) {xs : List Finished} (hxs : y.returned? b = some xs) :
    xs.map (·.record.cellIndex) = b.cells ∧
      xs.map (·.record.order) = b.records.map (·.order) := by
  obtain ⟨ps, hps, hmap⟩ := returned?_eq_some.1 hxs
  obtain ⟨hall, hrecords⟩ := h.pipelines hps
  have hsame : xs.map (fun x => (x.record.cellIndex, x.record.order)) =
      ps.map fun p => (p.record.cellIndex, p.record.order) := by
    have hrel := Kernel.forall₂_of_mapM hmap
    clear hmap hps hrecords hxs
    induction hrel with
    | nil => rfl
    | @cons p x ps xs hx _ ih =>
      have hrecord : x.record = p.record := by
        rw [Pipeline.finished?] at hx
        split at hx <;> cases hx
        rfl
      rw [List.map_cons, List.map_cons, ih, hrecord]
  rw [hrecords] at hsame
  have hcells := congrArg (List.map Prod.fst) hsame
  have horders := congrArg (List.map Prod.snd) hsame
  rw [List.map_map, List.map_map] at hcells horders
  obtain ⟨w, k, -, -, hkept⟩ := h
  refine ⟨hcells.trans (hkept.cells.trans ?_), horders⟩
  rw [hall, List.take_length]

/-- What has been returned once stays. -/
theorem Keeps.returned_again (h : y.Keeps b) (h' : y'.Keeps b) (hcontinues : y.Continues y')
    {xs : List Finished} (hxs : y.returned? b = some xs) : y'.returned? b = some xs := by
  obtain ⟨ps, hps, hmap⟩ := returned?_eq_some.1 hxs
  have hrel := List.forall₂_iff_get.1 (Kernel.forall₂_of_mapM hmap)
  obtain ⟨first, w, hfirst, hw, hps'⟩ := pipelines?_eq_some.1 hps
  obtain ⟨w', hw', hcont⟩ := hcontinues.workers _ w hw
  have hnew : y'.pipelines? b = some ((w'.kernel.pipelines.drop first).take b.cells.length) :=
    pipelines?_eq_some.2 ⟨first, w', hfirst, hw', rfl⟩
  have hlength := congrArg List.length ((h.pipelines hps).2.trans (h'.pipelines hnew).2.symm)
  rw [List.length_map, List.length_map] at hlength
  refine returned?_eq_some.2 ⟨_, hnew, Kernel.mapM_of_forall₂ ?_⟩
  refine List.forall₂_iff_get.2 ⟨hlength.symm.trans hrel.1, fun i hi hi' => ?_⟩
  have hlt : i < ps.length := hlength ▸ hi
  have hcells : i < b.cells.length := Nat.lt_of_lt_of_le hi (List.length_take_le _ _)
  have hslice (l : List (Pipeline m.Job)) :
      ((l.drop first).take b.cells.length)[i]? = l[first + i]? := by
    rw [List.getElem?_take_of_lt hcells, List.getElem?_drop]
  have hp : w.kernel.pipelines[first + i]? = some ps[i] := by
    rw [← hslice, hps', List.getElem?_eq_getElem hlt]
  obtain ⟨p', hp', hfollows⟩ := hcont.kernel _ _ hp
  obtain ⟨_, hget⟩ := List.getElem?_eq_some_iff.1 ((hslice _).trans hp')
  rw [List.get_eq_getElem, hget]
  exact hfollows.finished _ (hrel.2 i hlt hi')

/-- Draws from one counter do not affect another one. -/
theorem Sound.counter?_act (h : y.Sound) {a : Act} {v : Nat}
    (hv : v < y.tally.counters.users.length)
    (hother : ∀ e, y.draws? a = some e →
      y.tally.counters.users[e.1]? ≠ y.tally.counters.users[v]?) :
    (y.act a).tally.counters.counter? v = y.tally.counters.counter? v := by
  have hchange := (act_move y a).continues.tally
  have hu := List.getElem?_eq_getElem hv
  obtain ⟨c, hc⟩ := h.tally.counter_of_user hu
  have hnow := Tally.counter?_eq_some.2 ⟨_, hu, hc⟩
  rcases h.tally.counter hchange hc with ⟨hsame, -⟩ | ⟨u, huser, hdrawn, -⟩
  · exact (Tally.counter?_eq_some.2 ⟨_, hchange.user hu, hsame⟩).trans hnow.symm
  · rw [drawn_act, List.append_cancel_left_eq] at hdrawn
    cases hdraws : y.draws? a with
    | none =>
      rw [hdraws] at hdrawn
      cases hdrawn
    | some e =>
      rw [hdraws] at hdrawn
      cases hdrawn
      exact absurd (huser.trans hu.symm) (hother _ hdraws)

/-- What is promised of a batch. All its numbers have been drawn before it has pipelines, so before
any of its cells starts. -/
structure Numbered (y : System m) (b : Batch) : Prop where
  cells : b.records.map (·.cellIndex) = b.cells.take b.records.length
  increasing : (b.records.map (·.order)).Pairwise (· < ·)
  drawn : ∃ w k, y.workers[b.worker]? = some w ∧ y.tally.counters.users[w.user]? = some k ∧
    ∀ r ∈ b.records, r.order ∈ y.tally.drawnFrom k
  pipelines : ∀ ps, y.pipelines? b = some ps → b.records.length = b.cells.length ∧
    ps.map (fun p => (p.record.cellIndex, p.record.order)) =
      b.records.map fun r => (r.cellIndex, r.order)
  returned : ∀ xs, y.returned? b = some xs → xs.map (·.record.cellIndex) = b.cells ∧
    xs.map (·.record.order) = b.records.map (·.order)

theorem Keeps.numbered (h : y.Keeps b) : y.Numbered b := by
  have ⟨w, k, hw, hu, hkept⟩ := h
  exact ⟨hkept.cells, hkept.increasing, ⟨w, k, hw, hu, hkept.drawn⟩, fun _ => h.pipelines,
    fun _ => h.returned⟩

end System

end Notebook.Execution
