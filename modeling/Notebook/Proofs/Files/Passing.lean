import Notebook.Proofs.Files.Make

/-!
Ways on which nothing but directories stands. They lead to a directory, or to nothing.
-/

namespace Notebook.Files

variable {t u : Tree} {here a : Place} {S : List Name} {n : Name} {p : Path}

theorem follow_concat (hn : n.Plain) : follow a (S ++ [n]) = follow a S ++ [n] := by
  rw [follow, List.foldl_append, List.foldl_cons, List.foldl_nil, if_neg hn.ne_parent]
  rfl

theorem follow_of_notMem (h : Path.parent ∉ S) : follow a S = a ++ S := by
  induction S generalizing a with
  | nil => simp [follow]
  | cons s S ih =>
    rw [List.mem_cons, not_or] at h
    rw [follow, List.foldl_cons, if_neg (Ne.symm h.1), ← follow, ih h.2, List.append_assoc,
      List.singleton_append]

theorem Path.passes_join (hn : n.Plain) (q : Place) :
    (p.join ⟨n⟩).Passes here q ↔ p.Passes here q ∨ q = p.place here ++ [n] := by
  rw [Path.Passes, Path.steps_join hn, Path.origin_join hn]
  constructor
  · rintro ⟨S, hS, rfl⟩
    rcases List.prefix_concat_iff.1 hS with rfl | hS
    · exact .inr (follow_concat hn)
    · exact .inl ⟨S, hS, rfl⟩
  · rintro (⟨S, hS, rfl⟩ | rfl)
    · exact ⟨S, hS.trans (List.prefix_append _ _), rfl⟩
    · exact ⟨p.steps ++ [n], List.prefix_refl _, (follow_concat hn).symm⟩

namespace Tree

/-- The system takes the names of all steps that lead down. -/
def Fits (S : List Name) : Prop := ∀ s ∈ S, s ≠ Path.parent → Text.Utf8.size s ≤ 255

theorem fits_concat : Fits (S ++ [n]) ↔
    Fits S ∧ (n ≠ Path.parent → Text.Utf8.size n ≤ 255) := by
  simp [Fits, or_imp, forall_and]

theorem Leads.walk_concat (h : t.Leads a S)
    (hn : n ≠ Path.parent → Text.Utf8.size n ≤ 255) :
    t.walk a (S ++ [n]) = .ok (follow a (S ++ [n])) := by
  obtain ⟨b, hb, hdir⟩ := h
  have hwalk : ∃ c, t.walk a (S ++ [n]) = .ok c := by
    rw [walk_append, hb]
    simp only [walk, hdir]
    split
    · exact ⟨_, rfl⟩
    · rename_i hne
      rw [if_neg (Nat.not_lt.2 (hn hne))]
      exact ⟨_, rfl⟩
  obtain ⟨c, hc⟩ := hwalk
  rw [hc, follow_of_walk hc]

theorem fits_of_walk {b : Place} (h : t.walk a S = .ok b) : Fits S := by
  induction S generalizing a with
  | nil => simp [Fits]
  | cons s S ih =>
    rw [walk] at h
    split at h
    · cases h
    · rw [Fits, List.forall_mem_cons]
      split at h
      · exact ⟨fun hne => absurd ‹_› hne, ih h⟩
      · split at h
        · cases h
        · exact ⟨fun _ => Nat.le_of_not_lt ‹_›, ih h⟩
    · cases h

/-- Steps lead to a directory just in case that they pass directories only. -/
theorem leads_iff :
    t.Leads a S ↔ Fits S ∧ ∀ S', S' <+: S → t.get? (follow a S') = some .directory := by
  induction S using List.reverseRecOn with
  | nil => simp [Leads, walk, Fits, follow]
  | append_singleton S n ih =>
    constructor
    · intro h
      obtain ⟨b, hb, hdir⟩ := h
      refine ⟨fits_of_walk hb, fun S' hS' => ?_⟩
      rcases List.prefix_concat_iff.1 hS' with rfl | hS'
      · rw [← follow_of_walk hb, hdir]
      · exact (ih.1 (leads_of_walk_concat hb)).2 S' hS'
    · rintro ⟨hfits, hdir⟩
      obtain ⟨hS, hn⟩ := fits_concat.1 hfits
      have hleads := ih.2 ⟨hS, fun S' hS' => hdir S' (hS'.trans (List.prefix_append _ _))⟩
      exact ⟨_, hleads.walk_concat hn, hdir _ (List.prefix_refl _)⟩

/-- Steps that pass nothing but directories lead somewhere, or one of the directories is missing. -/
theorem walk_of_free (hfits : Fits S) (hfree : ∀ S', S' <+: S →
    t.get? (follow a S') = none ∨ t.get? (follow a S') = some .directory) :
    t.walk a S = .ok (follow a S) ∨ t.walk a S = .error .noEntry := by
  induction S using List.reverseRecOn with
  | nil => exact .inl rfl
  | append_singleton S n ih =>
    obtain ⟨hS, hn⟩ := fits_concat.1 hfits
    rcases ih hS fun S' hS' => hfree S' (hS'.trans (List.prefix_append _ _)) with hw | hw
    · rcases hfree S (List.prefix_append _ _) with hnone | hdir
      · right
        rw [walk_append, hw]
        simp only [walk, hnone]
      · exact .inl (Leads.walk_concat ⟨_, hw, hdir⟩ hn)
    · right
      rw [walk_append, hw]

/-- Nothing but directories stands on the way of a path. -/
structure Unblocked (t : Tree) (here : Place) (p : Path) : Prop where
  fault : p.fault? = none
  fits : Fits p.steps
  free : ∀ q, p.Passes here q → t.get? q = none ∨ t.get? q = some .directory

theorem resolve_of_walk_error {e : Errno} (hw : t.walk (p.origin here) p.steps = .error e)
    (hfault : p.fault? = none) : t.resolve here p = .error (.system e) := by
  rw [Path.fault?] at hfault
  rw [resolve]
  split at hfault
  · cases hfault
  · rename_i hnul
    rw [if_neg hnul]
    split at hfault
    · cases hfault
    · rename_i hempty
      rw [if_neg hempty]
      split at hfault
      · cases hfault
      · rename_i hlong
        rw [if_neg hlong]
        simp only [Path.origin] at hw
        rw [hw]

theorem passes_of_isDirectory (h : t.isDirectory here p = true) {q : Place}
    (hq : p.Passes here q) : t.get? q = some .directory := by
  obtain ⟨S, hS, rfl⟩ := hq
  exact (leads_iff.1 (isDirectory_iff.1 h).2).2 S hS

theorem unblocked_of_isDirectory (h : t.isDirectory here p = true) : t.Unblocked here p :=
  ⟨(isDirectory_iff.1 h).1, (leads_iff.1 (isDirectory_iff.1 h).2).1,
    fun _ hq => .inr (passes_of_isDirectory h hq)⟩

/-- Such a path leads to a directory or to nothing. -/
theorem Unblocked.lookup (h : t.Unblocked here p) (hno : t.isDirectory here p = false) :
    t.lookup here p = .error (.system .noEntry) := by
  have hleads : ¬ t.Leads (p.origin here) p.steps := fun hleads => by
    rw [isDirectory_iff.2 ⟨h.fault, hleads⟩] at hno
    cases hno
  rcases walk_of_free h.fits fun S hS => h.free _ ⟨S, hS, rfl⟩ with hw | hw
  · have hnone : t.get? (follow (p.origin here) p.steps) = none := by
      rcases h.free _ ⟨p.steps, List.prefix_refl _, rfl⟩ with hnone | hdir
      · exact hnone
      · exact absurd ⟨_, hw, hdir⟩ hleads
    rw [Tree.lookup, resolve_eq hw, h.fault]
    simp only [bind, Except.bind, hnone]
  · rw [Tree.lookup, resolve_of_walk_error hw h.fault]
    rfl

end Tree

end Notebook.Files
