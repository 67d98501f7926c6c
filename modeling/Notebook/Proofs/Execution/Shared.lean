import Notebook.Proofs.Execution.Alone
import Notebook.Proofs.Files.Make
import Mathlib.Tactic.ByContra

/-!
The scratch directory and who has a workspace in it. What one of them does in its own workspace
concerns neither the files elsewhere nor the workspaces of other keys.
-/

namespace Notebook.Execution

open Files (Name Path Place Tree Entry)
open Program (Key Manifest)

/-- A workspace as the settings say, which can be removed. -/
structure Settings.Sited (s : Settings) (w : Workspace) : Prop where
  eq_ofKey : w = .ofKey s.scratch w.key
  plain : Name.Plain w.key.digits
  fault : w.root.fault? = none

/-- Nothing stands where the workspace of a key is to stand. -/
def Free (t : Tree) (R : Place) (k : Key) : Prop := ∀ q, R ++ [k.digits] <+: q → t.get? q = none

/-- There is nothing in the scratch directory. -/
def Bare (t : Tree) (R : Place) : Prop := ∀ q, R <+: q → q ≠ R → t.get? q = none

theorem Bare.free {t : Tree} {R : Place} (h : Bare t R) (k : Key) : Free t R k := by
  intro q hq
  refine h q ((List.prefix_append R _).trans hq) ?_
  rintro rfl
  have hlen := hq.length_le
  rw [List.length_append, List.length_singleton] at hlen
  omega

/-- The scratch directory is there, or can be made. -/
structure Settings.Scratch (s : Settings) (t₀ t₁ : Tree) (R : Place) : Prop where
  made : t₀.makePath s.here s.scratch = (t₁, none)
  walk : t₁.walk (s.scratch.origin s.here) s.scratch.steps = .ok R
  root : t₁.get? R = some .directory

/-- There is no scratch directory and none can be made: no workspace can be had, and what an attempt
leaves is the tree as it was, or the way to the scratch directory as far as it can be made. -/
def Settings.Closed (s : Settings) (t₀ t₁ : Tree) : Prop :=
  ∀ (t : Tree) (k : Key) (m : Manifest) (program : List Char), t = t₀ ∨ t = t₁ →
    Name.Plain k.digits → ∃ t' f, Workspace.acquire t s.here s.scratch k m program =
      (t', .error f) ∧ (t' = t₀ ∨ t' = t₁)

/-- All is as it was but for the workspaces that somebody has. -/
structure Shared (t₁ : Tree) (R : Place) (t : Tree) (occupant : Nat → Option Workspace) : Prop where
  free : ∀ i w, occupant i = some w → Free t₁ R w.key
  outside : ∀ q, (∀ i w, occupant i = some w → ¬ w.place R <+: q) → t.get? q = t₁.get? q
  standing : ∀ i w, occupant i = some w → t.get? (w.place R) = some .directory

section

variable {R q : Place} {w v : Workspace}

theorem key_of_place_isPrefix (hw : w.place R <+: q) (hv : v.place R <+: q) : w.key = v.key := by
  have hlen : (w.place R).length = (v.place R).length := by
    rw [Workspace.place, Workspace.place, List.length_append, List.length_append]
    rfl
  have hpre := List.prefix_of_prefix_length_le hw hv (Nat.le_of_eq hlen)
  have heq : R ++ [w.key.digits] = R ++ [v.key.digits] := hpre.eq_of_length hlen
  have hdigits : w.key.digits = v.key.digits := by simpa using heq
  cases hk : w.key
  cases hk' : v.key
  rw [hk, hk'] at hdigits
  simpa using hdigits

theorem place_ne_nil : w.place R ≠ [] := by
  rw [Workspace.place]
  simp

theorem root_isPrefix_place : R <+: w.place R := List.prefix_append _ _

theorem ne_root_of_place_isPrefix (h : w.place R <+: q) : q ≠ R := by
  rintro rfl
  have hlen := h.length_le
  rw [Workspace.place, List.length_append, List.length_singleton] at hlen
  omega

end

namespace Shared

variable {t₀ t₁ t u : Tree} {R : Place} {occ occ' : Nat → Option Workspace} {s : Settings}
  {i : Nat} {w : Workspace}

theorem congr (h : Shared t₁ R t occ) (ht : ∀ q, u.get? q = t.get? q)
    (ho : ∀ i, occ' i = occ i) : Shared t₁ R u occ' := by
  obtain rfl : occ' = occ := funext ho
  refine ⟨h.free, fun q hq => ?_, fun j v hv => ?_⟩
  · rw [ht, h.outside q hq]
  · rw [ht, h.standing j v hv]

theorem of_none (ho : ∀ i, occ i = none) : Shared t₁ R t₁ occ := by
  have hno {i : Nat} {w : Workspace} (hw : occ i = some w) : False := by
    rw [ho] at hw
    cases hw
  exact ⟨fun i w hw => (hno hw).elim, fun q _ => rfl, fun i w hw => (hno hw).elim⟩

theorem directory (h : Shared t₁ R t occ) {q : Place} (hq : t₁.get? q = some .directory) :
    t.get? q = some .directory := by
  rw [h.outside q, hq]
  intro i w hw hpre
  rw [h.free i w hw q hpre] at hq
  cases hq

theorem walk (h : Shared t₁ R t occ) (hs : s.Scratch t₀ t₁ R) :
    t.walk (s.scratch.origin s.here) s.scratch.steps = .ok R :=
  Tree.walk_of_directories (fun _ => h.directory) hs.walk

theorem root (h : Shared t₁ R t occ) (hs : s.Scratch t₀ t₁ R) : t.get? R = some .directory :=
  h.directory hs.root

theorem lookup (h : Shared t₁ R t occ) (hs : s.Scratch t₀ t₁ R) (hw : occ i = some w)
    (hsited : s.Sited w) : t.lookup s.here w.root = .ok (w.place R, .directory) := by
  have hwalk := Workspace.walk_root hsited.plain (h.walk hs) (h.root hs)
  rw [← hsited.eq_ofKey] at hwalk
  rw [Tree.lookup_eq hwalk (h.standing i w hw), hsited.fault]
  rfl

theorem remove_eq (h : Shared t₁ R t occ) (hs : s.Scratch t₀ t₁ R) (hw : occ i = some w)
    (hsited : s.Sited w) : w.remove t s.here = t.erase (w.place R) := by
  have hroot := hsited.fault
  rw [hsited.eq_ofKey] at hroot
  have hremove := Workspace.remove_eq hsited.plain (h.walk hs) (h.root hs) (h.standing i w hw) hroot
  rw [← hsited.eq_ofKey] at hremove
  exact hremove

theorem free_of_ne (h : Shared t₁ R t occ) {k : Key} (hk : Free t₁ R k)
    (hno : ∀ j v, occ j = some v → v.key ≠ k) : Free t R k := by
  intro q hq
  have hplace : Workspace.place R ⟨k, ⟨[]⟩⟩ <+: q := hq
  rw [h.outside q fun j v hv hpre => hno j v hv (key_of_place_isPrefix hpre hplace)]
  exact hk q hq

/-- There is room for a workspace of a key that nobody has one of. -/
theorem room (h : Shared t₁ R t occ) (hs : s.Scratch t₀ t₁ R) {k : Key}
    (hk : Name.Plain k.digits) (hfree : Free t₁ R k) (hno : ∀ j v, occ j = some v → v.key ≠ k) :
    Workspace.Room t t s.here s.scratch R k where
  plain := hk
  made := Tree.makeDirectories_of_walk (h.walk hs) (h.root hs)
  walk := h.walk hs
  root := h.root hs
  free := h.free_of_ne hfree hno

theorem populate (h : Shared t₁ R t occ) (hw : Free t₁ R w.key)
    (hno : ∀ j v, occ j = some v → v.key ≠ w.key) (hi : occ' i = some w)
    (hothers : ∀ j, j ≠ i → occ' j = occ j) (hnone : occ i = none) (m : Manifest)
    (program : List Char) : Shared t₁ R (Workspace.populated t (w.place R) m program) occ' := by
  have hcases {j : Nat} {v : Workspace} (hv : occ' j = some v) : v = w ∨ occ j = some v := by
    by_cases hj : j = i
    · subst hj
      rw [hi] at hv
      exact .inl (Option.some.inj hv).symm
    · exact .inr (hothers j hj ▸ hv)
  refine ⟨fun j v hv => ?_, fun q hq => ?_, fun j v hv => ?_⟩
  · rcases hcases hv with rfl | hold
    · exact hw
    · exact h.free j v hold
  · rw [Workspace.get?_populated_of_not_isPrefix place_ne_nil (hq i w hi)]
    refine h.outside q fun j v hv => hq j v ?_
    rw [hothers j, hv]
    rintro rfl
    rw [hnone] at hv
    cases hv
  · rcases hcases hv with rfl | hold
    · have hroot : (Workspace.populated t (v.place R) m program).get? (v.place R ++ []) = _ :=
        Workspace.get?_populated_append place_ne_nil (h.free_of_ne hw hno) []
      rw [List.append_nil] at hroot
      exact hroot
    · have hpre : ¬ w.place R <+: v.place R := fun hpre =>
        hno j v hold (key_of_place_isPrefix (List.prefix_refl _) hpre)
      rw [Workspace.get?_populated_of_not_isPrefix place_ne_nil hpre, h.standing j v hold]

theorem write (h : Shared t₁ R t occ) (hi : occ i = some w)
    (hu : ∀ q, (w.place R <+: q → q = w.place R) → u.get? q = t.get? q) : Shared t₁ R u occ := by
  refine ⟨h.free, fun q hq => ?_, fun j v hv => ?_⟩
  · rw [hu q fun hpre => absurd hpre (hq i w hi), h.outside q hq]
  · have hout : w.place R <+: v.place R → v.place R = w.place R := by
      intro hpre
      rw [Workspace.place, Workspace.place, key_of_place_isPrefix (List.prefix_refl _) hpre]
    rw [hu _ hout, h.standing j v hv]

theorem erase (h : Shared t₁ R t occ) (hi : occ' i = none) (hothers : ∀ j, j ≠ i → occ' j = occ j)
    (hold : occ i = some w) (hno : ∀ j v, j ≠ i → occ j = some v → v.key ≠ w.key) :
    Shared t₁ R (t.erase (w.place R)) occ' := by
  have hcases {j : Nat} {v : Workspace} (hv : occ' j = some v) : j ≠ i ∧ occ j = some v := by
    have hj : j ≠ i := by
      rintro rfl
      rw [hi] at hv
      cases hv
    exact ⟨hj, hothers j hj ▸ hv⟩
  refine ⟨fun j v hv => h.free j v (hcases hv).2, fun q hq => ?_, fun j v hv => ?_⟩
  · by_cases hpre : w.place R <+: q
    · rw [Tree.get?_erase_of_isPrefix place_ne_nil hpre, h.free i w hold q hpre]
    · rw [Tree.get?_erase_of_not_isPrefix hpre]
      refine h.outside q fun j v hv => ?_
      by_cases hj : j = i
      · subst hj
        rw [hold] at hv
        cases hv
        exact hpre
      · exact hq j v ((hothers j hj).trans hv)
  · obtain ⟨hj, hv⟩ := hcases hv
    have hpre : ¬ w.place R <+: v.place R := fun hpre =>
      hno j v hj hv (key_of_place_isPrefix (List.prefix_refl _) hpre)
    rw [Tree.get?_erase_of_not_isPrefix hpre, h.standing j v hv]

end Shared

theorem Settings.Scratch.room {s : Settings} {t₀ t₁ : Tree} {R : Place} (hs : s.Scratch t₀ t₁ R)
    {k : Key} (hk : Name.Plain k.digits) (hfree : Free t₁ R k) :
    Workspace.Room t₀ t₁ s.here s.scratch R k where
  plain := hk
  made := Tree.makeDirectories_of_makePath hs.made
  walk := hs.walk
  root := hs.root
  free := hfree

/-! ### Without a scratch directory -/

/-- The tree in which the scratch directory has been made, as far as that is possible. -/
def Settings.ground (s : Settings) (t₀ : Tree) : Tree := (t₀.makePath s.here s.scratch).1

/-- Where the scratch directory stands or would stand. -/
def Settings.root (s : Settings) : Place := s.scratch.place s.here

section

variable {s : Settings} {t₀ t u : Tree} {e : Option Files.Errno}

theorem ground_eq (hp : s.scratch.text = [] ∨ s.scratch.fault? = none)
    (h : t₀.makeDirectories (s.scratch.origin s.here) s.scratch.steps.reverse = (u, e)) :
    t₀.makePath s.here s.scratch = (u, e.map .system) := by
  by_cases hempty : s.scratch.text = []
  · have hnil : s.scratch.steps = [] := by
      rw [Path.steps, hempty]
      rfl
    rw [hnil] at h
    cases h
    rw [Tree.makePath, hempty]
    rfl
  · rw [Tree.makePath_eq hempty h, hp.resolve_left hempty]

theorem not_leads_of_not_scratch (hp : s.scratch.text = [] ∨ s.scratch.fault? = none)
    (h : t₀.makeDirectories (s.scratch.origin s.here) s.scratch.steps.reverse = (u, e))
    (hno : ¬ s.Scratch t₀ (s.ground t₀) s.root) :
    ¬ u.Leads (s.scratch.origin s.here) s.scratch.steps := by
  intro hleads
  have he : e = none := by
    cases e with
    | none => rfl
    | some e => exact absurd hleads (Tree.not_leads_of_failed h)
  subst he
  have hground : s.ground t₀ = u := by rw [Settings.ground, ground_eq hp h]
  obtain ⟨b, hb, hdir⟩ := hleads
  have hroot : s.root = b := (Tree.follow_of_walk hb).symm
  refine hno ⟨?_, ?_, ?_⟩
  · rw [hground]
    exact ground_eq hp h
  · rw [hground, hroot]
    exact hb
  · rw [hground, hroot]
    exact hdir

theorem closed_of_not_scratch (hno : ¬ s.Scratch t₀ (s.ground t₀) s.root) :
    s.Closed t₀ (s.ground t₀) := by
  intro t k m program ht hk
  have hne : (Workspace.ofKey s.scratch k).sourceDirectory.text ≠ [] :=
    Path.join_ne_nil Workspace.plain_sourceName
  cases hf : (Workspace.ofKey s.scratch k).sourceDirectory.fault? with
  | some f =>
    refine ⟨t, .workspace (Workspace.ofKey s.scratch k).sourceDirectory f, ?_, ht⟩
    have hpath : t.makePath s.here (Workspace.ofKey s.scratch k).sourceDirectory = _ :=
      Tree.makePath_eq hne rfl
    rw [hf] at hpath
    simp only [Workspace.acquire, hpath]
  | none =>
    have hp : s.scratch.text = [] ∨ s.scratch.fault? = none := by
      by_cases hempty : s.scratch.text = []
      · exact .inl hempty
      · exact .inr (Path.fault?_of_join hempty hk (Workspace.fault?_root hk hf))
    obtain ⟨u, e, hu⟩ : ∃ u e,
        t₀.makeDirectories (s.scratch.origin s.here) s.scratch.steps.reverse = (u, e) := ⟨_, _, rfl⟩
    have hground : s.ground t₀ = u := by rw [Settings.ground, ground_eq hp hu]
    have hleads := not_leads_of_not_scratch hp hu hno
    obtain ⟨e', ht'⟩ : ∃ e',
        t.makeDirectories (s.scratch.origin s.here) s.scratch.steps.reverse = (u, e') := by
      rcases ht with rfl | rfl
      · exact ⟨e, hu⟩
      · rw [hground]
        exact ⟨_, Prod.ext (Tree.makeDirectories_again hu) rfl⟩
    obtain ⟨v, e₁, hv, hvt, hvleads⟩ := Tree.makeDirectories_concat_of_not_leads ht' hleads k.digits
    obtain ⟨w, e₂, hw, hwt, -⟩ :=
      Tree.makeDirectories_concat_of_not_leads hv hvleads Workspace.sourceName
    rw [← Workspace.steps_sourceDirectory hk, ← Workspace.origin_sourceDirectory hk] at hw
    have hpath := Tree.makePath_eq hne hw
    rw [hf] at hpath
    refine ⟨w, .workspace (Workspace.ofKey s.scratch k).sourceDirectory (.system e₂), ?_, ?_⟩
    · simp only [Workspace.acquire, hpath]
      rfl
    · rcases hwt with rfl | rfl
      · exact ht
      · rcases hvt with rfl | rfl
        · exact ht
        · exact .inr hground.symm

end

end Notebook.Execution
