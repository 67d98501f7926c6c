import Notebook.Proofs.Execution.Acquire
import Notebook.Proofs.Execution.Shared
import Notebook.Proofs.Files.Passing

/-!
What an operation on one workspace does to the tree, and what it leaves of another one in the same
scratch directory.
-/

namespace Notebook.Execution

open Files (Name Path Place Tree Entry)
open Program (Key Manifest)

namespace Workspace

variable {t u : Tree} {here : Place} {scratch : Path} {k k' : Key} {m : Manifest}
  {program : List Char} {w : Workspace} {q : Place}

/-- Where the workspace of a key stands. -/
def site (scratch : Path) (here : Place) (k : Key) : Place :=
  (ofKey scratch k).place (scratch.place here)

/-- The way to the scratch directory does not lead through the workspace of a key. -/
def Clear (scratch : Path) (here : Place) (k : Key) : Prop :=
  ∀ q, scratch.Passes here q → ¬ site scratch here k <+: q

theorem site_ne_nil : site scratch here k ≠ [] := place_ne_nil

theorem place_root (hk : Name.Plain k.digits) :
    (ofKey scratch k).root.place here = site scratch here k := Path.place_join hk here

theorem passes_root (hk : Name.Plain k.digits) :
    (ofKey scratch k).root.Passes here q ↔ scratch.Passes here q ∨ q = site scratch here k :=
  Path.passes_join hk q

theorem passes_sourceDirectory (hk : Name.Plain k.digits)
    (hq : (ofKey scratch k).sourceDirectory.Passes here q) :
    scratch.Passes here q ∨ site scratch here k <+: q := by
  rcases (Path.passes_join plain_sourceName q).1 hq with hq | rfl
  · rcases (passes_root hk).1 hq with hq | rfl
    · exact .inl hq
    · exact .inr (List.prefix_refl _)
  · rw [place_root hk]
    exact .inr (List.prefix_append _ _)

/-- Different keys have workspaces none of which is inside the other. -/
theorem key_eq_of_isPrefix (h : site scratch here k <+: q) (h' : site scratch here k' <+: q) :
    k = k' :=
  key_of_place_isPrefix (w := ofKey scratch k) (v := ofKey scratch k') h h'

/-- A way that only leads down leads through no workspace. -/
theorem clear_of_notMem (h : Path.parent ∉ scratch.steps) : Clear scratch here k := by
  rintro q ⟨S, hS, rfl⟩ hprefix
  have hno : Path.parent ∉ S := fun hmem => h (hS.subset hmem)
  have hlength := hprefix.length_le
  rw [site, place, Path.place, Files.follow_of_notMem h, Files.follow_of_notMem hno] at hlength
  have hle := hS.length_le
  simp only [List.length_append, List.length_singleton] at hlength
  omega

/-! ### What one operation does -/

/-- How the tree can change when something is done to the workspace of a key: it cannot be made, it
is there, or it is gone. -/
inductive Change (here : Place) (scratch : Path) (k : Key) (t : Tree) : Tree → Prop where
  | refused {u : Tree}
      (new : ∀ q, u.get? q = t.get? q ∨ (t.get? q = none ∧ u.get? q = some .directory ∧
        (scratch.Passes here q ∨ site scratch here k <+: q)))
      (root : t.Leads (scratch.origin here) scratch.steps →
        u = t ∨ u.get? (site scratch here k) = some .directory) :
      Change here scratch k t u
  | made {u : Tree}
      (outside : ∀ q, ¬ site scratch here k <+: q → u.get? q = t.get? q ∨
        (t.get? q = none ∧ u.get? q = some .directory ∧ scratch.Passes here q))
      (root : u.isDirectory here (ofKey scratch k).root = true) :
      Change here scratch k t u
  | removed {u : Tree}
      (outside : ∀ q, ¬ site scratch here k <+: q → u.get? q = t.get? q ∨
        (t.get? q = none ∧ u.get? q = some .directory ∧ scratch.Passes here q))
      (root : u.isDirectory here (ofKey scratch k).root = true) :
      Change here scratch k t (u.erase (site scratch here k))

theorem leads_of_isDirectory (hk : Name.Plain k.digits)
    (h : t.isDirectory here (ofKey scratch k).root = true) :
    t.Leads (scratch.origin here) scratch.steps := by
  have hleads := (Tree.isDirectory_iff.1 h).2
  rw [origin_root hk, steps_root hk] at hleads
  exact hleads.of_concat

theorem get?_site_of_isDirectory (hk : Name.Plain k.digits)
    (h : t.isDirectory here (ofKey scratch k).root = true) :
    t.get? (site scratch here k) = some .directory :=
  Tree.passes_of_isDirectory h ((passes_root hk).2 (.inr rfl))

theorem remove_of_isDirectory (h : t.isDirectory here w.root = true) :
    w.remove t here = t.erase (w.root.place here) := by
  obtain ⟨hfault, b, hb, hdir⟩ := Tree.isDirectory_iff.1 h
  rw [remove, Tree.removeDirectory_eq hb hdir, hfault]
  exact congrArg t.erase (Tree.follow_of_walk hb)

theorem remove_of_not_isDirectory (h : t.isDirectory here w.root = false) :
    w.remove t here = t := by
  rw [Tree.isDirectory] at h
  rw [remove, Tree.removeDirectory]
  cases hlookup : t.lookup here w.root with
  | error f => rfl
  | ok r =>
    obtain ⟨b, e⟩ := r
    rw [hlookup] at h
    cases e with
    | directory => cases h
    | file | tool | sink => rfl

theorem change_remove (hk : Name.Plain k.digits) :
    Change here scratch k t ((ofKey scratch k).remove t here) := by
  cases h : t.isDirectory here (ofKey scratch k).root with
  | true =>
    rw [remove_of_isDirectory h, place_root hk]
    exact .removed (fun _ _ => .inl rfl) h
  | false =>
    rw [remove_of_not_isDirectory h]
    exact .refused (fun _ => .inl rfl) fun _ => .inl rfl

/-- If the scratch directory is there, then a refusal to make the source directory of a workspace
leaves all as it is or the root of the workspace. -/
theorem root_of_refused {f : Files.Fault} (hk : Name.Plain k.digits)
    (hmake : t.makePath here (ofKey scratch k).sourceDirectory = (u, some f))
    (hleads : t.Leads (scratch.origin here) scratch.steps) :
    u = t ∨ u.get? (site scratch here k) = some .directory := by
  rcases Tree.makePath_cases sourceDirectory_ne_nil hmake with ⟨-, -, rfl⟩ | ⟨-, e, he, hmake⟩
  · exact .inl rfl
  · obtain ⟨e, rfl, -⟩ := Option.map_eq_some_iff.1 he.symm
    rw [origin_sourceDirectory hk, steps_sourceDirectory hk] at hmake
    cases hroot : t.makeDirectories (scratch.origin here) (scratch.steps ++ [k.digits]).reverse with
    | mk v e' =>
      cases e' with
      | none =>
        have hv := Tree.leads_of_makeDirectories hroot
        rw [Tree.makeDirectories_concat_of_made hroot hv plain_sourceName] at hmake
        obtain ⟨rfl, -⟩ := Tree.eq_of_unmade hv hmake
        have hsite := (Tree.leads_iff.1 hv).2 _ (List.prefix_refl _)
        rw [Files.follow_concat hk] at hsite
        exact .inr hsite
      | some e' =>
        obtain ⟨rfl, hno, -⟩ := Tree.eq_of_unmade hleads hroot
        obtain ⟨w, e'', heq, hw, -⟩ := Tree.makeDirectories_concat_of_not_leads hroot hno sourceName
        cases heq.symm.trans hmake
        exact .inl (hw.elim id id)

theorem get?_of_makePath {f : Option Files.Fault} (hk : Name.Plain k.digits)
    (hmake : t.makePath here (ofKey scratch k).sourceDirectory = (u, f)) (q : Place) :
    u.get? q = t.get? q ∨ (t.get? q = none ∧ u.get? q = some .directory ∧
      (scratch.Passes here q ∨ site scratch here k <+: q)) := by
  rcases Tree.makePath_cases sourceDirectory_ne_nil hmake with ⟨-, -, rfl⟩ | ⟨-, e, -, hmake⟩
  · exact .inl rfl
  · rcases Tree.get?_of_makeDirectories hmake q with heq | ⟨hnone, hdir, hq⟩
    · exact .inl heq
    · exact .inr ⟨hnone, hdir, passes_sourceDirectory hk hq⟩

/-- What is done to a workspace alone, and does not take its directories away. -/
structure Tended (w : Workspace) (here : Place) (t u : Tree) : Prop where
  outside : ∀ q, ¬ w.root.place here <+: q → u.get? q = t.get? q
  directory : ∀ q, t.get? q = some .directory → u.get? q = some .directory

theorem Tended.trans {v : Tree} (h : w.Tended here t u) (h' : w.Tended here u v) :
    w.Tended here t v :=
  ⟨fun q hq => (h'.outside q hq).trans (h.outside q hq),
    fun q hq => h'.directory q (h.directory q hq)⟩

theorem tended_of_writeFile {p : Path} {content : List Char}
    (hp : w.root.place here <+: p.place here) (h : writeFile t here p content = .ok u) :
    w.Tended here t u := by
  have hwrite := write_of_writeFile h
  refine ⟨fun q hq => ?_, Tree.directory_of_write hwrite⟩
  rcases Tree.write_cases hwrite with ⟨-, rfl⟩ | ⟨x, -, -, rfl⟩
  · rfl
  · refine Tree.get?_put_of_ne ?_
    rintro rfl
    exact hq hp

theorem tended_of_populate (w : Workspace) (t : Tree) (here : Place) (m : Manifest)
    (program : List Char) :
    (∃ u, w.populate t here m program = .ok u ∧ w.Tended here t u) ∨
      ∃ u f, w.populate t here m program = .error (u, f) ∧ w.Tended here t u := by
  have hmanifest : w.root.place here <+: w.manifestPath.place here :=
    place_manifestPath (w := w) ▸ List.prefix_append _ _
  have hsource : w.root.place here <+: w.sourcePath.place here := by
    rw [place_sourcePath, List.append_assoc]
    exact List.prefix_append _ _
  rw [populate]
  cases hfirst : writeFile t here w.manifestPath m.text with
  | error f => exact .inr ⟨t, f, rfl, fun _ _ => rfl, fun _ => id⟩
  | ok u =>
    have hu := tended_of_writeFile hmanifest hfirst
    simp only
    cases hsecond : writeFile u here w.sourcePath program with
    | error f => exact .inr ⟨u, f, rfl, hu⟩
    | ok v => exact .inl ⟨v, rfl, hu.trans (tended_of_writeFile hsource hsecond)⟩

theorem acquire_cases (t : Tree) (here : Place) (scratch : Path) (m : Manifest)
    (program : List Char) (hk : Name.Plain k.digits) :
    ∃ u r, acquire t here scratch k m program = (u, r) ∧ Change here scratch k t u ∧
      ∀ w, r = .ok w → w = ofKey scratch k ∧ u.isDirectory here w.root = true := by
  cases hmake : t.makePath here (ofKey scratch k).sourceDirectory with
  | mk v f =>
    have hnew := get?_of_makePath hk hmake
    cases f with
    | some f =>
      refine ⟨v, .error (.workspace (ofKey scratch k).sourceDirectory f), ?_,
        .refused hnew (root_of_refused hk hmake), fun w hw => by cases hw⟩
      simp only [acquire, hmake]
    | none =>
      have hroot := root_of_made (Path.join_ne_nil hk) hmake
      have hkept {u : Tree} (hu : (ofKey scratch k).Tended here v u) :
          (∀ q, ¬ site scratch here k <+: q → u.get? q = t.get? q ∨
            (t.get? q = none ∧ u.get? q = some .directory ∧ scratch.Passes here q)) ∧
          u.isDirectory here (ofKey scratch k).root = true := by
        obtain ⟨hfault, hleads⟩ := Tree.isDirectory_iff.1 hroot
        refine ⟨fun q hq => ?_,
          Tree.isDirectory_iff.2 ⟨hfault, hleads.of_directories hu.directory⟩⟩
        rw [hu.outside q (place_root hk ▸ hq)]
        rcases hnew q with heq | ⟨hnone, hdir, hpass | hsite⟩
        · exact .inl heq
        · exact .inr ⟨hnone, hdir, hpass⟩
        · exact absurd hsite hq
      rcases tended_of_populate (ofKey scratch k) v here m program with
        ⟨u, hpopulate, hu⟩ | ⟨u, f, hpopulate, hu⟩
      · obtain ⟨houtside, hthere⟩ := hkept hu
        refine ⟨u, .ok (ofKey scratch k), ?_, .made houtside hthere, ?_⟩
        · simp only [acquire, hmake, hpopulate]
        · rintro w ⟨⟩
          exact ⟨rfl, hthere⟩
      · obtain ⟨houtside, hthere⟩ := hkept hu
        refine ⟨u.erase (site scratch here k), .error f, ?_, .removed houtside hthere,
          fun w hw => by cases hw⟩
        simp only [acquire, hmake, hpopulate, remove_of_isDirectory hthere, place_root hk]

namespace Change

/-- Outside the workspace, all that is new are directories on the way to the scratch directory. -/
theorem outside (h : Change here scratch k t u) (q : Place) :
    u.get? q = t.get? q ∨ site scratch here k <+: q ∨
      (t.get? q = none ∧ u.get? q = some .directory ∧ scratch.Passes here q) := by
  by_cases hq : site scratch here k <+: q
  · exact .inr (.inl hq)
  · cases h with
    | refused new root =>
      rcases new q with heq | ⟨hnone, hdir, hpass | hsite⟩
      · exact .inl heq
      · exact .inr (.inr ⟨hnone, hdir, hpass⟩)
      · exact .inr (.inl hsite)
    | made outside root => exact (outside q hq).imp_right .inr
    | removed outside root =>
      rw [Tree.get?_erase_of_not_isPrefix hq]
      exact (outside q hq).imp_right .inr

/-- The workspace of another key stays as it is. -/
theorem apart (h : Change here scratch k t u) (hne : k ≠ k') (hclear : Clear scratch here k')
    (hq : site scratch here k' <+: q) : u.get? q = t.get? q := by
  rcases h.outside q with heq | hsite | ⟨-, -, hpass⟩
  · exact heq
  · exact absurd (key_eq_of_isPrefix hsite hq) hne
  · exact absurd hq (hclear q hpass)

/-- Nothing but directories comes to stand on the way to a workspace. -/
theorem unblocked (h : Change here scratch k t u) (hk : Name.Plain k.digits)
    (hk' : Name.Plain k'.digits) (ht : t.Unblocked here (ofKey scratch k').root) :
    u.Unblocked here (ofKey scratch k').root := by
  refine ⟨ht.fault, ht.fits, fun q hq => ?_⟩
  have hmade {v : Tree} (houtside : ∀ q, ¬ site scratch here k <+: q → v.get? q = t.get? q ∨
        (t.get? q = none ∧ v.get? q = some .directory ∧ scratch.Passes here q))
      (hroot : v.isDirectory here (ofKey scratch k).root = true) :
      v.get? q = none ∨ v.get? q = some .directory := by
    rcases (passes_root hk').1 hq with hpass | rfl
    · exact .inr (Tree.passes_of_isDirectory hroot ((passes_root hk).2 (.inl hpass)))
    · by_cases hsite : site scratch here k <+: site scratch here k'
      · obtain rfl := key_eq_of_isPrefix hsite (List.prefix_refl _)
        exact .inr (get?_site_of_isDirectory hk hroot)
      · rcases houtside _ hsite with heq | ⟨-, hdir, -⟩
        · rw [heq]
          exact ht.free _ hq
        · exact .inr hdir
  cases h with
  | refused new root =>
    rcases new q with heq | ⟨-, hdir, -⟩
    · rw [heq]
      exact ht.free q hq
    · exact .inr hdir
  | made outside root => exact hmade outside root
  | @removed v outside root =>
    by_cases hsite : site scratch here k <+: q
    · exact .inl (Tree.get?_erase_of_isPrefix site_ne_nil hsite)
    · rw [Tree.get?_erase_of_not_isPrefix hsite]
      exact hmade outside root

end Change

/-- The scratch directory is there, and so is the workspace, unless all of it is gone. -/
structure Reached (here : Place) (scratch : Path) (k : Key) (t : Tree) : Prop where
  way : t.Leads (scratch.origin here) scratch.steps
  whole : t.get? (site scratch here k) = some .directory ∨ Free t (scratch.place here) k

theorem Reached.change (h : Reached here scratch k' t) (hchange : Change here scratch k t u)
    (hk : Name.Plain k.digits) (hclear : Clear scratch here k) (hclear' : Clear scratch here k') :
    Reached here scratch k' u := by
  constructor
  · cases hchange with
    | refused new root =>
      refine h.way.of_directories fun q hq => ?_
      rcases new q with heq | ⟨-, hdir, -⟩
      · rw [heq, hq]
      · exact hdir
    | made outside root => exact leads_of_isDirectory hk root
    | removed outside root =>
      obtain ⟨hfits, hdir⟩ := Tree.leads_iff.1 (leads_of_isDirectory hk root)
      refine Tree.leads_iff.2 ⟨hfits, fun S hS => ?_⟩
      rw [Tree.get?_erase_of_not_isPrefix (hclear _ ⟨S, hS, rfl⟩), hdir S hS]
  · by_cases hne : k = k'
    · subst hne
      cases hchange with
      | refused new root =>
        rcases root h.way with rfl | hdir
        · exact h.whole
        · exact .inl hdir
      | made outside root => exact .inl (get?_site_of_isDirectory hk root)
      | removed outside root =>
        exact .inr fun q hq => Tree.get?_erase_of_isPrefix site_ne_nil hq
    · have hsame {q : Place} (hq : site scratch here k' <+: q) : u.get? q = t.get? q :=
        hchange.apart hne hclear' hq
      rw [hsame (List.prefix_refl _)]
      exact h.whole.imp_right fun hnone q hq => (hsame hq).trans (hnone q hq)

theorem Reached.isDirectory_iff (h : Reached here scratch k t) (hk : Name.Plain k.digits)
    (hfault : (ofKey scratch k).root.fault? = none) :
    t.isDirectory here (ofKey scratch k).root = true ↔
      t.get? (site scratch here k) = some .directory := by
  refine ⟨get?_site_of_isDirectory hk, fun hdir => Tree.isDirectory_iff.2 ⟨hfault, ?_⟩⟩
  obtain ⟨b, hb, hdirectory⟩ := h.way
  have hplace : b = scratch.place here := Tree.follow_of_walk hb
  exact ⟨_, walk_root hk hb hdirectory, hplace ▸ hdir⟩

/-- What is known of a workspace that somebody has a handle of, given the keys in use. -/
structure Held (here : Place) (scratch : Path) (keys : List Key) (t : Tree) (w : Workspace) :
    Prop where
  mem : w.key ∈ keys
  root : w = ofKey scratch w.key
  unblocked : t.Unblocked here w.root
  reached : (∀ k ∈ keys, Clear scratch here k) → Reached here scratch w.key t

section

variable {keys : List Key} (hplain : ∀ k ∈ keys, Name.Plain k.digits)

include hplain

theorem Held.change (h : Held here scratch keys t w) (hk : k ∈ keys)
    (hchange : Change here scratch k t u) : Held here scratch keys u w := by
  have hkey := hplain _ h.mem
  refine ⟨h.mem, h.root, ?_, fun hclear => ?_⟩
  · have ht := h.unblocked
    rw [h.root] at ht ⊢
    exact hchange.unblocked (hplain k hk) hkey ht
  · exact (h.reached hclear).change hchange (hplain k hk) (hclear k hk) (hclear _ h.mem)

theorem held_of_isDirectory (hk : k ∈ keys)
    (h : t.isDirectory here (ofKey scratch k).root = true) :
    Held here scratch keys t (ofKey scratch k) :=
  ⟨hk, rfl, Tree.unblocked_of_isDirectory h, fun _ =>
    ⟨leads_of_isDirectory (hplain k hk) h, .inl (get?_site_of_isDirectory (hplain k hk) h)⟩⟩

theorem Held.removed (h : Held here scratch keys t w) :
    Change here scratch w.key t (w.remove t here) := by
  have hremove : Change here scratch w.key t ((ofKey scratch w.key).remove t here) :=
    change_remove (hplain _ h.mem)
  rwa [← h.root] at hremove

/-- Once a workspace has been removed, its path leads to nothing. -/
theorem Held.lookup_remove (h : Held here scratch keys t w) :
    (w.remove t here).lookup here w.root = .error (.system .noEntry) := by
  have hkey := hplain _ h.mem
  have hgone : (w.remove t here).isDirectory here w.root = false := by
    cases ht : t.isDirectory here w.root with
    | true =>
      refine isDirectory_of_remove ?_ ht
      rw [h.root, place_root hkey]
      exact site_ne_nil
    | false => rw [remove_of_not_isDirectory ht, ht]
  exact (h.change hplain h.mem (h.removed hplain)).unblocked.lookup hgone

/-- If no way leads through a workspace, then nothing is left of one that has been removed. -/
theorem Held.get?_remove (h : Held here scratch keys t w)
    (hclear : ∀ k ∈ keys, Clear scratch here k) (hq : site scratch here w.key <+: q) :
    (w.remove t here).get? q = none := by
  have hkey := hplain _ h.mem
  have hreached := h.reached hclear
  have hfault : (ofKey scratch w.key).root.fault? = none := h.root ▸ h.unblocked.fault
  rw [h.root]
  cases ht : t.isDirectory here (ofKey scratch w.key).root with
  | true =>
    rw [remove_of_isDirectory ht, place_root hkey]
    exact Tree.get?_erase_of_isPrefix site_ne_nil hq
  | false =>
    rw [remove_of_not_isDirectory ht]
    rcases hreached.whole with hdir | hnone
    · rw [(hreached.isDirectory_iff hkey hfault).2 hdir] at ht
      cases ht
    · exact hnone q hq

end

end Workspace

end Notebook.Execution
