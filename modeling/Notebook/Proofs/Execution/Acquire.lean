import Notebook.Proofs.Execution.Course
import Notebook.Proofs.Execution.Workspace
import Notebook.Proofs.Files.Shape

/-!
Making a workspace where others may have left something: it is made whole or not at all, unless
there is no way to its source directory.
-/

namespace Notebook

open Files (Name Path Place Tree Entry Fault)
open Program (Key Manifest)

namespace Execution.Workspace

variable {t u : Tree} {here : Place} {scratch : Path} {k : Key} {m : Manifest}
  {program : List Char} {w : Workspace}

/-- There is no way to the source directory of a workspace, though there is one to its root or one
can be made: the path of the source directory is refused, or something else stands in its place. -/
def Obstructed (w : Workspace) (t : Tree) (here : Place) : Prop :=
  (w.sourceDirectory.fault? ≠ none ∧ t.isDirectory here w.root = true) ∨
    (w.sourceDirectory.fault? = none ∧ (t.makePath here w.root).2 = none ∧
      ∃ e, t.get? (w.sourceDirectory.place here) = some e ∧ e ≠ .directory)

/-- Either the workspace is there with its manifest and its program, or it is refused and there is
no directory at its root. -/
def WholeOrGone (w : Workspace) (here : Place) (m : Manifest) (program : List Char)
    (r : Tree × Except Failure Workspace) : Prop :=
  (r.2 = .ok w ∧ r.1.read here w.manifestPath = .ok (Text.Utf8.encode m.text) ∧
    r.1.read here w.sourcePath = .ok (Text.Utf8.encode program)) ∨
  (∃ p f, r.2 = .error (.workspace p f)) ∧ r.1.isDirectory here w.root = false

/-! ### The source directory -/

theorem steps_sourceDirectory_root :
    w.sourceDirectory.steps = w.root.steps ++ [sourceName] := Path.steps_join plain_sourceName

theorem place_sourceDirectory :
    w.sourceDirectory.place here = w.root.place here ++ [sourceName] :=
  Path.place_join plain_sourceName here

theorem sourceDirectory_ne_nil : w.sourceDirectory.text ≠ [] := Path.join_ne_nil plain_sourceName

theorem origin_sourceDirectory_root :
    w.sourceDirectory.origin here = w.root.origin here := Path.origin_join plain_sourceName here

/-- The root of a workspace is there once its source directory has been made. -/
theorem root_of_made (hroot : w.root.text ≠ [])
    (h : t.makePath here w.sourceDirectory = (u, none)) : u.isDirectory here w.root = true := by
  rcases Tree.makePath_cases sourceDirectory_ne_nil h with ⟨-, hne, -⟩ | ⟨hfault, e, he, hmake⟩
  · exact absurd rfl hne
  · have hnone : e = none := Option.map_eq_none_iff.1 he.symm
    subst hnone
    rw [origin_sourceDirectory_root, steps_sourceDirectory_root] at hmake
    have hleads := Tree.leads_of_makeDirectories hmake
    have hfault' := Path.fault?_of_join hroot plain_sourceName hfault
    exact Tree.isDirectory_iff.2 ⟨hfault', hleads.of_concat⟩

theorem not_obstructed_of_made (h : t.makePath here w.sourceDirectory = (u, none)) :
    ¬ w.Obstructed t here := by
  rcases Tree.makePath_cases sourceDirectory_ne_nil h with ⟨-, hne, -⟩ | ⟨hfault, e, he, hmake⟩
  · exact absurd rfl hne
  · have hnone : e = none := Option.map_eq_none_iff.1 he.symm
    subst hnone
    rintro (⟨hsome, -⟩ | ⟨-, -, e, he, hne⟩)
    · exact hsome hfault
    · have hnew := Tree.get?_of_makeDirectories hmake (w.sourceDirectory.place here)
      rw [steps_sourceDirectory_root] at hmake
      obtain ⟨b, hb, hdir⟩ := Tree.leads_of_makeDirectories hmake
      have hplace : b = w.sourceDirectory.place here := by
        rw [Path.place, steps_sourceDirectory_root]
        exact Tree.follow_of_walk hb
      subst hplace
      rcases hnew with hsame | ⟨hfree, -⟩
      · rw [hsame, he] at hdir
        exact hne (Option.some.inj hdir)
      · rw [hfree] at he
        cases he

/-- If the source directory cannot be made, a directory is left at the root just in case that the
workspace is obstructed. -/
theorem isDirectory_of_unmade {f : Fault} {S : List Name} {n : Name} (hroot : w.root.text ≠ [])
    (hsteps : w.root.steps = S ++ [n]) (h : t.makePath here w.sourceDirectory = (u, some f)) :
    u.isDirectory here w.root = true ↔ w.Obstructed t here := by
  rcases Tree.makePath_cases sourceDirectory_ne_nil h with ⟨hfault, -, rfl⟩ | ⟨hfault, e, he, hmake⟩
  · simp [Obstructed, hfault]
  · obtain ⟨e, rfl, -⟩ := Option.map_eq_some_iff.1 he.symm
    have hroot' := Path.fault?_of_join hroot plain_sourceName hfault
    rw [origin_sourceDirectory_root, steps_sourceDirectory_root] at hmake
    have hpath : (t.makePath here w.root).2 =
        (t.makeDirectories (w.root.origin here) w.root.steps.reverse).2.map .system := by
      rw [Tree.makePath_eq hroot rfl, hroot']
    have hplace : w.sourceDirectory.place here =
        Files.follow (w.root.origin here) (w.root.steps ++ [sourceName]) := by
      rw [Path.place, origin_sourceDirectory_root, steps_sourceDirectory_root]
    rw [hsteps] at hmake
    rw [Tree.isDirectory_iff, Obstructed, hpath, hplace, Option.map_eq_none_iff, hsteps,
      Tree.leads_of_unmade_iff plain_sourceName hmake]
    simp [hfault, hroot']

/-! ### The files -/

theorem place_manifestPath :
    w.manifestPath.place here = w.root.place here ++ [manifestName] :=
  Path.place_join plain_manifestName here

theorem place_sourcePath :
    w.sourcePath.place here = w.root.place here ++ [sourceName] ++ [programName] := by
  rw [← place_sourceDirectory]
  exact Path.place_join plain_programName here

theorem write_of_writeFile {p : Path} {content : List Char}
    (h : writeFile t here p content = .ok u) :
    t.write here p (Text.Utf8.encode content) = .ok u := by
  rw [writeFile] at h
  split at h
  · cases h
    assumption
  · cases h

theorem read_of_populate (hsink : ∀ q, w.root.place here <+: q → t.get? q ≠ some .sink)
    (h : w.populate t here m program = .ok u) :
    u.read here w.manifestPath = .ok (Text.Utf8.encode m.text) ∧
      u.read here w.sourcePath = .ok (Text.Utf8.encode program) := by
  rw [populate] at h
  split at h
  · cases h
  · rename_i v hmanifest
    split at h
    · cases h
    · rename_i v' hprogram
      cases h
      have hmanifest' := write_of_writeFile hmanifest
      have hprogram' := write_of_writeFile hprogram
      have hplace : w.manifestPath.place here ≠ w.sourcePath.place here := by
        rw [place_manifestPath, place_sourcePath]
        simp
      have hroot : w.root.place here <+: w.sourcePath.place here := by
        rw [place_sourcePath, List.append_assoc]
        exact List.prefix_append _ _
      obtain ⟨⟨x, hx⟩, hkeep⟩ := Tree.holds_of_write hmanifest'
        (Path.wantsDirectory_join plain_manifestName)
        (hsink _ (place_manifestPath ▸ List.prefix_append _ _))
      have hsink' : v.get? (w.sourcePath.place here) ≠ some .sink := by
        rw [hkeep _ hplace.symm]
        exact hsink _ hroot
      obtain ⟨⟨y, hy⟩, hkeep'⟩ := Tree.holds_of_write hprogram'
        (Path.wantsDirectory_join plain_programName) hsink'
      have hx' := hx.of_get? (Tree.directory_of_write hprogram') (hkeep' _ hplace)
      exact ⟨hx'.read, hy.read⟩

theorem directory_of_populate {f : Failure} (h : w.populate t here m program = .error (u, f))
    (q : Place) (hq : t.get? q = some .directory) : u.get? q = some .directory := by
  rw [populate] at h
  split at h
  · cases h
    exact hq
  · rename_i v hmanifest
    split at h
    · cases h
      exact Tree.directory_of_write (write_of_writeFile hmanifest) q hq
    · cases h

theorem isDirectory_of_remove (hne : w.root.place here ≠ [])
    (h : t.isDirectory here w.root = true) : (w.remove t here).isDirectory here w.root = false := by
  obtain ⟨hfault, b, hb, hdir⟩ := Tree.isDirectory_iff.1 h
  have hplace : b = w.root.place here := Tree.follow_of_walk hb
  rw [remove, Tree.removeDirectory_eq hb hdir, hfault, Bool.eq_false_iff]
  intro hstay
  obtain ⟨-, c, hc, hcdir⟩ := Tree.isDirectory_iff.1 hstay
  rw [Tree.follow_of_walk hc, ← Tree.follow_of_walk hb,
    Tree.get?_erase_of_isPrefix (hplace ▸ hne) (List.prefix_refl b)] at hcdir
  cases hcdir

/-! ### All together -/

/-- Once the directories of a workspace are there, it is made whole or all of it goes. -/
theorem wholeOrGone_of_made (hk : Name.Plain k.digits)
    (hsink : ∀ q, (ofKey scratch k).root.place here <+: q → t.get? q ≠ some .sink)
    (h : t.makePath here (ofKey scratch k).sourceDirectory = (u, none)) :
    (ofKey scratch k).WholeOrGone here m program (acquire t here scratch k m program) := by
  have hroot : (ofKey scratch k).root.text ≠ [] := Path.join_ne_nil hk
  have hne : (ofKey scratch k).root.place here ≠ [] := by
    rw [ofKey, Path.place_join hk]
    simp
  have hsink' (q : Place) (hq : (ofKey scratch k).root.place here <+: q) :
      u.get? q ≠ some .sink := by
    rcases Tree.get?_of_makeDirectories (Tree.makeDirectories_of_makePath h) q with
      hsame | ⟨-, hnew, -⟩
    · rw [hsame]
      exact hsink q hq
    · rw [hnew]
      simp
  cases hr : acquire t here scratch k m program with
  | mk v r =>
    have hdef := hr
    simp only [acquire, h] at hdef
    split at hdef
    · rename_i v' hpopulate
      cases hdef
      exact .inl ⟨rfl, read_of_populate hsink' hpopulate⟩
    · rename_i v' f hpopulate
      cases hdef
      refine .inr ⟨?_, isDirectory_of_remove hne ?_⟩
      · obtain ⟨p, c, rfl⟩ := acquire_error hr
        exact ⟨p, c, rfl⟩
      · obtain ⟨hfault, hleads⟩ := Tree.isDirectory_iff.1 (root_of_made hroot h)
        exact Tree.isDirectory_iff.2
          ⟨hfault, hleads.of_directories (directory_of_populate hpopulate)⟩

theorem refused_of_obstructed (m : Manifest) (program : List Char) (hk : Name.Plain k.digits)
    (h : (ofKey scratch k).Obstructed t here) :
    (∃ f, (acquire t here scratch k m program).2 =
      .error (.workspace (ofKey scratch k).sourceDirectory f)) ∧
    (acquire t here scratch k m program).1.isDirectory here (ofKey scratch k).root = true := by
  cases hmake : t.makePath here (ofKey scratch k).sourceDirectory with
  | mk u f =>
    cases f with
    | none => exact absurd h (not_obstructed_of_made hmake)
    | some f =>
      have hacquire : acquire t here scratch k m program =
          (u, .error (.workspace (ofKey scratch k).sourceDirectory f)) := by
        simp only [acquire, hmake]
      rw [hacquire]
      exact ⟨⟨f, rfl⟩, (isDirectory_of_unmade (Path.join_ne_nil hk) (steps_root hk) hmake).2 h⟩

theorem wholeOrGone_of_unobstructed (hk : Name.Plain k.digits)
    (hsink : ∀ q, (ofKey scratch k).root.place here <+: q → t.get? q ≠ some .sink)
    (h : ¬ (ofKey scratch k).Obstructed t here) :
    (ofKey scratch k).WholeOrGone here m program (acquire t here scratch k m program) := by
  cases hmake : t.makePath here (ofKey scratch k).sourceDirectory with
  | mk u f =>
    cases f with
    | none => exact wholeOrGone_of_made hk hsink hmake
    | some f =>
      have hacquire : acquire t here scratch k m program =
          (u, .error (.workspace (ofKey scratch k).sourceDirectory f)) := by
        simp only [acquire, hmake]
      have hiff := isDirectory_of_unmade (Path.join_ne_nil hk) (steps_root hk) hmake
      rw [hacquire]
      exact .inr ⟨⟨_, f, rfl⟩, Bool.eq_false_iff.2 fun hstay => h (hiff.1 hstay)⟩

/-- A workspace is made whole or not at all, unless it is obstructed. Then it is refused, and a
directory stays at its root. -/
theorem whole_or_gone_iff (t : Tree) (here : Place) (scratch : Path) (source : List Char)
    (m m' : Manifest) (program : List Char)
    (hsink : ∀ q, (ofKey scratch (.derive source m)).root.place here <+: q →
      t.get? q ≠ some .sink) :
    ((ofKey scratch (.derive source m)).WholeOrGone here m' program
        (acquire t here scratch (.derive source m) m' program) ↔
      ¬ (ofKey scratch (.derive source m)).Obstructed t here) ∧
    ((ofKey scratch (.derive source m)).Obstructed t here →
      (∃ f, (acquire t here scratch (.derive source m) m' program).2 =
        .error (.workspace (ofKey scratch (.derive source m)).sourceDirectory f)) ∧
      (acquire t here scratch (.derive source m) m' program).1.isDirectory here
        (ofKey scratch (.derive source m)).root = true) := by
  have hk := Key.plain_derive source m
  refine ⟨⟨fun h hyes => ?_, wholeOrGone_of_unobstructed hk hsink⟩,
    refused_of_obstructed m' program hk⟩
  obtain ⟨⟨f, herror⟩, hstay⟩ := refused_of_obstructed m' program hk hyes
  rcases h with ⟨hok, -⟩ | ⟨-, hgone⟩
  · cases herror.symm.trans hok
  · cases hstay.symm.trans hgone

/-! Things that an earlier run left in the directory of a key. -/

def stale : Workspace := ofKey ⟨"scratch".toList⟩ (.derive [] .standard)

def litter (things : List (Place × Entry)) : Tree :=
  ⟨(["scratch".toList], .directory) ::
    things.map fun e => (["scratch".toList, stale.key.digits] ++ e.1, e.2)⟩

/-- A directory in place of the program goes together with all else. -/
theorem whole_or_gone_littered :
    stale.WholeOrGone [] .standard []
      (acquire (litter [([sourceName, programName], .directory), ([sourceName], .directory),
        ([], .directory)]) [] ⟨"scratch".toList⟩ stale.key .standard []) := by
  refine (whole_or_gone_iff _ [] ⟨"scratch".toList⟩ [] .standard .standard [] fun q _ => ?_).1.2 ?_
  · exact Tree.get?_ne_of_entries (by simp) (by simp [litter]) q
  · have hfault : stale.sourceDirectory.fault? = none := by decide +kernel
    have hsource : (litter [([sourceName, programName], .directory), ([sourceName], .directory),
        ([], .directory)]).get? (stale.sourceDirectory.place []) = some .directory := by
      decide +kernel
    rintro (⟨hne, -⟩ | ⟨-, -, e, he, hne⟩)
    · exact hne hfault
    · exact hne (Option.some.inj (he.symm.trans hsource))

/-- A file in place of the source directory stays, and so does the directory around it. -/
theorem whole_or_gone_blocked :
    ¬ stale.WholeOrGone [] .standard []
      (acquire (litter [([sourceName], .file [] false), ([], .directory)]) []
        ⟨"scratch".toList⟩ stale.key .standard []) := by
  have hrefused : (acquire (litter [([sourceName], .file [] false), ([], .directory)]) []
      ⟨"scratch".toList⟩ stale.key .standard []).2.isOk = false := by decide +kernel
  have hstay : (acquire (litter [([sourceName], .file [] false), ([], .directory)]) []
      ⟨"scratch".toList⟩ stale.key .standard []).1.isDirectory [] stale.root = true := by
    decide +kernel
  rintro (⟨hok, -⟩ | ⟨-, hgone⟩)
  · rw [hok] at hrefused
    cases hrefused
  · cases hstay.symm.trans hgone

end Execution.Workspace

end Notebook
