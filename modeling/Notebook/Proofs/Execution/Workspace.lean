import Notebook.Execution.Workspace
import Notebook.Proofs.Files.Way

/-!
Workspaces in the tree: what a new one holds, when none is made, and what is left once one has been
removed.
-/

namespace Notebook

open Files (Name Path Place Tree Entry Fault)
open Program (Key Manifest)

/-! ### Names -/

theorem Digest.hexDigit_plain (n : Nat) (h : n < 16) :
    Digest.hexDigit n ≠ '/' ∧ Digest.hexDigit n ≠ '.' ∧ (Digest.hexDigit n).utf8Size = 1 := by
  revert n
  decide

theorem Digest.hex_plain (bytes : List UInt8) :
    '/' ∉ Digest.hex bytes ∧ '.' ∉ Digest.hex bytes ∧
      Text.Utf8.size (Digest.hex bytes) = 2 * bytes.length := by
  induction bytes with
  | nil => simp [Digest.hex]
  | cons b bs ih =>
    have hb : b.toNat < 256 := b.toNat_lt
    obtain ⟨h1, h2, h3⟩ := Digest.hexDigit_plain (b.toNat / 16) (by omega)
    obtain ⟨h4, h5, h6⟩ := Digest.hexDigit_plain (b.toNat % 16) (by omega)
    have hcons : Digest.hex (b :: bs) =
        Digest.hexDigit (b.toNat / 16) :: Digest.hexDigit (b.toNat % 16) :: Digest.hex bs := rfl
    obtain ⟨hs, hd, hsize⟩ := ih
    rw [hcons]
    refine ⟨?_, ?_, ?_⟩
    · simp [Ne.symm h1, Ne.symm h4, hs]
    · simp [Ne.symm h2, Ne.symm h5, hd]
    · rw [Text.Utf8.size, Text.Utf8.size, h3, h6, hsize, List.length_cons]
      omega

theorem Program.Key.plain_derive (source : List Char) (m : Manifest) :
    Name.Plain (Key.derive source m).digits := by
  obtain ⟨hslash, hdot, hsize⟩ := Digest.hex_plain (Digest.sha256 (Key.message source m))
  rw [Digest.length_sha256] at hsize
  refine ⟨?_, ?_, ?_, hslash, ?_⟩
  · intro h
    rw [show Digest.hex _ = [] from h] at hsize
    cases hsize
  · intro h
    rw [show Digest.hex _ = ['.'] from h] at hdot
    exact hdot List.mem_cons_self
  · intro h
    rw [show Digest.hex _ = Path.parent from h] at hdot
    exact hdot List.mem_cons_self
  · show Text.Utf8.size (Digest.hex _) ≤ 255
    omega

namespace Execution.Workspace

def manifestName : Name := "Cargo.toml".toList

def sourceName : Name := "src".toList

def programName : Name := "main.rs".toList

theorem plain_manifestName : Name.Plain manifestName := by
  constructor <;> decide

theorem plain_sourceName : Name.Plain sourceName := by
  constructor <;> decide

theorem plain_programName : Name.Plain programName := by
  constructor <;> decide

/-- What a new workspace holds: the manifest, and the program in a directory of its own. -/
def contents (m : Manifest) (program : List Char) (q : Place) : Option Entry :=
  if q = [sourceName, programName] then some (.file (Text.Utf8.encode program) false)
  else if q = [manifestName] then some (.file (Text.Utf8.encode m.text) false)
  else if q = [sourceName] then some .directory
  else if q = [] then some .directory
  else none

/-- Where a workspace stands, given where the scratch directory does. -/
def place (R : Place) (w : Workspace) : Place := R ++ [w.key.digits]

/-- Why a workspace is not made: one of its paths is not fine. -/
def refusal? (w : Workspace) : Option Failure :=
  match w.sourceDirectory.fault? with
  | some f => some (.workspace w.sourceDirectory f)
  | none =>
    match w.manifestPath.fault? with
    | some f => some (.workspace w.manifestPath f)
    | none => w.sourcePath.fault?.map (.workspace w.sourcePath)

section

variable {scratch : Path} {k : Key}

theorem steps_root (hk : Name.Plain k.digits) :
    (ofKey scratch k).root.steps = scratch.steps ++ [k.digits] := Path.steps_join hk

theorem steps_manifestPath (hk : Name.Plain k.digits) :
    (ofKey scratch k).manifestPath.steps = scratch.steps ++ [k.digits] ++ [manifestName] := by
  rw [← steps_root hk]
  exact Path.steps_join plain_manifestName

theorem steps_sourceDirectory (hk : Name.Plain k.digits) :
    (ofKey scratch k).sourceDirectory.steps = scratch.steps ++ [k.digits] ++ [sourceName] := by
  rw [← steps_root hk]
  exact Path.steps_join plain_sourceName

theorem steps_sourcePath (hk : Name.Plain k.digits) :
    (ofKey scratch k).sourcePath.steps =
      scratch.steps ++ [k.digits] ++ [sourceName] ++ [programName] := by
  rw [← steps_sourceDirectory hk]
  exact Path.steps_join plain_programName

theorem origin_root (hk : Name.Plain k.digits) (here : Place) :
    (ofKey scratch k).root.origin here = scratch.origin here := Path.origin_join hk here

theorem origin_manifestPath (hk : Name.Plain k.digits) (here : Place) :
    (ofKey scratch k).manifestPath.origin here = scratch.origin here :=
  (Path.origin_join plain_manifestName here).trans (origin_root hk here)

theorem origin_sourceDirectory (hk : Name.Plain k.digits) (here : Place) :
    (ofKey scratch k).sourceDirectory.origin here = scratch.origin here :=
  (Path.origin_join plain_sourceName here).trans (origin_root hk here)

theorem origin_sourcePath (hk : Name.Plain k.digits) (here : Place) :
    (ofKey scratch k).sourcePath.origin here = scratch.origin here :=
  (Path.origin_join plain_programName here).trans (origin_sourceDirectory hk here)

theorem fault?_root (hk : Name.Plain k.digits)
    (h : (ofKey scratch k).sourceDirectory.fault? = none) : (ofKey scratch k).root.fault? = none :=
  Path.fault?_of_join (Path.join_ne_nil hk) plain_sourceName h

variable {t u : Tree} {here R : Place} {m : Manifest} {program : List Char}

/-! ### Removing one -/

theorem walk_root (hk : Name.Plain k.digits)
    (hw : t.walk (scratch.origin here) scratch.steps = .ok R) (hR : t.get? R = some .directory) :
    t.walk ((ofKey scratch k).root.origin here) (ofKey scratch k).root.steps =
      .ok (R ++ [k.digits]) := by
  rw [origin_root hk, steps_root hk]
  exact Tree.walk_concat hw hR hk

/-- Nothing stays of a workspace that is removed, and all else does. -/
theorem remove_eq (hk : Name.Plain k.digits)
    (hw : t.walk (scratch.origin here) scratch.steps = .ok R) (hR : t.get? R = some .directory)
    (hD : t.get? (R ++ [k.digits]) = some .directory)
    (hroot : (ofKey scratch k).root.fault? = none) :
    (ofKey scratch k).remove t here = t.erase (R ++ [k.digits]) := by
  rw [remove, Tree.removeDirectory_eq (walk_root hk hw hR) hD, hroot]

/-! ### Making one -/

/-- The tree with the directories of a workspace. -/
def directories (u : Tree) (D : Place) : Tree :=
  (u.put D .directory).put (D ++ [sourceName]) .directory

/-- The tree with a workspace that has its manifest. -/
def described (u : Tree) (D : Place) (m : Manifest) : Tree :=
  (directories u D).put (D ++ [manifestName]) (.file (Text.Utf8.encode m.text) false)

/-- The tree with a new workspace. -/
def populated (u : Tree) (D : Place) (m : Manifest) (program : List Char) : Tree :=
  (described u D m).put (D ++ [sourceName] ++ [programName])
    (.file (Text.Utf8.encode program) false)

/-- A scratch directory that has been made, with nothing where the workspace is to stand. -/
structure Room (t u : Tree) (here : Place) (scratch : Path) (R : Place) (k : Key) : Prop where
  plain : Name.Plain k.digits
  made : t.makeDirectories (scratch.origin here) scratch.steps.reverse = (u, none)
  walk : u.walk (scratch.origin here) scratch.steps = .ok R
  root : u.get? R = some .directory
  free : ∀ q, R ++ [k.digits] <+: q → u.get? q = none

section

variable {D q : Place}

theorem get?_directories (hD : D ≠ []) : (directories u D).get? q =
    if q = D ++ [sourceName] then some .directory
    else if q = D then some .directory else u.get? q := by
  rw [directories, Tree.get?_put (by simp), Tree.get?_put hD]

theorem get?_described : (described u D m).get? q =
    if q = D ++ [manifestName] then some (.file (Text.Utf8.encode m.text) false)
    else (directories u D).get? q := by
  rw [described, Tree.get?_put (by simp)]

theorem get?_populated : (populated u D m program).get? q =
    if q = D ++ [sourceName] ++ [programName] then some (.file (Text.Utf8.encode program) false)
    else (described u D m).get? q := by
  rw [populated, Tree.get?_put (by simp)]

theorem directory_of_directories (hD : D ≠ []) (hq : u.get? q = some .directory) :
    (directories u D).get? q = some .directory := by
  rw [get?_directories hD]
  split
  · rfl
  · split
    · rfl
    · exact hq

theorem get?_populated_append (hD : D ≠ []) (hfree : ∀ q, D <+: q → u.get? q = none) (r : Place) :
    (populated u D m program).get? (D ++ r) = contents m program r := by
  rw [get?_populated, get?_described, get?_directories hD, contents, List.append_assoc,
    List.singleton_append, hfree _ (List.prefix_append _ _)]
  simp only [List.append_cancel_left_eq, List.append_right_eq_self]

theorem get?_directories_of_not_isPrefix (hD : D ≠ []) (hq : ¬ D <+: q) :
    (directories u D).get? q = u.get? q := by
  have hne : q ≠ D ++ [sourceName] := fun h => hq ⟨_, h.symm⟩
  have hne' : q ≠ D := fun h => hq (h ▸ List.prefix_refl q)
  rw [get?_directories hD, if_neg hne, if_neg hne']

theorem get?_described_of_not_isPrefix (hD : D ≠ []) (hq : ¬ D <+: q) :
    (described u D m).get? q = u.get? q := by
  have hne : q ≠ D ++ [manifestName] := fun h => hq ⟨_, h.symm⟩
  rw [get?_described, if_neg hne, get?_directories_of_not_isPrefix hD hq]

theorem get?_populated_of_not_isPrefix (hD : D ≠ []) (hq : ¬ D <+: q) :
    (populated u D m program).get? q = u.get? q := by
  have hne : q ≠ D ++ [sourceName] ++ [programName] := by
    intro h
    rw [List.append_assoc] at h
    exact hq ⟨_, h.symm⟩
  rw [get?_populated, if_neg hne, get?_described_of_not_isPrefix hD hq]

end

namespace Room

section

variable {v : Tree} (h : Room t u here scratch R k)

include h

theorem walk_root (hv : ∀ q, u.get? q = some .directory → v.get? q = some .directory) :
    v.walk ((ofKey scratch k).root.origin here) (ofKey scratch k).root.steps =
      .ok (R ++ [k.digits]) :=
  Workspace.walk_root h.plain (Tree.walk_of_directories hv h.walk) (hv _ h.root)

theorem walk_manifestPath (hv : ∀ q, u.get? q = some .directory → v.get? q = some .directory)
    (hD : v.get? (R ++ [k.digits]) = some .directory) :
    v.walk ((ofKey scratch k).manifestPath.origin here) (ofKey scratch k).manifestPath.steps =
      .ok (R ++ [k.digits] ++ [manifestName]) := by
  have hroot := h.walk_root hv
  rw [origin_root h.plain, steps_root h.plain] at hroot
  rw [origin_manifestPath h.plain, steps_manifestPath h.plain]
  exact Tree.walk_concat hroot hD plain_manifestName

theorem walk_sourcePath (hv : ∀ q, u.get? q = some .directory → v.get? q = some .directory)
    (hD : v.get? (R ++ [k.digits]) = some .directory)
    (hsrc : v.get? (R ++ [k.digits] ++ [sourceName]) = some .directory) :
    v.walk ((ofKey scratch k).sourcePath.origin here) (ofKey scratch k).sourcePath.steps =
      .ok (R ++ [k.digits] ++ [sourceName] ++ [programName]) := by
  have hroot := h.walk_root hv
  rw [origin_root h.plain, steps_root h.plain] at hroot
  rw [origin_sourcePath h.plain, steps_sourcePath h.plain]
  exact Tree.walk_concat (Tree.walk_concat hroot hD plain_sourceName) hsrc plain_programName

theorem makeDirectories_eq :
    t.makeDirectories ((ofKey scratch k).sourceDirectory.origin here)
      (ofKey scratch k).sourceDirectory.steps.reverse =
      (directories u (R ++ [k.digits]), none) := by
  have hfree := h.free _ (List.prefix_refl _)
  have hroot := Tree.makeDirectories_concat h.made h.walk h.root h.plain hfree
  have hkeep : ∀ q, u.get? q = some .directory →
      (u.put (R ++ [k.digits]) .directory).get? q = some .directory := by
    intro q hq
    rw [Tree.get?_put (by simp)]
    split
    · rfl
    · exact hq
  have hwalk := h.walk_root hkeep
  rw [origin_root h.plain, steps_root h.plain] at hwalk
  rw [origin_sourceDirectory h.plain, steps_sourceDirectory h.plain]
  refine Tree.makeDirectories_concat hroot hwalk ?_ plain_sourceName ?_
  · exact Tree.get?_put_self (by simp)
  · rw [Tree.get?_put_of_ne (by simp)]
    exact h.free _ (List.prefix_append _ _)

theorem makePath_eq :
    t.makePath here (ofKey scratch k).sourceDirectory =
      match (ofKey scratch k).sourceDirectory.fault? with
      | some f => (t, some f)
      | none => (directories u (R ++ [k.digits]), none) :=
  Tree.makePath_eq (Path.join_ne_nil plain_sourceName) h.makeDirectories_eq

theorem directory_of_described {q : Place} (hq : u.get? q = some .directory) :
    (described u (R ++ [k.digits]) m).get? q = some .directory := by
  have hne : q ≠ R ++ [k.digits] ++ [manifestName] := by
    rintro rfl
    rw [h.free _ (List.prefix_append _ _)] at hq
    cases hq
  rw [get?_described, if_neg hne]
  exact directory_of_directories (by simp) hq

theorem write_manifest :
    writeFile (directories u (R ++ [k.digits])) here (ofKey scratch k).manifestPath m.text =
      match (ofKey scratch k).manifestPath.fault? with
      | some f => .error (.workspace (ofKey scratch k).manifestPath f)
      | none => .ok (described u (R ++ [k.digits]) m) := by
  have hD : (directories u (R ++ [k.digits])).get? (R ++ [k.digits]) = some .directory := by
    rw [get?_directories (by simp)]
    simp
  have hne : manifestName ≠ sourceName := by decide
  have hfree : (directories u (R ++ [k.digits])).get? (R ++ [k.digits] ++ [manifestName]) =
      none := by
    rw [get?_directories (by simp), if_neg (by simp [hne]), if_neg (by simp)]
    exact h.free _ (List.prefix_append _ _)
  have hwalk := h.walk_manifestPath (fun q => directory_of_directories (by simp)) hD
  rw [writeFile, Tree.write_eq hwalk (Path.wantsDirectory_join plain_manifestName) hfree]
  cases (ofKey scratch k).manifestPath.fault? <;> rfl

theorem write_program :
    writeFile (described u (R ++ [k.digits]) m) here (ofKey scratch k).sourcePath program =
      match (ofKey scratch k).sourcePath.fault? with
      | some f => .error (.workspace (ofKey scratch k).sourcePath f)
      | none => .ok (populated u (R ++ [k.digits]) m program) := by
  have hne : sourceName ≠ manifestName := by decide
  have hD : (described u (R ++ [k.digits]) m).get? (R ++ [k.digits]) = some .directory := by
    rw [get?_described, if_neg (by simp), get?_directories (by simp)]
    simp
  have hsrc : (described u (R ++ [k.digits]) m).get? (R ++ [k.digits] ++ [sourceName]) =
      some .directory := by
    rw [get?_described, if_neg (by simp [hne]), get?_directories (by simp), if_pos rfl]
  have hfree : (described u (R ++ [k.digits]) m).get?
      (R ++ [k.digits] ++ [sourceName] ++ [programName]) = none := by
    rw [get?_described, if_neg (by simp), get?_directories (by simp), if_neg (by simp),
      if_neg (by simp)]
    refine h.free _ ?_
    rw [List.append_assoc, List.append_assoc]
    exact ⟨[sourceName] ++ [programName], by simp⟩
  rw [writeFile, Tree.write_eq (h.walk_sourcePath (fun q => h.directory_of_described) hD hsrc)
    (Path.wantsDirectory_join plain_programName) hfree]
  cases (ofKey scratch k).sourcePath.fault? <;> rfl

theorem remove_eq (hv : ∀ q, u.get? q = some .directory → v.get? q = some .directory)
    (hD : v.get? (R ++ [k.digits]) = some .directory)
    (hroot : (ofKey scratch k).root.fault? = none) :
    (ofKey scratch k).remove v here = v.erase (R ++ [k.digits]) :=
  Workspace.remove_eq h.plain (Tree.walk_of_directories hv h.walk) (hv _ h.root) hD hroot

theorem get?_erase (hv : ∀ q, ¬ R ++ [k.digits] <+: q → v.get? q = u.get? q) (q : Place) :
    (v.erase (R ++ [k.digits])).get? q = u.get? q := by
  by_cases hq : R ++ [k.digits] <+: q
  · rw [Tree.get?_erase_of_isPrefix (by simp) hq, h.free q hq]
  · rw [Tree.get?_erase_of_not_isPrefix hq, hv q hq]

theorem acquire_granted (hr : (ofKey scratch k).refusal? = none) :
    acquire t here scratch k m program =
      (populated u (R ++ [k.digits]) m program, .ok (ofKey scratch k)) := by
  rw [refusal?] at hr
  split at hr
  · cases hr
  · rename_i hsource
    split at hr
    · cases hr
    · rename_i hmanifest
      have hprogram := Option.map_eq_none_iff.1 hr
      simp only [acquire, h.makePath_eq, hsource, populate, h.write_manifest, hmanifest,
        h.write_program, hprogram]

/-- A workspace that is refused leaves nothing but the scratch directory. -/
theorem acquire_refused {f : Failure} (hr : (ofKey scratch k).refusal? = some f) :
    ∃ t', acquire t here scratch k m program = (t', .error f) ∧
      (t' = t ∨ ∀ q, t'.get? q = u.get? q) := by
  rw [refusal?] at hr
  split at hr
  · rename_i f' hsource
    cases hr
    refine ⟨t, ?_, .inl rfl⟩
    simp only [acquire, h.makePath_eq, hsource]
  · rename_i hsource
    have hroot := fault?_root h.plain hsource
    have hD : R ++ [k.digits] ≠ [] := by simp
    split at hr
    · rename_i f' hmanifest
      cases hr
      have hdir : (directories u (R ++ [k.digits])).get? (R ++ [k.digits]) = some .directory := by
        rw [get?_directories hD]
        simp
      have hremove := h.remove_eq (fun q => directory_of_directories hD) hdir hroot
      refine ⟨(directories u (R ++ [k.digits])).erase (R ++ [k.digits]), ?_, .inr fun q => ?_⟩
      · simp only [acquire, h.makePath_eq, hsource, populate, h.write_manifest, hmanifest, hremove]
      · exact h.get?_erase (fun q => get?_directories_of_not_isPrefix hD) q
    · rename_i hmanifest
      obtain ⟨f', hprogram, rfl⟩ := Option.map_eq_some_iff.1 hr
      have hdir : (described u (R ++ [k.digits]) m).get? (R ++ [k.digits]) = some .directory := by
        rw [get?_described, if_neg (by simp), get?_directories hD]
        simp
      have hremove := h.remove_eq (fun q => h.directory_of_described (m := m)) hdir hroot
      refine ⟨(described u (R ++ [k.digits]) m).erase (R ++ [k.digits]), ?_, .inr fun q => ?_⟩
      · simp only [acquire, h.makePath_eq, hsource, populate, h.write_manifest, hmanifest,
          h.write_program, hprogram, hremove]
      · exact h.get?_erase (fun q => get?_described_of_not_isPrefix hD) q

end

end Room

end

end Execution.Workspace

end Notebook
