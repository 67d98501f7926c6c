import Notebook.Proofs.Execution.Change

/-!
Many workspaces below one scratch directory, which are acquired and given back in any order.
-/

namespace Notebook.Execution

open Files (Name Path Place Tree)
open Program (Key Manifest)
open Workspace

/-- What is done to the workspaces below a scratch directory. One is acquired for the key of a
source with a manifest, and given back by the number of its handle. -/
inductive Operation where
  | acquire (source : List Char) (m written : Manifest) (program : List Char)
  | release (n : Nat)
  | drop (n : Nat)

/-- A tree, and the handles of workspaces. In place of one that was refused, or that has been given
back, there is none. -/
structure Desk where
  tree : Tree
  handles : List (Option Workspace)

namespace Operation

def acquired? : Operation → Option Key
  | .acquire source m _ _ => some (.derive source m)
  | .release _ | .drop _ => none

/-- The keys in use. -/
def used (operations : List Operation) : List Key := operations.filterMap acquired?

theorem plain_of_used (operations : List Operation) :
    ∀ k ∈ used operations, Name.Plain k.digits := by
  intro k hk
  obtain ⟨o, -, ho⟩ := List.mem_filterMap.1 hk
  cases o with
  | acquire source m written program =>
    cases ho
    exact Key.plain_derive source m
  | release | drop => cases ho

end Operation

namespace Desk

def handle? (d : Desk) (n : Nat) : Option Workspace := d.handles[n]?.join

/-- A workspace is removed when it is released, and so it is when its handle is dropped. -/
def giveBack (here : Place) (d : Desk) (n : Nat) : Desk :=
  match d.handle? n with
  | some w => ⟨w.remove d.tree here, d.handles.set n none⟩
  | none => d

def act (here : Place) (scratch : Path) (d : Desk) : Operation → Desk
  | .acquire source m written program =>
    match Workspace.acquire d.tree here scratch (.derive source m) written program with
    | (t, r) => ⟨t, d.handles ++ [r.toOption]⟩
  | .release n | .drop n => d.giveBack here n

def perform (here : Place) (scratch : Path) (d : Desk) (operations : List Operation) : Desk :=
  operations.foldl (act here scratch) d

/-- The key of the workspace that an operation is about, if there is one. -/
def key? (d : Desk) : Operation → Option Key
  | .acquire source m _ _ => some (.derive source m)
  | .release n | .drop n => (d.handle? n).map Workspace.key

variable {here : Place} {scratch : Path} {d : Desk} {o : Operation} {operations : List Operation}
  {w : Workspace} {n : Nat} {keys : List Key}

/-- All workspaces that somebody has a handle of are held. -/
def Sound (here : Place) (scratch : Path) (keys : List Key) (d : Desk) : Prop :=
  ∀ n w, d.handle? n = some w → Held here scratch keys d.tree w

theorem handle?_concat {t : Tree} {r : Option Workspace}
    (hw : handle? ⟨t, d.handles ++ [r]⟩ n = some w) : d.handle? n = some w ∨ r = some w := by
  rw [handle?, List.getElem?_append] at hw
  split at hw
  · exact .inl hw
  · rw [List.getElem?_singleton] at hw
    split at hw
    · exact .inr hw
    · cases hw

theorem handle?_set {t : Tree} {i : Nat} (hw : handle? ⟨t, d.handles.set i none⟩ n = some w) :
    d.handle? n = some w := by
  rw [handle?, List.getElem?_set] at hw
  split at hw
  · split at hw <;> cases hw
  · exact hw

section

variable (hplain : ∀ k ∈ keys, Name.Plain k.digits)

include hplain

theorem Sound.giveBack (h : d.Sound here scratch keys) (n : Nat) :
    (d.giveBack here n).Sound here scratch keys ∧
      ((d.handle? n = none ∧ d.giveBack here n = d) ∨
        ∃ w, d.handle? n = some w ∧ w.key ∈ keys ∧
          (d.giveBack here n).tree = w.remove d.tree here ∧
          Change here scratch w.key d.tree (d.giveBack here n).tree) := by
  rw [Desk.giveBack]
  cases hn : d.handle? n with
  | none => exact ⟨h, .inl ⟨rfl, rfl⟩⟩
  | some w =>
    have hheld := h n w hn
    have hchange := hheld.removed hplain
    exact ⟨fun i v hv => (h i v (handle?_set hv)).change hplain hheld.mem hchange,
      .inr ⟨w, rfl, hheld.mem, rfl, hchange⟩⟩

/-- An operation changes the tree only as one on the workspace of its key can. -/
theorem Sound.act (h : d.Sound here scratch keys) (ho : ∀ k, o.acquired? = some k → k ∈ keys) :
    (d.act here scratch o).Sound here scratch keys ∧
      (d.act here scratch o = d ∨ ∃ k ∈ keys, d.key? o = some k ∧
        Change here scratch k d.tree (d.act here scratch o).tree) := by
  have hback (n : Nat) (hkey : d.key? o = (d.handle? n).map Workspace.key)
      (hact : d.act here scratch o = d.giveBack here n) :
      (d.act here scratch o).Sound here scratch keys ∧
      (d.act here scratch o = d ∨ ∃ k ∈ keys, d.key? o = some k ∧
        Change here scratch k d.tree (d.act here scratch o).tree) := by
    obtain ⟨hsound, ⟨-, hsame⟩ | ⟨w, hw, hmem, -, hchange⟩⟩ := h.giveBack hplain n
    · rw [hact]
      exact ⟨hsound, .inl hsame⟩
    · rw [hact, hkey, hw]
      exact ⟨hsound, .inr ⟨w.key, hmem, rfl, hchange⟩⟩
  cases o with
  | acquire source m written program =>
    have hmem := ho _ rfl
    obtain ⟨u, r, hr, hchange, hnew⟩ := acquire_cases d.tree here scratch written program
      (hplain _ hmem)
    have hact : d.act here scratch (.acquire source m written program) =
        ⟨u, d.handles ++ [r.toOption]⟩ := by
      rw [Desk.act, hr]
    rw [hact]
    refine ⟨fun n w hw => ?_, .inr ⟨_, hmem, rfl, hchange⟩⟩
    rcases handle?_concat hw with hold | hok
    · exact (h n w hold).change hplain hmem hchange
    · cases r with
      | error f => cases hok
      | ok v =>
        cases hok
        obtain ⟨rfl, hthere⟩ := hnew _ rfl
        exact held_of_isDirectory hplain hmem hthere
  | release n => exact hback n rfl rfl
  | drop n => exact hback n rfl rfl

/-- What many operations keep. -/
theorem Sound.perform (h : d.Sound here scratch keys)
    (hused : ∀ k ∈ Operation.used operations, k ∈ keys) :
    (d.perform here scratch operations).Sound here scratch keys ∧
      ∀ q, (d.perform here scratch operations).tree.get? q = d.tree.get? q ∨
        (∃ k ∈ keys, site scratch here k <+: q) ∨
        (d.tree.get? q = none ∧
          (d.perform here scratch operations).tree.get? q = some .directory ∧
          scratch.Passes here q) := by
  induction operations generalizing d with
  | nil => exact ⟨h, fun q => .inl rfl⟩
  | cons o operations ih =>
    have ho : ∀ k, o.acquired? = some k → k ∈ keys := fun k hk =>
      hused k (List.mem_filterMap.2 ⟨o, List.mem_cons_self, hk⟩)
    have hrest : ∀ k ∈ Operation.used operations, k ∈ keys := fun k hk => by
      obtain ⟨b, hb, hkey⟩ := List.mem_filterMap.1 hk
      exact hused k (List.mem_filterMap.2 ⟨b, List.mem_cons_of_mem o hb, hkey⟩)
    obtain ⟨hsound, hstep⟩ := h.act hplain ho
    obtain ⟨hend, hkept⟩ := ih hsound hrest
    refine ⟨hend, fun q => ?_⟩
    rw [Desk.perform, List.foldl_cons, ← Desk.perform]
    have hfirst : (d.act here scratch o).tree.get? q = d.tree.get? q ∨
        (∃ k ∈ keys, site scratch here k <+: q) ∨ (d.tree.get? q = none ∧
          (d.act here scratch o).tree.get? q = some .directory ∧ scratch.Passes here q) := by
      rcases hstep with hsame | ⟨k, hk, -, hchange⟩
      · rw [hsame]
        exact .inl rfl
      · rcases hchange.outside q with heq | hsite | hnew
        · exact .inl heq
        · exact .inr (.inl ⟨k, hk, hsite⟩)
        · exact .inr (.inr hnew)
    rcases hfirst with heq | hsite | ⟨hnone, hdir, hpass⟩
    · rw [← heq]
      exact hkept q
    · exact .inr (.inl hsite)
    · rcases hkept q with heq' | hsite | ⟨hnone', -⟩
      · exact .inr (.inr ⟨hnone, heq'.trans hdir, hpass⟩)
      · exact .inr (.inl hsite)
      · rw [hdir] at hnone'
        cases hnone'

end

/-- What becomes of a tree when nobody has a handle yet. -/
def run (t : Tree) (here : Place) (scratch : Path) (operations : List Operation) : Desk :=
  perform here scratch ⟨t, []⟩ operations

variable {t : Tree}

theorem run_kept (hused : ∀ k ∈ Operation.used operations, k ∈ keys)
    (hplain : ∀ k ∈ keys, Name.Plain k.digits) :
    (run t here scratch operations).Sound here scratch keys ∧
      ∀ q, (run t here scratch operations).tree.get? q = t.get? q ∨
        (∃ k ∈ keys, site scratch here k <+: q) ∨
        (t.get? q = none ∧ (run t here scratch operations).tree.get? q = some .directory ∧
          scratch.Passes here q) :=
  Sound.perform hplain (fun n w hw => by simp [handle?] at hw) hused

/-- One operation after many. -/
theorem run_act (t : Tree) (here : Place) (scratch : Path) (operations : List Operation)
    (o : Operation) :
    (run t here scratch operations).act here scratch o = run t here scratch operations ∨
      ∃ k, (run t here scratch operations).key? o = some k ∧ Name.Plain k.digits ∧
        Change here scratch k (run t here scratch operations).tree
          ((run t here scratch operations).act here scratch o).tree := by
  have hplain := Operation.plain_of_used (operations ++ [o])
  have hused : ∀ k ∈ Operation.used operations, k ∈ Operation.used (operations ++ [o]) := by
    intro k hk
    rw [Operation.used, List.filterMap_append]
    exact List.mem_append_left _ hk
  have ho : ∀ k, o.acquired? = some k → k ∈ Operation.used (operations ++ [o]) := fun k hk =>
    List.mem_filterMap.2 ⟨o, List.mem_append_right _ List.mem_cons_self, hk⟩
  obtain ⟨-, hsame | ⟨k, hk, hkey, hchange⟩⟩ := (run_kept hused hplain).1.act hplain ho
  · exact .inl hsame
  · exact .inr ⟨k, hkey, hplain k hk, hchange⟩

theorem held_of_handle? (hw : (run t here scratch operations).handle? n = some w) :
    Held here scratch (Operation.used operations) (run t here scratch operations).tree w :=
  (run_kept (fun _ hk => hk) (Operation.plain_of_used operations)).1 n w hw

theorem act_of_handle? (hw : d.handle? n = some w) (ho : o = .release n ∨ o = .drop n) :
    (d.act here scratch o).tree = w.remove d.tree here := by
  have hback : (d.giveBack here n).tree = w.remove d.tree here := by rw [giveBack, hw]
  rcases ho with rfl | rfl
  · exact hback
  · exact hback

/-- The workspace of a handle stays within reach when something is done to that of another key, if
no way leads through either. -/
theorem isDirectory_act (hclear : ∀ k ∈ Operation.used operations, Clear scratch here k)
    (hw : (run t here scratch operations).handle? n = some w)
    (hne : (run t here scratch operations).key? o ≠ some w.key)
    (ho : ∀ k, (run t here scratch operations).key? o = some k → Clear scratch here k) :
    ((run t here scratch operations).act here scratch o).tree.isDirectory here w.root =
      (run t here scratch operations).tree.isDirectory here w.root := by
  have hheld := held_of_handle? hw
  rcases run_act t here scratch operations o with hsame | ⟨k, hkey, hk, hchange⟩
  · rw [hsame]
  · have hplain := Operation.plain_of_used _ _ hheld.mem
    have hfault : (ofKey scratch w.key).root.fault? = none := hheld.root ▸ hheld.unblocked.fault
    have hdiff : k ≠ w.key := fun heq => hne (heq ▸ hkey)
    have hbefore := hheld.reached hclear
    have hafter := hbefore.change hchange hk (ho k hkey) (hclear _ hheld.mem)
    rw [hheld.root, Bool.eq_iff_iff, hafter.isDirectory_iff hplain hfault,
      hbefore.isDirectory_iff hplain hfault,
      hchange.apart hdiff (hclear _ hheld.mem) (List.prefix_refl _)]

/-- Operations on workspaces change nothing outside them but that the directories on the way to the
scratch directory are made. Different keys have different directories in the scratch directory.
What is done to one does not change another, if the way to the scratch directory does not lead
through that. A workspace that is given back is not at its path any more. If the way leads through
none of those in use, then nothing stays where it was, and until then it is within reach whatever
is done to others. -/
theorem kept_apart (t : Tree) (here : Place) (scratch : Path) (operations : List Operation) :
    (∀ q, (run t here scratch operations).tree.get? q = t.get? q ∨
      (∃ k ∈ Operation.used operations, (ofKey scratch k).root.place here <+: q) ∨
      (t.get? q = none ∧ (run t here scratch operations).tree.get? q = some .directory ∧
        scratch.Passes here q)) ∧
    (∀ k ∈ Operation.used operations,
      (ofKey scratch k).root.place here = scratch.place here ++ [k.digits] ∧
      ∀ k' ∈ Operation.used operations, k ≠ k' → ∀ q, (ofKey scratch k).root.place here <+: q →
        ¬ (ofKey scratch k').root.place here <+: q) ∧
    (∀ o, ∀ k ∈ Operation.used operations, (run t here scratch operations).key? o ≠ some k →
      Clear scratch here k → ∀ q, (ofKey scratch k).root.place here <+: q →
        ((run t here scratch operations).act here scratch o).tree.get? q =
          (run t here scratch operations).tree.get? q) ∧
    (∀ n w, (run t here scratch operations).handle? n = some w →
      ∀ o, o = .release n ∨ o = .drop n →
        ((run t here scratch operations).act here scratch o).tree.lookup here w.root =
          .error (.system .noEntry)) ∧
    ((∀ k ∈ Operation.used operations, Clear scratch here k) →
      ∀ n w, (run t here scratch operations).handle? n = some w →
        (∀ o, o = .release n ∨ o = .drop n → ∀ q, w.root.place here <+: q →
          ((run t here scratch operations).act here scratch o).tree.get? q = none) ∧
        ∀ o, (run t here scratch operations).key? o ≠ some w.key →
          (∀ k, (run t here scratch operations).key? o = some k → Clear scratch here k) →
          ((run t here scratch operations).act here scratch o).tree.isDirectory here w.root =
            (run t here scratch operations).tree.isDirectory here w.root) := by
  have hplain := Operation.plain_of_used operations
  have hplace {k : Key} (hk : k ∈ Operation.used operations) :
      (ofKey scratch k).root.place here = site scratch here k := place_root (hplain k hk)
  refine ⟨fun q => ?_, fun k hk => ⟨hplace hk, fun k' hk' hne q hq hq' => ?_⟩,
    fun o k hk hne hclear q hq => ?_, fun n w hw o ho => ?_, fun hclear n w hw => ⟨?_, ?_⟩⟩
  · rcases (run_kept (fun _ hk => hk) hplain).2 q with heq | ⟨k, hk, hsite⟩ | hnew
    · exact .inl heq
    · exact .inr (.inl ⟨k, hk, hplace hk ▸ hsite⟩)
    · exact .inr (.inr hnew)
  · rw [hplace hk] at hq
    rw [hplace hk'] at hq'
    exact hne (key_eq_of_isPrefix hq hq')
  · rcases run_act t here scratch operations o with hsame | ⟨k', hkey, -, hchange⟩
    · rw [hsame]
    · exact hchange.apart (fun heq => hne (hkey.trans (congrArg some heq))) hclear (hplace hk ▸ hq)
  · rw [act_of_handle? hw ho]
    exact (held_of_handle? hw).lookup_remove hplain
  · intro o ho q hq
    have hheld := held_of_handle? hw
    have hw' : w.root.place here = site scratch here w.key := by
      rw [hheld.root]
      exact hplace hheld.mem
    rw [act_of_handle? hw ho]
    exact hheld.get?_remove hplain hclear (hw' ▸ hq)
  · intro o hne ho
    exact isDirectory_act hclear hw hne ho

/-! The workspaces of two sources, in a scratch directory below and in one whose path goes through
the first of them. -/

def both : List Operation :=
  [.acquire [] .standard .standard [], .acquire ['a'] .standard .standard []]

def second (scratch : Path) : Workspace := ofKey scratch (.derive ['a'] .standard)

theorem kept_apart_both :
    ((run .empty [] ⟨"scratch".toList⟩ both).act [] ⟨"scratch".toList⟩
      (.release 0)).tree.isDirectory [] (second ⟨"scratch".toList⟩).root = true ∧
    ∀ q, (second ⟨"scratch".toList⟩).root.place [] <+: q →
      ((run .empty [] ⟨"scratch".toList⟩ both).act [] ⟨"scratch".toList⟩ (.drop 1)).tree.get? q =
        none := by
  have hclear : ∀ k, Clear ⟨"scratch".toList⟩ [] k := fun k => clear_of_notMem (by decide)
  obtain ⟨hw, hne, hthere⟩ : (run .empty [] ⟨"scratch".toList⟩ both).handle? 1 =
        some (second ⟨"scratch".toList⟩) ∧
      (run .empty [] ⟨"scratch".toList⟩ both).key? (.release 0) ≠
        some (second ⟨"scratch".toList⟩).key ∧
      (run .empty [] ⟨"scratch".toList⟩ both).tree.isDirectory []
        (second ⟨"scratch".toList⟩).root = true := by
    decide +kernel
  obtain ⟨hgone, hkept⟩ := (kept_apart .empty [] ⟨"scratch".toList⟩ both).2.2.2.2
    (fun k _ => hclear k) 1 _ hw
  exact ⟨(hkept (.release 0) hne fun k _ => hclear k).trans hthere, hgone (.drop 1) (.inr rfl)⟩

def through : Path := ⟨(Key.derive [] .standard).digits ++ "/..".toList⟩

/-- If the way leads through a workspace, then it is made when another one is acquired, and another
one is out of reach once it has been removed. -/
theorem not_kept_apart_through :
    (¬ ∀ (t : Tree) (here : Place) (scratch : Path) (operations : List Operation) (o : Operation),
      ∀ k ∈ Operation.used operations, (run t here scratch operations).key? o ≠ some k →
        ∀ q, (ofKey scratch k).root.place here <+: q →
          ((run t here scratch operations).act here scratch o).tree.get? q =
            (run t here scratch operations).tree.get? q) ∧
    ¬ ∀ (t : Tree) (here : Place) (scratch : Path) (operations : List Operation) (o : Operation)
      (n : Nat) (w : Workspace), (run t here scratch operations).handle? n = some w →
        (run t here scratch operations).key? o ≠ some w.key →
          ((run t here scratch operations).act here scratch o).tree.isDirectory here w.root =
            (run t here scratch operations).tree.isDirectory here w.root := by
  constructor
  · intro h
    let d := run .empty [] through [.acquire [] .standard .standard [], .release 0]
    let o := Operation.acquire ['a'] .standard .standard []
    have hnew : d.key? o ≠ some (.derive [] .standard) ∧
        (d.act [] through o).tree.get? ((ofKey through (.derive [] .standard)).root.place []) ≠
          d.tree.get? ((ofKey through (.derive [] .standard)).root.place []) := by
      decide +kernel
    exact hnew.2 (h .empty [] through _ o _ List.mem_cons_self hnew.1 _ (List.prefix_refl _))
  · intro h
    let d := run .empty [] through both
    have hlost : d.handle? 1 = some (second through) ∧
        d.key? (.release 0) ≠ some (second through).key ∧
        (d.act [] through (.release 0)).tree.isDirectory [] (second through).root ≠
          d.tree.isDirectory [] (second through).root := by
      decide +kernel
    exact hlost.2.2 (h .empty [] through both (.release 0) 1 _ hlost.1 hlost.2.1)

end Desk

end Notebook.Execution
