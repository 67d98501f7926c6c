import Notebook.Proofs.Files.Make

/-!
Where paths lead, and what directories are made, does not depend on what is in files.
-/

namespace Notebook.Files.Tree

variable {t u v : Tree} {here p : Place} {S : List Name}

/-- Trees that differ at most in what their files hold. -/
structure SameShape (t u : Tree) : Prop where
  none : ∀ q, t.get? q = none ↔ u.get? q = none
  directory : ∀ q, t.get? q = some .directory ↔ u.get? q = some .directory

namespace SameShape

theorem of_eq (h : t = u) : t.SameShape u := h ▸ ⟨fun _ => Iff.rfl, fun _ => Iff.rfl⟩

theorem of_get? (h : ∀ q, t.get? q = u.get? q) : t.SameShape u :=
  ⟨fun q => by rw [h q], fun q => by rw [h q]⟩

theorem symm (h : t.SameShape u) : u.SameShape t :=
  ⟨fun q => (h.none q).symm, fun q => (h.directory q).symm⟩

theorem trans (h : t.SameShape u) (h' : u.SameShape v) : t.SameShape v :=
  ⟨fun q => (h.none q).trans (h'.none q), fun q => (h.directory q).trans (h'.directory q)⟩

/-- A file is written where there is one. -/
theorem put_file {e e' : Entry} (h : t.get? p = some e) (he : e ≠ .directory)
    (he' : e' ≠ .directory) : t.SameShape (t.put p e') := by
  have hp : p ≠ [] := by
    rintro rfl
    rw [get?_nil] at h
    exact he (Option.some.inj h).symm
  constructor
  all_goals
    intro q
    rw [get?_put hp]
    by_cases hq : q = p
    · subst hq
      simp [h, he, he']
    · rw [if_neg hq]

theorem put (h : t.SameShape u) (p : Place) (e : Entry) : (t.put p e).SameShape (u.put p e) := by
  by_cases hp : p = []
  · subst hp
    have hsame (t : Tree) (q : Place) : (t.put [] e).get? q = t.get? q := by
      by_cases hq : q = []
      · rw [hq, get?_nil, get?_nil]
      · exact get?_put_of_ne hq
    exact ((of_get? (hsame t)).trans h).trans (of_get? (hsame u)).symm
  · constructor
    · intro q
      rw [get?_put hp, get?_put hp]
      split
      · rfl
      · exact h.none q
    · intro q
      rw [get?_put hp, get?_put hp]
      split
      · rfl
      · exact h.directory q

theorem walk (h : t.SameShape u) (here : Place) (S : List Name) :
    t.walk here S = u.walk here S := by
  induction S generalizing here with
  | nil => rfl
  | cons s S ih =>
    rw [Tree.walk, Tree.walk]
    cases ht : t.get? here with
    | none =>
      rw [(h.none here).1 ht]
    | some e =>
      by_cases he : e = .directory
      · subst he
        rw [(h.directory here).1 ht]
        simp only [ih]
      · cases hu : u.get? here with
        | none =>
          rw [(h.none here).2 hu] at ht
          cases ht
        | some e' =>
          have he' : e' ≠ .directory := by
            rintro rfl
            rw [(h.directory here).2 hu] at ht
            exact he (Option.some.inj ht).symm
          cases e <;> cases e' <;> first | rfl | exact absurd rfl he | exact absurd rfl he'

theorem makeDirectory (h : t.SameShape u) (here : Place) (S : List Name) :
    (∃ t' u', t.makeDirectory here S = .ok t' ∧ u.makeDirectory here S = .ok u' ∧
      t'.SameShape u') ∨
    ∃ e, t.makeDirectory here S = .error e ∧ u.makeDirectory here S = .error e := by
  rw [Tree.makeDirectory, Tree.makeDirectory, h.walk]
  cases u.walk here S with
  | error e => exact .inr ⟨e, rfl, rfl⟩
  | ok place =>
    cases ht : t.get? place with
    | none =>
      simp only [ht, (h.none place).1 ht]
      exact .inl ⟨_, _, rfl, rfl, h.put place .directory⟩
    | some e =>
      cases hu : u.get? place with
      | none =>
        rw [(h.none place).2 hu] at ht
        cases ht
      | some e' =>
        simp only [ht, hu]
        exact .inr ⟨.exists_, rfl, rfl⟩

theorem leadsToDirectory (h : t.SameShape u) (here : Place) (S : List Name) :
    t.leadsToDirectory here S = u.leadsToDirectory here S := by
  rw [Tree.leadsToDirectory, Tree.leadsToDirectory, h.walk]
  cases u.walk here S with
  | error e => rfl
  | ok place =>
    simp only [decide_eq_decide]
    exact h.directory place

theorem makeDirectories (h : t.SameShape u) (here : Place) (S : List Name) :
    (t.makeDirectories here S).1.SameShape (u.makeDirectories here S).1 ∧
      (t.makeDirectories here S).2 = (u.makeDirectories here S).2 := by
  induction S generalizing t u with
  | nil => exact ⟨h, rfl⟩
  | cons s S ih =>
    rw [Tree.makeDirectories, Tree.makeDirectories]
    rcases h.makeDirectory here (s :: S).reverse with ⟨t', u', ht, hu, h'⟩ | ⟨e, ht, hu⟩
    · simp only [ht, hu]
      exact ⟨h', trivial⟩
    · simp only [ht, hu]
      by_cases he : e = .noEntry
      · obtain ⟨hshape, hsame⟩ := ih h
        rcases ht' : t.makeDirectories here S with ⟨t₁, e₁⟩
        rcases hu' : u.makeDirectories here S with ⟨u₁, e₂⟩
        rw [ht', hu'] at hshape hsame
        obtain rfl : e₁ = e₂ := hsame
        simp only [he, if_true]
        cases e₁ with
        | some e => exact ⟨hshape, rfl⟩
        | none =>
          simp only
          rcases hshape.makeDirectory here (s :: S).reverse with ⟨t', u', ht, hu, h'⟩ | ⟨e, ht, hu⟩
          · simp only [ht, hu]
            exact ⟨h', trivial⟩
          · simp only [ht, hu, hshape.leadsToDirectory here]
            split <;> exact ⟨hshape, rfl⟩
      · simp only [he, if_false, h.leadsToDirectory here]
        split <;> exact ⟨h, rfl⟩

theorem makePath (h : t.SameShape u) (here : Place) (p : Path) :
    (t.makePath here p).1.SameShape (u.makePath here p).1 ∧
      (t.makePath here p).2 = (u.makePath here p).2 := by
  rw [Tree.makePath, Tree.makePath]
  split
  · exact ⟨h, rfl⟩
  · split
    · exact ⟨h, rfl⟩
    · split
      · exact ⟨h, rfl⟩
      · obtain ⟨hshape, hsame⟩ :=
          h.makeDirectories (if p.isAbsolute then [] else here) p.steps.reverse
        exact ⟨hshape, congrArg (Option.map Fault.system) hsame⟩

end SameShape

/-! ### Files at the end of a path -/

/-- The path leads to a file that holds this. -/
def Holds (t : Tree) (here : Place) (p : Path) (place : Place) (content : List UInt8)
    (executable : Bool) : Prop :=
  t.resolve here p = .ok place ∧ p.wantsDirectory = false ∧
    t.get? place = some (.file content executable)

section

variable {path : Path} {place : Place} {content : List UInt8} {x : Bool}

theorem resolve_of_directories (h : ∀ q, t.get? q = some .directory → u.get? q = some .directory)
    (hr : t.resolve here path = .ok place) : u.resolve here path = .ok place := by
  rw [resolve] at hr ⊢
  split at hr
  · cases hr
  · split at hr
    · cases hr
    · split at hr
      · cases hr
      · rename_i h1 h2 h3
        rw [if_neg h1, if_neg h2, if_neg h3]
        cases hw : t.walk (if path.isAbsolute then [] else here) path.steps with
        | error e =>
          rw [hw] at hr
          cases hr
        | ok b =>
          rw [hw] at hr
          rw [walk_of_directories h hw]
          exact hr

/-- What can be read is what a file holds, or nothing. -/
theorem read_cases (h : t.read here path = .ok content) :
    content = [] ∨ ∃ place x, t.Holds here path place content x := by
  rw [read, lookup] at h
  cases hr : t.resolve here path with
  | error f =>
    rw [hr] at h
    cases h
  | ok place =>
    rw [hr] at h
    simp only [bind, Except.bind] at h
    cases he : t.get? place with
    | none =>
      rw [he] at h
      cases h
    | some e =>
      rw [he] at h
      cases hw : path.wantsDirectory with
      | true => cases e <;> simp only [hw, if_true] at h <;> cases h
      | false =>
        cases e with
        | directory => cases h
        | file b x =>
          simp only [hw, Bool.false_eq_true, if_false] at h
          cases h
          exact .inr ⟨place, x, hr, hw, he⟩
        | tool _ | sink =>
          simp only [hw, Bool.false_eq_true, if_false] at h
          cases h
          exact .inl rfl

theorem Holds.read (h : t.Holds here path place content x) :
    t.read here path = .ok content := by
  obtain ⟨hr, hw, he⟩ := h
  rw [Tree.read, lookup, hr]
  simp only [bind, Except.bind, he, hw, Bool.false_eq_true, if_false]

theorem Holds.write (h : t.Holds here path place content x) (bytes : List UInt8) :
    t.write here path bytes = .ok (t.put place (.file bytes x)) := by
  obtain ⟨hr, hw, he⟩ := h
  rw [Tree.write, hr]
  simp only [bind, Except.bind, he, hw, Bool.false_eq_true, if_false]

theorem Holds.sameShape (h : t.Holds here path place content x) (bytes : List UInt8) :
    t.SameShape (t.put place (.file bytes x)) :=
  .put_file h.2.2 (by simp) (by simp)

theorem Holds.put (h : t.Holds here path place content x) (bytes : List UInt8) :
    (t.put place (.file bytes x)).Holds here path place bytes x := by
  refine ⟨resolve_of_directories (fun q => ((h.sameShape bytes).directory q).1) h.1, h.2.1, ?_⟩
  refine get?_put_self ?_
  rintro rfl
  have := h.2.2
  rw [get?_nil] at this
  cases this

theorem Holds.of_get? (h : t.Holds here path place content x)
    (hdir : ∀ q, t.get? q = some .directory → u.get? q = some .directory)
    (hplace : u.get? place = t.get? place) : u.Holds here path place content x :=
  ⟨resolve_of_directories hdir h.1, h.2.1, hplace.trans h.2.2⟩

/-! ### Writing -/

theorem write_cases (h : t.write here path content = .ok u) :
    (t.get? (path.place here) = some .sink ∧ u = t) ∨
      ∃ x, t.resolve here path = .ok (path.place here) ∧
        t.get? (path.place here) ≠ some .directory ∧
        u = t.put (path.place here) (.file content x) := by
  rw [write] at h
  cases hr : t.resolve here path with
  | error f =>
    rw [hr] at h
    cases h
  | ok c =>
    obtain rfl := place_of_resolve hr
    rw [hr] at h
    simp only [bind, Except.bind] at h
    split at h
    · cases h
    · cases hget : t.get? (path.place here) with
      | none =>
        rw [hget] at h
        cases h
        exact .inr ⟨false, rfl, by simp, rfl⟩
      | some e =>
        rw [hget] at h
        cases e with
        | directory => cases h
        | file c x =>
          cases h
          exact .inr ⟨x, rfl, by simp, rfl⟩
        | tool => cases h
        | sink =>
          cases h
          exact .inl ⟨rfl, rfl⟩

/-- A file can be written at the end of the path. -/
def Takes (t : Tree) (here : Place) (p : Path) : Prop := ∃ u, t.write here p [] = .ok u

/-- Whether something can be written does not depend on what it is. -/
theorem takes_iff (content : List UInt8) :
    t.Takes here path ↔ ∃ u, t.write here path content = .ok u := by
  rw [Takes, write, write]
  cases t.resolve here path with
  | error f => simp [bind, Except.bind]
  | ok place =>
    simp only [bind, Except.bind]
    split
    · simp
    · cases t.get? place with
      | none => simp
      | some e => cases e <;> simp

theorem directory_of_write (h : t.write here path content = .ok u) (q : Place)
    (hq : t.get? q = some .directory) : u.get? q = some .directory := by
  rcases write_cases h with ⟨-, rfl⟩ | ⟨x, -, hne, rfl⟩
  · exact hq
  · rw [get?_put_of_ne, hq]
    rintro rfl
    exact hne hq

/-- A file that has been written holds what was written, unless it keeps nothing. -/
theorem holds_of_write (h : t.write here path content = .ok u)
    (hp : path.wantsDirectory = false) (hsink : t.get? (path.place here) ≠ some .sink) :
    (∃ x, u.Holds here path (path.place here) content x) ∧
      ∀ q, q ≠ path.place here → u.get? q = t.get? q := by
  have hdir := directory_of_write h
  rcases write_cases h with ⟨hsink', -⟩ | ⟨x, hr, hne, rfl⟩
  · exact absurd hsink' hsink
  · have hroot : path.place here ≠ [] := by
      intro hnil
      rw [hnil, get?_nil] at hne
      exact hne rfl
    exact ⟨⟨x, resolve_of_directories hdir hr, hp, get?_put_self hroot⟩,
      fun q hq => get?_put_of_ne hq⟩

end

end Notebook.Files.Tree
