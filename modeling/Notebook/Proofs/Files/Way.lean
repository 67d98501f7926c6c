import Notebook.Files.Tree

/-!
Ways through a tree: where a path leads that goes on from another one, and what is made, written
and removed at its end.
-/

namespace Notebook.Files

/-! ### Paths that go on -/

/-- A name that is one step of a path and leads down. -/
structure Name.Plain (n : Name) : Prop where
  ne_nil : n ≠ []
  ne_dot : n ≠ ['.']
  ne_parent : n ≠ Path.parent
  no_slash : '/' ∉ n
  size_le : Text.Utf8.size n ≤ 255

theorem piecesBetween_of_notMem {s : List Char} (h : '/' ∉ s) : piecesBetween '/' s = [s] := by
  induction s with
  | nil => rfl
  | cons c s ih =>
    rw [List.mem_cons, not_or] at h
    rw [piecesBetween, if_neg (Ne.symm h.1), ih h.2]

theorem piecesBetween_append (s r : List Char) :
    piecesBetween '/' (s ++ '/' :: r) = piecesBetween '/' s ++ piecesBetween '/' r := by
  induction s with
  | nil => simp [piecesBetween]
  | cons c s ih =>
    rw [List.cons_append, piecesBetween, piecesBetween, ih]
    split
    · rfl
    · cases hs : piecesBetween '/' s with
      | nil =>
        have hne : piecesBetween '/' s ≠ [] := by
          cases s with
          | nil => simp [piecesBetween]
          | cons d s =>
            rw [piecesBetween]
            split
            · simp
            · split <;> simp
        exact absurd hs hne
      | cons a l => rfl

namespace Path

variable {p : Path} {n : Name}

theorem join_eq (hn : n.Plain) : (p.join ⟨n⟩ = ⟨n⟩ ∧ p.text = []) ∨
    (∃ s, p.text = s ++ ['/'] ∧ p.join ⟨n⟩ = ⟨s ++ '/' :: n⟩) ∨
    (p.text ≠ [] ∧ p.join ⟨n⟩ = ⟨p.text ++ '/' :: n⟩) := by
  have habs : (⟨n⟩ : Path).isAbsolute = false := by
    cases n with
    | nil => rfl
    | cons c n =>
      have hc : c ≠ '/' := fun hc => hn.no_slash (by rw [hc]; exact List.mem_cons_self)
      simpa [isAbsolute] using hc
  rw [join, habs, Bool.false_or]
  by_cases he : p.text = []
  · left
    simp [he]
  · right
    rw [if_neg (by simpa using he)]
    by_cases hl : p.text.getLast? = some '/'
    · left
      obtain ⟨s, hs⟩ := List.getLast?_eq_some_iff.1 hl
      refine ⟨s, hs, ?_⟩
      rw [if_pos hl, hs, List.append_assoc, List.singleton_append]
    · right
      rw [if_neg hl]
      exact ⟨he, rfl⟩

theorem steps_join (hn : n.Plain) : (p.join ⟨n⟩).steps = p.steps ++ [n] := by
  have hkeep : [n].filter (fun s => s ≠ [] && s ≠ ['.']) = [n] := by
    simp [hn.ne_nil, hn.ne_dot]
  rcases join_eq (p := p) hn with ⟨hj, he⟩ | ⟨s, hs, hj⟩ | ⟨-, hj⟩
  · rw [hj, steps, steps, he, piecesBetween_of_notMem hn.no_slash, hkeep]
    rfl
  · rw [hj, steps, steps, hs, piecesBetween_append, piecesBetween_append,
      piecesBetween_of_notMem hn.no_slash, List.filter_append, List.filter_append, hkeep]
    simp [piecesBetween]
  · rw [hj, steps, steps, piecesBetween_append, piecesBetween_of_notMem hn.no_slash,
      List.filter_append, hkeep]

theorem isAbsolute_join (hn : n.Plain) : (p.join ⟨n⟩).isAbsolute = p.isAbsolute := by
  rcases join_eq (p := p) hn with ⟨hj, he⟩ | ⟨s, hs, hj⟩ | ⟨he, hj⟩
  · rw [hj, isAbsolute, isAbsolute, he]
    cases n with
    | nil => rfl
    | cons c n =>
      have hc : c ≠ '/' := fun hc => hn.no_slash (by rw [hc]; exact List.mem_cons_self)
      simpa using hc
  · rw [hj, isAbsolute, isAbsolute, hs]
    cases s <;> rfl
  · rw [hj, isAbsolute, isAbsolute]
    cases ht : p.text with
    | nil => exact absurd ht he
    | cons c s => rfl

theorem wantsDirectory_join (hn : n.Plain) : (p.join ⟨n⟩).wantsDirectory = false := by
  have hlast (l : List Name) : (l ++ [n]).getLast? = some n := List.getLast?_concat
  have hn' : (decide (n = []) || decide (n = ['.'])) = false := by simp [hn.ne_nil, hn.ne_dot]
  rcases join_eq (p := p) hn with ⟨hj, he⟩ | ⟨s, hs, hj⟩ | ⟨-, hj⟩
  · rw [hj, wantsDirectory, piecesBetween_of_notMem hn.no_slash]
    exact hn'
  · rw [hj, wantsDirectory, piecesBetween_append, piecesBetween_of_notMem hn.no_slash, hlast]
    exact hn'
  · rw [hj, wantsDirectory, piecesBetween_append, piecesBetween_of_notMem hn.no_slash, hlast]
    exact hn'

theorem join_ne_nil (hn : n.Plain) : (p.join ⟨n⟩).text ≠ [] := by
  rcases join_eq (p := p) hn with ⟨hj, -⟩ | ⟨s, -, hj⟩ | ⟨-, hj⟩
  · rw [hj]
    exact hn.ne_nil
  · rw [hj]
    simp
  · rw [hj]
    simp

/-- Where the steps of a path start. -/
def origin (p : Path) (here : Place) : Place := if p.isAbsolute then [] else here

theorem origin_join (hn : n.Plain) (here : Place) : (p.join ⟨n⟩).origin here = p.origin here := by
  rw [origin, isAbsolute_join hn, origin]

/-- What is wrong with a path by its text alone. -/
def fault? (p : Path) : Option Fault :=
  if p.text.contains '\x00' then some .nulInPath
  else if p.text.isEmpty then some (.system .noEntry)
  else if Text.Utf8.size p.text > 4095 then some (.system .nameTooLong)
  else none

/-- The way to what lies further down is fine only if the way there is. -/
theorem fault?_of_join (hp : p.text ≠ []) (hn : n.Plain) (h : (p.join ⟨n⟩).fault? = none) :
    p.fault? = none := by
  obtain ⟨r, hr⟩ : ∃ r, (p.join ⟨n⟩).text = p.text ++ r := by
    rcases join_eq (p := p) hn with ⟨-, he⟩ | ⟨s, hs, hj⟩ | ⟨-, hj⟩
    · exact absurd he hp
    · refine ⟨n, ?_⟩
      rw [hj, hs, List.append_assoc, List.singleton_append]
    · refine ⟨'/' :: n, ?_⟩
      rw [hj]
  rw [fault?, hr, Text.Utf8.size_append] at h
  split at h
  · cases h
  · rename_i hnul
    split at h
    · cases h
    · split at h
      · cases h
      · rename_i hsize
        have hnul' : ¬ p.text.contains '\x00' = true := by
          intro hc
          rw [List.contains_iff_mem] at hc hnul
          exact hnul (List.mem_append_left _ hc)
        rw [fault?, if_neg hnul', if_neg (by simpa using hp), if_neg (by omega)]

end Path

namespace Tree

variable {t u : Tree} {here a R : Place} {S : List Name} {n : Name} {p : Path}

theorem get?_put (hp : R ≠ []) (q : Place) (e : Entry) :
    (t.put R e).get? q = if q = R then some e else t.get? q := by
  by_cases hq : q = R
  · rw [if_pos hq, hq, get?_put_self hp]
  · rw [if_neg hq, get?_put_of_ne hq]

theorem get?_erase_of_isPrefix (hR : R ≠ []) {q : Place} (h : R <+: q) :
    (t.erase R).get? q = none := by
  have hq : q ≠ [] := by
    rintro rfl
    exact hR (List.prefix_nil.1 h)
  obtain ⟨r, rfl⟩ := h
  rw [get?_erase hq, Text.hasPrefix, Text.dropPrefix?_eq_some.2 rfl]
  rfl

theorem get?_erase_of_not_isPrefix {q : Place} (h : ¬ R <+: q) :
    (t.erase R).get? q = t.get? q := by
  by_cases hq : q = []
  · rw [hq, get?_nil, get?_nil]
  · rw [get?_erase hq, Text.hasPrefix]
    cases hd : Text.dropPrefix? R q with
    | none => rfl
    | some r => exact absurd ⟨r, (Text.dropPrefix?_eq_some.1 hd).symm⟩ h

/-! ### Walking -/

theorem walk_append (t : Tree) (a : Place) (S S' : List Name) :
    t.walk a (S ++ S') = match t.walk a S with
      | .ok b => t.walk b S'
      | .error e => .error e := by
  induction S generalizing a with
  | nil => rfl
  | cons s S ih =>
    rw [List.cons_append, walk, walk]
    cases t.get? a with
    | none => rfl
    | some e =>
      cases e with
      | directory =>
        simp only
        split
        · exact ih _
        · split
          · rfl
          · exact ih _
      | file | tool | sink => rfl

theorem walk_plain (hn : n.Plain) (ha : t.get? a = some .directory) :
    t.walk a [n] = .ok (a ++ [n]) := by
  rw [walk, ha]
  simp only
  rw [if_neg hn.ne_parent, if_neg (Nat.not_lt.2 hn.size_le), walk]

theorem walk_concat (hS : t.walk a S = .ok R) (hR : t.get? R = some .directory) (hn : n.Plain) :
    t.walk a (S ++ [n]) = .ok (R ++ [n]) := by
  rw [walk_append, hS]
  exact walk_plain hn hR

theorem walk_of_directories (h : ∀ q, t.get? q = some .directory → u.get? q = some .directory)
    (hS : t.walk a S = .ok R) : u.walk a S = .ok R := by
  induction S generalizing a with
  | nil => exact hS
  | cons s S ih =>
    rw [walk] at hS ⊢
    cases ha : t.get? a with
    | none =>
      rw [ha] at hS
      cases hS
    | some e =>
      rw [ha] at hS
      cases e with
      | directory =>
        rw [h a ha]
        simp only at hS ⊢
        split at hS
        · rename_i hparent
          rw [if_pos hparent]
          exact ih hS
        · rename_i hparent
          rw [if_neg hparent]
          split at hS
          · cases hS
          · rename_i hlong
            rw [if_neg hlong]
            exact ih hS
      | file | tool | sink => cases hS

/-! ### Making directories -/

theorem makeDirectories_of_walk (hS : t.walk a S = .ok R) (hR : t.get? R = some .directory) :
    t.makeDirectories a S.reverse = (t, none) := by
  rcases List.eq_nil_or_concat S with rfl | ⟨S', s, rfl⟩
  · rfl
  · rw [List.concat_eq_append] at *
    have hmake : t.makeDirectory a (S' ++ [s]) = .error .exists_ := by
      rw [makeDirectory, hS]
      simp only [hR]
    have hleads : t.leadsToDirectory a (S' ++ [s]) = true := by
      rw [leadsToDirectory, hS]
      simp only [hR, decide_true]
    rw [List.reverse_append, List.reverse_singleton, List.singleton_append, makeDirectories]
    simp only [List.reverse_cons, List.reverse_reverse, hmake, hleads]
    rfl

/-- If all directories on a way can be made, then the way is there, or ends at a place that is
free, or misses a directory. -/
theorem walk_of_makeDirectories (h : t.makeDirectories a S.reverse = (u, none)) :
    (∃ b, t.walk a S = .ok b ∧ (S = [] ∨ t.get? b = some .directory ∨ t.get? b = none)) ∨
      t.walk a S = .error .noEntry := by
  rcases List.eq_nil_or_concat S with rfl | ⟨S', s, rfl⟩
  · exact .inl ⟨a, rfl, .inl rfl⟩
  · rw [List.concat_eq_append] at *
    rw [List.reverse_append, List.reverse_singleton, List.singleton_append, makeDirectories] at h
    simp only [List.reverse_cons, List.reverse_reverse] at h
    cases hw : t.walk a (S' ++ [s]) with
    | error e =>
      right
      simp only [makeDirectory, leadsToDirectory, hw, Bool.and_false, Bool.false_eq_true,
        if_false] at h
      split at h
      · rename_i he
        rw [he]
      · cases h
    | ok b =>
      left
      refine ⟨b, rfl, .inr ?_⟩
      cases hb : t.get? b with
      | none => exact .inr rfl
      | some e =>
        left
        by_cases hdir : some e = some Entry.directory
        · exact hdir
        · have hleads : t.leadsToDirectory a (S' ++ [s]) = false := by
            rw [leadsToDirectory, hw]
            simp only [hb]
            exact decide_eq_false hdir
          simp only [makeDirectory, hw, hb, hleads, Bool.and_false, Bool.false_eq_true,
            if_false] at h
          cases h

theorem makeDirectories_concat (h : t.makeDirectories a S.reverse = (u, none))
    (hS : u.walk a S = .ok R) (hR : u.get? R = some .directory) (hn : n.Plain)
    (hfree : u.get? (R ++ [n]) = none) :
    t.makeDirectories a (S ++ [n]).reverse = (u.put (R ++ [n]) .directory, none) := by
  have hmake : u.makeDirectory a (S ++ [n]) = .ok (u.put (R ++ [n]) .directory) := by
    rw [makeDirectory, walk_concat hS hR hn]
    simp only [hfree]
  have hmissing (hw : t.walk a (S ++ [n]) = .error .noEntry) :
      t.makeDirectories a (S ++ [n]).reverse = (u.put (R ++ [n]) .directory, none) := by
    have hfail : t.makeDirectory a (S ++ [n]) = .error .noEntry := by rw [makeDirectory, hw]
    rw [List.reverse_append, List.reverse_singleton, List.singleton_append, makeDirectories]
    simp only [List.reverse_cons, List.reverse_reverse, hfail, if_true, h, hmake]
  rcases walk_of_makeDirectories h with ⟨b, hb, hcases⟩ | hb
  · by_cases hdir : t.get? b = some .directory
    · have hu : u = t := by
        have := makeDirectories_of_walk hb hdir
        rw [h] at this
        exact congrArg Prod.fst this
      subst hu
      rw [List.reverse_append, List.reverse_singleton, List.singleton_append, makeDirectories]
      simp only [List.reverse_cons, List.reverse_reverse, hmake]
    · rcases hcases with rfl | hdir' | hnone
      · cases hb
        have hu : (u, (none : Option Errno)) = (t, none) := h.symm
        cases hu
        cases hS
        exact absurd hR hdir
      · exact absurd hdir' hdir
      · refine hmissing ?_
        rw [walk_append, hb]
        simp only [walk, hnone]
  · refine hmissing ?_
    rw [walk_append, hb]

/-! ### Paths to a place -/

theorem resolve_eq (hw : t.walk (p.origin here) p.steps = .ok R) :
    t.resolve here p = match p.fault? with
      | some f => .error f
      | none => .ok R := by
  rw [resolve, Path.fault?]
  split
  · rfl
  · split
    · rfl
    · split
      · rfl
      · simp only [Path.origin] at hw
        rw [hw]

theorem lookup_eq (hw : t.walk (p.origin here) p.steps = .ok R)
    (hR : t.get? R = some .directory) :
    t.lookup here p = match p.fault? with
      | some f => .error f
      | none => .ok (R, .directory) := by
  rw [lookup, resolve_eq hw]
  cases p.fault? with
  | some f => rfl
  | none => simp only [bind, Except.bind, hR]

theorem write_eq (hw : t.walk (p.origin here) p.steps = .ok R) (hp : p.wantsDirectory = false)
    (hfree : t.get? R = none) (content : List UInt8) :
    t.write here p content = match p.fault? with
      | some f => .error f
      | none => .ok (t.put R (.file content false)) := by
  rw [write, resolve_eq hw]
  cases p.fault? with
  | some f => rfl
  | none => simp only [bind, Except.bind, hp, hfree, Bool.false_eq_true, if_false]

theorem removeDirectory_eq (hw : t.walk (p.origin here) p.steps = .ok R)
    (hR : t.get? R = some .directory) :
    t.removeDirectory here p = match p.fault? with
      | some f => .error f
      | none => .ok (t.erase R) := by
  rw [removeDirectory, lookup_eq hw hR]
  cases p.fault? <;> rfl

theorem makePath_eq {e : Option Errno} (hp : p.text ≠ [])
    (h : t.makeDirectories (p.origin here) p.steps.reverse = (u, e)) :
    t.makePath here p = match p.fault? with
      | some f => (t, some f)
      | none => (u, e.map .system) := by
  rw [makePath, Path.fault?]
  have hne : ¬ p.text.isEmpty = true := by simpa using hp
  rw [if_neg hne, if_neg hne]
  split
  · rfl
  · split
    · rfl
    · simp only [Path.origin] at h
      rw [h]

theorem makeDirectories_of_makePath (h : t.makePath here p = (u, none)) :
    t.makeDirectories (p.origin here) p.steps.reverse = (u, none) := by
  rw [makePath] at h
  split at h
  · rename_i he
    have hnil : p.steps = [] := by
      rw [Path.steps, List.isEmpty_iff.1 he]
      rfl
    rw [hnil, List.reverse_nil, makeDirectories]
    cases h
    rfl
  · split at h
    · cases h
    · split at h
      · cases h
      · rw [Path.origin]
        generalize t.makeDirectories (if p.isAbsolute then [] else here) p.steps.reverse = r at h ⊢
        obtain ⟨v, e⟩ := r
        cases e with
        | none =>
          cases h
          rfl
        | some e => cases h

end Tree

end Notebook.Files
