import Notebook.Proofs.Files.Way
import Mathlib.Data.List.Induction

/-!
Making a directory together with those missing on the way to it. What is new afterwards are
directories on that way, and doing it once more changes nothing, whether it succeeds or not.
-/

namespace Notebook.Files

/-- Where steps lead by their names alone. -/
def follow (here : Place) (steps : List Name) : Place :=
  steps.foldl (fun p s => if s = Path.parent then p.dropLast else p ++ [s]) here

namespace Path

/-- Where a path leads by its names alone. -/
def place (p : Path) (here : Place) : Place := follow (p.origin here) p.steps

theorem place_join {p : Path} {n : Name} (hn : n.Plain) (here : Place) :
    (p.join ⟨n⟩).place here = p.place here ++ [n] := by
  rw [place, place, origin_join hn, steps_join hn, follow, follow, List.foldl_append,
    List.foldl_cons, List.foldl_nil, if_neg hn.ne_parent]

/-- The place is on the way of a path, from where it starts to where it leads. -/
def Passes (p : Path) (here q : Place) : Prop :=
  ∃ S, S <+: p.steps ∧ q = follow (p.origin here) S

end Path

namespace Tree

variable {t u v : Tree} {here a b : Place} {S : List Name} {n : Name} {p : Path} {e : Option Errno}

/-- There is a directory at the end of steps. -/
def Leads (t : Tree) (a : Place) (S : List Name) : Prop :=
  ∃ b, t.walk a S = .ok b ∧ t.get? b = some .directory

theorem follow_of_walk (h : t.walk a S = .ok b) : b = follow a S := by
  induction S generalizing a with
  | nil =>
    cases h
    rfl
  | cons s S ih =>
    rw [walk] at h
    split at h
    · cases h
    · rw [follow, List.foldl_cons, ← follow]
      split at h
      · rename_i hs
        rw [if_pos hs]
        exact ih h
      · rename_i hs
        rw [if_neg hs]
        split at h
        · cases h
        · exact ih h
    · cases h

theorem leadsToDirectory_iff : t.leadsToDirectory a S = true ↔ t.Leads a S := by
  rw [leadsToDirectory]
  constructor
  · intro h
    split at h
    · rename_i b hb
      exact ⟨b, hb, by simpa using h⟩
    · cases h
  · rintro ⟨b, hb, hdir⟩
    rw [hb]
    simpa using hdir

theorem leads_of_walk_concat (h : t.walk a (S ++ [n]) = .ok b) : t.Leads a S := by
  rw [walk_append] at h
  cases hc : t.walk a S with
  | error e =>
    rw [hc] at h
    cases h
  | ok c =>
    refine ⟨c, hc, ?_⟩
    rw [hc] at h
    simp only [walk] at h
    split at h
    · cases h
    · assumption
    · cases h

theorem Leads.of_concat (h : t.Leads a (S ++ [n])) : t.Leads a S := by
  obtain ⟨b, hb, -⟩ := h
  exact leads_of_walk_concat hb

theorem Leads.makeDirectories (h : t.Leads a S) : t.makeDirectories a S.reverse = (t, none) := by
  obtain ⟨b, hb, hdir⟩ := h
  exact makeDirectories_of_walk hb hdir

theorem makeDirectory_cases (t : Tree) (a : Place) (S : List Name) :
    (∃ b, t.walk a S = .ok b ∧ t.get? b = none ∧ t.makeDirectory a S = .ok (t.put b .directory)) ∨
    ∃ e, (∀ b, t.walk a S = .ok b → t.get? b ≠ none) ∧ t.makeDirectory a S = .error e := by
  rw [makeDirectory]
  cases hw : t.walk a S with
  | error e => exact .inr ⟨e, by rintro b ⟨⟩, rfl⟩
  | ok b =>
    cases hb : t.get? b with
    | none => exact .inl ⟨b, rfl, hb, by simp only [hb]⟩
    | some e =>
      refine .inr ⟨.exists_, ?_, by simp only [hb]⟩
      rintro c ⟨⟩
      rw [hb]
      simp

/-- How one directory more is made: in the tree as it is or with those on the way to it, it is there
already, or it is new, or it cannot be made. Or those on the way cannot be made. -/
theorem makeDirectories_concat_cases (t : Tree) (a : Place) (S : List Name) (n : Name) :
    (∃ u, (u = t ∨ t.makeDirectories a S.reverse = (u, none)) ∧ u.Leads a (S ++ [n]) ∧
      t.makeDirectories a (S ++ [n]).reverse = (u, none)) ∨
    (∃ u b, (u = t ∨ t.makeDirectories a S.reverse = (u, none)) ∧ u.walk a (S ++ [n]) = .ok b ∧
      u.get? b = none ∧ t.makeDirectories a (S ++ [n]).reverse = (u.put b .directory, none)) ∨
    (∃ u e, (u = t ∨ t.makeDirectories a S.reverse = (u, none)) ∧ ¬ u.Leads a (S ++ [n]) ∧
      (∀ b, u.walk a (S ++ [n]) = .ok b → u.get? b ≠ none) ∧
      t.makeDirectories a (S ++ [n]).reverse = (u, some e)) ∨
    ∃ u e, t.makeDirectories a S.reverse = (u, some e) ∧
      t.makeDirectories a (S ++ [n]).reverse = (u, some e) := by
  rw [List.reverse_append, List.reverse_singleton, List.singleton_append, makeDirectories]
  simp only [List.reverse_cons, List.reverse_reverse]
  rcases makeDirectory_cases t a (S ++ [n]) with ⟨b, hb, hfree, hmake⟩ | ⟨e, hblocked, hmake⟩
  · rw [hmake]
    exact .inr (.inl ⟨t, b, .inl rfl, hb, hfree, rfl⟩)
  · rw [hmake]
    simp only
    split
    -- The way there is missing. It is made first, and then there is a second attempt.
    · cases hS : t.makeDirectories a S.reverse with
      | mk u e' =>
        cases e' with
        | some e' => exact .inr (.inr (.inr ⟨u, e', rfl, rfl⟩))
        | none =>
          rcases makeDirectory_cases u a (S ++ [n]) with ⟨b, hb, hfree, hmake'⟩ |
            ⟨e', hblocked', hmake'⟩
          · simp only [hmake']
            exact .inr (.inl ⟨u, b, .inr rfl, hb, hfree, rfl⟩)
          · simp only [hmake']
            by_cases hleads : u.leadsToDirectory a (S ++ [n]) = true
            · rw [if_pos hleads]
              exact .inl ⟨u, .inr rfl, leadsToDirectory_iff.1 hleads, rfl⟩
            · rw [if_neg hleads]
              have hno : ¬ u.Leads a (S ++ [n]) := fun h => hleads (leadsToDirectory_iff.2 h)
              exact .inr (.inr (.inl ⟨u, e', .inr rfl, hno, hblocked', rfl⟩))
    -- A directory that is there already is no failure.
    · by_cases hleads : t.leadsToDirectory a (S ++ [n]) = true
      · refine .inl ⟨t, .inl rfl, leadsToDirectory_iff.1 hleads, ?_⟩
        have he : e = .exists_ := by
          obtain ⟨b, hb, hdir⟩ := leadsToDirectory_iff.1 hleads
          rw [makeDirectory, hb] at hmake
          simp only [hdir, Except.error.injEq] at hmake
          exact hmake.symm
        simp [he, hleads]
      · have hno : ¬ t.Leads a (S ++ [n]) := fun h => hleads (leadsToDirectory_iff.2 h)
        refine .inr (.inr (.inl ⟨t, e, .inl rfl, hno, hblocked, ?_⟩))
        simp [hleads]

theorem leads_of_put (h : t.walk a S = .ok b) (hfree : t.get? b = none) :
    (t.put b .directory).Leads a S := by
  have hb : b ≠ [] := by
    rintro rfl
    rw [get?_nil] at hfree
    cases hfree
  refine ⟨b, walk_of_directories (fun q hq => ?_) h, get?_put_self hb⟩
  rw [get?_put hb]
  split
  · rfl
  · exact hq

theorem not_leads_of_failed {e : Errno} (h : t.makeDirectories a S.reverse = (u, some e)) :
    ¬ u.Leads a S := by
  induction S using List.reverseRecOn generalizing u e with
  | nil => cases h
  | append_singleton S n ih =>
    rcases makeDirectories_concat_cases t a S n with ⟨v, -, -, heq⟩ | ⟨v, b, -, -, -, heq⟩ |
      ⟨v, e', -, hno, -, heq⟩ | ⟨v, e', hS, heq⟩
    · cases heq.symm.trans h
    · cases heq.symm.trans h
    · cases heq.symm.trans h
      exact hno
    · cases heq.symm.trans h
      exact fun hleads => ih hS hleads.of_concat

/-- An attempt changes nothing more if the way there has been made as far as it can be, and what is
at its end cannot be made. -/
theorem makeDirectories_of_blocked (hS : (u.makeDirectories a S.reverse).1 = u)
    (hblocked : ∀ b, u.walk a (S ++ [n]) = .ok b → u.get? b ≠ none) :
    (u.makeDirectories a (S ++ [n]).reverse).1 = u := by
  have hsame {w : Tree} (hw : w = u ∨ u.makeDirectories a S.reverse = (w, none)) : w = u := by
    rcases hw with rfl | hw
    · rfl
    · rw [hw] at hS
      exact hS
  rcases makeDirectories_concat_cases u a S n with ⟨w, hw, -, heq⟩ | ⟨w, b, hw, hb, hfree, -⟩ |
    ⟨w, e, hw, -, -, heq⟩ | ⟨w, e, hw, heq⟩
  · rw [heq]
    exact hsame hw
  · rw [hsame hw] at hb hfree
    exact absurd hfree (hblocked b hb)
  · rw [heq]
    exact hsame hw
  · rw [heq]
    rw [hw] at hS
    exact hS

theorem makeDirectories_again (h : t.makeDirectories a S.reverse = (u, e)) :
    (u.makeDirectories a S.reverse).1 = u := by
  induction S using List.reverseRecOn generalizing u e with
  | nil => rfl
  | append_singleton S n ih =>
    rcases makeDirectories_concat_cases t a S n with ⟨v, -, hleads, heq⟩ |
      ⟨v, b, -, hb, hfree, heq⟩ | ⟨v, e', hv, hno, hblocked, heq⟩ | ⟨v, e', hS, heq⟩
    · cases heq.symm.trans h
      rw [hleads.makeDirectories]
    · cases heq.symm.trans h
      rw [(leads_of_put hb hfree).makeDirectories]
    · cases heq.symm.trans h
      rcases hv with rfl | hS
      · rw [heq]
      · exact makeDirectories_of_blocked (ih hS) hblocked
    · cases heq.symm.trans h
      refine makeDirectories_of_blocked (ih hS) fun b hb => ?_
      exact absurd (leads_of_walk_concat hb) (not_leads_of_failed hS)

/-- Nothing can be made where the way there cannot. -/
theorem makeDirectories_concat_of_not_leads (hS : t.makeDirectories a S.reverse = (u, e))
    (hno : ¬ u.Leads a S) (n : Name) :
    ∃ v e', t.makeDirectories a (S ++ [n]).reverse = (v, some e') ∧ (v = t ∨ v = u) ∧
      ¬ v.Leads a (S ++ [n]) := by
  have hnone {v : Tree} (hv : v = t ∨ t.makeDirectories a S.reverse = (v, none)) :
      (v = t ∨ v = u) ∧ ¬ v.Leads a S := by
    rcases hv with rfl | hv
    · refine ⟨.inl rfl, fun hleads => hno ?_⟩
      rw [hleads.makeDirectories] at hS
      cases hS
      exact hleads
    · rw [hS] at hv
      cases hv
      exact ⟨.inr rfl, hno⟩
  rcases makeDirectories_concat_cases t a S n with ⟨v, hv, hleads, -⟩ | ⟨v, b, hv, hb, -, -⟩ |
    ⟨v, e', hv, hleads, -, heq⟩ | ⟨v, e', hv, heq⟩
  · exact absurd hleads.of_concat (hnone hv).2
  · exact absurd (leads_of_walk_concat hb) (hnone hv).2
  · exact ⟨v, e', heq, (hnone hv).1, hleads⟩
  · rw [hS] at hv
    cases hv
    exact ⟨u, e', heq, .inr rfl, fun hleads => hno hleads.of_concat⟩

/-- All that is new are directories on the way. -/
theorem get?_of_makeDirectories (h : t.makeDirectories a S.reverse = (u, e)) (q : Place) :
    u.get? q = t.get? q ∨
      (t.get? q = none ∧ u.get? q = some .directory ∧ ∃ S', S' <+: S ∧ q = follow a S') := by
  induction S using List.reverseRecOn generalizing u e with
  | nil =>
    cases h
    exact .inl rfl
  | append_singleton S n ih =>
    have hold {v : Tree} {e : Option Errno} (hv : v = t ∨ t.makeDirectories a S.reverse = (v, e)) :
        v.get? q = t.get? q ∨ (t.get? q = none ∧ v.get? q = some .directory ∧
          ∃ S', S' <+: S ++ [n] ∧ q = follow a S') := by
      rcases hv with rfl | hv
      · exact .inl rfl
      · rcases ih hv with heq | ⟨hfree, hdir, S', hpre, hq⟩
        · exact .inl heq
        · exact .inr ⟨hfree, hdir, S', hpre.trans (List.prefix_append _ _), hq⟩
    rcases makeDirectories_concat_cases t a S n with ⟨v, hv, -, heq⟩ |
      ⟨v, b, hv, hb, hfree, heq⟩ | ⟨v, e', hv, -, -, heq⟩ | ⟨v, e', hv, heq⟩
    · cases heq.symm.trans h
      exact hold hv
    · cases heq.symm.trans h
      have hne : b ≠ [] := by
        rintro rfl
        rw [get?_nil] at hfree
        cases hfree
      rw [get?_put hne]
      split
      · rename_i hqb
        subst hqb
        refine .inr ⟨?_, rfl, S ++ [n], List.prefix_refl _, follow_of_walk hb⟩
        rcases hold hv with heq | ⟨hnone, -⟩
        · rw [← heq, hfree]
        · exact hnone
      · exact hold hv
    · cases heq.symm.trans h
      exact hold hv
    · cases heq.symm.trans h
      exact hold (.inr hv)

/-- What is no entry of a tree does not stand in it, unless it is a directory. -/
theorem get?_ne_of_entries {x : Entry} (hx : x ≠ .directory) (h : ∀ e ∈ t.entries, e.2 ≠ x)
    (q : Place) : t.get? q ≠ some x := by
  rw [get?]
  split
  · simp [Ne.symm hx]
  · intro hq
    obtain ⟨e, he, rfl⟩ := Option.map_eq_some_iff.1 hq
    exact h e (List.mem_of_find?_eq_some he) rfl

/-! ### Making one directory more -/

theorem Leads.of_directories (hdir : ∀ q, t.get? q = some .directory → u.get? q = some .directory)
    (h : t.Leads a S) : u.Leads a S := by
  obtain ⟨b, hb, hget⟩ := h
  exact ⟨b, walk_of_directories hdir hb, hdir b hget⟩

theorem leads_of_makeDirectories (h : t.makeDirectories a (S ++ [n]).reverse = (u, none)) :
    u.Leads a (S ++ [n]) := by
  rcases makeDirectories_concat_cases t a S n with ⟨v, -, hleads, heq⟩ | ⟨v, b, -, hb, hfree, heq⟩ |
    ⟨v, e, -, -, -, heq⟩ | ⟨v, e, -, heq⟩
  · cases heq.symm.trans h
    exact hleads
  · cases heq.symm.trans h
    exact leads_of_put hb hfree
  · cases heq.symm.trans h
  · cases heq.symm.trans h

/-- A directory is made as if those on the way to it had been made before. -/
theorem makeDirectories_concat_of_made (h : t.makeDirectories a S.reverse = (u, none))
    (hS : u.Leads a S) (hn : n.Plain) :
    t.makeDirectories a (S ++ [n]).reverse = u.makeDirectories a (S ++ [n]).reverse := by
  by_cases ht : t.Leads a S
  · rw [ht.makeDirectories] at h
    cases h
    rfl
  · have hmissing : t.walk a (S ++ [n]) = .error .noEntry := by
      rw [walk_append]
      rcases walk_of_makeDirectories h with ⟨b, hb, hcases⟩ | hb
      · rw [hb]
        rcases hcases with rfl | hdir | hfree
        · cases h
          exact absurd hS ht
        · exact absurd ⟨b, hb, hdir⟩ ht
        · simp only [walk, hfree]
      · rw [hb]
    have hfail : t.makeDirectory a (S ++ [n]) = .error .noEntry := by rw [makeDirectory, hmissing]
    obtain ⟨R, hR, hdir⟩ := hS
    have hwalk := walk_concat hR hdir hn
    rw [List.reverse_append, List.reverse_singleton, List.singleton_append, makeDirectories,
      makeDirectories]
    simp only [List.reverse_cons, List.reverse_reverse, hfail, if_true, h]
    cases hget : u.get? (R ++ [n]) with
    | none =>
      have hmake : u.makeDirectory a (S ++ [n]) = .ok (u.put (R ++ [n]) .directory) := by
        rw [makeDirectory, hwalk]
        simp only [hget]
      simp only [hmake]
    | some e =>
      have hmake : u.makeDirectory a (S ++ [n]) = .error .exists_ := by
        rw [makeDirectory, hwalk]
        simp only [hget]
      have hne : ¬ Errno.exists_ = Errno.noEntry := by decide
      simp [hmake, hne]

/-- A directory that cannot be made leaves those on the way to it. -/
theorem eq_of_unmade {e : Errno} (hS : u.Leads a S)
    (h : u.makeDirectories a (S ++ [n]).reverse = (v, some e)) :
    v = u ∧ ¬ u.Leads a (S ++ [n]) ∧ ∀ b, u.walk a (S ++ [n]) = .ok b → u.get? b ≠ none := by
  have hmade := hS.makeDirectories
  rcases makeDirectories_concat_cases u a S n with ⟨w, -, -, heq⟩ | ⟨w, b, -, -, -, heq⟩ |
    ⟨w, e', hw, hno, hblocked, heq⟩ | ⟨w, e', hw, -⟩
  · cases heq.symm.trans h
  · cases heq.symm.trans h
  · cases heq.symm.trans h
    have hv : v = u := by
      rcases hw with hw | hw
      · exact hw
      · cases hmade.symm.trans hw
        rfl
    subst hv
    exact ⟨rfl, hno, hblocked⟩
  · cases hmade.symm.trans hw

/-- If a directory cannot be made, the way to it is there just in case that it can be made, and
something else stands at its end. -/
theorem leads_of_unmade_iff {s : Name} {e : Errno} (hn : n.Plain)
    (h : t.makeDirectories a (S ++ [s] ++ [n]).reverse = (u, some e)) :
    u.Leads a (S ++ [s]) ↔ (t.makeDirectories a (S ++ [s]).reverse).2 = none ∧
      ∃ x, t.get? (follow a (S ++ [s] ++ [n])) = some x ∧ x ≠ .directory := by
  cases hmade : t.makeDirectories a (S ++ [s]).reverse with
  | mk v e' =>
    cases e' with
    | none =>
      have hv := leads_of_makeDirectories hmade
      rw [makeDirectories_concat_of_made hmade hv hn] at h
      obtain ⟨rfl, hno, hblocked⟩ := eq_of_unmade hv h
      refine iff_of_true hv ⟨rfl, ?_⟩
      obtain ⟨R, hR, hdir⟩ := hv
      have hwalk := walk_concat hR hdir hn
      obtain ⟨x, hx⟩ := Option.ne_none_iff_exists'.1 (hblocked _ hwalk)
      have hne : x ≠ .directory := by
        rintro rfl
        exact hno ⟨_, hwalk, hx⟩
      rw [← follow_of_walk hwalk]
      rcases get?_of_makeDirectories hmade (R ++ [n]) with hsame | ⟨-, hnew, -⟩
      · exact ⟨x, hsame ▸ hx, hne⟩
      · rw [hx] at hnew
        exact absurd (Option.some.inj hnew) hne
    | some e' =>
      have hno := not_leads_of_failed hmade
      refine iff_of_false (fun hleads => ?_) (by simp)
      obtain ⟨w, e'', heq, hw, -⟩ := makeDirectories_concat_of_not_leads hmade hno n
      cases heq.symm.trans h
      rcases hw with rfl | rfl
      · cases hleads.makeDirectories.symm.trans hmade
      · exact hno hleads

/-! ### Paths and their places -/

theorem resolve_eq_ok_iff :
    t.resolve here p = .ok b ↔ p.fault? = none ∧ t.walk (p.origin here) p.steps = .ok b := by
  cases hw : t.walk (p.origin here) p.steps with
  | ok c =>
    rw [resolve_eq hw]
    cases p.fault? <;> simp
  | error e =>
    have hres : t.resolve here p ≠ .ok b := by
      rw [resolve]
      simp only [Path.origin] at hw
      repeat' split
      all_goals simp_all
    simp [hres]

theorem place_of_resolve (h : t.resolve here p = .ok b) : b = p.place here :=
  follow_of_walk (resolve_eq_ok_iff.1 h).2

theorem isDirectory_iff :
    t.isDirectory here p = true ↔ p.fault? = none ∧ t.Leads (p.origin here) p.steps := by
  rw [isDirectory]
  constructor
  · intro h
    split at h
    · rename_i b hb
      rw [lookup] at hb
      cases hr : t.resolve here p with
      | error f =>
        rw [hr] at hb
        cases hb
      | ok c =>
        obtain ⟨hfault, hwalk⟩ := resolve_eq_ok_iff.1 hr
        rw [hr] at hb
        simp only [bind, Except.bind] at hb
        split at hb
        · exact ⟨hfault, c, hwalk, ‹_›⟩
        · split at hb
          · cases hb
          · cases hb
            contradiction
        · cases hb
    · cases h
  · rintro ⟨hfault, c, hwalk, hdir⟩
    rw [lookup_eq hwalk hdir, hfault]

theorem makePath_cases {f : Option Fault} (hp : p.text ≠ []) (h : t.makePath here p = (u, f)) :
    (p.fault? = f ∧ f ≠ none ∧ u = t) ∨ (p.fault? = none ∧
      ∃ e, f = e.map .system ∧ t.makeDirectories (p.origin here) p.steps.reverse = (u, e)) := by
  cases hmake : t.makeDirectories (p.origin here) p.steps.reverse with
  | mk v e =>
    rw [makePath_eq hp hmake] at h
    cases hfault : p.fault? with
    | some c =>
      rw [hfault] at h
      cases h
      exact .inl ⟨rfl, by simp, rfl⟩
    | none =>
      rw [hfault] at h
      cases h
      exact .inr ⟨rfl, e, rfl, rfl⟩

end Tree

end Notebook.Files
