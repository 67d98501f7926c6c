import Notebook.Execution.Order
import Mathlib.Data.List.Basic

/-!
Counters that are made, shared and drawn from. Whoever draws from a counter gets the number after
the last one, so the numbers of each counter are those from one on.
-/

namespace Notebook.Execution

/-- Counters, with the users that have drawn so far and the numbers that they got. -/
structure Tally where
  counters : Counters
  drawn : List (Nat × Nat)

theorem concat_cases {α : Type} {l : List α} {a b : α} {i : Nat} (h : (l ++ [a])[i]? = some b) :
    l[i]? = some b ∨ (i = l.length ∧ a = b) := by
  rcases Nat.lt_or_ge i l.length with hlt | hge
  · exact .inl ((List.getElem?_append_left hlt).symm.trans h)
  · rw [List.getElem?_append_right hge, List.getElem?_singleton] at h
    split at h <;> cases h
    exact .inr ⟨by omega, rfl⟩

namespace Counters

variable {α : Type} {c c' : Counters} {u k : Nat} {a : α} {f : Counter → α × Counter}

theorem use_eq_some : c.use u f = some (a, c') ↔ ∃ k n, c.users[u]? = some k ∧
    c.counters[k]? = some n ∧ (f n).1 = a ∧
      { c with counters := c.counters.set k (f n).2 } = c' := by
  rw [use]
  constructor
  · intro h
    obtain ⟨k, hk, h⟩ := Option.bind_eq_some_iff.1 h
    obtain ⟨n, hn, h⟩ := Option.bind_eq_some_iff.1 h
    cases h
    exact ⟨k, n, hk, hn, rfl, rfl⟩
  · rintro ⟨k, n, hk, hn, rfl, rfl⟩
    exact Option.bind_eq_some_iff.2 ⟨k, hk, Option.bind_eq_some_iff.2 ⟨n, hn, rfl⟩⟩

end Counters

namespace Tally

def empty : Tally := ⟨⟨[], []⟩, []⟩

/-- Lets `u` do something with its counter that takes a number, and notes the number. -/
def draw {α : Type} (t : Tally) (u : Nat) (f : Counter → α × Counter) (number : α → Nat) :
    Option (α × Tally) :=
  (t.counters.use u f).map fun (a, counters) => (a, ⟨counters, t.drawn ++ [(u, number a)]⟩)

/-- The numbers that have been drawn from the counter at place `k`, through whichever user. -/
def drawnFrom (t : Tally) (k : Nat) : List Nat :=
  (t.drawn.filter fun e => t.counters.users[e.1]? = some k).map Prod.snd

/-- The tally after `u` has drawn from its counter `c` at place `k`. -/
def take (t : Tally) (u k : Nat) (c : Counter) : Tally :=
  ⟨{ t.counters with counters := t.counters.counters.set k c.next.2 }, t.drawn ++ [(u, c.next.1)]⟩

/-- What `u` would draw, if it has a counter. -/
def next? (t : Tally) (u : Nat) : Option (Nat × Nat) :=
  (t.counters.counter? u).map fun c => (u, c.next.1)

/-- What can become of a tally at once. -/
inductive Change (t : Tally) : Tally → Prop where
  | keep : Change t t
  | create : Change t ⟨t.counters.create, t.drawn⟩
  | share {u k : Nat} (hu : t.counters.users[u]? = some k) :
      Change t ⟨⟨t.counters.counters, t.counters.users ++ [k]⟩, t.drawn⟩
  | take {u k : Nat} {c : Counter} (hu : t.counters.users[u]? = some k)
      (hk : t.counters.counters[k]? = some c) : Change t (t.take u k c)

/-- The numbers of each counter have been drawn in turn, from one up to its last. -/
structure Sound (t : Tally) : Prop where
  users : ∀ k ∈ t.counters.users, k < t.counters.counters.length
  drawers : ∀ e ∈ t.drawn, e.1 < t.counters.users.length
  numbers : ∀ (k : Nat) c, t.counters.counters[k]? = some c → t.drawnFrom k = List.range' 1 c.last

variable {t t' : Tally} {u v k n : Nat} {c : Counter}

theorem draw_eq_some {α : Type} {a : α} {f : Counter → α × Counter} {g : α → Nat}
    (hf : ∀ c, (g (f c).1, (f c).2) = c.next) :
    t.draw u f g = some (a, t') ↔ ∃ k c, t.counters.users[u]? = some k ∧
      t.counters.counters[k]? = some c ∧ (f c).1 = a ∧ t.take u k c = t' := by
  have hnumber (c : Counter) : g (f c).1 = c.next.1 := congrArg Prod.fst (hf c)
  have hnext (c : Counter) : (f c).2 = c.next.2 := congrArg Prod.snd (hf c)
  rw [draw, Option.map_eq_some_iff]
  constructor
  · rintro ⟨⟨b, counters⟩, huse, h⟩
    obtain ⟨k, c, hk, hc, rfl, rfl⟩ := Counters.use_eq_some.1 huse
    cases h
    refine ⟨k, c, hk, hc, rfl, ?_⟩
    rw [take, hnumber, hnext]
  · rintro ⟨k, c, hk, hc, rfl, rfl⟩
    refine ⟨_, Counters.use_eq_some.2 ⟨k, c, hk, hc, rfl, rfl⟩, ?_⟩
    simp only [take, hnumber, hnext]

theorem sound_empty : empty.Sound where
  users := by rintro k ⟨⟩
  drawers := by rintro e ⟨⟩
  numbers := by rintro k c ⟨⟩

theorem counter?_eq_some : t.counters.counter? u = some c ↔
    ∃ k, t.counters.users[u]? = some k ∧ t.counters.counters[k]? = some c :=
  Option.bind_eq_some_iff

/-- Whoever has a counter can draw, and gets its next number. -/
theorem drawn_draw {α : Type} {f : Counter → α × Counter} {g : α → Nat}
    (hf : ∀ c, (g (f c).1, (f c).2) = c.next) (t : Tally) (u : Nat) :
    ((t.draw u f g).map (·.2.drawn)).getD t.drawn = t.drawn ++ (t.next? u).toList := by
  rw [next?]
  cases hc : t.counters.counter? u with
  | none =>
    have hnone : t.draw u f g = none := by
      rw [Option.eq_none_iff_forall_ne_some]
      rintro ⟨a, t'⟩ hdraw
      obtain ⟨k, c, hu, hk, -, -⟩ := (draw_eq_some hf).1 hdraw
      cases hc.symm.trans (counter?_eq_some.2 ⟨k, hu, hk⟩)
    rw [hnone]
    exact (List.append_nil _).symm
  | some c =>
    obtain ⟨k, hu, hk⟩ := counter?_eq_some.1 hc
    rw [(draw_eq_some hf).2 ⟨k, c, hu, hk, rfl, rfl⟩]
    rfl

theorem drawnFrom_take (t : Tally) (c : Counter) (hu : t.counters.users[u]? = some k) :
    (t.take u k c).drawnFrom n =
      if n = k then t.drawnFrom n ++ [c.last + 1] else t.drawnFrom n := by
  show ((t.drawn ++ [(u, c.last + 1)]).filter
    fun e => t.counters.users[e.1]? = some n).map Prod.snd = _
  rw [List.filter_append, List.map_append]
  by_cases hn : n = k
  · subst hn
    have hkept : [(u, c.last + 1)].filter (fun e => t.counters.users[e.1]? = some n) =
        [(u, c.last + 1)] := List.filter_cons_of_pos (by simpa using hu)
    rw [if_pos rfl, hkept]
    rfl
  · rw [if_neg hn, List.filter_cons_of_neg (by simpa [hu] using Ne.symm hn)]
    exact List.append_nil _

/-- New users have not drawn yet. -/
theorem drawnFrom_users (h : t.Sound) (counters : List Counter) (us : List Nat) (k : Nat) :
    drawnFrom ⟨⟨counters, t.counters.users ++ us⟩, t.drawn⟩ k = t.drawnFrom k := by
  rw [drawnFrom, drawnFrom]
  congr 1
  refine List.filter_congr fun e he => ?_
  rw [List.getElem?_append_left (h.drawers e he)]

/-- From a counter that is yet to be made nothing has been drawn. -/
theorem drawnFrom_eq_nil (h : t.Sound) (hk : t.counters.counters.length ≤ k) :
    t.drawnFrom k = [] := by
  rw [drawnFrom, List.map_eq_nil_iff, List.filter_eq_nil_iff]
  intro e _ he
  have hlt := h.users k (List.mem_of_getElem? (of_decide_eq_true he))
  omega

theorem Sound.counter_of_user (h : t.Sound) (hu : t.counters.users[u]? = some k) :
    ∃ c, t.counters.counters[k]? = some c :=
  ⟨_, List.getElem?_eq_getElem (h.users k (List.mem_of_getElem? hu))⟩

theorem Sound.change (h : t.Sound) (hchange : t.Change t') : t'.Sound := by
  cases hchange with
  | keep => exact h
  | create =>
    refine ⟨fun k hk => ?_, fun e he => ?_, fun k c hc => ?_⟩
    · show k < (t.counters.counters ++ [Counter.fresh]).length
      rw [List.length_append]
      rcases List.mem_append.1 hk with hk | hk
      · exact Nat.lt_succ_of_lt (h.users k hk)
      · rw [List.mem_singleton.1 hk]
        exact Nat.lt_succ_self _
    · show e.1 < (t.counters.users ++ [_]).length
      rw [List.length_append]
      exact Nat.lt_succ_of_lt (h.drawers e he)
    · refine (drawnFrom_users h _ _ k).trans ?_
      rcases concat_cases hc with hc | ⟨rfl, rfl⟩
      · exact h.numbers k c hc
      · exact drawnFrom_eq_nil h (Nat.le_refl _)
  | share hu =>
    refine ⟨fun k hk => ?_, fun e he => ?_, fun k c hc => ?_⟩
    · rcases List.mem_append.1 hk with hk | hk
      · exact h.users k hk
      · rw [List.mem_singleton.1 hk]
        exact h.users _ (List.mem_of_getElem? hu)
    · show e.1 < (t.counters.users ++ [_]).length
      rw [List.length_append]
      exact Nat.lt_succ_of_lt (h.drawers e he)
    · exact (drawnFrom_users h _ _ k).trans (h.numbers k c hc)
  | @take u j d hu hj =>
    refine ⟨fun k hk => ?_, fun e he => ?_, fun k c hc => ?_⟩
    · show k < (t.counters.counters.set j _).length
      rw [List.length_set]
      exact h.users k hk
    · rcases List.mem_append.1 he with he | he
      · exact h.drawers e he
      · rw [List.mem_singleton.1 he]
        exact (List.getElem?_eq_some_iff.1 hu).1
    · have hc' : (t.counters.counters.set j d.next.2)[k]? = some c := hc
      rw [drawnFrom_take t d hu]
      by_cases hk : k = j
      · subst hk
        rw [List.getElem?_set_self (List.getElem?_eq_some_iff.1 hj).1] at hc'
        cases hc'
        have hlast : d.next.2.last = d.last + 1 := rfl
        rw [if_pos rfl, h.numbers k d hj, hlast, List.range'_1_concat, Nat.add_comm 1]
      · rw [List.getElem?_set_ne (Ne.symm hk)] at hc'
        rw [if_neg hk]
        exact h.numbers k c hc'

/-- A counter changes only when one of its users draws from it, who then gets the next number. -/
theorem Sound.counter (h : t.Sound) (hchange : t.Change t')
    (hc : t.counters.counters[k]? = some c) :
    (t'.counters.counters[k]? = some c ∧ t'.drawnFrom k = t.drawnFrom k) ∨
      ∃ u, t.counters.users[u]? = some k ∧ t'.drawn = t.drawn ++ [(u, c.last + 1)] ∧
        t'.counters.counters[k]? = some ⟨c.last + 1⟩ ∧
          t'.drawnFrom k = t.drawnFrom k ++ [c.last + 1] := by
  have hlt := (List.getElem?_eq_some_iff.1 hc).1
  cases hchange with
  | keep => exact .inl ⟨hc, rfl⟩
  | create => exact .inl ⟨(List.getElem?_append_left hlt).trans hc, drawnFrom_users h _ _ k⟩
  | share _ => exact .inl ⟨hc, drawnFrom_users h _ _ k⟩
  | @take v j d hv hj =>
    rw [drawnFrom_take t d hv]
    by_cases hk : k = j
    · subst hk
      obtain rfl := Option.some.inj (hj.symm.trans hc)
      rw [if_pos rfl]
      exact .inr ⟨v, hv, rfl, List.getElem?_set_self hlt, rfl⟩
    · rw [if_neg hk]
      exact .inl ⟨(List.getElem?_set_ne (Ne.symm hk)).trans hc, rfl⟩

theorem Sound.mem_drawnFrom (h : t.Sound) (hchange : t.Change t')
    (hk : k < t.counters.counters.length) (hn : n ∈ t.drawnFrom k) : n ∈ t'.drawnFrom k := by
  rcases h.counter hchange (List.getElem?_eq_getElem hk) with ⟨-, heq⟩ | ⟨u, -, -, -, heq⟩
  · rw [heq]
    exact hn
  · rw [heq]
    exact List.mem_append_left _ hn

/-- Users come at the end and keep their counters. -/
theorem Change.user (h : t.Change t') (hu : t.counters.users[u]? = some k) :
    t'.counters.users[u]? = some k := by
  cases h with
  | keep | take _ _ => exact hu
  | create | share _ =>
    exact (List.getElem?_append_left (List.getElem?_eq_some_iff.1 hu).1).trans hu

end Tally

end Notebook.Execution
