import Notebook.Proofs.Execution.Locks
import Mathlib.Data.List.Dedup
import Mathlib.Data.List.Induction

/-!
A table of locks in use. Requests come, ask again and are dropped in any order. Those of a key that
are alive stand in one line, in the order in which they came: its lock is owned by the first of them
and awaited by the rest.
-/

namespace Notebook.Execution

open Program (Key)

namespace Mutex

/-- The lock that the first in line owns. -/
def ofLine (q : List Nat) : Mutex := ⟨q.head?, q.tail⟩

theorem request_ofLine (q : List Nat) (id : Nat) : (ofLine q).request id = ofLine (q ++ [id]) := by
  cases q <;> rfl

theorem leave_ofLine {q : List Nat} (hq : q.Nodup) (id : Nat) :
    (ofLine q).leave id = ofLine (q.filter (· ≠ id)) := by
  cases q with
  | nil => simp [ofLine, leave]
  | cons i q =>
    obtain ⟨hi, -⟩ := List.nodup_cons.1 hq
    by_cases h : i = id
    · subst h
      have hfilter : q.filter (· ≠ i) = q := by
        rw [List.filter_eq_self]
        intro j hj
        have hne : j ≠ i := fun hji => hi (hji ▸ hj)
        simpa using hne
      rw [List.filter_cons_of_neg (by simp), hfilter]
      simp [ofLine, leave]
    · rw [List.filter_cons_of_pos (by simpa using h)]
      simp [ofLine, leave, h]

end Mutex

/-- The requests for a key, in the order of a list of requests. -/
def lineOf (a : List (Nat × Key)) (k : Key) : List Nat := (a.filter (·.2 = k)).map Prod.fst

section

variable {a : List (Nat × Key)} {k k' : Key} {id i : Nat}

theorem mem_lineOf : i ∈ lineOf a k ↔ (i, k) ∈ a := by
  simp [lineOf]

theorem lineOf_ne_nil_iff : lineOf a k ≠ [] ↔ k ∈ a.map Prod.snd := by
  rw [List.mem_map]
  constructor
  · intro hne
    obtain ⟨i, hi⟩ := List.exists_mem_of_ne_nil _ hne
    exact ⟨(i, k), mem_lineOf.1 hi, rfl⟩
  · rintro ⟨⟨i, k⟩, he, rfl⟩
    exact List.ne_nil_of_mem (mem_lineOf.2 he)

theorem lineOf_append (a b : List (Nat × Key)) (k : Key) :
    lineOf (a ++ b) k = lineOf a k ++ lineOf b k := by
  rw [lineOf, List.filter_append, List.map_append, lineOf, lineOf]

theorem lineOf_concat_self (a : List (Nat × Key)) (id : Nat) (k : Key) :
    lineOf (a ++ [(id, k)]) k = lineOf a k ++ [id] := by
  rw [lineOf_append]
  simp [lineOf]

theorem lineOf_concat_ne (h : k' ≠ k) (a : List (Nat × Key)) (id : Nat) :
    lineOf (a ++ [(id, k)]) k' = lineOf a k' := by
  rw [lineOf_append]
  simp [lineOf, Ne.symm h]

theorem lineOf_drop (a : List (Nat × Key)) (id : Nat) (k : Key) :
    lineOf (a.filter (·.1 ≠ id)) k = (lineOf a k).filter (· ≠ id) := by
  rw [lineOf, lineOf, List.filter_map, List.filter_filter, List.filter_filter]
  congr 1
  refine List.filter_congr fun e _ => ?_
  simp [Bool.and_comm]

theorem lineOf_sublist (a : List (Nat × Key)) (k : Key) :
    (lineOf a k).Sublist (a.map Prod.fst) := List.filter_sublist.map _

theorem key_unique (ha : (a.map Prod.fst).Nodup) (h : (i, k) ∈ a) (h' : (i, k') ∈ a) : k = k' := by
  have hk := lookup_of_mem ha h
  rw [lookup_of_mem ha h'] at hk
  exact (Option.some.inj hk).symm

end

namespace Locks

/-- The table fits the requests that are alive: each is a user of its key, and the slot of a key
leads to the lock of the whole line. -/
structure Lined (l : Locks) (a : List (Nat × Key)) : Prop where
  sound : l.Sound
  nodup : (a.map Prod.fst).Nodup
  users : ∀ i k, (i, k) ∈ a ↔ ∃ u, l.user? i = some u ∧ u.key = k
  keys : (l.slots.map Prod.fst).Nodup
  slots : ∀ k s, l.slot? k = some s →
    lineOf a k ≠ [] ∧ l.mutexes[s.mutex]? = some (.ofLine (lineOf a k))
  apart : ∀ k k' s s', l.slot? k = some s → l.slot? k' = some s' → s.mutex = s'.mutex → k = k'

theorem lined_empty : empty.Lined [] where
  sound := sound_empty
  nodup := List.nodup_nil
  users := by
    intro i k
    constructor
    · rintro ⟨⟩
    · rintro ⟨u, ⟨⟩, -⟩
  keys := List.nodup_nil
  slots := by rintro k s ⟨⟩
  apart := by rintro k k' s s' ⟨⟩

namespace Lined

variable {l : Locks} {a : List (Nat × Key)} {k : Key} {id i : Nat}

theorem slot_of_mem (h : l.Lined a) (hi : i ∈ lineOf a k) :
    ∃ u s, l.user? i = some u ∧ u.key = k ∧ l.slot? k = some s ∧ s.mutex = u.mutex := by
  obtain ⟨u, hu, rfl⟩ := (h.users i k).1 (mem_lineOf.1 hi)
  obtain ⟨n, hn⟩ := h.sound.slots i u hu
  exact ⟨u, _, hu, rfl, hn, rfl⟩

theorem slot_iff (h : l.Lined a) (k : Key) : (l.slot? k).isSome ↔ lineOf a k ≠ [] := by
  constructor
  · intro hs
    obtain ⟨s, hs⟩ := Option.isSome_iff_exists.1 hs
    exact (h.slots k s hs).1
  · intro hne
    obtain ⟨i, hi⟩ := List.exists_mem_of_ne_nil _ hne
    obtain ⟨-, s, -, -, hs, -⟩ := h.slot_of_mem hi
    rw [hs]
    rfl

theorem slot?_eq_none (h : l.Lined a) (hk : lineOf a k = []) : l.slot? k = none := by
  rw [← Option.not_isSome_iff_eq_none, h.slot_iff, not_not]
  exact hk

theorem user?_eq_none_iff (h : l.Lined a) : l.user? id = none ↔ id ∉ a.map Prod.fst := by
  constructor
  · intro hid hmem
    obtain ⟨⟨i, k⟩, he, rfl⟩ := List.mem_map.1 hmem
    obtain ⟨u, hu, -⟩ := (h.users i k).1 he
    rw [hid] at hu
    cases hu
  · intro hid
    rw [Option.eq_none_iff_forall_not_mem]
    intro u hu
    exact hid (List.mem_map_of_mem ((h.users id u.key).2 ⟨u, hu, rfl⟩))

theorem nodup_lineOf (h : l.Lined a) (k : Key) : (lineOf a k).Nodup :=
  h.nodup.sublist (lineOf_sublist a k)

theorem usersOf_eq (h : l.Lined a) (k : Key) : l.usersOf k = (lineOf a k).length := by
  have hnodup : (l.users.map fun e => (e.1, e.2.key)).Nodup := by
    refine List.Nodup.of_map Prod.fst ?_
    rw [List.map_map]
    exact h.sound.nodup
  have hperm : (l.users.map fun e => (e.1, e.2.key)).Perm a := by
    rw [List.perm_ext_iff_of_nodup hnodup (.of_map _ h.nodup)]
    rintro ⟨i, k⟩
    rw [h.users, List.mem_map]
    constructor
    · rintro ⟨⟨j, u⟩, hu, heq⟩
      cases heq
      exact ⟨u, lookup_of_mem h.sound.nodup hu, rfl⟩
    · rintro ⟨u, hu, rfl⟩
      exact ⟨(i, u), mem_of_lookup hu, rfl⟩
  have hcount := hperm.countP_eq fun e => e.2 = k
  rw [List.countP_map] at hcount
  rw [lineOf, List.length_map, ← List.countP_eq_length_filter, ← hcount]
  rfl

/-! ### Who has the lock -/

theorem holds_iff : l.holds i = true ↔ ∃ u, l.user? i = some u ∧ u.isHolder = true := by
  rw [holds]
  cases l.user? i with
  | none => simp
  | some u => simp

theorem head_of_holds (h : l.Lined a) (hi : i ∈ lineOf a k) (hholds : l.holds i = true) :
    (lineOf a k).head? = some i := by
  obtain ⟨u, s, hu, -, hs, hm⟩ := h.slot_of_mem hi
  obtain ⟨v, hv, hholder⟩ := holds_iff.1 hholds
  obtain rfl : u = v := Option.some.inj (hu.symm.trans hv)
  obtain ⟨m, hmutex, howner⟩ := h.sound.held i u hu hholder
  rw [← hm, (h.slots k s hs).2] at hmutex
  cases hmutex
  exact howner

theorem holds_poll (h : l.Lined a) (hi : (lineOf a k).head? = some i) :
    (l.poll i).holds i = true := by
  obtain ⟨u, s, hu, -, hs, hm⟩ := h.slot_of_mem (List.mem_of_mem_head? hi)
  have hmutex := (h.slots k s hs).2
  rw [hm] at hmutex
  rw [holds_iff]
  refine ⟨{ u with isHolder := true }, ?_, rfl⟩
  simp only [poll, hu, hmutex, if_pos (show (Mutex.ofLine (lineOf a k)).owner = some i from hi)]
  exact lookup_put_self

/-! ### Asking -/

theorem poll_slots (l : Locks) (id : Nat) : (l.poll id).slots = l.slots := by
  rw [poll]
  split
  · rfl
  · split
    · rfl
    · split <;> rfl

theorem poll_mutexes (l : Locks) (id : Nat) : (l.poll id).mutexes = l.mutexes := by
  rw [poll]
  split
  · rfl
  · split
    · rfl
    · split <;> rfl

theorem key_poll (l : Locks) (id i : Nat) :
    ((l.poll id).user? i).map (·.key) = (l.user? i).map (·.key) := by
  by_cases hi : i = id
  · subst hi
    cases hu : l.user? i with
    | none =>
      rw [poll, hu]
      exact congrArg _ hu
    | some u =>
      obtain ⟨b, hb, -⟩ := user?_poll_self hu
      rw [hb]
      rfl
  · rw [user?_poll_ne hi]

theorem poll (h : l.Lined a) (id : Nat) : (l.poll id).Lined a := by
  have hslot (k : Key) : (l.poll id).slot? k = l.slot? k := by rw [slot?, poll_slots, slot?]
  refine ⟨sound_poll h.sound id, h.nodup, fun i k => ?_, ?_, fun k s hs => ?_,
    fun k k' s s' hs hs' => ?_⟩
  · have hkey := key_poll l id i
    rw [h.users]
    constructor
    · rintro ⟨u, hu, hk⟩
      rw [hu] at hkey
      obtain ⟨v, hv, hvk⟩ := Option.map_eq_some_iff.1 hkey
      exact ⟨v, hv, hvk.trans hk⟩
    · rintro ⟨v, hv, hk⟩
      rw [hv] at hkey
      obtain ⟨u, hu, huk⟩ := Option.map_eq_some_iff.1 hkey.symm
      exact ⟨u, hu, huk.trans hk⟩
  · rw [poll_slots]
    exact h.keys
  · rw [hslot] at hs
    rw [poll_mutexes]
    exact h.slots k s hs
  · rw [hslot] at hs hs'
    exact h.apart k k' s s' hs hs'

/-- Whoever enters for a key is sent to the lock of its line, which no other key has. -/
theorem enter (h : l.Lined a) (k : Key) :
    ((l.enter k).1.slots.map Prod.fst).Nodup ∧
      (l.enter k).1.mutexes[(l.enter k).2]? = some (.ofLine (lineOf a k)) ∧
        ∀ k' s, k' ≠ k → l.slot? k' = some s → s.mutex ≠ (l.enter k).2 := by
  rw [Locks.enter]
  cases hs : l.slot? k with
  | some s =>
    refine ⟨nodup_put h.keys, (h.slots k s hs).2, fun k' s' hk hs' hm => ?_⟩
    exact hk (h.apart k' k s' s hs' hs hm)
  | none =>
    have hline : lineOf a k = [] := by
      by_contra hne
      have hsome := (h.slot_iff k).2 hne
      rw [hs] at hsome
      cases hsome
    refine ⟨nodup_put h.keys, ?_, fun k' s' _ hs' hm => ?_⟩
    · rw [hline]
      exact List.getElem?_concat_length
    · have hlt := (List.getElem?_eq_some_iff.1 (h.slots k' s' hs').2).1
      exact Nat.ne_of_lt hlt hm

theorem request_slots (l : Locks) (id : Nat) (k : Key) :
    (l.request id k).slots = (l.enter k).1.slots := poll_slots _ id

theorem request_mutexes (l : Locks) (id : Nat) (k : Key) : (l.request id k).mutexes =
    (l.enter k).1.mutexes.modify (l.enter k).2 (·.request id) := poll_mutexes _ id

theorem request_slot? (l : Locks) (id : Nat) (k k' : Key) :
    (l.request id k).slot? k' = (l.enter k).1.slot? k' := by
  rw [slot?, request_slots, slot?]

theorem users_request (h : l.Lined a) (hid : id ∉ a.map Prod.fst) (k : Key) (i : Nat) (k' : Key) :
    (i, k') ∈ a ++ [(id, k)] ↔ ∃ u, (l.request id k).user? i = some u ∧ u.key = k' := by
  rw [List.mem_append, List.mem_singleton]
  by_cases hi : i = id
  · subst hi
    obtain ⟨v, hv, hvk⟩ := l.user?_request_self i k
    rw [hv]
    constructor
    · rintro (hmem | heq)
      · exact absurd (List.mem_map_of_mem hmem) hid
      · cases heq
        exact ⟨v, rfl, hvk⟩
    · rintro ⟨u, hu, rfl⟩
      cases hu
      exact .inr (by rw [hvk])
  · rw [user?_request_ne hi, ← h.users]
    have hne : (i, k') ≠ (id, k) := fun heq => hi (congrArg Prod.fst heq)
    simp [hne]

theorem slots_request (h : l.Lined a) (k : Key) {k' : Key} {s : Slot}
    (hs : (l.request id k).slot? k' = some s) : lineOf (a ++ [(id, k)]) k' ≠ [] ∧
      (l.request id k).mutexes[s.mutex]? = some (.ofLine (lineOf (a ++ [(id, k)]) k')) := by
  obtain ⟨⟨n, hslot, -⟩, hother, -, hmutex⟩ := enter_spec h.sound k
  obtain ⟨-, hline, happart⟩ := h.enter k
  rw [request_slot?] at hs
  rw [request_mutexes]
  by_cases hk : k' = k
  · subst hk
    obtain rfl := Option.some.inj (hslot.symm.trans hs)
    rw [lineOf_concat_self, List.getElem?_modify_eq, hline, ← Mutex.request_ofLine]
    exact ⟨by simp, rfl⟩
  · rw [hother k' hk] at hs
    obtain ⟨hne, hm⟩ := h.slots k' s hs
    rw [lineOf_concat_ne hk, List.getElem?_modify_ne _ _ (Ne.symm (happart k' s hk hs))]
    exact ⟨hne, hmutex _ _ hm⟩

theorem apart_request (h : l.Lined a) (k : Key) {k₁ k₂ : Key} {s₁ s₂ : Slot}
    (hs₁ : (l.request id k).slot? k₁ = some s₁) (hs₂ : (l.request id k).slot? k₂ = some s₂)
    (hm : s₁.mutex = s₂.mutex) : k₁ = k₂ := by
  obtain ⟨⟨n, hslot, -⟩, hother, -⟩ := enter_spec h.sound k
  obtain ⟨-, -, happart⟩ := h.enter k
  rw [request_slot?] at hs₁ hs₂
  by_cases h₁ : k₁ = k
  · subst h₁
    by_cases h₂ : k₂ = k₁
    · exact h₂.symm
    · rw [hother k₂ h₂] at hs₂
      obtain rfl := Option.some.inj (hslot.symm.trans hs₁)
      exact absurd hm.symm (happart k₂ s₂ h₂ hs₂)
  · rw [hother k₁ h₁] at hs₁
    by_cases h₂ : k₂ = k
    · subst h₂
      obtain rfl := Option.some.inj (hslot.symm.trans hs₂)
      exact absurd hm (happart k₁ s₁ h₁ hs₁)
    · rw [hother k₂ h₂] at hs₂
      exact h.apart k₁ k₂ s₁ s₂ hs₁ hs₂ hm

/-- A new request goes to the end of the line. -/
theorem request (h : l.Lined a) (hid : id ∉ a.map Prod.fst) (k : Key) :
    (l.request id k).Lined (a ++ [(id, k)]) where
  sound := sound_request h.sound (h.user?_eq_none_iff.2 hid) k
  nodup := by
    rw [List.map_append, List.nodup_append]
    refine ⟨h.nodup, List.nodup_singleton _, ?_⟩
    rintro i hi j hj rfl
    obtain rfl := List.mem_singleton.1 hj
    exact hid hi
  users := h.users_request hid k
  keys := by
    rw [request_slots]
    exact (h.enter k).1
  slots := fun _ _ => h.slots_request k
  apart := fun _ _ _ _ => h.apart_request k

/-! ### Letting go -/

theorem nodup_exit (hl : (l.slots.map Prod.fst).Nodup) (k : Key) :
    ((l.exit k).slots.map Prod.fst).Nodup := by
  rw [exit]
  split
  · exact hl
  · split
    · exact nodup_filter hl
    · exact nodup_put hl

theorem length_filter_ne {q : List Nat} (hq : q.Nodup) (hid : id ∈ q) :
    (q.filter (· ≠ id)).length = q.length - 1 := by
  have herase := hq.erase_eq_filter id
  rw [← List.length_erase_of_mem hid, herase]
  congr 2
  funext i
  simp only [bne, ne_eq, decide_not]
  rfl

theorem filter_of_user?_eq_none (h : l.Lined a) (hid : l.user? id = none) :
    a.filter (·.1 ≠ id) = a := by
  rw [List.filter_eq_self]
  intro e he
  have hne : e.1 ≠ id := by
    rintro rfl
    exact h.user?_eq_none_iff.1 hid (List.mem_map_of_mem he)
  simpa using hne

section

variable {u : User} {s : Slot}

/-- A slot that is left was there before and led to the same lock. That of the one who is dropped
counts one less. -/
theorem slot_of_drop (hu : l.user? id = some u) (hs : (l.drop id).slot? k = some s) :
    ∃ s', l.slot? k = some s' ∧ s'.mutex = s.mutex ∧ (k = u.key → s'.users - 1 ≠ 0) := by
  rw [slot?_drop hu] at hs
  split at hs
  · rename_i hk
    obtain ⟨s', hs', hleft⟩ := Option.bind_eq_some_iff.1 hs
    split at hleft
    · cases hleft
    · rename_i hne
      cases hleft
      exact ⟨s', hk ▸ hs', rfl, fun _ => hne⟩
  · rename_i hk
    exact ⟨s, hs, rfl, fun hk' => absurd hk' hk⟩

theorem slots_drop (h : l.Lined a) (hu : l.user? id = some u)
    (hs : (l.drop id).slot? k = some s) : lineOf (a.filter (·.1 ≠ id)) k ≠ [] ∧
      (l.drop id).mutexes[s.mutex]? = some (.ofLine (lineOf (a.filter (·.1 ≠ id)) k)) := by
  have hmem : id ∈ lineOf a u.key := mem_lineOf.2 ((h.users id u.key).2 ⟨u, hu, rfl⟩)
  obtain ⟨n, hn⟩ := h.sound.slots id u hu
  obtain ⟨s', hs', hm, hleft⟩ := slot_of_drop hu hs
  obtain ⟨hne, hmutex⟩ := h.slots k s' hs'
  rw [lineOf_drop, mutexes_drop hu, ← hm]
  by_cases hk : k = u.key
  · subst hk
    obtain rfl := Option.some.inj (hn.symm.trans hs')
    have hlength := length_filter_ne (h.nodup_lineOf u.key) hmem
    have hcount := (h.sound.count _ _ hn).trans (h.usersOf_eq u.key)
    refine ⟨fun hnil => ?_, ?_⟩
    · rw [hnil, List.length_nil, ← hcount] at hlength
      exact hleft rfl hlength.symm
    · rw [List.getElem?_modify_eq, hmutex, ← Mutex.leave_ofLine (h.nodup_lineOf u.key)]
      rfl
  -- The line of another key has another lock and loses nobody.
  · have hapart : u.mutex ≠ s'.mutex := fun heq => hk (h.apart _ _ _ _ hn hs' heq).symm
    have hfilter : (lineOf a k).filter (· ≠ id) = lineOf a k := by
      rw [List.filter_eq_self]
      intro i hi
      have hi' : i ≠ id := by
        rintro rfl
        exact hk (key_unique h.nodup (mem_lineOf.1 hi) (mem_lineOf.1 hmem))
      simpa using hi'
    rw [hfilter, List.getElem?_modify_ne _ _ hapart]
    exact ⟨hne, hmutex⟩

end

/-- Whoever is dropped leaves the line, and the last one takes the slot along. -/
theorem drop (h : l.Lined a) (id : Nat) : (l.drop id).Lined (a.filter (·.1 ≠ id)) := by
  cases hu : l.user? id with
  | none =>
    rw [h.filter_of_user?_eq_none hu, drop_of_none hu]
    exact h
  | some u =>
    refine ⟨sound_drop h.sound id, nodup_filter h.nodup, fun i k => ?_, ?_,
      fun k s hs => h.slots_drop hu hs, fun k k' s s' hs hs' hm => ?_⟩
    · rw [List.mem_filter, h.users]
      by_cases hi : i = id
      · subst hi
        rw [user?_drop_self]
        simp
      · rw [user?_drop_ne hi]
        simp [hi]
    · rw [Locks.drop, hu]
      exact nodup_exit (l := l.changeMutex u.mutex (·.leave id)) h.keys u.key
    · obtain ⟨s₁, hs₁, hm₁, -⟩ := slot_of_drop hu hs
      obtain ⟨s₂, hs₂, hm₂, -⟩ := slot_of_drop hu hs'
      exact h.apart k k' s₁ s₂ hs₁ hs₂ (hm₁.trans (hm.trans hm₂.symm))

end Lined

end Locks

/-! ### Sessions -/

/-- What is done to a table of locks. -/
inductive Call where
  | request (key : Key)
  | poll (id : Nat)
  | drop (id : Nat)

/-- A table of locks and what became of it: how many requests there were, which of them have not
been dropped, and which have been told that the lock is theirs, each in the order in which that
happened. A request has the number of those before it. -/
structure Session where
  locks : Locks
  started : Nat
  alive : List (Nat × Key)
  granted : List (Nat × Key)

namespace Session

def start : Session := ⟨.empty, 0, [], []⟩

/-- Notes who is told now that the lock is his. -/
def note (s : Session) (l : Locks) (n : Nat) (a : List (Nat × Key)) : Session :=
  ⟨l, n, a, s.granted ++ a.filter fun e => l.holds e.1 && !s.locks.holds e.1⟩

def act (s : Session) : Call → Session
  | .request k => s.note (s.locks.request s.started k) (s.started + 1) (s.alive ++ [(s.started, k)])
  | .poll id => s.note (s.locks.poll id) s.started s.alive
  | .drop id => s.note (s.locks.drop id) s.started (s.alive.filter (·.1 ≠ id))

def run (calls : List Call) : Session := calls.foldl act start

theorem run_concat (calls : List Call) (c : Call) : run (calls ++ [c]) = (run calls).act c := by
  rw [run, List.foldl_append]
  rfl

/-- The requests for a key that are alive, in the order in which they came. -/
def line (s : Session) (k : Key) : List Nat := lineOf s.alive k

/-- The requests for a key that got the lock, in the order in which they did. -/
def grants (s : Session) (k : Key) : List Nat := lineOf s.granted k

/-- The table fits the requests, and nobody got a lock before those that had asked earlier. -/
structure Fair (s : Session) : Prop where
  lined : s.locks.Lined s.alive
  fresh : ∀ k, ∀ i ∈ s.line k, i < s.started
  sorted : ∀ k, (s.line k).Pairwise (· < ·)
  told : ∀ k, ∀ i ∈ s.grants k, i < s.started
  ordered : ∀ k, (s.grants k).Pairwise (· < ·)
  awaited : ∀ k, ∀ i ∈ s.grants k, ∀ j ∈ s.line k, s.locks.holds j = false → i < j

theorem fair_start : start.Fair where
  lined := Locks.lined_empty
  fresh := by rintro k i ⟨⟩
  sorted := fun _ => .nil
  told := by rintro k i ⟨⟩
  ordered := fun _ => .nil
  awaited := by rintro k i ⟨⟩

variable {s : Session} {k : Key} {i j : Nat}

/-- A change is fair if nobody new is ahead of those who were there and nobody loses his lock. -/
theorem Fair.note (h : s.Fair) {l : Locks} {n : Nat} {a : List (Nat × Key)} (hl : l.Lined a)
    (hn : s.started ≤ n) (hfresh : ∀ k, ∀ i ∈ lineOf a k, i < n)
    (hsorted : ∀ k, (lineOf a k).Pairwise (· < ·))
    (hold : ∀ k, ∀ j ∈ lineOf a k, j ∈ s.line k ∨ s.started ≤ j)
    (hkeep : ∀ k, ∀ j ∈ lineOf a k, s.locks.holds j = true → l.holds j = true) :
    (s.note l n a).Fair := by
  have hsplit (k : Key) : (s.note l n a).grants k = s.grants k ++
      lineOf (a.filter fun e => l.holds e.1 && !s.locks.holds e.1) k := lineOf_append _ _ k
  have hnew {k : Key} {j : Nat}
      (hj : j ∈ lineOf (a.filter fun e => l.holds e.1 && !s.locks.holds e.1) k) :
      j ∈ lineOf a k ∧ l.holds j = true ∧ s.locks.holds j = false := by
    obtain ⟨hmem, hboth⟩ := List.mem_filter.1 (mem_lineOf.1 hj)
    exact ⟨mem_lineOf.2 hmem, by simpa using hboth⟩
  have hearlier {k : Key} {i j : Nat} (hi : i ∈ s.grants k) (hj : j ∈ lineOf a k)
      (hnot : s.locks.holds j = false) : i < j := by
    rcases hold k j hj with hline | hlater
    · exact h.awaited k i hi j hline hnot
    · exact Nat.lt_of_lt_of_le (h.told k i hi) hlater
  refine ⟨hl, hfresh, hsorted, fun k i hi => ?_, fun k => ?_, fun k i hi j hj hnot => ?_⟩
  · rw [hsplit, List.mem_append] at hi
    rcases hi with hi | hi
    · exact Nat.lt_of_lt_of_le (h.told k i hi) hn
    · exact hfresh k i (hnew hi).1
  · rw [hsplit, List.pairwise_append]
    refine ⟨h.ordered k, ?_, fun i hi j hj => hearlier hi (hnew hj).1 (hnew hj).2.2⟩
    exact (hsorted k).sublist ((List.filter_sublist.filter _).map _)
  · rw [hsplit, List.mem_append] at hi
    rcases hi with hi | hi
    · refine hearlier hi hj (Bool.eq_false_iff.2 fun hholds => ?_)
      have htrue := hkeep k j hj hholds
      rw [show l.holds j = false from hnot] at htrue
      cases htrue
    · obtain ⟨hi', hholds, -⟩ := hnew hi
      obtain ⟨q, hq⟩ := List.head?_eq_some_iff.1 (hl.head_of_holds hi' hholds)
      have hsort := hsorted k
      rw [hq, List.pairwise_cons] at hsort
      have hj' : j ∈ lineOf a k := hj
      rw [hq, List.mem_cons] at hj'
      rcases hj' with rfl | hj'
      · rw [show l.holds j = false from hnot] at hholds
        cases hholds
      · exact hsort.1 j hj'

theorem Fair.not_started (h : s.Fair) : s.started ∉ s.alive.map Prod.fst := by
  intro hmem
  obtain ⟨⟨i, k⟩, he, rfl⟩ := List.mem_map.1 hmem
  exact Nat.lt_irrefl _ (h.fresh k _ (mem_lineOf.2 he))

theorem fair_act (h : s.Fair) (c : Call) : (s.act c).Fair := by
  cases c with
  | request k =>
    have hfresh : s.locks.user? s.started = none := h.lined.user?_eq_none_iff.2 h.not_started
    have hline {k' : Key} {i : Nat} (hi : i ∈ lineOf (s.alive ++ [(s.started, k)]) k') :
        i ∈ s.line k' ∨ i = s.started := by
      rw [mem_lineOf, List.mem_append, List.mem_singleton] at hi
      rcases hi with hi | hi
      · exact .inl (mem_lineOf.2 hi)
      · exact .inr (congrArg Prod.fst hi)
    refine h.note (h.lined.request h.not_started k) (Nat.le_succ _) (fun k' i hi => ?_)
      (fun k' => ?_) (fun k' j hj => ?_) (fun k' j hj hholds => ?_)
    · rcases hline hi with hi | rfl
      · exact Nat.lt_succ_of_lt (h.fresh k' i hi)
      · exact Nat.lt_succ_self _
    · rw [lineOf_append, List.pairwise_append]
      refine ⟨h.sorted k', ?_, fun i hi j hj => ?_⟩
      · exact (List.pairwise_singleton (· < ·) s.started).sublist (lineOf_sublist _ k')
      · have hj' : j ∈ [s.started] := (lineOf_sublist _ k').mem hj
        obtain rfl := List.mem_singleton.1 hj'
        exact h.fresh k' i hi
    · rcases hline hj with hj | rfl
      · exact .inl hj
      · exact .inr (Nat.le_refl _)
    · have hne : j ≠ s.started := by
        rintro rfl
        rw [Locks.holds, hfresh] at hholds
        cases hholds
      rw [Locks.holds, Locks.user?_request_ne hne]
      exact hholds
  | poll id =>
    refine h.note (h.lined.poll id) (Nat.le_refl _) h.fresh h.sorted (fun k j hj => .inl hj)
      (fun k j hj hholds => ?_)
    by_cases hid : j = id
    · subst hid
      obtain ⟨u, hu, hholder⟩ := Locks.Lined.holds_iff.1 hholds
      obtain ⟨b, hb, hkeep⟩ := Locks.user?_poll_self hu
      exact Locks.Lined.holds_iff.2 ⟨_, hb, hkeep hholder⟩
    · rw [Locks.holds, Locks.user?_poll_ne hid]
      exact hholds
  | drop id =>
    have hline {k : Key} {i : Nat} (hi : i ∈ lineOf (s.alive.filter (·.1 ≠ id)) k) :
        i ∈ s.line k ∧ i ≠ id := by
      rw [lineOf_drop, List.mem_filter] at hi
      exact ⟨hi.1, by simpa using hi.2⟩
    refine h.note (h.lined.drop id) (Nat.le_refl _) (fun k i hi => h.fresh k i (hline hi).1)
      (fun k => ?_) (fun k j hj => .inl (hline hj).1) (fun k j hj hholds => ?_)
    · rw [lineOf_drop]
      exact (h.sorted k).sublist List.filter_sublist
    · rw [Locks.holds, Locks.user?_drop_ne (hline hj).2]
      exact hholds

theorem fair_run (calls : List Call) : (run calls).Fair := by
  induction calls using List.reverseRecOn with
  | nil => exact fair_start
  | append_singleton calls c ih =>
    rw [run_concat]
    exact fair_act ih c

/-- At any time one request at most has got the lock of a key, and no other of that key that is
alive came before it. Locks are granted in the order in which the requests came. The first in line
gets the lock when it asks, and a request for a key that nobody has or awaits gets it at once. -/
theorem granted_in_order (calls : List Call) :
    (∀ k, ∀ i ∈ (run calls).line k, ∀ j ∈ (run calls).line k,
      (run calls).locks.holds i = true → (run calls).locks.holds j = true → i = j) ∧
    (∀ k, ∀ i ∈ (run calls).line k, ∀ j ∈ (run calls).line k, i < j →
      (run calls).locks.holds j = false) ∧
    (∀ k, ((run calls).grants k).Pairwise (· < ·)) ∧
    (∀ k i, ((run calls).line k).head? = some i →
      (∀ j ∈ (run calls).line k, (run calls).locks.holds j = false) →
        ((run calls).act (.poll i)).locks.holds i = true) ∧
    ∀ k, (run calls).line k = [] →
      ((run calls).act (.request k)).locks.holds (run calls).started = true := by
  have h := fair_run calls
  refine ⟨fun k i hi j hj hholds hholds' => ?_, fun k i hi j hj hlt => ?_, h.ordered,
    fun k i hi _ => h.lined.holds_poll hi, fun k hk => ?_⟩
  · have hhead := h.lined.head_of_holds hi hholds
    rw [h.lined.head_of_holds hj hholds'] at hhead
    exact (Option.some.inj hhead).symm
  · refine Bool.eq_false_iff.2 fun hholds => ?_
    obtain ⟨q, hq⟩ := List.head?_eq_some_iff.1 (h.lined.head_of_holds hj hholds)
    have hsorted := h.sorted k
    have hi' : i ∈ lineOf (run calls).alive k := hi
    rw [line, hq, List.pairwise_cons] at hsorted
    rw [hq, List.mem_cons] at hi'
    rcases hi' with rfl | hi'
    · exact Nat.lt_irrefl _ hlt
    · exact Nat.lt_asymm hlt (hsorted.1 i hi')
  · exact Locks.holds_request (h.lined.slot?_eq_none hk) _

/-- A key has a slot as long as a request for it is alive. The slot counts these requests, is there
whenever one of them is dropped, and leads to the lock that all of them use. -/
theorem accounted (calls : List Call) :
    (∀ k, ((run calls).locks.slot? k).isSome ↔ (run calls).line k ≠ []) ∧
    (∀ k e, (run calls).locks.slot? k = some e → e.users = ((run calls).line k).length) ∧
    (run calls).locks.inFlight = ((run calls).alive.map Prod.snd).dedup.length ∧
    (∀ i, ((run calls).locks.user? i).isSome ↔ ∃ k, i ∈ (run calls).line k) ∧
    (∀ i u, (run calls).locks.user? i = some u →
      ∃ e, ((run calls).locks.changeMutex u.mutex (·.leave i)).slot? u.key = some e ∧
        0 < e.users) ∧
    ∀ k, ∀ i ∈ (run calls).line k, ∃ u e, (run calls).locks.user? i = some u ∧ u.key = k ∧
      (run calls).locks.slot? k = some e ∧ e.mutex = u.mutex := by
  have h := fair_run calls
  have hcount : ∀ k e, (run calls).locks.slot? k = some e → e.users = ((run calls).line k).length :=
    fun k e he => (h.lined.sound.count k e he).trans (h.lined.usersOf_eq k)
  refine ⟨h.lined.slot_iff, hcount, ?_, fun i => ?_, fun i u hu => ?_,
    fun k i hi => h.lined.slot_of_mem hi⟩
  · have hperm : ((run calls).locks.slots.map Prod.fst).Perm
        ((run calls).alive.map Prod.snd).dedup := by
      rw [List.perm_ext_iff_of_nodup h.lined.keys (List.nodup_dedup _)]
      intro k
      rw [List.mem_dedup, ← isSome_lookup_iff, ← lineOf_ne_nil_iff]
      exact h.lined.slot_iff k
    have hlen := hperm.length_eq
    rw [List.length_map] at hlen
    exact hlen
  · rw [Option.isSome_iff_exists]
    constructor
    · rintro ⟨u, hu⟩
      exact ⟨u.key, mem_lineOf.2 ((h.lined.users i u.key).2 ⟨u, hu, rfl⟩)⟩
    · rintro ⟨k, hi⟩
      obtain ⟨u, -, hu, -⟩ := h.lined.slot_of_mem hi
      exact ⟨u, hu⟩
  · obtain ⟨n, hn⟩ := h.lined.sound.slots i u hu
    refine ⟨_, hn, ?_⟩
    rw [hcount _ _ hn]
    exact List.length_pos_of_mem (mem_lineOf.2 ((h.lined.users i u.key).2 ⟨u, hu, rfl⟩))

end Session

end Notebook.Execution
