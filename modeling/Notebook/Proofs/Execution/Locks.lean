import Notebook.Execution.Locks
import Mathlib.Data.List.Nodup

/-!
The table of locks. All users of a key have the same lock, which one of them at most has got.
-/

namespace Notebook.Execution

open Program (Key)

/-! ### Look-up tables -/

section

variable {α β : Type} [DecidableEq α] {l : List (α × β)} {a k : α} {b : β}

theorem lookup_filter_self : (l.filter (·.1 ≠ k)).lookup k = none := by
  rw [List.lookup_eq_none_iff]
  intro e he
  have hne : e.1 ≠ k := by simpa using (List.mem_filter.1 he).2
  exact bne_iff_ne.2 hne.symm

theorem lookup_filter_ne (h : a ≠ k) : (l.filter (·.1 ≠ k)).lookup a = l.lookup a := by
  induction l with
  | nil => rfl
  | cons e l ih =>
    obtain ⟨c, b⟩ := e
    by_cases hc : c = k
    · subst hc
      rw [List.filter_cons_of_neg (by simp), ih, List.lookup_cons, beq_false_of_ne h]
    · rw [List.filter_cons_of_pos (by simpa using hc), List.lookup_cons, List.lookup_cons, ih]

theorem lookup_put_self : ((k, b) :: l.filter (·.1 ≠ k)).lookup k = some b := by
  rw [List.lookup_cons, beq_self_eq_true]

theorem lookup_put_ne (h : a ≠ k) : ((k, b) :: l.filter (·.1 ≠ k)).lookup a = l.lookup a := by
  rw [List.lookup_cons, beq_false_of_ne h, lookup_filter_ne h]

theorem filter_of_lookup_none (h : l.lookup k = none) : l.filter (·.1 ≠ k) = l := by
  rw [List.filter_eq_self]
  intro e he
  have hne : k ≠ e.1 := by simpa using List.lookup_eq_none_iff.1 h e he
  simpa using hne.symm

theorem lookup_of_mem (hl : (l.map Prod.fst).Nodup) (h : (k, b) ∈ l) : l.lookup k = some b := by
  obtain ⟨l₁, l₂, rfl⟩ := List.append_of_mem h
  rw [List.lookup_eq_some_iff]
  refine ⟨l₁, l₂, rfl, fun e he => ?_⟩
  rw [List.map_append, List.map_cons, List.nodup_append] at hl
  exact bne_iff_ne.2 (hl.2.2 e.1 (List.mem_map_of_mem he) k List.mem_cons_self).symm

theorem mem_of_lookup (h : l.lookup k = some b) : (k, b) ∈ l := by
  obtain ⟨l₁, l₂, rfl, -⟩ := List.lookup_eq_some_iff.1 h
  exact List.mem_append_right l₁ List.mem_cons_self

theorem isSome_lookup_iff : (l.lookup k).isSome ↔ k ∈ l.map Prod.fst := by
  rw [Option.isSome_iff_exists, List.mem_map]
  constructor
  · rintro ⟨b, hb⟩
    exact ⟨(k, b), mem_of_lookup hb, rfl⟩
  · rintro ⟨⟨k, b⟩, hmem, rfl⟩
    by_contra hnone
    have hlookup : l.lookup k = none :=
      Option.eq_none_iff_forall_not_mem.2 fun b hb => hnone ⟨b, hb⟩
    have hne := List.lookup_eq_none_iff.1 hlookup _ hmem
    simp at hne

theorem countP_of_lookup (p : α × β → Bool) (hl : (l.map Prod.fst).Nodup)
    (h : l.lookup k = some b) :
    l.countP p = (l.filter (·.1 ≠ k)).countP p + if p (k, b) then 1 else 0 := by
  induction l with
  | nil => cases h
  | cons e l ih =>
    obtain ⟨c, d⟩ := e
    rw [List.map_cons, List.nodup_cons] at hl
    rw [List.countP_cons]
    by_cases hc : c = k
    · subst hc
      obtain rfl : d = b := by
        rw [List.lookup_cons, beq_self_eq_true] at h
        simpa using h
      have hnone : l.lookup c = none := by
        rw [List.lookup_eq_none_iff]
        intro e he
        have hne : c ≠ e.1 := fun hce => hl.1 (List.mem_map.2 ⟨e, he, hce.symm⟩)
        exact bne_iff_ne.2 hne
      rw [List.filter_cons_of_neg (by simp), filter_of_lookup_none hnone]
    · rw [List.lookup_cons, beq_false_of_ne (Ne.symm hc)] at h
      rw [List.filter_cons_of_pos (by simpa using hc), List.countP_cons, ih hl.2 h]
      omega

theorem nodup_filter (hl : (l.map Prod.fst).Nodup) : ((l.filter (·.1 ≠ k)).map Prod.fst).Nodup :=
  hl.sublist (List.filter_sublist.map _)

theorem nodup_put (hl : (l.map Prod.fst).Nodup) :
    (((k, b) :: l.filter (·.1 ≠ k)).map Prod.fst).Nodup := by
  rw [List.map_cons, List.nodup_cons]
  refine ⟨?_, nodup_filter hl⟩
  rw [List.mem_map]
  rintro ⟨e, he, hek⟩
  have := (List.mem_filter.1 he).2
  simp [hek] at this

end

namespace Locks

/-! ### One lock for a key -/

/-- How many use a key. -/
def usersOf (l : Locks) (k : Key) : Nat := l.users.countP (·.2.key = k)

/-- Users find their lock in the slot of their key, which counts them, and who has got a lock owns
it. -/
structure Sound (l : Locks) : Prop where
  slots : ∀ id u, l.user? id = some u → ∃ n, l.slot? u.key = some ⟨u.mutex, n⟩
  count : ∀ k s, l.slot? k = some s → s.users = l.usersOf k
  nodup : (l.users.map Prod.fst).Nodup
  held : ∀ id u, l.user? id = some u → u.isHolder = true →
    ∃ m, l.mutexes[u.mutex]? = some m ∧ m.owner = some id

theorem sound_empty : empty.Sound where
  slots := by rintro id u ⟨⟩
  count := by rintro k s ⟨⟩
  nodup := List.nodup_nil
  held := by rintro id u ⟨⟩

theorem Sound.exclusive {l : Locks} (h : l.Sound) {i j : Nat} {u v : User}
    (hu : l.user? i = some u) (hv : l.user? j = some v) (hi : u.isHolder = true)
    (hj : v.isHolder = true) (hk : u.key = v.key) : i = j := by
  obtain ⟨n, hn⟩ := h.slots i u hu
  obtain ⟨n', hn'⟩ := h.slots j v hv
  have hm : u.mutex = v.mutex := by
    rw [hk, hn', Option.some.injEq, Slot.mk.injEq] at hn
    exact hn.1.symm
  obtain ⟨m, hm1, hm2⟩ := h.held i u hu hi
  obtain ⟨m', hm1', hm2'⟩ := h.held j v hv hj
  rw [hm, hm1', Option.some.injEq] at hm1
  rw [← hm1, hm2', Option.some.injEq] at hm2
  exact hm2.symm

section

variable {l : Locks} {id i : Nat} {k : Key} {u : User}

/-! ### Asking -/

theorem user?_poll_ne (h : i ≠ id) : (l.poll id).user? i = l.user? i := by
  rw [poll]
  split
  · rfl
  · split
    · rfl
    · split
      · exact lookup_put_ne h
      · rfl

theorem user?_poll_self (h : l.user? id = some u) :
    ∃ b, (l.poll id).user? id = some { u with isHolder := b } ∧ (u.isHolder = true → b = true) := by
  rw [poll, h]
  simp only
  split
  · exact ⟨_, h, fun h => h⟩
  · split
    · exact ⟨true, lookup_put_self, fun _ => rfl⟩
    · exact ⟨_, h, fun h => h⟩

theorem sound_poll (h : l.Sound) (id : Nat) : (l.poll id).Sound := by
  rw [poll]
  cases hu : l.user? id with
  | none => exact h
  | some u =>
    cases hm : l.mutexes[u.mutex]? with
    | none =>
      simp only [hm]
      exact h
    | some m =>
      by_cases ho : m.owner = some id
      · simp only [hm, if_pos ho]
        have hself : (l.putUser id { u with isHolder := true }).user? id =
            some { u with isHolder := true } := lookup_put_self
        have hne {j : Nat} (hj : j ≠ id) :
            (l.putUser id { u with isHolder := true }).user? j = l.user? j := lookup_put_ne hj
        refine ⟨fun j v hv => ?_, fun k s hs => ?_, nodup_put h.nodup, fun j v hv hholder => ?_⟩
        · by_cases hj : j = id
          · rw [hj, hself] at hv
            cases hv
            exact h.slots id u hu
          · rw [hne hj] at hv
            exact h.slots j v hv
        · rw [h.count k s hs, usersOf, usersOf, countP_of_lookup _ h.nodup hu]
          exact (List.countP_cons ..).symm
        · by_cases hj : j = id
          · rw [hj, hself] at hv
            cases hv
            exact ⟨m, hm, by rw [hj, ho]⟩
          · rw [hne hj] at hv
            exact h.held j v hv hholder
      · simp only [hm, if_neg ho]
        exact h

/-- One more user of a key finds the lock of those before it, or makes one. -/
theorem enter_spec (h : l.Sound) (k : Key) :
    (∃ n, (l.enter k).1.slot? k = some ⟨(l.enter k).2, n⟩ ∧ n = l.usersOf k + 1) ∧
      (∀ k', k' ≠ k → (l.enter k).1.slot? k' = l.slot? k') ∧
      (∀ s, l.slot? k = some s → s.mutex = (l.enter k).2) ∧
      ∀ (j : Nat) (m : Mutex), l.mutexes[j]? = some m → (l.enter k).1.mutexes[j]? = some m := by
  rw [enter]
  cases hs : l.slot? k with
  | some s =>
    refine ⟨⟨_, lookup_put_self, by rw [h.count k s hs]⟩, fun k' hk => lookup_put_ne hk, ?_,
      fun j m hm => hm⟩
    rintro s' ⟨⟩
    rfl
  | none =>
    have hzero : l.usersOf k = 0 := by
      rw [usersOf, List.countP_eq_zero]
      rintro ⟨j, v⟩ he hv
      have hk : v.key = k := by simpa using hv
      obtain ⟨n, hn⟩ := h.slots j v (lookup_of_mem h.nodup he)
      rw [hk, hs] at hn
      cases hn
    refine ⟨⟨1, lookup_put_self, by rw [hzero]⟩, fun k' hk => lookup_put_ne hk, by simp, ?_⟩
    intro j m hm
    have hlt := (List.getElem?_eq_some_iff.1 hm).1
    show (l.mutexes ++ [Mutex.free])[j]? = some m
    rw [List.getElem?_append_left hlt]
    exact hm

theorem request_owner {m : Mutex} {j : Nat} (h : m.owner = some j) (id : Nat) :
    (m.request id).owner = some j := by
  rw [Mutex.request, h]

/-- A request gets in line, before it asks whether the lock has come to it. -/
def lineUp (l : Locks) (id : Nat) (k : Key) : Locks :=
  ((l.enter k).1.changeMutex (l.enter k).2 (·.request id)).putUser id ⟨k, (l.enter k).2, false⟩

theorem request_eq (l : Locks) (id : Nat) (k : Key) :
    l.request id k = (l.lineUp id k).poll id := rfl

theorem user?_lineUp_self (l : Locks) (id : Nat) (k : Key) :
    (l.lineUp id k).user? id = some ⟨k, (l.enter k).2, false⟩ := lookup_put_self

theorem enter_users (l : Locks) (k : Key) : (l.enter k).1.users = l.users := by
  rw [enter]
  cases l.slot? k <;> rfl

theorem user?_lineUp_ne (h : i ≠ id) : (l.lineUp id k).user? i = l.user? i := by
  rw [user?, user?, ← l.enter_users k]
  exact lookup_put_ne h

theorem users_lineUp (h : l.user? id = none) (k : Key) :
    (l.lineUp id k).users = (id, ⟨k, (l.enter k).2, false⟩) :: l.users := by
  show _ :: (l.enter k).1.users.filter (·.1 ≠ id) = _
  rw [enter_users, filter_of_lookup_none h]

theorem usersOf_lineUp (h : l.user? id = none) (k k' : Key) :
    (l.lineUp id k).usersOf k' = l.usersOf k' + if k = k' then 1 else 0 := by
  rw [usersOf, users_lineUp h, List.countP_cons, usersOf]
  simp

theorem sound_lineUp (h : l.Sound) (hid : l.user? id = none) (k : Key) : (l.lineUp id k).Sound := by
  obtain ⟨⟨n, hslot, hn⟩, hother, hsame, hmutex⟩ := enter_spec h k
  have hself := l.user?_lineUp_self id k
  refine ⟨fun j v hv => ?_, fun k' s hs => ?_, ?_, fun j v hv hholder => ?_⟩
  · by_cases hj : j = id
    · rw [hj, hself] at hv
      cases hv
      exact ⟨n, hslot⟩
    · rw [user?_lineUp_ne hj] at hv
      obtain ⟨n', hn'⟩ := h.slots j v hv
      by_cases hk : v.key = k
      · rw [hk] at hn'
        have hm : v.mutex = (l.enter k).2 := hsame _ hn'
        rw [hk, hm]
        exact ⟨n, hslot⟩
      · exact ⟨n', (hother _ hk).trans hn'⟩
  · rw [usersOf_lineUp hid]
    by_cases hk : k' = k
    · subst hk
      obtain rfl := Option.some.inj (hslot.symm.trans hs)
      rw [if_pos rfl]
      exact hn
    · rw [if_neg (Ne.symm hk)]
      exact h.count k' s ((hother k' hk).symm.trans hs)
  · rw [users_lineUp hid, List.map_cons, List.nodup_cons]
    refine ⟨fun hmem => ?_, h.nodup⟩
    have hsome := isSome_lookup_iff.2 hmem
    rw [show l.users.lookup id = none from hid] at hsome
    cases hsome
  · by_cases hj : j = id
    · rw [hj, hself] at hv
      cases hv
      cases hholder
    · rw [user?_lineUp_ne hj] at hv
      obtain ⟨m, hm, howner⟩ := h.held j v hv hholder
      show ∃ m, ((l.enter k).1.mutexes.modify (l.enter k).2 (·.request id))[v.mutex]? = some m ∧ _
      rw [List.getElem?_modify, hmutex _ m hm]
      by_cases heq : (l.enter k).2 = v.mutex
      · exact ⟨_, by simp [heq], request_owner howner id⟩
      · exact ⟨m, by simp [heq], howner⟩

theorem sound_request (h : l.Sound) (hid : l.user? id = none) (k : Key) : (l.request id k).Sound :=
  sound_poll (sound_lineUp h hid k) id

theorem user?_request_self (l : Locks) (id : Nat) (k : Key) :
    ∃ u, (l.request id k).user? id = some u ∧ u.key = k := by
  obtain ⟨b, hb, -⟩ := user?_poll_self (l.user?_lineUp_self id k)
  exact ⟨_, hb, rfl⟩

theorem user?_request_ne (h : i ≠ id) : (l.request id k).user? i = l.user? i := by
  rw [request_eq, user?_poll_ne h, user?_lineUp_ne h]

theorem holds_request (h : l.slot? k = none) (id : Nat) : (l.request id k).holds id = true := by
  have hmutex : ((l.mutexes ++ [Mutex.free]).modify l.mutexes.length (·.request id))[
      l.mutexes.length]? = some ⟨some id, []⟩ := by
    rw [List.getElem?_modify_eq, List.getElem?_concat_length]
    rfl
  have hself : (l.request id k).user? id = some ⟨k, l.mutexes.length, true⟩ := by
    simp only [request, enter, h, poll, user?, putUser, changeMutex, putSlot, lookup_put_self,
      hmutex]
    exact lookup_put_self
  rw [holds, hself]

/-! ### Letting go -/

theorem leave_owner {m : Mutex} {j : Nat} (h : m.owner = some j) (hj : j ≠ id) :
    (m.leave id).owner = some j := by
  rw [Mutex.leave, h, if_neg (by simpa using hj)]

theorem exit_users (l : Locks) (k : Key) : (l.exit k).users = l.users := by
  rw [exit]
  split
  · rfl
  · split <;> rfl

theorem exit_mutexes (l : Locks) (k : Key) : (l.exit k).mutexes = l.mutexes := by
  rw [exit]
  split
  · rfl
  · split <;> rfl

theorem drop_of_none (h : l.user? id = none) : l.drop id = l := by
  rw [drop, h]

theorem users_drop (l : Locks) (id : Nat) : (l.drop id).users = l.users.filter (·.1 ≠ id) := by
  rw [drop]
  cases hu : l.user? id with
  | none => exact (filter_of_lookup_none hu).symm
  | some u =>
    show (exit _ _).users.filter _ = _
    rw [exit_users]
    rfl

theorem nodup_users_drop (h : (l.users.map Prod.fst).Nodup) (id : Nat) :
    ((l.drop id).users.map Prod.fst).Nodup := by
  rw [users_drop]
  exact nodup_filter h

theorem user?_drop_self (l : Locks) (id : Nat) : (l.drop id).user? id = none := by
  rw [user?, users_drop]
  exact lookup_filter_self

theorem user?_drop_ne (h : i ≠ id) : (l.drop id).user? i = l.user? i := by
  rw [user?, users_drop]
  exact lookup_filter_ne h

theorem ne_of_user?_drop {j : Nat} {v : User} (h : (l.drop id).user? j = some v) : j ≠ id := by
  rintro rfl
  rw [user?_drop_self] at h
  cases h

theorem mutexes_drop (h : l.user? id = some u) :
    (l.drop id).mutexes = l.mutexes.modify u.mutex (·.leave id) := by
  rw [drop, h]
  exact exit_mutexes _ _

theorem exit_slot {k' : Key} : (l.exit k).slot? k' = if k' = k then
    (l.slot? k).bind (fun s => if s.users - 1 = 0 then none else some ⟨s.mutex, s.users - 1⟩)
    else l.slot? k' := by
  rw [exit]
  cases hs : l.slot? k with
  | none =>
    by_cases hk : k' = k
    · rw [if_pos hk, hk, hs]
      rfl
    · rw [if_neg hk]
  | some s =>
    by_cases hk : k' = k
    · subst hk
      by_cases hz : s.users - 1 = 0
      · simp only [if_pos hz, Option.bind_some, if_true]
        exact lookup_filter_self
      · simp only [if_neg hz, Option.bind_some, if_true]
        exact lookup_put_self
    · by_cases hz : s.users - 1 = 0
      · simp only [if_pos hz, if_neg hk]
        exact lookup_filter_ne hk
      · simp only [if_neg hz, if_neg hk]
        exact lookup_put_ne hk

theorem slot?_drop (h : l.user? id = some u) (k : Key) : (l.drop id).slot? k = if k = u.key then
    (l.slot? u.key).bind (fun s => if s.users - 1 = 0 then none else some ⟨s.mutex, s.users - 1⟩)
    else l.slot? k := by
  rw [drop, h]
  exact exit_slot (l := l.changeMutex u.mutex (·.leave id))

theorem usersOf_drop (hl : (l.users.map Prod.fst).Nodup) (h : l.user? id = some u) (k : Key) :
    l.usersOf k = (l.drop id).usersOf k + if u.key = k then 1 else 0 := by
  rw [usersOf, countP_of_lookup _ hl h, usersOf, users_drop]
  simp

theorem usersOf_pos (hl : (l.users.map Prod.fst).Nodup) (h : l.user? id = some u) :
    0 < l.usersOf u.key := by
  rw [usersOf, countP_of_lookup _ hl h]
  simp

theorem sound_drop (h : l.Sound) (id : Nat) : (l.drop id).Sound := by
  cases hu : l.user? id with
  | none =>
    rw [drop_of_none hu]
    exact h
  | some u =>
    refine ⟨fun j v hv => ?_, fun k s hs => ?_, nodup_users_drop h.nodup id,
      fun j v hv hholder => ?_⟩
    · have hpos := usersOf_pos (nodup_users_drop h.nodup id) hv
      rw [user?_drop_ne (ne_of_user?_drop hv)] at hv
      obtain ⟨n, hn⟩ := h.slots j v hv
      rw [slot?_drop hu]
      -- The other user of the same key is still counted, so that the slot stays.
      by_cases hk : v.key = u.key
      · have hcount := h.count _ _ hn
        have hdrop := usersOf_drop h.nodup hu v.key
        rw [if_pos hk.symm] at hdrop
        have hleft : n - 1 ≠ 0 := by
          simp only at hcount
          omega
        rw [if_pos hk, ← hk, hn, Option.bind_some, if_neg hleft]
        exact ⟨_, rfl⟩
      · rw [if_neg hk]
        exact ⟨n, hn⟩
    · rw [slot?_drop hu] at hs
      have hdrop := usersOf_drop h.nodup hu k
      by_cases hk : k = u.key
      · rw [if_pos hk] at hs
        obtain ⟨s', hs', hsome⟩ := Option.bind_eq_some_iff.1 hs
        have hcount := h.count _ s' (hk ▸ hs')
        rw [if_pos hk.symm] at hdrop
        split at hsome
        · cases hsome
        · cases hsome
          show s'.users - 1 = _
          omega
      · rw [if_neg hk] at hs
        rw [if_neg (Ne.symm hk)] at hdrop
        rw [h.count k s hs, hdrop, Nat.add_zero]
    · have hj := ne_of_user?_drop hv
      rw [user?_drop_ne hj] at hv
      obtain ⟨m, hm, howner⟩ := h.held j v hv hholder
      rw [mutexes_drop hu, List.getElem?_modify, hm]
      by_cases heq : u.mutex = v.mutex
      · exact ⟨_, by simp [heq], leave_owner howner hj⟩
      · exact ⟨m, by simp [heq], howner⟩

end

end Locks

end Notebook.Execution
