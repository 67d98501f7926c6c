import Mathlib.Data.List.Forall2
import Notebook.Proofs.Syntax.Lookahead

/-!
A parser follows another if it reads the same from a list as the other from a list that is alike
up to its end, as long as the other stops before the end. The instances below build this up from
the parts of a parser, so that a production follows from its text.
-/

namespace Notebook.Syntax.Parser

/-- The results for which a parser surely reads a tree. -/
abbrev Reads (α : Type) := α → Prop

def Never {α : Type} : Reads α := fun _ => False

def Always {α : Type} : Reads α := fun _ => True

def Left {α β : Type} : Reads (α ⊕ β) := fun r => r.isLeft = true

/-- Something was found, and read. -/
def Found : Reads Bool := fun b => b = true

/-- Any two results. -/
def Any {α β : Type} : α → β → Prop := fun _ _ => True

section

variable {α β : Type}

/-- What `p` reads from `x` without touching the end `e` is read by `q` from `y`. -/
def FollowsAt (e : List Tree) (ρ : α → β → Prop) (c : Reads α) (p : Parser α) (q : Parser β)
    (x y : List Tree) : Prop :=
  ∀ a x', p.run x = some (a, x') → e <:+ x' →
    ∃ n b, n + x'.length = x.length ∧ (c a → 0 < n) ∧ ρ a b ∧ q.run y = some (b, y.drop n)

/-- `q` follows `p`: what `p` reads up to an end `e` is read by `q` up to an end `e'`. -/
class Follows (E : Ends) (ρ : α → β → Prop) (c : Reads α) (p : Parser α) (q : Parser β) : Prop where
  suffix {x x' : List Tree} {a : α} : p.run x = some (a, x') → x' <:+ x
  follow {e e' x y : List Tree} : E e e' → Track e e' x y → FollowsAt e ρ c p q x y

/-- `Follows` for parsers that look at the trees ahead, of which `P` holds. -/
class FollowsIf (E : Ends) (P : List Tree → Bool) (ρ : α → β → Prop) (c : Reads α)
    (f : List Tree → Parser α) (f' : List Tree → Parser β) : Prop where
  suffix {x x' : List Tree} {a : α} : (f x).run x = some (a, x') → x' <:+ x
  follow {e e' x y : List Tree} : E e e' → Track e e' x y → P x = true →
    FollowsAt e ρ c (f x) (f' y) x y

end

variable {α β γ δ : Type} {E : Ends} {P : List Tree → Bool} {ρ : α → β → Prop} {c : Reads α}

theorem run_bind_eq_some {p : Parser α} {f : α → Parser γ} {x : List Tree}
    {r : γ × List Tree} :
    (p >>= f).run x = some r ↔ ∃ a x', p.run x = some (a, x') ∧ (f a).run x' = some r := by
  rw [StateT.run_bind, Option.bind_eq_bind, Option.bind_eq_some_iff]
  simp

theorem run_pure (a : α) (x : List Tree) : (pure a : Parser α).run x = some (a, x) := rfl

theorem run_get_bind (f : List Tree → Parser α) (x : List Tree) :
    ((get : Parser (List Tree)) >>= f).run x = (f x).run x := rfl

theorem run_ahead (P : List Tree → Bool) (x : List Tree) :
    (ahead P).run x = some (P x, x) := rfl

theorem run_ahead_bind (P : List Tree → Bool) (f : Bool → Parser α) (x : List Tree) :
    (ahead P >>= f).run x = (f (P x)).run x := rfl

theorem run_dropTrees (n : Nat) (x : List Tree) : (dropTrees n).run x = some ((), x.drop n) := rfl

theorem run_require (P : List Tree → Bool) (x : List Tree) :
    (require P).run x = if P x = true then some ((), x) else none := by
  unfold require
  rw [run_get_bind]
  split <;> rfl

/-- The answer of a look ahead. -/
def look {τ : Type} (R : List Tree → τ) : Parser τ := do return R (← get)

theorem run_look_bind {τ : Type} (R : List Tree → τ) (f : τ → Parser α) (x : List Tree) :
    (look R >>= f).run x = (f (R x)).run x := rfl

/-! ### Weaker statements -/

theorem FollowsAt.weaken {e x y : List Tree} {ρ' : α → β → Prop} {c' : Reads α} {p : Parser α}
    {q : Parser β} (h : FollowsAt e ρ c p q x y) (hρ : ∀ {a b}, ρ a b → ρ' a b)
    (hc : ∀ {a}, c' a → c a) : FollowsAt e ρ' c' p q x y := by
  intro a x' hp hx'
  obtain ⟨n, b, hn, hcn, hr, hq⟩ := h a x' hp hx'
  exact ⟨n, b, hn, fun hc' => hcn (hc hc'), hρ hr, hq⟩

theorem Follows.weaken {ρ' : α → β → Prop} {c' : Reads α} {p : Parser α} {q : Parser β}
    (h : Follows E ρ c p q) (hρ : ∀ {a b}, ρ a b → ρ' a b) (hc : ∀ {a}, c' a → c a) :
    Follows E ρ' c' p q where
  suffix := h.suffix
  follow hE ht := (h.follow hE ht).weaken hρ hc

instance (priority := low) follows_never_of_always {p : Parser α} {q : Parser β}
    [h : Follows E ρ Always p q] : Follows E ρ Never p q :=
  h.weaken id False.elim

instance (priority := low) follows_never_of_found {p q : Parser Bool} [h : Follows E Eq Found p q] :
    Follows E Eq Never p q :=
  h.weaken id False.elim

instance (priority := low) follows_left_of_always {ρ : α ⊕ β → γ → Prop} {p : Parser (α ⊕ β)}
    {q : Parser γ} [h : Follows E ρ Always p q] : Follows E ρ Left p q :=
  h.weaken id fun _ => trivial

instance (priority := low) follows_found_of_always {p q : Parser Bool}
    [h : Follows E Eq Always p q] : Follows E Eq Found p q :=
  h.weaken id fun _ => trivial

instance (priority := low) follows_any_of_eq {c : Reads α} {p q : Parser α}
    [h : Follows E Eq c p q] : Follows E Any c p q :=
  h.weaken (fun _ => trivial) id

/-- A parser that surely reads a tree leaves less than it was given. -/
theorem length_lt_of_reads {p : Parser α} {q : Parser β} (h : Follows Inner ρ Always p q)
    {x x' : List Tree} {a : α} (hp : p.run x = some (a, x')) : x'.length < x.length := by
  obtain ⟨n, -, hn, hpos, -⟩ := h.follow .nil (.refl x) a x' hp (List.nil_suffix)
  have := hpos trivial
  omega

/-! ### Results and sequences -/

theorem followsAt_pure {e x y : List Tree} {a : α} {b : β} (h : ρ a b) (hc : ¬c a) :
    FollowsAt e ρ c (pure a) (pure b) x y := by
  intro a' x' hp _
  obtain ⟨rfl, rfl⟩ := by simpa [run_pure] using hp
  exact ⟨0, b, by simp, fun h => absurd h hc, h, by simp⟩

theorem follows_pure {a : α} {b : β} (h : ρ a b) (hc : ¬c a) :
    Follows E ρ c (pure a) (pure b) where
  suffix hp := by
    obtain ⟨-, rfl⟩ := by simpa [run_pure] using hp
    exact List.suffix_rfl
  follow _ _ := followsAt_pure h hc

instance {a : α} : Follows E Eq Never (pure a) (pure a) := follows_pure rfl id

instance {a : α} {b : β} : Follows E Any Never (pure a) (pure b) := follows_pure trivial id

instance {b : β} : Follows E Eq Left (pure (.inr b : α ⊕ β)) (pure (.inr b)) :=
  follows_pure rfl (by simp [Left])

instance : Follows E Eq Found (pure false) (pure false) := follows_pure rfl (by simp [Found])

instance {q : Parser β} : Follows E ρ c failure q where
  suffix hp := by cases hp
  follow _ _ := fun _ _ hp => by cases hp

theorem FollowsAt.bind {σ : γ → δ → Prop} {k : α → Reads γ} {c' : Reads γ} {e e' x y : List Tree}
    {p : Parser α} {q : Parser β} {f : α → Parser γ} {f' : β → Parser δ}
    (hp : FollowsAt e ρ c p q x y) (hps : ∀ {a x'}, p.run x = some (a, x') → x' <:+ x)
    (hE : E e e') (ht : Track e e' x y)
    (hfs : ∀ {a x₁ r x₂}, (f a).run x₁ = some (r, x₂) → x₂ <:+ x₁)
    (hf : ∀ a b, ρ a b → Follows E σ (k a) (f a) (f' b))
    (hc : ∀ {a r}, c' r → c a ∨ k a r) : FollowsAt e σ c' (p >>= f) (q >>= f') x y := by
  intro r x₂ h hx₂
  obtain ⟨a, x₁, h₁, h₂⟩ := run_bind_eq_some.1 h
  have hx₁ : e <:+ x₁ := hx₂.trans (hfs h₂)
  obtain ⟨n, b, hn, hcn, hr, hq⟩ := hp a x₁ h₁ hx₁
  have hdrop : x₁ = x.drop n := by
    rw [(List.suffix_iff_eq_drop.1 (hps h₁)), show x.length - x₁.length = n by omega]
  have ht₁ : Track e e' x₁ (y.drop n) := by
    rw [hdrop]
    exact ht.drop (by have := hx₁.length_le; omega)
  obtain ⟨m, d, hm, hcm, hd, hf⟩ := (hf a b hr).follow hE ht₁ r x₂ h₂ hx₂
  refine ⟨n + m, d, by omega, fun hcr => ?_, hd, run_bind_eq_some.2 ⟨b, _, hq, ?_⟩⟩
  · rcases hc (a := a) hcr with h | h
    · have := hcn h
      omega
    · have := hcm h
      omega
  · rw [hf, List.drop_drop]

theorem suffix_bind {p : Parser α} {f : α → Parser γ} {x x' : List Tree} {r : γ}
    (hp : ∀ {x a x'}, p.run x = some (a, x') → x' <:+ x)
    (hf : ∀ {a x r x'}, (f a).run x = some (r, x') → x' <:+ x)
    (h : (p >>= f).run x = some (r, x')) : x' <:+ x := by
  obtain ⟨a, x₁, h₁, h₂⟩ := run_bind_eq_some.1 h
  exact (hf h₂).trans (hp h₁)

theorem follows_bind {σ : γ → δ → Prop} {k : α → Reads γ} {c' : Reads γ} {p : Parser α}
    {q : Parser β}
    {f : α → Parser γ} {f' : β → Parser δ} (hp : Follows E ρ c p q)
    (hfs : ∀ {a x r x'}, (f a).run x = some (r, x') → x' <:+ x)
    (hf : ∀ a b, ρ a b → Follows E σ (k a) (f a) (f' b))
    (hc : ∀ {a r}, c' r → c a ∨ k a r) : Follows E σ c' (p >>= f) (q >>= f') where
  suffix := suffix_bind hp.suffix hfs
  follow hE ht := (hp.follow hE ht).bind hp.suffix hE ht hfs hf hc

section

variable {σ : γ → δ → Prop} {k : Reads γ}

theorem follows_then {p q : Parser α} {f : α → Parser γ} {f' : α → Parser δ}
    [hp : Follows E Eq Never p q] (hf : ∀ a, Follows E σ k (f a) (f' a)) :
    Follows E σ k (p >>= f) (q >>= f') :=
  follows_bind hp (hf _).suffix (by rintro a _ rfl; exact hf a) .inr

theorem follows_first {p q : Parser α} {f : α → Parser γ} {f' : α → Parser δ}
    [hp : Follows E Eq Always p q] (hf : ∀ a, Follows E σ Never (f a) (f' a)) :
    Follows E σ k (p >>= f) (q >>= f') :=
  follows_bind hp (hf _).suffix (by rintro a _ rfl; exact hf a) fun _ => .inl trivial

instance {p q : Parser α} {f : α → Parser γ} {f' : α → Parser δ} [Follows E Eq Never p q]
    [hf : ∀ a, Follows E σ k (f a) (f' a)] : Follows E σ k (p >>= f) (q >>= f') :=
  follows_then hf

instance {p q : Parser α} {f : α → Parser γ} {f' : α → Parser δ} [Follows E Eq Always p q]
    [hf : ∀ a, Follows E σ Never (f a) (f' a)] : Follows E σ Always (p >>= f) (q >>= f') :=
  follows_first hf

instance {ρ : α ⊕ γ → δ → Prop} {p q : Parser β} {f : β → Parser (α ⊕ γ)} {f' : β → Parser δ}
    [Follows E Eq Always p q] [hf : ∀ a, Follows E ρ Never (f a) (f' a)] :
    Follows E ρ Left (p >>= f) (q >>= f') :=
  follows_first hf

instance {p q : Parser α} {f f' : α → Parser Bool} [Follows E Eq Always p q]
    [hf : ∀ a, Follows E Eq Never (f a) (f' a)] : Follows E Eq Found (p >>= f) (q >>= f') :=
  follows_first hf

/-- Either something was found, or the rest reads a tree. -/
instance {p q : Parser Bool} {f : Bool → Parser γ} {f' : Bool → Parser δ}
    [hp : Follows E Eq Found p q] [ht : Follows E σ Never (f true) (f' true)]
    [hf : Follows E σ Always (f false) (f' false)] : Follows E σ Always (p >>= f) (q >>= f') := by
  refine follows_bind (k := fun b => if b then Never else Always) hp (fun {b} => ?_) ?_ ?_
  · cases b
    · exact hf.suffix
    · exact ht.suffix
  · rintro (_ | _) _ rfl
    · exact hf
    · exact ht
  · rintro (_ | _) _ h
    · exact .inr h
    · exact .inl rfl

instance {p q : Parser Bool} {f f' : Bool → Parser Bool} [hp : Follows E Eq Found p q]
    [ht : Follows E Eq Never (f true) (f' true)] [hf : Follows E Eq Found (f false) (f' false)] :
    Follows E Eq Found (p >>= f) (q >>= f') := by
  refine follows_bind (k := fun b => if b then Never else Found) hp (fun {b} => ?_) ?_ ?_
  · cases b
    · exact hf.suffix
    · exact ht.suffix
  · rintro (_ | _) _ rfl
    · exact hf
    · exact ht
  · rintro (_ | _) _ h
    · exact .inr h
    · exact .inl rfl

/-- What is read without looking at the result. -/
instance (priority := mid) {p : Parser α} {q : Parser β} {r : Parser γ} {r' : Parser δ}
    [hp : Follows E Any Never p q] [hr : Follows E σ k r r'] :
    Follows E σ k (p >>= fun _ => r) (q >>= fun _ => r') :=
  follows_bind hp hr.suffix (fun _ _ _ => hr) .inr

instance (priority := mid) {p : Parser α} {q : Parser β} {r : Parser γ} {r' : Parser δ}
    [hp : Follows E Any Always p q] [hr : Follows E σ Never r r'] :
    Follows E σ Always (p >>= fun _ => r) (q >>= fun _ => r') :=
  follows_bind hp hr.suffix (fun _ _ _ => hr) fun _ => .inl trivial

end

/-! ### Choices -/

instance {cond : Prop} [Decidable cond] {A B : Parser α} {A' B' : Parser β}
    [hA : Follows E ρ c A A'] [hB : Follows E ρ c B B'] :
    Follows E ρ c (if cond then A else B) (if cond then A' else B') := by
  split
  · exact hA
  · exact hB

theorem follows_get {f : List Tree → Parser α} {f' : List Tree → Parser β}
    (h : FollowsIf E (fun _ => true) ρ c f f') : Follows E ρ c (get >>= f) (get >>= f') where
  suffix hp := h.suffix (by rwa [run_get_bind] at hp)
  follow hE ht a x' hp hx' := by
    rw [run_get_bind] at hp ⊢
    exact h.follow hE ht rfl a x' hp hx'

theorem followsIf_ite {m : Nat} {Q : List Tree → Bool} {A B : List Tree → Parser α}
    {A' B' : List Tree → Parser β} [Guard E 0 P m] [Agree E m Q] (hA : FollowsIf E Q ρ c A A')
    (hB : FollowsIf E P ρ c B B') :
    FollowsIf E P ρ c (fun ts => if Q ts = true then A ts else B ts)
      (fun ts => if Q ts = true then A' ts else B' ts) where
  suffix {x x' a} hp := by
    split at hp
    · exact hA.suffix hp
    · exact hB.suffix hp
  follow {e e' x y} hE ht hP := by
    rw [← Agree.eq (P := Q) hE ht (Guard.deep (P := P) (n := 0) hE ht trivial hP)]
    split
    · exact hA.follow hE ht ‹_›
    · exact hB.follow hE ht hP

theorem Follows.followsIf {p : Parser α} {q : Parser β} (h : Follows E ρ c p q) :
    FollowsIf E P ρ c (fun _ => p) fun _ => q where
  suffix := h.suffix
  follow hE ht _ := h.follow hE ht

/-- A look ahead is a look at the trees. -/
theorem follows_ahead {Q : List Tree → Bool} {f : Bool → Parser α} {f' : Bool → Parser β}
    (h : FollowsIf E (fun _ => true) ρ c (fun ts => f (Q ts)) fun ts => f' (Q ts)) :
    Follows E ρ c (ahead Q >>= f) (ahead Q >>= f') where
  suffix hp := h.suffix hp
  follow hE ht := h.follow hE ht rfl

/-- A look ahead whose answer is used after more has been read. -/
theorem follows_look {Q : List Tree → Bool} [Agree E 0 Q] {f : Bool → Parser α}
    {f' : Bool → Parser β} (ht : FollowsIf E Q ρ c (fun _ => f true) fun _ => f' true)
    (hf : Follows E ρ c (f false) (f' false)) :
    Follows E ρ c (ahead Q >>= f) (ahead Q >>= f') := by
  have split {γ : Type} (f : Bool → Parser γ) :
      (fun ts => f (Q ts)) = fun ts => if Q ts = true then f true else f false := by
    funext ts
    cases Q ts <;> rfl
  refine follows_ahead ?_
  rw [split f, split f']
  exact followsIf_ite ht hf.followsIf

instance {τ : Type} {R : List Tree → τ} [Agree E 0 R] : Follows E Eq Never (look R) (look R) where
  suffix h := by
    cases h
    exact List.suffix_rfl
  follow {e e' x y} hE ht a x' h _ := by
    cases h
    exact ⟨0, _, by omega, False.elim, rfl,
      congrArg (fun r => some (r, y)) (Agree.eq (P := R) (n := 0) hE ht trivial).symm⟩

instance {f : List Tree → Parser α} {f' : List Tree → Parser β}
    [h : FollowsIf E (fun _ => true) ρ c f f'] : Follows E ρ c (get >>= f) (get >>= f') :=
  follows_get h

instance {Q : List Tree → Bool} {A B : List Tree → Parser α} {A' B' : List Tree → Parser β}
    {m : Nat} [Guard E 0 P m] [Agree E m Q] [hA : FollowsIf E Q ρ c A A']
    [hB : FollowsIf E P ρ c B B'] : FollowsIf E P ρ c (fun ts => if Q ts = true then A ts else B ts)
      (fun ts => if Q ts = true then A' ts else B' ts) :=
  followsIf_ite hA hB

instance (priority := low) {p : Parser α} {q : Parser β} [h : Follows E ρ c p q] :
    FollowsIf E P ρ c (fun _ => p) fun _ => q :=
  h.followsIf

instance {Q : List Tree → Bool} {f : Bool → Parser α} {f' : Bool → Parser β}
    [h : FollowsIf E (fun _ => true) ρ c (fun ts => f (Q ts)) fun ts => f' (Q ts)] :
    Follows E ρ c (ahead Q >>= f) (ahead Q >>= f') :=
  follows_ahead h

instance (priority := low) {Q : List Tree → Bool} [Agree E 0 Q] {f : Bool → Parser α}
    {f' : Bool → Parser β} [ht : FollowsIf E Q ρ c (fun _ => f true) fun _ => f' true]
    [hf : Follows E ρ c (f false) (f' false)] : Follows E ρ c (ahead Q >>= f) (ahead Q >>= f') :=
  follows_look ht hf

instance (priority := high) {A B : List Tree → Parser α} {A' B' : List Tree → Parser β}
    [h : FollowsIf E P ρ c A A'] : FollowsIf E P ρ c (fun ts => if true = true then A ts else B ts)
      (fun ts => if true = true then A' ts else B' ts) :=
  h

instance (priority := high) {A B : Parser α} {A' B' : Parser β} [h : Follows E ρ c A A'] :
    Follows E ρ c (if true = true then A else B) (if true = true then A' else B') :=
  h

instance (priority := high) {A B : Parser α} {A' B' : Parser β} [h : Follows E ρ c B B'] :
    Follows E ρ c (if false = true then A else B) (if false = true then A' else B') :=
  h

instance {f : Bool → Parser α} {f' : Bool → Parser β}
    [h : FollowsIf E (fun _ => true) ρ c (fun ts => f ts.isEmpty) fun ts => f' ts.isEmpty] :
    Follows E ρ c (isDone >>= f) (isDone >>= f') :=
  follows_ahead h

instance {Q : List Tree → Bool} {f : Unit → Parser α} {f' : Unit → Parser β} [Agree E 0 Q]
    [h : FollowsIf E Q ρ c (fun _ => f ()) fun _ => f' ()] :
    Follows E ρ c (require Q >>= f) (require Q >>= f') where
  suffix hp := by
    obtain ⟨_, x₁, h₁, h₂⟩ := run_bind_eq_some.1 hp
    rw [run_require] at h₁
    split at h₁
    · cases h₁
      exact h.suffix h₂
    · cases h₁
  follow {e e' x y} hE ht a x' hp hx' := by
    obtain ⟨_, x₁, h₁, h₂⟩ := run_bind_eq_some.1 hp
    rw [run_require] at h₁
    split at h₁
    · cases h₁
      obtain ⟨n, b, hn, hc, hr, hq⟩ := h.follow hE ht ‹_› a x' h₂ hx'
      refine ⟨n, b, hn, hc, hr, run_bind_eq_some.2 ⟨(), y, ?_, hq⟩⟩
      rw [run_require, ← Agree.eq (P := Q) (n := 0) hE ht trivial, if_pos ‹_›]
    · cases h₁

instance {Q : List Tree → Bool} [Agree E 0 Q] : Follows E Eq Never (require Q) (require Q) := by
  have : Follows E Eq Never (require Q >>= fun _ => pure ()) (require Q >>= fun _ => pure ()) :=
    inferInstance
  simpa using this

/-! ### Reading trees -/

theorem length_le_of_deep {e : List Tree} {n : Nat} {x : List Tree} (h : Deep e n x) :
    n ≤ x.length := by
  induction n generalizing x with
  | zero => omega
  | succ n ih =>
    obtain ⟨hlt, hd⟩ := h
    have hskip : (Ahead.skip x).length < x.length := by
      cases x with
      | nil => simp at hlt
      | cons t ts =>
        rw [skip_cons]
        split
        · simp only [List.length_tail, List.length_cons]
          omega
        · simp
    have := ih hd
    omega

theorem followsAt_dropTrees {e x y : List Tree} {n : Nat} (hn : 0 < n) (hx : n ≤ x.length) :
    FollowsAt e Eq Always (dropTrees n) (dropTrees n) x y := by
  intro a x' hp _
  obtain rfl : x.drop n = x' := congrArg Prod.snd (Option.some.inj hp)
  exact ⟨n, (), by simp; omega, fun _ => hn, rfl, rfl⟩

theorem suffix_dropTrees {n : Nat} {x x' : List Tree} {a : Unit}
    (hp : (dropTrees n).run x = some (a, x')) : x' <:+ x := by
  obtain rfl : x.drop n = x' := congrArg Prod.snd (Option.some.inj hp)
  exact List.drop_suffix _ _

/-- A look ahead makes sure that the trees which are dropped are there. -/
theorem followsIf_dropTrees {σ : γ → δ → Prop} {k : Reads γ} {f : Unit → Parser γ}
    {f' : Unit → Parser δ} {n : Nat} (hn : 0 < n)
    (hP : ∀ {e e' x y}, E e e' → Track e e' x y → P x = true → n ≤ x.length)
    (hf : ∀ a, Follows E σ Never (f a) (f' a)) :
    FollowsIf E P σ k (fun _ => dropTrees n >>= f) fun _ => dropTrees n >>= f' where
  suffix hp := suffix_bind suffix_dropTrees (hf _).suffix hp
  follow hE ht hPx := (followsAt_dropTrees hn (hP hE ht hPx)).bind suffix_dropTrees hE ht
    (hf _).suffix (by rintro a _ rfl; exact hf a) fun _ => .inl trivial

section

variable {σ : γ → δ → Prop} {k : Reads γ} {f : Unit → Parser γ} {f' : Unit → Parser δ}
  [hf : ∀ a, Follows E σ Never (f a) (f' a)]

instance [Guard E 0 P 1] :
    FollowsIf E P σ k (fun _ => dropTrees 1 >>= f) fun _ => dropTrees 1 >>= f' :=
  followsIf_dropTrees (by omega)
    (fun hE ht hx => by
      have := length_le_of_deep (Guard.deep (P := P) (n := 0) hE ht trivial hx)
      omega) hf

instance [Guard E 0 P 2] :
    FollowsIf E P σ k (fun _ => dropTrees 2 >>= f) fun _ => dropTrees 2 >>= f' :=
  followsIf_dropTrees (by omega)
    (fun hE ht hx => by
      have := length_le_of_deep (Guard.deep (P := P) (n := 0) hE ht trivial hx)
      omega) hf

instance : FollowsIf E Ahead.brace σ k (fun _ => dropTrees 1 >>= f) fun _ => dropTrees 1 >>= f' :=
  followsIf_dropTrees (by omega)
    (fun {_ _ x _} _ _ hx => by cases x <;> simp_all [Ahead.brace, Ahead.group]) hf

instance : FollowsIf E Ahead.lifetime σ k (fun _ => dropTrees 2 >>= f)
    fun _ => dropTrees 2 >>= f' :=
  followsIf_dropTrees (by omega)
    (fun {_ _ x _} _ _ hx => by
      rcases x with _ | ⟨t, _ | ⟨u, x⟩⟩ <;> simp_all [Ahead.lifetime]) hf

theorem length_le_of_mark {m : String} {x : List Tree} (hx : Ahead.mark m x = true) :
    m.length ≤ x.length := by
  rw [← String.length_toList]
  exact length_le_of_markChars (Bool.and_eq_true_iff.1 hx).2

instance {m : String} [hm : Punctuation m] : FollowsIf E (Ahead.mark m) σ k
    (fun _ => dropTrees m.length >>= f) fun _ => dropTrees m.length >>= f' :=
  followsIf_dropTrees
    (by rw [← String.length_toList]; exact List.length_pos_iff.2 hm.nonempty)
    (fun _ _ hx => length_le_of_mark hx) hf

instance : FollowsIf E (Ahead.mark ";") σ k
    (fun _ => dropTrees ";".length >>= f) fun _ => dropTrees ";".length >>= f' :=
  followsIf_dropTrees (by decide) (fun _ _ hx => length_le_of_mark hx) hf

end

instance {k : Reads Unit} {n : Nat}
    [h : FollowsIf E P Eq k (fun _ => dropTrees n >>= pure) fun _ => dropTrees n >>= pure] :
    FollowsIf E P Eq k (fun _ => dropTrees n) fun _ => dropTrees n := by
  simpa using h

/-- A parser that reads one tree and looks at no other. -/
theorem follows_head {p : Parser α} {q : Parser β} (f : Tree → Option α) (f' : Tree → Option β)
    (hp : ∀ x, p.run x = x.head?.bind fun t => (f t).map (·, x.tail))
    (hq : ∀ x, q.run x = x.head?.bind fun t => (f' t).map (·, x.tail))
    (hf : ∀ {t u a}, t.Loose u → f t = some a → ∃ b, f' u = some b ∧ ρ a b) :
    Follows E ρ c p q where
  suffix {x x' a} h := by
    rw [hp] at h
    cases x with
    | nil => cases h
    | cons t x =>
      obtain ⟨a', -, he⟩ := Option.map_eq_some_iff.1 h
      cases he
      exact List.suffix_cons _ _
  follow {e e' x y} hE ht a x' h hx' := by
    rw [hp] at h
    cases x with
    | nil => cases h
    | cons t x =>
      obtain ⟨a', ha, he⟩ := Option.map_eq_some_iff.1 h
      cases he
      replace hx' : e <:+ x := hx'
      obtain ⟨_, u, _, y', he, rfl, hl, -, -⟩ := ht.inside (by
        have := hx'.length_le
        simp only [List.length_cons]
        omega)
      obtain ⟨rfl, rfl⟩ := List.cons.inj he
      obtain ⟨b, hb, hr⟩ := hf hl ha
      exact ⟨1, b, by simp; omega, fun _ => by omega, hr, by simp [hq, hb]⟩

instance : Follows E Eq Always anyWord anyWord :=
  follows_head (fun | .word w _ => some w | _ => none) (fun | .word w _ => some w | _ => none)
    (fun x => by rcases x with _ | ⟨_ | _, _⟩ <;> rfl)
    (fun x => by rcases x with _ | ⟨_ | _, _⟩ <;> rfl)
    (by rintro t u a (⟨_ | _⟩ | _) h <;> exact ⟨a, h, rfl⟩)

instance : Follows E Eq Always anyGroup anyGroup :=
  follows_head (fun | .group d _ _ => some d | _ => none) (fun | .group d _ _ => some d | _ => none)
    (fun x => by rcases x with _ | ⟨_ | _, _⟩ <;> rfl)
    (fun x => by rcases x with _ | ⟨_ | _, _⟩ <;> rfl)
    (by rintro t u a (⟨_ | _⟩ | _) h <;> exact ⟨a, h, rfl⟩)

theorem track_of_shapes {x y : List Tree} (h : Tree.shape.shapes x = Tree.shape.shapes y) :
    Track [] [] x y := by
  induction x generalizing y with
  | nil => cases y <;> simp_all [Tree.shape.shapes, Track.ends]
  | cons t x ih =>
    cases y with
    | nil => simp [Tree.shape.shapes] at h
    | cons u y =>
      simp only [Tree.shape.shapes, List.cons.injEq] at h
      exact .cons (Tree.same_iff.2 h.1) (ih h.2)

/-- What a group with the delimiter `d` holds, read by `p`. -/
def inside? (d : Delimiter) (p : Parser α) : Tree → Option α
  | .group e inner _ =>
    if d = e then
      match p.run inner with
      | some (a, []) => some a
      | _ => none
    else none
  | _ => none

theorem run_within (d : Delimiter) (p : Parser α) (x : List Tree) :
    (within d p).run x = x.head?.bind fun t => (inside? d p t).map (·, x.tail) := by
  rcases x with _ | ⟨_ | _ | _ | ⟨e, inner, s⟩, x⟩
  · rfl
  · rfl
  · rfl
  · rfl
  · simp only [inside?, List.head?_cons, Option.bind_some, List.tail_cons]
    unfold within
    rw [run_get_bind]
    by_cases hd : d = e
    · simp only [if_pos hd]
      rcases p.run inner with _ | ⟨a, _ | _⟩ <;> rfl
    · simp only [if_neg hd]
      rfl

theorem run_within_eq_some {d : Delimiter} {p : Parser α} {a : α} {x x' : List Tree} :
    (within d p).run x = some (a, x') ↔
      ∃ inner span, x = .group d inner span :: x' ∧ p.run inner = some (a, []) := by
  rw [run_within]
  constructor
  · intro h
    obtain ⟨t, ht, h⟩ := Option.bind_eq_some_iff.1 h
    obtain ⟨b, hb, he⟩ := Option.map_eq_some_iff.1 h
    cases he
    unfold inside? at hb
    split at hb
    · rename_i e inner span
      split at hb
      · rename_i hd
        split at hb
        · cases hb
          obtain ⟨x, rfl⟩ := List.head?_eq_some_iff.1 ht
          exact ⟨inner, span, by rw [hd]; rfl, ‹_›⟩
        · cases hb
      · cases hb
    · cases hb
  · rintro ⟨inner, span, rfl, h⟩
    simp [inside?, h]

theorem inside?_of_loose {d : Delimiter} {p : Parser α} {q : Parser β}
    (h : Follows Inner ρ Never p q) {t u : Tree} {a : α} (htu : t.Loose u)
    (ha : inside? d p t = some a) : ∃ b, inside? d q u = some b ∧ ρ a b := by
  rcases htu with ⟨_ | _ | _ | hi⟩ | _
  case same.group e i i' s s' =>
    simp only [inside?] at ha ⊢
    split at ha
    · split at ha
      · rename_i a' hrun
        cases ha
        have ht := track_of_shapes hi
        obtain ⟨n, b, hn, -, hr, hq⟩ := h.follow .nil ht a [] hrun List.suffix_rfl
        have := ht.length
        rw [List.drop_eq_nil_of_le (by simp at hn this; omega)] at hq
        exact ⟨b, by simp [hq, ‹d = e›], hr⟩
      · cases ha
    · cases ha
  all_goals cases ha

instance {d : Delimiter} {p : Parser α} {q : Parser β} [h : Follows Inner ρ Never p q] :
    Follows E ρ c (within d p) (within d q) :=
  follows_head (inside? d p) (inside? d q) (run_within d p) (run_within d q) (inside?_of_loose h)

/-! ### Words and marks -/

section

variable [Calm E]

instance {w : String} : Follows E Eq Always (word w) (word w) := by unfold word; infer_instance

instance : Follows E Eq Always ident ident := by unfold ident; infer_instance

instance {w : String} : Follows E Eq Found (tryWord w) (tryWord w) := by
  unfold tryWord; infer_instance

instance {m : String} [Punctuation m] : Follows E Eq Always (mark m) (mark m) := by
  unfold mark; infer_instance

instance {m : String} [Punctuation m] : Follows E Eq Found (tryMark m) (tryMark m) := by
  unfold tryMark; infer_instance

end

theorem tryWord_bind (w : String) (f : Bool → Parser α) :
    tryWord w >>= f = ahead (Ahead.word w) >>= fun b =>
      if b then dropTrees 1 >>= fun _ => f true else f false := by
  unfold tryWord
  rw [bind_assoc]
  exact bind_congr (m := Parser) fun b => by cases b <;> rfl

theorem run_mark (m : String) (x : List Tree) :
    (mark m).run x = if Ahead.mark m x = true then some ((), x.drop m.length) else none := by
  unfold mark
  rw [StateT.run_bind, run_require]
  split <;> rfl

instance (priority := low) {m : String} : Follows E Eq Never (mark m) (mark m) where
  suffix {x x' a} h := by
    rw [run_mark] at h
    split at h
    · cases h
      exact List.drop_suffix _ _
    · cases h
  follow {e e' x y} hE ht a x' h hx' := by
    rw [run_mark] at h ⊢
    split at h
    · rename_i hm
      cases h
      have hle := length_le_of_mark hm
      have hinside := hx'.length_le
      rw [List.length_drop] at hinside
      obtain ⟨hq, hm⟩ := Bool.and_eq_true_iff.1 hm
      have hy : Ahead.mark m y = true := by
        refine Bool.and_eq_true_iff.2 ⟨hq, ht.markChars_of_inside hm ?_⟩
        rw [String.length_toList]
        omega
      exact ⟨m.length, (), by rw [List.length_drop]; omega, False.elim, rfl, if_pos hy⟩
    · cases h

theorem run_tryMark (m : String) (x : List Tree) : (tryMark m).run x =
    some (if Ahead.mark m x = true then (true, x.drop m.length) else (false, x)) := by
  unfold tryMark
  rw [StateT.run_bind, run_ahead]
  cases h : Ahead.mark m x <;> simp [run_dropTrees]

theorem mark_semicolon_cons (t : Tree) (ts : List Tree) :
    Ahead.mark ";" (t :: ts) = match t with | .mark c _ _ => ';' == c | _ => false := by
  cases t <;> rfl

def semicolon? : Tree → Option Unit
  | .mark c _ _ => if ';' = c then some () else none
  | _ => none

theorem run_semicolon (x : List Tree) :
    (mark ";").run x = x.head?.bind fun t => (semicolon? t).map (·, x.tail) := by
  rw [run_mark]
  rcases x with _ | ⟨t, x⟩
  · rfl
  · rw [mark_semicolon_cons]
    cases t with
    | mark c j s =>
      by_cases hc : ';' = c
      · subst hc
        rfl
      · simp [semicolon?, hc]
    | _ => rfl

theorem semicolon?_of_loose {t u : Tree} {a : Unit} (h : t.Loose u) (ha : semicolon? t = some a) :
    ∃ b, semicolon? u = some b ∧ a = b := by
  rcases h with ⟨_ | _⟩ | _ <;> exact ⟨a, ha, rfl⟩

instance : Follows E Eq Always (mark ";") (mark ";") :=
  follows_head semicolon? semicolon? run_semicolon run_semicolon semicolon?_of_loose

instance [Firm E] : Follows E Eq Found (tryMark ";") (tryMark ";") := by
  unfold tryMark; infer_instance

/-- A look ahead that sees the same in both lists or, at the end, does not see it in the first. -/
class Heeds (E : Ends) (Q : List Tree → Bool) : Prop where
  eq {e e' x y : List Tree} : E e e' → Track e e' x y → Q x = Q y ∨ x = e ∧ Q x = false

instance (priority := low) {Q : List Tree → Bool} [Agree E 0 Q] : Heeds E Q :=
  ⟨fun hE ht => .inl (Agree.eq (n := 0) hE ht trivial)⟩

instance {P Q : List Tree → Bool} [hP : Heeds E P] [hQ : Heeds E Q] :
    Heeds E fun ts => P ts || Q ts where
  eq {e e' x y} hE ht := by
    rcases hP.eq hE ht with hP | ⟨hx, hP⟩ <;> rcases hQ.eq hE ht with hQ | ⟨hx', hQ⟩ <;>
      cases hy : P y <;> cases hy' : Q y <;> simp_all

instance [Fair E] : Heeds E (Ahead.mark ";") where
  eq {e e' x y} hE ht := by
    have same {t u : Tree} {ts us : List Tree} (h : t.Loose u) :
        Ahead.mark ";" (t :: ts) = Ahead.mark ";" (u :: us) := by
      rcases h with ⟨_ | _⟩ | _ <;> rfl
    cases ht with
    | ends =>
      have := Fair.nil hE
      cases Calm.alike hE with
      | silent h h' =>
        cases h <;> cases h' <;> simp_all [Ahead.mark, Ahead.markChars]
      | brace => exact .inl rfl
    | last h => exact .inl (same h)
    | cons h _ => exact .inl (same (.same h))

/-- At the end of the text nothing that has to be read can be read. -/
theorem follows_heed {Q : List Tree → Bool} [hQ : Heeds E Q] {f : Bool → Parser α}
    {f' : Bool → Parser β} (hc : FollowsIf E Q ρ c (fun _ => f true) fun _ => f' true)
    (hf : Follows E ρ Always (f false) (f' false)) :
    Follows E ρ c (ahead Q >>= f) (ahead Q >>= f') where
  suffix {x x' a} hp := by
    replace hp : (f (Q x)).run x = some (a, x') := hp
    cases hQx : Q x with
    | true => exact hc.suffix (hQx ▸ hp)
    | false => exact hf.suffix (hQx ▸ hp)
  follow {e e' x y} hE ht a x' hp hx' := by
    replace hp : (f (Q x)).run x = some (a, x') := hp
    change ∃ n b, _ ∧ _ ∧ _ ∧ (f' (Q y)).run y = _
    cases hQx : Q x with
    | true =>
      rw [show Q y = true by rcases hQ.eq hE ht with h | ⟨-, h⟩ <;> simp_all]
      exact hc.follow hE ht hQx a x' (hQx ▸ hp) hx'
    | false =>
      rw [hQx] at hp
      obtain ⟨n, b, hn, hpos, hr, hq⟩ := hf.follow hE ht a x' hp hx'
      have := hpos trivial
      have hlen := hx'.length_le
      rw [show Q y = false by
        rcases hQ.eq hE ht with h | ⟨rfl, -⟩
        · rw [← h, hQx]
        · omega]
      exact ⟨n, b, hn, fun _ => this, hr, hq⟩

instance (priority := low) {Q : List Tree → Bool} [Heeds E Q] {f : Bool → Parser α}
    {f' : Bool → Parser β} [hc : FollowsIf E Q ρ c (fun _ => f true) fun _ => f' true]
    [hf : Follows E ρ Always (f false) (f' false)] :
    Follows E ρ c (ahead Q >>= f) (ahead Q >>= f') :=
  follows_heed hc hf

theorem tryMark_bind (m : String) (f : Bool → Parser α) :
    tryMark m >>= f = ahead (Ahead.mark m) >>= fun b =>
      if b then dropTrees m.length >>= fun _ => f true else f false := by
  unfold tryMark
  rw [bind_assoc]
  exact bind_congr (m := Parser) fun b => by cases b <;> rfl

instance [Fair E] {f : Bool → Parser α} {f' : Bool → Parser β}
    [hc : Follows E ρ Never (f true) (f' true)] [hf : Follows E ρ Always (f false) (f' false)] :
    Follows E ρ Always (tryMark ";" >>= f) (tryMark ";" >>= f') := by
  rw [tryMark_bind, tryMark_bind]
  exact follows_heed inferInstance hf

instance [Calm E] : Follows E Eq Always lifetime lifetime := by unfold lifetime; infer_instance

instance [Calm E] : Follows E Eq Found tryLifetime tryLifetime := by
  unfold tryLifetime; infer_instance

/-- The number of trees of a literal, which may have a sign in front of it. -/
def literalSize : List Tree → Nat
  | .mark .. :: _ => 2
  | _ => 1

theorem run_literal (x : List Tree) : literal.run x =
    if Ahead.literal x = true then some ((), x.drop (literalSize x)) else none := by
  rcases x with _ | ⟨t, x⟩
  · rfl
  · rw [literal_cons]
    cases t with
    | word w s =>
      unfold literal
      rw [run_get_bind]
      dsimp only
      split <;> rfl
    | mark c j s =>
      by_cases hc : c = '-'
      · subst hc
        rcases x with _ | ⟨t, x⟩
        · rfl
        · cases t with
          | literal l s =>
            cases l with
            | nil => rfl
            | cons d l =>
              unfold literal
              rw [run_get_bind]
              dsimp only
              by_cases hd : d.isDigit = true
              · simp [digitsAhead, hd, literalSize]
              · simp only [digitsAhead, hd, List.head?_cons, Option.any_some]
                rfl
          | _ => rfl
      · unfold literal
        rw [run_get_bind, if_neg (by simp [hc])]
        split
        · rename_i heq
          cases heq
        · rename_i heq
          cases heq
        · rename_i heq
          cases heq
          exact absurd rfl hc
        · rfl
    | literal l s => rfl
    | group d i s => rfl

instance [Calm E] : Follows E Eq Always literal literal where
  suffix {x x' a} h := by
    rw [run_literal] at h
    split at h
    · cases h
      exact List.drop_suffix _ _
    · cases h
  follow {e e' x y} hE ht a x' h hx' := by
    rw [run_literal] at h ⊢
    rw [← Agree.eq (P := Ahead.literal) (n := 0) hE ht trivial]
    split at h
    · rename_i hlit
      cases h
      obtain ⟨t, u, x, y, rfl, rfl, hl, hs, -⟩ := ht.inside
        (deep_one.1 (Guard.deep (P := Ahead.literal) (n := 0) hE ht trivial hlit))
      have hle : literalSize (t :: x) ≤ (t :: x).length := by
        rw [literal_cons] at hlit
        cases t with
        | mark c j s =>
          cases x with
          | nil => simp [digitsAhead] at hlit
          | cons => simp [literalSize]
        | _ => simp [literalSize]
      have hsize : literalSize (t :: x) = literalSize (u :: y) := by
        rcases hl with ⟨_ | _⟩ | _ <;> rfl
      refine ⟨literalSize (t :: x), (), ?_, fun _ => ?_, rfl, ?_⟩
      · rw [List.length_drop]
        omega
      · unfold literalSize
        split <;> omega
      · rw [if_pos hlit, hsize]
    · cases h

/-! ### Loops -/

section

variable {α' β' : Type} {σ : α → α' → Prop} {ρ : β → β' → Prop} {step : α → Parser (α ⊕ β)}
  {step' : α' → Parser (α' ⊕ β')} {k : Reads (α ⊕ β)} {c : Reads β}

theorem suffix_iterateFrom (hs : ∀ {a x r x'}, (step a).run x = some (r, x') → x' <:+ x)
    {n : Nat} {a : α} {x x' : List Tree} {b : β}
    (h : (iterateFrom step n a).run x = some (b, x')) : x' <:+ x := by
  induction n generalizing a x with
  | zero => cases h
  | succ n ih =>
    unfold iterateFrom at h
    obtain ⟨r, x₁, h₁, h₂⟩ := run_bind_eq_some.1 h
    cases r with
    | inl a => exact (ih h₂).trans (hs h₁)
    | inr b =>
      cases h₂
      exact hs h₁

/-- What every step keeps, and the last one turns into `Q`, is `Q` after all steps. -/
theorem iterate_induction {J : α → List Tree → Prop} {Q : β → List Tree → Prop}
    (hgo : ∀ a x a' x', J a x → (step a).run x = some (.inl a', x') → J a' x')
    (hend : ∀ a x b x', J a x → (step a).run x = some (.inr b, x') → Q b x') {a : α} {b : β}
    {x x' : List Tree} (hJ : J a x) (h : (iterate step a).run x = some (b, x')) : Q b x' := by
  have loop {n : Nat} {a : α} {x : List Tree} (hJ : J a x)
      (h : (iterateFrom step n a).run x = some (b, x')) : Q b x' := by
    induction n generalizing a x with
    | zero => cases h
    | succ n ih =>
      unfold iterateFrom at h
      obtain ⟨r, x₁, h₁, h₂⟩ := run_bind_eq_some.1 h
      cases r with
      | inl a => exact ih (hgo _ _ _ _ hJ h₁) h₂
      | inr b =>
        cases h₂
        exact hend _ _ _ _ hJ h₁
  exact loop hJ h

/-- The other list may be shorter and give less fuel, which is enough as every step reads a
tree. -/
theorem followsAt_iterateFrom (hsx : ∀ {a x r x'}, (step a).run x = some (r, x') → x' <:+ x)
    (hs : ∀ {a a'}, σ a a' → Follows E (Sum.LiftRel σ ρ) k (step a) (step' a'))
    (hl : ∀ a, k (.inl a)) (hr : ∀ {b}, c b → k (.inr b)) {e e' : List Tree} (hE : E e e')
    {n m : Nat} {a : α} {a' : α'} {x y : List Tree} (ha : σ a a') (ht : Track e e' x y)
    (hm : x.length < m + e.length) :
    FollowsAt e ρ c (iterateFrom step n a) (iterateFrom step' m a') x y := by
  intro b x' h hx'
  induction n generalizing a a' x y m with
  | zero => cases h
  | succ n ih =>
    obtain ⟨m, rfl⟩ : ∃ m', m = m' + 1 := ⟨m - 1, by have := ht.suffix.length_le; omega⟩
    unfold iterateFrom at h ⊢
    obtain ⟨r, x₁, h₁, h₂⟩ := run_bind_eq_some.1 h
    have hx₁ : e <:+ x₁ := by
      cases r with
      | inl a => exact hx'.trans (suffix_iterateFrom hsx h₂)
      | inr b =>
        cases h₂
        exact hx'
    obtain ⟨l, r', hlen, hk, hrel, hq⟩ := (hs ha).follow hE ht r x₁ h₁ hx₁
    cases hrel with
    | inl ha₁ =>
      have hpos := hk (hl _)
      have ht₁ := ht.drop (n := l) (by have := hx₁.length_le; omega)
      rw [← show x₁ = x.drop l by
        rw [List.suffix_iff_eq_drop.1 (hsx h₁), show x.length - x₁.length = l by omega]] at ht₁
      obtain ⟨l', b', hlen', -, hb, hq'⟩ := ih ha₁ ht₁ (m := m) (by omega) h₂
      refine ⟨l + l', b', by omega, fun _ => by omega, hb, run_bind_eq_some.2 ⟨_, _, hq, ?_⟩⟩
      rw [hq', List.drop_drop]
    | inr hb =>
      cases h₂
      exact ⟨l, _, hlen, fun hc => hk (hr hc), hb, run_bind_eq_some.2 ⟨_, _, hq, rfl⟩⟩

theorem follows_iterate (hsx : ∀ {a x r x'}, (step a).run x = some (r, x') → x' <:+ x)
    (hs : ∀ {a a'}, σ a a' → Follows E (Sum.LiftRel σ ρ) k (step a) (step' a'))
    (hl : ∀ a, k (.inl a)) (hr : ∀ {b}, c b → k (.inr b)) {a : α} {a' : α'} (ha : σ a a') :
    Follows E ρ c (iterate step a) (iterate step' a') where
  suffix h := suffix_iterateFrom hsx h
  follow hE ht := followsAt_iterateFrom hsx hs hl hr hE ha ht (by have := ht.length; omega)

end

theorem liftRel_eq : (Sum.LiftRel Eq Eq : α ⊕ β → α ⊕ β → Prop) = Eq := by
  funext a b
  refine propext ⟨?_, ?_⟩
  · rintro (rfl | rfl) <;> rfl
  · rintro rfl
    cases a with
    | inl a => exact .inl rfl
    | inr b => exact .inr rfl

section

variable {step step' : α → Parser (α ⊕ β)} {a : α}

theorem follows_loop (hs : ∀ a, Follows E Eq Left (step a) (step' a)) :
    Follows E Eq Never (iterate step a) (iterate step' a) :=
  follows_iterate (σ := Eq) (hs _).suffix (by rintro a _ rfl; exact liftRel_eq ▸ hs a)
    (fun _ => rfl) False.elim rfl

instance [hs : ∀ a, Follows E Eq Left (step a) (step' a)] :
    Follows E Eq Never (iterate step a) (iterate step' a) :=
  follows_loop hs

instance [hs : ∀ a, Follows E Eq Always (step a) (step' a)] :
    Follows E Eq Always (iterate step a) (iterate step' a) :=
  follows_iterate (σ := Eq) (hs _).suffix (by rintro a _ rfl; exact liftRel_eq ▸ hs a)
    (fun _ => trivial) (fun _ => trivial) rfl

end

/-- Loops that collect what they read. -/
theorem follows_manyWhile {Q : List Tree → Bool} [Agree E 0 Q] {p : Parser α} {q : Parser β}
    (h : Follows E ρ Always p q) :
    Follows E (List.Forall₂ ρ) Never (manyWhile Q p) (manyWhile Q q) := by
  refine follows_iterate (σ := List.Forall₂ ρ) (k := Left) ?_ ?_ (fun _ => rfl) False.elim .nil
  · refine fun {l} => suffix_bind (fun hx => ?_) fun {b} => ?_
    · cases hx
      exact List.suffix_rfl
    · cases b with
      | false => exact (follows_pure (E := E) (c := Never) rfl id).suffix
      | true => exact suffix_bind h.suffix (follows_pure (E := E) (c := Never) rfl id).suffix
  · intro l l' hl
    have hread : Follows E (Sum.LiftRel (List.Forall₂ ρ) (List.Forall₂ ρ)) Left
        (p >>= fun a => pure (.inl (a :: l))) (q >>= fun a => pure (.inl (a :: l'))) :=
      follows_bind (k := fun _ => Never) h (follows_pure (E := E) (c := Never) rfl id).suffix
        (fun a b hab => follows_pure (.inl (.cons hab hl)) id) fun _ => .inl trivial
    have hdone : Follows E (Sum.LiftRel (List.Forall₂ ρ) (List.Forall₂ ρ)) Left
        (pure (.inr l.reverse)) (pure (.inr l'.reverse)) :=
      follows_pure (.inr (List.rel_reverse hl)) (by simp [Left])
    infer_instance

instance {Q : List Tree → Bool} [Agree E 0 Q] {p q : Parser α} [h : Follows E Eq Always p q] :
    Follows E Eq Never (manyWhile Q p) (manyWhile Q q) := by
  simpa using follows_manyWhile (Q := Q) h

instance {Q : List Tree → Bool} [Agree E 0 Q] {p : Parser α} {q : Parser β}
    [h : Follows E Any Always p q] : Follows E Any Never (manyWhile Q p) (manyWhile Q q) :=
  (follows_manyWhile (Q := Q) h).weaken (fun _ => trivial) id

instance [Firm E] {p q : Parser α} [Follows E Eq Always p q] :
    Follows E Eq Never (manyToEnd p) (manyToEnd q) := by
  unfold manyToEnd; infer_instance

instance [Firm E] {p : Parser α} {q : Parser β} [Follows E Any Always p q] :
    Follows E Any Never (manyToEnd p) (manyToEnd q) := by
  unfold manyToEnd; infer_instance

instance [Calm E] {Q : List Tree → Bool} [Agree E 0 Q] {p q : Parser α}
    [Follows E Eq Never p q] : Follows E Eq Never (commaUntil Q p) (commaUntil Q q) := by
  unfold commaUntil; infer_instance

instance [Firm E] {p q : Parser α} [Follows E Eq Never p q] :
    Follows E Eq Never (commaToEnd p) (commaToEnd q) := by
  unfold commaToEnd; infer_instance

/-- What is read with the trees that were read. -/
theorem follows_reading {p : Parser α} {q : Parser β} (h : Follows E ρ c p q) :
    Follows E (fun a b => ρ a.1 b.1 ∧ Track [] [] a.2 b.2) (fun a => c a.1) (reading p)
      (reading q) where
  suffix {x x' a} hx := by
    obtain ⟨a, x₁, h₁, h₂⟩ := run_bind_eq_some.1 (by simpa only [reading, run_get_bind] using hx)
    cases h₂
    exact h.suffix h₁
  follow {e e' x y} hE ht a x' hx hx' := by
    obtain ⟨a, x₁, h₁, h₂⟩ := run_bind_eq_some.1 (by simpa only [reading, run_get_bind] using hx)
    cases h₂
    obtain ⟨n, b, hn, hc, hr, hq⟩ := h.follow hE ht a x' h₁ hx'
    have hle := hx'.length_le
    have hlen := ht.length
    have htake := ht.take (n := n) (by omega)
    refine ⟨n, (b, y.take n), hn, hc, ⟨hr, ?_⟩, ?_⟩
    · rwa [readPart, show x.length - x'.length = n by omega]
    · simp only [reading, run_get_bind]
      refine run_bind_eq_some.2 ⟨b, _, hq, ?_⟩
      simp only [run_get_bind, run_pure, readPart, List.length_drop]
      rw [show y.length - (y.length - n) = n by omega]

end Notebook.Syntax.Parser
