import Notebook.Proofs.Syntax.Statement

/-!
Parsers that end with a semicolon or a brace that they read. What follows that last tree is not
looked at, so they end the same in front of anything.
-/

set_option synthInstance.maxSize 10000
set_option synthInstance.maxHeartbeats 200000

namespace Notebook.Syntax

/-- The last tree of what takes no more. -/
inductive Anchor : Tree → Prop
  | semicolon {j : Bool} {s : Span} : Anchor (.mark ';' j s)
  | brace {i : List Tree} {s : Span} : Anchor (.group .brace i s)

theorem Sealed.loose {t u : Tree} {r r' : List Tree} (h : Sealed (t :: r) (u :: r')) :
    t.Loose u := by
  cases h with
  | semicolon => exact .mark
  | brace h => exact .same h

namespace Parser

open Ahead (second third)

section

variable {α β : Type}

/-- The last tree that `p` reads is an anchor; where that is the first of two ends, `q` reads up
to the anchor in the other. -/
class Closes (ρ : α → β → Prop) (p : Parser α) (q : Parser β) : Prop where
  anchored {x x' : List Tree} {a : α} : p.run x = some (a, x') → ∃ z t, Anchor t ∧ x = z ++ t :: x'
  close {t u : Tree} {r r' x y : List Tree} {a : α} : Sealed (t :: r) (u :: r') →
    Track (t :: r) (u :: r') x y → p.run x = some (a, r) → ∃ b, ρ a b ∧ q.run y = some (b, r')

/-- `Closes` for parsers that look at the trees ahead, of which `P` holds. -/
class ClosesIf (P : List Tree → Bool) (ρ : α → β → Prop) (f : List Tree → Parser α)
    (f' : List Tree → Parser β) : Prop where
  anchored {x x' : List Tree} {a : α} :
    (f x).run x = some (a, x') → ∃ z t, Anchor t ∧ x = z ++ t :: x'
  close {t u : Tree} {r r' x y : List Tree} {a : α} : Sealed (t :: r) (u :: r') →
    Track (t :: r) (u :: r') x y → P x = true → (f x).run x = some (a, r) →
    ∃ b, ρ a b ∧ (f' y).run y = some (b, r')

/-- A parser that reads nothing. -/
class Idle (ρ : α → β → Prop) (p : Parser α) (q : Parser β) : Prop where
  idle : ∃ a b, ρ a b ∧ p = pure a ∧ q = pure b

end

variable {α β γ δ : Type} {P : List Tree → Bool} {ρ : α → β → Prop} {σ : γ → δ → Prop}

/-! ### Last trees -/

/-- A parser of one tree closes what it reads if that is always an anchor. -/
theorem closes_head {p : Parser α} {q : Parser β} (f : Tree → Option α) (f' : Tree → Option β)
    (hp : ∀ x, p.run x = x.head?.bind fun t => (f t).map (·, x.tail))
    (hq : ∀ x, q.run x = x.head?.bind fun t => (f' t).map (·, x.tail))
    (hf : ∀ {t u a}, t.Loose u → f t = some a → ∃ b, f' u = some b ∧ ρ a b)
    (ha : ∀ {t a}, f t = some a → Anchor t) : Closes ρ p q where
  anchored {x x' a} h := by
    rw [hp] at h
    cases x with
    | nil => cases h
    | cons t x =>
      obtain ⟨a', hfa, he⟩ := Option.map_eq_some_iff.1 h
      cases he
      exact ⟨[], t, ha hfa, rfl⟩
  close {t u r r' x y a} hs ht h := by
    rw [hp] at h
    cases x with
    | nil => cases h
    | cons t' x =>
      obtain ⟨a', hfa, he⟩ := Option.map_eq_some_iff.1 h
      cases he
      obtain ⟨hx, rfl⟩ := ht.outside (by simp)
      obtain ⟨rfl, -⟩ := List.cons.inj hx
      obtain ⟨b, hb, hr⟩ := hf hs.loose hfa
      exact ⟨b, hr, by simp [hq, hb]⟩

instance : Closes Eq (mark ";") (mark ";") :=
  closes_head semicolon? semicolon? run_semicolon run_semicolon semicolon?_of_loose
    fun {t a} h => by
      cases t with
      | mark c j s =>
        by_cases hc : ';' = c
        · subst hc
          exact .semicolon
        · simp [semicolon?, hc] at h
      | _ => cases h

theorem anchor_of_inside {p : Parser α} {t : Tree} {a : α} (h : inside? .brace p t = some a) :
    Anchor t := by
  rcases t with _ | _ | _ | ⟨_ | _ | _, _, _⟩ <;> first | exact .brace | cases h

instance {p : Parser α} {q : Parser β} [h : Follows Inner ρ Never p q] :
    Closes ρ (within .brace p) (within .brace q) :=
  closes_head (inside? .brace p) (inside? .brace q) (run_within _ p) (run_within _ q)
    (inside?_of_loose h) anchor_of_inside

/-- A group in braces whose contents are not looked at. -/
def anyBrace : Parser Unit := do
  require Ahead.brace
  dropTrees 1

def brace? : Tree → Option Unit
  | .group .brace _ _ => some ()
  | _ => none

theorem run_anyBrace (x : List Tree) :
    anyBrace.run x = x.head?.bind fun t => (brace? t).map (·, x.tail) := by
  unfold anyBrace
  rw [StateT.run_bind, run_require]
  rcases x with _ | ⟨_ | _ | _ | ⟨_ | _ | _, _, _⟩, x⟩ <;> rfl

instance : Closes Eq anyBrace anyBrace :=
  closes_head brace? brace? run_anyBrace run_anyBrace
    (by
      rintro t u a (⟨_ | _ | _ | @⟨d, _, _, _, _, _⟩⟩ | _) h
      case same.group => cases d <;> exact ⟨a, h, rfl⟩
      all_goals exact ⟨a, h, rfl⟩)
    fun {t a} h => by
      rcases t with _ | _ | _ | ⟨_ | _ | _, _, _⟩ <;> first | exact .brace | cases h

/-! ### Sequences and choices -/

theorem suffix_of_anchored {x x' : List Tree} (h : ∃ z t, Anchor t ∧ x = z ++ t :: x') :
    x' <:+ x ∧ x'.length < x.length := by
  obtain ⟨z, t, -, rfl⟩ := h
  exact ⟨⟨z ++ [t], by simp⟩, by simp; omega⟩

theorem anchored_bind {p : Parser α} {f : α → Parser γ} {x x' : List Tree} {r : γ}
    (hp : ∀ {a x'}, p.run x = some (a, x') → x' <:+ x)
    (hf : ∀ {a x r x'}, (f a).run x = some (r, x') → ∃ z t, Anchor t ∧ x = z ++ t :: x')
    (h : (p >>= f).run x = some (r, x')) : ∃ z t, Anchor t ∧ x = z ++ t :: x' := by
  obtain ⟨a, x₁, h₁, h₂⟩ := run_bind_eq_some.1 h
  obtain ⟨z, t, ht, rfl⟩ := hf h₂
  obtain ⟨w, rfl⟩ := hp h₁
  exact ⟨w ++ z, t, ht, by simp⟩

/-- What comes before a parser that closes stops before the end. -/
theorem FollowsAt.close_bind {R : α → β → Prop} {c : Reads α} {p : Parser α} {q : Parser β}
    {f : α → Parser γ} {f' : β → Parser δ} {t u : Tree} {r r' x y : List Tree} {d : γ}
    (hp : FollowsAt (t :: r) R c p q x y) (hps : ∀ {a x'}, p.run x = some (a, x') → x' <:+ x)
    (hf : ∀ {a b}, R a b → Closes σ (f a) (f' b))
    (ha : ∀ {a x r x'}, (f a).run x = some (r, x') → ∃ z t, Anchor t ∧ x = z ++ t :: x')
    (hs : Sealed (t :: r) (u :: r')) (ht : Track (t :: r) (u :: r') x y)
    (h : (p >>= f).run x = some (d, r)) : ∃ d', σ d d' ∧ (q >>= f').run y = some (d', r') := by
  obtain ⟨a, x₁, h₁, h₂⟩ := run_bind_eq_some.1 h
  obtain ⟨-, hlt⟩ := suffix_of_anchored (ha h₂)
  have hsuffix := hps h₁
  have hx₁ : t :: r <:+ x₁ :=
    List.suffix_of_suffix_length_le ht.suffix hsuffix (by simpa using Nat.succ_le_of_lt hlt)
  obtain ⟨n, b, hn, -, hr, hq⟩ := hp a x₁ h₁ hx₁
  have ht₁ := ht.drop (n := n) (by have := hx₁.length_le; omega)
  rw [← show x₁ = x.drop n by
    rw [List.suffix_iff_eq_drop.1 hsuffix, show x.length - x₁.length = n by omega]] at ht₁
  obtain ⟨d', hd, hf⟩ := (hf hr).close hs ht₁ h₂
  exact ⟨d', hd, run_bind_eq_some.2 ⟨b, _, hq, hf⟩⟩

theorem closes_bind {R : α → β → Prop} {c : Reads α} {p : Parser α} {q : Parser β}
    {f : α → Parser γ} {f' : β → Parser δ} (hp : Follows Sealed R c p q)
    (ha : ∀ {a x r x'}, (f a).run x = some (r, x') → ∃ z t, Anchor t ∧ x = z ++ t :: x')
    (hf : ∀ {a b}, R a b → Closes σ (f a) (f' b)) : Closes σ (p >>= f) (q >>= f') where
  anchored := anchored_bind hp.suffix ha
  close hs ht := (hp.follow hs ht).close_bind hp.suffix hf ha hs ht

instance {p q : Parser α} {f : α → Parser γ} {f' : α → Parser δ} [hp : Follows Sealed Eq Never p q]
    [hf : ∀ a, Closes σ (f a) (f' a)] : Closes σ (p >>= f) (q >>= f') :=
  closes_bind hp (hf _).anchored (by rintro a _ rfl; exact hf a)

instance (priority := mid) {p : Parser α} {q : Parser β} {r : Parser γ} {r' : Parser δ}
    [hp : Follows Sealed Any Never p q] [hr : Closes σ r r'] :
    Closes σ (p >>= fun _ => r) (q >>= fun _ => r') :=
  closes_bind hp hr.anchored fun _ => hr

instance {a : α} : Idle Eq (pure a) (pure a) := ⟨a, a, rfl, rfl, rfl⟩

instance : Idle Item.Alike (pure .other) (pure .other) := ⟨_, _, .other, rfl, rfl⟩

instance {A B : Parser α} {A' B' : Parser β} [h : Idle ρ A A'] :
    Idle ρ (if true = true then A else B) (if true = true then A' else B') :=
  h

/-- What comes after a parser that closes reads nothing. -/
theorem closes_then {R : α → β → Prop} {p : Parser α} {q : Parser β} {f : α → Parser γ}
    {f' : β → Parser δ} (hp : Closes R p q) (hf : ∀ a b, R a b → Idle σ (f a) (f' b))
    (hi : ∀ a, ∃ b, f a = pure b) : Closes σ (p >>= f) (q >>= f') where
  anchored {x x' a} h := by
    obtain ⟨a, x₁, h₁, h₂⟩ := run_bind_eq_some.1 h
    obtain ⟨b, hb⟩ := hi a
    rw [hb] at h₂
    cases h₂
    exact hp.anchored h₁
  close {t u r r' x y a} hs ht h := by
    obtain ⟨a, x₁, h₁, h₂⟩ := run_bind_eq_some.1 h
    obtain ⟨b, hb⟩ := hi a
    obtain rfl : x₁ = r := by
      rw [hb] at h₂
      cases h₂
      rfl
    obtain ⟨b', hr, hq⟩ := hp.close hs ht h₁
    obtain ⟨d, d', hd, hfa, hfb⟩ := (hf a b' hr).idle
    rw [hfa] at h₂
    cases h₂
    exact ⟨d', hd, run_bind_eq_some.2 ⟨b', _, hq, by rw [hfb]; rfl⟩⟩

instance {p q : Parser α} {f : α → Parser γ} {f' : α → Parser δ} [hp : Closes Eq p q]
    [hf : ∀ a, Idle σ (f a) (f' a)] : Closes σ (p >>= f) (q >>= f') :=
  closes_then hp (by rintro a _ rfl; exact hf a) fun a => by
    obtain ⟨b, -, -, h, -⟩ := (hf a).idle
    exact ⟨b, h⟩

instance (priority := mid) {p : Parser α} {q : Parser β} {r : Parser γ} {r' : Parser δ}
    [hp : Closes Any p q] [hr : Idle σ r r'] : Closes σ (p >>= fun _ => r) (q >>= fun _ => r') :=
  closes_then hp (fun _ _ _ => hr) fun _ => by
    obtain ⟨b, -, -, h, -⟩ := hr.idle
    exact ⟨b, h⟩

instance {q : Parser β} : Closes ρ failure q where
  anchored h := by cases h
  close _ _ h := by cases h

instance {cond : Prop} [Decidable cond] {A B : Parser α} {A' B' : Parser β}
    [hA : Closes ρ A A'] [hB : Closes ρ B B'] :
    Closes ρ (if cond then A else B) (if cond then A' else B') := by
  split
  · exact hA
  · exact hB

instance (priority := high) {A B : Parser α} {A' B' : Parser β} [h : Closes ρ A A'] :
    Closes ρ (if true = true then A else B) (if true = true then A' else B') :=
  h

instance (priority := high) {A B : Parser α} {A' B' : Parser β} [h : Closes ρ B B'] :
    Closes ρ (if false = true then A else B) (if false = true then A' else B') :=
  h

/-! ### Looks ahead -/

theorem Closes.closesIf {p : Parser α} {q : Parser β} (h : Closes ρ p q) :
    ClosesIf P ρ (fun _ => p) fun _ => q where
  anchored := h.anchored
  close hs ht _ := h.close hs ht

theorem closes_get {f : List Tree → Parser α} {f' : List Tree → Parser β}
    (h : ClosesIf (fun _ => true) ρ f f') : Closes ρ (get >>= f) (get >>= f') where
  anchored {x x' a} hp := h.anchored (x := x) (by rwa [run_get_bind] at hp)
  close hs ht hp := by
    rw [run_get_bind] at hp ⊢
    exact h.close hs ht rfl hp

theorem closesIf_ite {m : Nat} {Q : List Tree → Bool} {A B : List Tree → Parser α}
    {A' B' : List Tree → Parser β} [Guard Sealed 0 P m] [Agree Sealed m Q]
    (hA : ClosesIf Q ρ A A') (hB : ClosesIf P ρ B B') :
    ClosesIf P ρ (fun ts => if Q ts = true then A ts else B ts)
      (fun ts => if Q ts = true then A' ts else B' ts) where
  anchored {x x' a} hp := by
    split at hp
    · exact hA.anchored hp
    · exact hB.anchored hp
  close {t u r r' x y a} hs ht hP hp := by
    rw [← Agree.eq (P := Q) hs ht (Guard.deep (P := P) (n := 0) hs ht trivial hP)]
    by_cases hQ : Q x = true
    · rw [if_pos hQ] at hp ⊢
      exact hA.close hs ht hQ hp
    · rw [if_neg hQ] at hp ⊢
      exact hB.close hs ht hP hp

theorem closes_ahead {Q : List Tree → Bool} {f : Bool → Parser α} {f' : Bool → Parser β}
    (h : ClosesIf (fun _ => true) ρ (fun ts => f (Q ts)) fun ts => f' (Q ts)) :
    Closes ρ (ahead Q >>= f) (ahead Q >>= f') where
  anchored hp := h.anchored hp
  close hs ht hp := h.close hs ht rfl hp

instance {f : List Tree → Parser α} {f' : List Tree → Parser β}
    [h : ClosesIf (fun _ => true) ρ f f'] : Closes ρ (get >>= f) (get >>= f') :=
  closes_get h

instance {m : Nat} {Q : List Tree → Bool} {A B : List Tree → Parser α}
    {A' B' : List Tree → Parser β} [Guard Sealed 0 P m] [Agree Sealed m Q]
    [hA : ClosesIf Q ρ A A'] [hB : ClosesIf P ρ B B'] :
    ClosesIf P ρ (fun ts => if Q ts = true then A ts else B ts)
      (fun ts => if Q ts = true then A' ts else B' ts) :=
  closesIf_ite hA hB

instance (priority := low) {p : Parser α} {q : Parser β} [h : Closes ρ p q] :
    ClosesIf P ρ (fun _ => p) fun _ => q :=
  h.closesIf

instance {Q : List Tree → Bool} {f : Bool → Parser α} {f' : Bool → Parser β}
    [h : ClosesIf (fun _ => true) ρ (fun ts => f (Q ts)) fun ts => f' (Q ts)] :
    Closes ρ (ahead Q >>= f) (ahead Q >>= f') :=
  closes_ahead h

/-- Trees that are dropped because they were seen. -/
instance {n : Nat} {f : Unit → Parser γ} {f' : Unit → Parser δ}
    [hp : FollowsIf Sealed P Eq Never (fun _ => dropTrees n) fun _ => dropTrees n]
    [hf : ∀ a, Closes σ (f a) (f' a)] :
    ClosesIf P σ (fun _ => dropTrees n >>= f) fun _ => dropTrees n >>= f' where
  anchored := anchored_bind hp.suffix (hf _).anchored
  close hs ht hP := (hp.follow hs ht hP).close_bind hp.suffix (by rintro a _ rfl; exact hf a)
    (hf _).anchored hs ht

theorem exists_of_semicolon {x : List Tree} (h : Ahead.mark ";" x = true) :
    ∃ j s, x = .mark ';' j s :: x.tail := by
  rcases x with _ | ⟨t, x⟩
  · cases h
  · rw [mark_semicolon_cons] at h
    cases t with
    | mark c j s =>
      obtain rfl := beq_iff_eq.1 h
      exact ⟨j, s, rfl⟩
    | _ => cases h

/-- Where there is no semicolon, what follows closes. -/
instance {f : Bool → Parser α} {f' : Bool → Parser β} [ht : Idle ρ (f true) (f' true)]
    [hf : Closes ρ (f false) (f' false)] : Closes ρ (tryMark ";" >>= f) (tryMark ";" >>= f') where
  anchored {x x' a} h := by
    rw [StateT.run_bind, run_tryMark] at h
    by_cases hx : Ahead.mark ";" x = true
    · obtain ⟨a, _, _, hft, -⟩ := ht.idle
      rw [if_pos hx] at h
      replace h : (f true).run (x.drop 1) = some (_, x') := h
      rw [hft] at h
      cases h
      obtain ⟨j, s, hx⟩ := exists_of_semicolon hx
      exact ⟨[], _, .semicolon, by simpa using hx⟩
    · rw [if_neg hx] at h
      exact hf.anchored h
  close {t u r r' x y a} hs htr h := by
    have hxy : Ahead.mark ";" x = Ahead.mark ";" y := Agree.eq (n := 0) hs htr trivial
    rw [StateT.run_bind, run_tryMark] at h ⊢
    rw [← hxy]
    by_cases hx : Ahead.mark ";" x = true
    · rw [if_pos hx] at h ⊢
      replace h : (f true).run (x.drop 1) = some (a, r) := h
      change ∃ b, _ ∧ (f' true).run (y.drop 1) = some (b, r')
      obtain ⟨b, b', hr, hft, hft'⟩ := ht.idle
      rw [hft] at h
      rw [hft']
      obtain ⟨rfl, hdrop⟩ : b = a ∧ x.drop 1 = r := by
        cases h
        exact ⟨rfl, rfl⟩
      have hlen := congrArg List.length hdrop
      rw [List.length_drop] at hlen
      obtain ⟨-, rfl⟩ := htr.outside (by simp only [List.length_cons]; omega)
      exact ⟨b', hr, rfl⟩
    · rw [if_neg hx] at h ⊢
      exact hf.close hs htr h

/-! ### Bindings and items -/

variable {g g' : Grammar} [hg : g.Follows g']

/-- A look ahead whose answer is used after more has been read. -/
instance (priority := low) {Q : List Tree → Bool} [Agree Sealed 0 Q] :
    Follows Sealed Eq Never (ahead Q) (ahead Q) :=
  inferInstanceAs (Follows Sealed Eq Never (look Q) (look Q))

instance : Closes (List.Forall₂ Stmt.Alike) (attributedBlock g) (attributedBlock g') := by
  unfold attributedBlock; infer_instance

instance : Closes Any (block g) (block g') := by unfold block; infer_instance

instance : Closes Any (attributedBlock g) (attributedBlock g') := by
  unfold attributedBlock; infer_instance

instance : Closes Eq (binding g) (binding g') := by
  rw [binding_eq, binding_eq]; dsimp only; infer_instance

instance {b : Bool} {place : WherePlace} :
    Closes Eq (typeItem g b place) (typeItem g' b place) := by
  unfold typeItem; cases b <;> (dsimp only; infer_instance)

instance : Closes Eq (constItem g) (constItem g') := by unfold constItem; infer_instance

instance : Closes Eq (staticItem g) (staticItem g') := by unfold staticItem; infer_instance

instance : Closes Eq (useItem g) (useItem g') := by unfold useItem; infer_instance

instance : Closes Eq externCrate externCrate := by unfold externCrate; dsimp only; infer_instance

theorem macroItem_eq (named : Bool) : macroItem named = (do
    plainPath
    mark "!"
    if named then
      let ts ← get
      if Ahead.ident ts || Ahead.word "try" ts then dropTrees 1
    if ← ahead Ahead.brace then anyBrace
    else
      let _ ← anyGroup
      mark ";") := by
  have group : (anyGroup >>= fun d => if (d != .brace) = true then mark ";" else pure ()) =
      ahead Ahead.brace >>= fun b =>
        if b = true then anyBrace else anyGroup >>= fun _ => mark ";" := by
    refine StateT.ext fun x => ?_
    rcases x with _ | ⟨_ | _ | _ | ⟨_ | _ | _, _, _⟩, x⟩ <;> rfl
  unfold macroItem
  dsimp only
  simp only [group]

instance {b : Bool} : Closes Eq (macroItem b) (macroItem b) := by
  rw [macroItem_eq]; dsimp only; infer_instance

theorem macroDefinition_eq : macroDefinition = (do
    word "macro"
    let _ ← ident
    if ← ahead Ahead.paren then dropTrees 1
    anyBrace) :=
  rfl

instance : Closes Eq macroDefinition macroDefinition := by
  rw [macroDefinition_eq]; dsimp only; infer_instance

instance : Closes Eq (namedFields g) (namedFields g') := by unfold namedFields; infer_instance

instance : Closes Eq (structItem g) (structItem g') := by unfold structItem; infer_instance

instance : Closes Eq (enumItem g) (enumItem g') := by unfold enumItem; infer_instance

instance : Closes Eq (unionItem g) (unionItem g') := by unfold unionItem; infer_instance

instance : Closes Eq (foreignMod g) (foreignMod g') := by unfold foreignMod; infer_instance

instance : Closes Eq (traitBody g) (traitBody g') := by unfold traitBody; infer_instance

instance : Closes Eq (traitItem g) (traitItem g') := by unfold traitItem; infer_instance

instance {b : Bool} : Closes Eq (implFor g b) (implFor g' b) := by
  unfold implFor; dsimp only; infer_instance

instance : Closes Eq (implItem g) (implItem g') := by
  rw [implItem_eq, implItem_eq]; dsimp only; infer_instance

instance : Closes Eq (modItem g) (modItem g') := by unfold modItem; infer_instance

instance {name : String} : Closes Item.Alike
    (attributedBlock g >>= fun b => pure (.function name b))
    (attributedBlock g' >>= fun b => pure (.function name b)) :=
  closes_then (R := List.Forall₂ Stmt.Alike) inferInstance
    (fun b b' h => ⟨.function name b, .function name b', .function h, rfl, rfl⟩)
    fun b => ⟨.function name b, rfl⟩

instance : Closes Item.Alike (functionItem g) (functionItem g') := by
  unfold functionItem; infer_instance

instance : Closes Item.Alike (plainItem g) (plainItem g') := by
  unfold plainItem; dsimp only; infer_instance

end Parser

end Notebook.Syntax
