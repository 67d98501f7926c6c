import Notebook.Proofs.Syntax.Joining

/-!
No expression ends with an attribute: every number sign that is read outside of the groups is
followed by more than an attribute has.
-/

set_option synthInstance.maxSize 10000
set_option synthInstance.maxHeartbeats 200000

namespace Notebook.Syntax

/-- All that an attribute has after its number sign, or a part of it. -/
def stub : List Tree → Bool
  | [] => true
  | [.mark c _ _] => c == '!'
  | [.group d _ _] => d == .bracket
  | [.mark c _ _, .group d _ _] => c == '!' && d == .bracket
  | _ => false

/-- No attribute stands at the end, nor a part of one that starts with its number sign. -/
def settled : List Tree → Bool
  | [] => true
  | t :: ts => (!Ahead.mark "#" [t] || !stub ts) && settled ts

section

variable {x y z : List Tree}

theorem stub_of_append (h : stub (x ++ y) = true) : stub x = true := by
  rcases x with _ | ⟨_ | _ | _ | _, _ | ⟨_ | _ | _ | _, _ | ⟨_, x⟩⟩⟩ <;>
    rcases y with _ | ⟨_ | _ | _ | _, _ | ⟨_, y⟩⟩ <;> simp_all [stub]

theorem settled_append (hx : settled x = true) (hy : settled y = true) :
    settled (x ++ y) = true := by
  induction x with
  | nil => exact hy
  | cons t x ih =>
    rw [settled, Bool.and_eq_true, Bool.or_eq_true, Bool.not_eq_true', Bool.not_eq_true'] at hx
    rw [List.cons_append, settled, ih hx.2, Bool.and_true, Bool.or_eq_true, Bool.not_eq_true',
      Bool.not_eq_true']
    refine hx.1.imp_right fun h => ?_
    by_contra hs
    rw [stub_of_append (by simpa using hs)] at h
    cases h

theorem settled_of_append (h : settled (x ++ y) = true) : settled y = true := by
  induction x with
  | nil => exact h
  | cons t x ih =>
    rw [List.cons_append, settled, Bool.and_eq_true] at h
    exact ih h.2

theorem settled_of_forall (h : ∀ t ∈ x, Ahead.mark "#" [t] = false) : settled x = true := by
  induction x with
  | nil => rfl
  | cons t x ih =>
    rw [settled, h t (List.mem_cons_self ..), ih fun u hu => h u (List.mem_cons_of_mem t hu)]
    rfl

end

namespace Parser

open Ahead (second third)

/-- What `p` reads is settled. -/
class Settles {α : Type} (p : Parser α) : Prop where
  read {x x' : List Tree} {a : α} : p.run x = some (a, x') → ∃ z, x = z ++ x' ∧ settled z = true

/-- `Settles` for parsers that look at the trees ahead, of which `P` holds. -/
class SettlesIf {α : Type} (P : List Tree → Bool) (f : List Tree → Parser α) : Prop where
  read {x x' : List Tree} {a : α} : P x = true → (f x).run x = some (a, x') →
    ∃ z, x = z ++ x' ∧ settled z = true

/-- A look ahead that sees no number sign in the first `n` trees. -/
class Plain (P : List Tree → Bool) (n : Nat) : Prop where
  plain {x : List Tree} : P x = true → settled (x.take n) = true

section

variable {α β γ : Type} {P Q : List Tree → Bool} {n : Nat}

/-! ### Looks ahead -/

theorem plain_of_head (f : Tree → Bool) (hP : ∀ t ts, P (t :: ts) = f t)
    (hf : ∀ c j s, f (.mark c j s) = false) : Plain P 1 where
  plain {x} h := by
    cases x with
    | nil => rfl
    | cons t x =>
      rw [hP] at h
      refine settled_of_forall fun u hu => ?_
      obtain rfl : u = t := by simpa using hu
      cases u with
      | mark => rw [hf] at h; cases h
      | _ => rfl

instance {w : String} : Plain (Ahead.word w) 1 :=
  plain_of_head (fun t => Ahead.word w [t]) (fun t _ => by cases t <;> rfl) fun _ _ _ => rfl

instance : Plain Ahead.underscore 1 := inferInstanceAs (Plain (Ahead.word "_") 1)

instance : Plain Ahead.anyWord 1 :=
  plain_of_head (fun t => Ahead.anyWord [t]) (fun t _ => by cases t <;> rfl) fun _ _ _ => rfl

instance : Plain Ahead.ident 1 :=
  plain_of_head (fun t => Ahead.ident [t]) (fun t _ => by cases t <;> rfl) fun _ _ _ => rfl

instance {d : Delimiter} : Plain (Ahead.group d) 1 :=
  plain_of_head (fun t => Ahead.group d [t]) (fun t _ => by cases t <;> rfl) fun _ _ _ => rfl

instance : Plain Ahead.paren 1 := inferInstanceAs (Plain (Ahead.group .paren) 1)

instance : Plain Ahead.string 1 :=
  plain_of_head (fun t => Ahead.string [t]) (fun t _ => by cases t <;> rfl) fun _ _ _ => rfl

instance : Plain Ahead.lifetime 2 where
  plain {x} h := by
    rcases x with _ | ⟨t, x⟩
    · cases h
    · rw [lifetime_cons, Bool.and_eq_true] at h
      rcases t with _ | ⟨c, j, s⟩ | _ | _ <;> try cases h.1
      obtain ⟨rfl, -⟩ : c = '\'' ∧ j = true := by simpa [Tree.isQuote] using h.1
      rcases x with _ | ⟨_ | _ | _ | _, x⟩ <;> try cases h.2
      rfl

instance [hP : Plain P n] [hQ : Plain Q n] : Plain (fun ts => P ts || Q ts) n :=
  ⟨fun h => (Bool.or_eq_true_iff.1 h).elim hP.plain hQ.plain⟩

instance [hP : Plain P n] : Plain (fun ts => P ts && Q ts) n :=
  ⟨fun h => hP.plain (Bool.and_eq_true_iff.1 h).1⟩

instance {b : Bool} [hQ : Plain Q n] : Plain (fun ts => b && Q ts) n :=
  ⟨fun h => hQ.plain (Bool.and_eq_true_iff.1 h).2⟩

/-- Marks that are no number signs. -/
theorem settled_of_markChars {cs : List Char} {x : List Tree} (hc : '#' ∉ cs)
    (h : Ahead.markChars cs x = true) : settled (x.take cs.length) = true := by
  refine settled_of_forall ?_
  induction cs generalizing x with
  | nil => simp
  | cons c cs ih =>
    obtain ⟨d, j, s, ts, rfl, rfl, hts⟩ : ∃ d j s ts, x = .mark d j s :: ts ∧ c = d ∧
        Ahead.markChars cs ts = true := by
      rcases x with _ | ⟨_ | ⟨d, j, s⟩ | _ | _, x⟩ <;> cases cs <;> try cases h
      · exact ⟨d, j, s, x, rfl, beq_iff_eq.1 h, rfl⟩
      · simp only [Ahead.markChars, Bool.and_eq_true, beq_iff_eq] at h
        exact ⟨d, j, s, x, rfl, h.1.1, h.2⟩
    rw [List.mem_cons, not_or] at hc
    intro t ht
    rcases List.mem_cons.1 ht with rfl | ht
    · simpa [Ahead.mark, Ahead.markChars] using hc.1
    · exact ih hc.2 hts t ht

theorem plain_mark {m : String} (hm : '#' ∉ m.toList) : Plain (Ahead.mark m) m.length where
  plain h := by
    rw [← String.length_toList]
    exact settled_of_markChars hm (Bool.and_eq_true_iff.1 h).2

/-! ### Sequences and choices -/

instance {a : α} : Settles (pure a) := ⟨by rintro x x' b ⟨⟩; exact ⟨[], rfl, rfl⟩⟩

instance : Settles (failure : Parser α) := ⟨by rintro x x' b ⟨⟩⟩

theorem settles_bind {p : Parser α} {f : α → Parser β} (hp : Settles p)
    (hf : ∀ a, Settles (f a)) : Settles (p >>= f) where
  read h := by
    obtain ⟨a, x₁, h₁, h₂⟩ := run_bind_eq_some.1 h
    obtain ⟨z, rfl, hz⟩ := hp.read h₁
    obtain ⟨z', rfl, hz'⟩ := (hf a).read h₂
    exact ⟨z ++ z', (List.append_assoc ..).symm, settled_append hz hz'⟩

instance {p : Parser α} {f : α → Parser β} [hp : Settles p] [hf : ∀ a, Settles (f a)] :
    Settles (p >>= f) := settles_bind hp hf

instance {c : Prop} [Decidable c] {p q : Parser α} [hp : Settles p] [hq : Settles q] :
    Settles (if c then p else q) := by
  split <;> assumption

instance : Settles (require P) := ⟨fun {x x' a} h => by
  rw [run_require] at h
  split at h <;> cases h
  exact ⟨[], rfl, rfl⟩⟩

instance {τ : Type} {R : List Tree → τ} : Settles (look R) :=
  ⟨by rintro x x' a ⟨⟩; exact ⟨[], rfl, rfl⟩⟩

instance {R : List Tree → Bool} : Settles (ahead R) := inferInstanceAs (Settles (look R))

theorem settles_get {f : List Tree → Parser α} (h : SettlesIf (fun _ => true) f) :
    Settles (get >>= f) :=
  ⟨fun {x _ _} hx => h.read (x := x) rfl hx⟩

theorem Settles.settlesIf {p : Parser α} (h : Settles p) : SettlesIf P fun _ => p :=
  ⟨fun _ hx => h.read hx⟩

theorem settlesIf_ite {A B : List Tree → Parser α} (hA : SettlesIf Q A) (hB : SettlesIf P B) :
    SettlesIf P fun ts => if Q ts = true then A ts else B ts where
  read {x _ _} hP hx := by
    by_cases hQ : Q x = true
    · rw [if_pos hQ] at hx
      exact hA.read hQ hx
    · rw [if_neg hQ] at hx
      exact hB.read hP hx

instance {f : List Tree → Parser α} [SettlesIf (fun _ => true) f] : Settles (get >>= f) :=
  settles_get inferInstance

instance (priority := low) {p : Parser α} [h : Settles p] : SettlesIf P fun _ => p := h.settlesIf

instance {A B : List Tree → Parser α} [SettlesIf Q A] [SettlesIf P B] :
    SettlesIf P fun ts => if Q ts = true then A ts else B ts :=
  settlesIf_ite inferInstance inferInstance

instance {A B : Parser α} [hA : SettlesIf P fun _ => A] :
    SettlesIf P fun _ => if true = true then A else B :=
  hA

instance {A B : Parser α} [hB : Settles B] : Settles (if false = true then A else B) :=
  hB

/-- Both answers to a look ahead, with what is known of the trees after the first. -/
instance {f : Bool → Parser α} [hA : SettlesIf Q fun _ => f true] [hB : Settles (f false)] :
    Settles (ahead Q >>= f) where
  read {x x' a} h := by
    rw [run_ahead_bind] at h
    cases hQ : Q x with
    | true => exact hA.read hQ (hQ ▸ h)
    | false => exact hB.read (hQ ▸ h)

instance [h : Plain P n] : SettlesIf P fun _ => dropTrees n where
  read {x _ _} hP hx := by
    cases hx
    exact ⟨x.take n, (List.take_append_drop n x).symm, h.plain hP⟩

instance {f : Unit → Parser α} [hd : SettlesIf P fun _ => dropTrees n] [hf : ∀ a, Settles (f a)] :
    SettlesIf P fun _ => dropTrees n >>= f where
  read {x _ _} hP hx := by
    obtain ⟨a, x₁, h₁, h₂⟩ := run_bind_eq_some.1 hx
    obtain ⟨z, hz, hsettled⟩ := hd.read hP h₁
    obtain ⟨z', rfl, hsettled'⟩ := (hf a).read h₂
    exact ⟨z ++ z', by rw [hz, List.append_assoc], settled_append hsettled hsettled'⟩

instance {f : Unit → Parser α} [hf : SettlesIf P fun _ => f ()] : Settles (require P >>= f) where
  read {x x' a} hx := by
    obtain ⟨_, x₁, h₁, h₂⟩ := run_bind_eq_some.1 hx
    rw [run_require] at h₁
    split at h₁ <;> cases h₁
    exact hf.read ‹_› h₂

theorem settles_look {τ : Type} {R : List Tree → τ} {f : τ → Parser α}
    (h : ∀ x a, R x = a → Settles (f a)) : Settles (look R >>= f) :=
  ⟨fun {x _ _} hx => (h x _ rfl).read hx⟩

/-! ### Single trees -/

theorem settles_head {p : Parser α} {f : Tree → Option α}
    (hp : ∀ x, p.run x = x.head?.bind fun t => (f t).map (·, x.tail))
    (hf : ∀ c j s, f (.mark c j s) = none) : Settles p where
  read {x x' a} h := by
    rw [hp] at h
    obtain ⟨t, ht, h⟩ := Option.bind_eq_some_iff.1 h
    obtain ⟨b, hb, h⟩ := Option.map_eq_some_iff.1 h
    cases h
    obtain ⟨x, rfl⟩ := List.head?_eq_some_iff.1 ht
    refine ⟨[t], rfl, ?_⟩
    cases t with
    | mark => rw [hf] at hb; cases hb
    | _ => rfl

instance {w : String} : Settles (word w) := by unfold word; infer_instance

instance : Settles anyWord :=
  settles_head (f := fun | .word w _ => some w | _ => none)
    (fun x => by rcases x with _ | ⟨_ | _ | _ | _, x⟩ <;> rfl) fun _ _ _ => rfl

instance : Settles ident := by unfold ident; infer_instance

instance {m : String} [h : Plain (Ahead.mark m) m.length] : Settles (mark m) := by
  unfold mark; infer_instance

instance {w : String} : Settles (tryWord w) := by unfold tryWord; infer_instance

instance {m : String} [Plain (Ahead.mark m) m.length] : Settles (tryMark m) := by
  unfold tryMark; infer_instance

instance : Settles lifetime := by unfold lifetime; infer_instance

instance : Settles tryLifetime := by unfold tryLifetime; infer_instance

instance : Settles isDone := by unfold isDone; infer_instance

instance {d : Delimiter} {p : Parser α} : Settles (within d p) :=
  settles_head (run_within d p) fun _ _ _ => rfl

instance : Settles anyGroup :=
  settles_head (f := fun | .group d _ _ => some d | _ => none)
    (fun x => by rcases x with _ | ⟨_ | _ | _ | _, x⟩ <;> rfl) fun _ _ _ => rfl

instance : Settles literal where
  read {x x' a} h := by
    rw [run_literal] at h
    split at h <;> cases h
    rename_i hx
    refine ⟨x.take (literalSize x), (List.take_append_drop _ x).symm, ?_⟩
    rcases x with _ | ⟨_ | ⟨c, j, s⟩ | _ | _, x⟩ <;> try rfl
    rw [literal_cons, Bool.and_eq_true, beq_iff_eq] at hx
    obtain ⟨rfl, hx⟩ := hx
    rcases x with _ | ⟨_ | _ | _ | _, x⟩ <;> try cases hx
    rfl

/-! ### Loops -/

instance {step : α → Parser (α ⊕ β)} [hs : ∀ a, Settles (step a)] {a : α} :
    Settles (iterate step a) where
  read {x x' b} h := by
    refine iterate_induction (J := fun _ y => ∃ z, x = z ++ y ∧ settled z = true)
      (Q := fun _ y => ∃ z, x = z ++ y ∧ settled z = true) ?_ ?_ ⟨[], rfl, rfl⟩ h
    all_goals
      rintro a y b y' ⟨z, rfl, hz⟩ h
      obtain ⟨z', rfl, hz'⟩ := (hs a).read h
      exact ⟨z ++ z', (List.append_assoc ..).symm, settled_append hz hz'⟩

theorem settles_loop {step : α → Parser (α ⊕ β)} {a : α} (hs : ∀ a, Settles (step a)) :
    Settles (iterate step a) :=
  inferInstance

instance {p : Parser α} [Settles p] : Settles (manyWhile P p) := by
  unfold manyWhile; infer_instance

instance {p : Parser α} [Settles p] [Plain (Ahead.mark ",") ",".length] :
    Settles (commaUntil P p) := by
  unfold commaUntil; infer_instance

instance {p : Parser α} [Settles p] : Settles (growing p) where
  read {x x' r} h := by
    rw [run_growing] at h
    obtain ⟨⟨a, x₁⟩, hp, hr⟩ := Option.map_eq_some_iff.1 h
    cases hr
    exact Settles.read hp

end

/-! ### Marks -/

instance : Plain (Ahead.mark "::") "::".length := plain_mark (by decide)

instance : Plain (Ahead.mark ":") ":".length := plain_mark (by decide)

instance : Plain (Ahead.mark "=") "=".length := plain_mark (by decide)

instance : Plain (Ahead.mark ",") ",".length := plain_mark (by decide)

instance : Plain (Ahead.mark "+") "+".length := plain_mark (by decide)

instance : Plain (Ahead.mark "<") "<".length := plain_mark (by decide)

instance : Plain (Ahead.mark ">") ">".length := plain_mark (by decide)

instance : Plain (Ahead.mark "->") "->".length := plain_mark (by decide)

instance : Plain (Ahead.mark "!") "!".length := plain_mark (by decide)

instance : Plain (Ahead.mark "-") "-".length := plain_mark (by decide)

instance : Plain (Ahead.mark "?") "?".length := plain_mark (by decide)

instance : Plain (Ahead.mark "&") "&".length := plain_mark (by decide)

instance : Plain (Ahead.mark "*") "*".length := plain_mark (by decide)

instance : Plain (Ahead.mark "|") "|".length := plain_mark (by decide)

instance : Plain (Ahead.mark "..") "..".length := plain_mark (by decide)

instance : Plain (Ahead.mark "..=") "..=".length := plain_mark (by decide)

instance : Plain (Ahead.mark "...") "...".length := plain_mark (by decide)

instance : Plain (Ahead.mark ".") ".".length := plain_mark (by decide)

instance : Plain (Ahead.mark "@") "@".length := plain_mark (by decide)

/-! ### Productions -/

end Parser

/-- What expressions and their parts read is settled. -/
class Grammar.Settles (g : Grammar) : Prop where
  type (plus : Bool) : Parser.Settles (g.type plus)
  bound (capture const : Bool) : Parser.Settles (g.bound capture const)
  pattern : Parser.Settles g.pattern
  expression (structs : Bool) : Parser.Settles (g.expression structs)
  operand (structs : Bool) : Parser.Settles (g.operand structs)
  climb (left : Expr) (structs : Bool) (base : Precedence) :
    Parser.Settles (g.climb left structs base)

namespace Parser

variable {g : Grammar} [hf : g.Follows g] [hg : g.Settles]

instance {b : Bool} : Settles (g.type b) := hg.type b

instance {b b' : Bool} : Settles (g.bound b b') := hg.bound b b'

instance : Settles g.pattern := hg.pattern

instance {b : Bool} : Settles (g.expression b) := hg.expression b

instance {b : Bool} : Settles (g.operand b) := hg.operand b

instance {e : Expr} {b : Bool} {p : Precedence} : Settles (g.climb e b p) := hg.climb e b p

omit hf hg in
/-- Attributes are settled if more follows them. -/
theorem Attributes.settled {y z : List Tree} (hz : Attributes g z) (hne : y ≠ [])
    (hy : Syntax.settled y = true) : Syntax.settled (z ++ y) = true := by
  induction hz with
  | nil => exact hy
  | @cons j s s' inner z _ _ ih =>
    obtain ⟨t, w, hw⟩ := List.exists_cons_of_ne_nil (List.append_ne_nil_of_right_ne_nil z hne)
    rw [List.cons_append, List.cons_append, Syntax.settled, Syntax.settled, ih, hw]
    rfl

instance {α : Type} {f : Unit → Parser α} [hs : ∀ a, Settles (f a)]
    [hf : ∀ a, Follows Inner Eq Always (f a) (f a)] : Settles (outerAttributes g >>= f) where
  read h := by
    obtain ⟨_, x₁, h₁, h₂⟩ := run_bind_eq_some.1 h
    obtain ⟨z, rfl, hz, -⟩ := run_outerAttributes_iff.1 h₁
    obtain ⟨z', rfl, hz'⟩ := (hs ()).read h₂
    have hne : z' ≠ [] := by
      rintro rfl
      exact Nat.lt_irrefl _ (length_lt_of_reads (hf ()) h₂)
    exact ⟨z ++ z', (List.append_assoc ..).symm, hz.settled hne hz'⟩

instance : Settles plainPath := by unfold plainPath; infer_instance

instance : Settles (block g) := by unfold block; infer_instance

instance : Settles (attributedBlock g) := by unfold attributedBlock; infer_instance

instance : Settles label := by unfold label; infer_instance

/-! ### Paths and generic parameters -/

instance : Settles (constArgument g) := by unfold constArgument; infer_instance

instance {stop : List Tree → Bool} {p : Parser Bound} [Settles p] :
    Settles (boundsUntil stop p) := by
  unfold boundsUntil; infer_instance

instance {stop : List Tree → Bool} : Settles (lifetimeBoundsUntil stop) := by
  unfold lifetimeBoundsUntil; infer_instance

instance {b : Bool} : Settles (returnType g b) := by unfold returnType; infer_instance

instance : Settles (parenArguments g) := by unfold parenArguments; infer_instance

instance : Settles (genericArgument g) := by
  unfold genericArgument
  refine settles_get (settlesIf_ite inferInstance (settlesIf_ite inferInstance
    (settles_bind inferInstance fun t => ?_).settlesIf))
  cases t with
  | path p => dsimp only; infer_instance
  | _ => infer_instance

instance : Settles (angleArguments g) := by unfold angleArguments; infer_instance

instance {b : Bool} : Settles (pathSegment g b) := by
  unfold pathSegment; dsimp only; infer_instance

instance {b : Bool} {p : PathForm} : Settles (pathRest g b p) := by
  unfold pathRest; infer_instance

instance {b : Bool} : Settles (path g b) := by unfold path; dsimp only; infer_instance

instance {b : Bool} : Settles (qualifiedPath g b) := by
  unfold qualifiedPath; dsimp only; infer_instance

instance : Settles lifetimeParameter := by unfold lifetimeParameter; infer_instance

instance : Settles (typeParameter g) := by unfold typeParameter; dsimp only; infer_instance

instance : Settles (constParameter g) := by unfold constParameter; infer_instance

instance {b : Bool} : Settles (genericParameter g b) := by
  unfold genericParameter; infer_instance

instance : Settles (binder g) := by unfold binder; infer_instance

instance : Settles (tryBinder g) := by unfold tryBinder; infer_instance

/-! ### Types -/

instance : Settles captureParameter := by unfold captureParameter; infer_instance

instance {b : Bool} : Settles (traitBound g b) := by
  unfold traitBound; dsimp only; infer_instance

instance {b b' : Bool} : Settles (bound g b b') := by unfold bound; infer_instance

instance {b b' b'' : Bool} : Settles (bounds g b b' b'') := by
  unfold bounds; dsimp only; infer_instance

instance : Settles abi := by unfold abi; infer_instance

instance : Settles tryAbi := by unfold tryAbi; infer_instance

instance : Settles (functionType g) := by unfold functionType; infer_instance

instance {n : Nat} : Settles (moreBounds g n) := by unfold moreBounds; infer_instance

instance {b b' : Bool} : Settles (traitObject g b b') := by
  unfold traitObject
  exact settles_bind inferInstance fun (n, trait, trailing) => by dsimp only; infer_instance

instance {b : Bool} : Settles (parenType g b) := by
  unfold parenType
  refine settles_bind inferInstance fun t => ?_
  cases t with
  | inner first => dsimp only; infer_instance
  | _ => infer_instance

instance {b : Bool} : Settles (pathBounds g b) := by unfold pathBounds; infer_instance

instance {p : PathForm} : Settles (pathTypeArguments g p) := by
  unfold pathTypeArguments; dsimp only; infer_instance

instance {b b' : Bool} : Settles (pathType g b b') := by unfold pathType; infer_instance

instance {b : Bool} : Settles (type g b) := by unfold type; dsimp only; infer_instance

/-! ### Patterns -/

instance {b : Bool} : Settles (rangeLimits b) := by unfold rangeLimits; infer_instance

instance : Settles (patterns g) := by unfold patterns; infer_instance

instance : Settles (rangeBound g) := by unfold rangeBound; infer_instance

instance {b : Bool} : Settles (rangePattern g b) := by unfold rangePattern; infer_instance

instance : Settles (literalPattern g) := by unfold literalPattern; infer_instance

instance : Settles (pathPattern g) := by unfold pathPattern; infer_instance

instance : Settles (identPattern g) := by unfold identPattern; infer_instance

instance : Settles (pattern g) := by unfold pattern; infer_instance

/-! ### Expressions -/

instance : Settles (tryExpression g) := by unfold tryExpression; infer_instance

instance : Settles (conditional g) := by unfold conditional; infer_instance

instance : Settles (whileLoop g) := by unfold whileLoop; infer_instance

instance : Settles (forLoop g) := by unfold forLoop; infer_instance

instance : Settles (endlessLoop g) := by unfold endlessLoop; infer_instance

instance : Settles (labelled g) := by unfold labelled; infer_instance

instance {b : Bool} {p : Precedence} : Settles (rightSide g b p) := by
  rw [rightSide_eq]; infer_instance

instance {b : Bool} : Settles (rangeRest g b) := by unfold rangeRest; infer_instance

theorem plain_operator {m : String} {o : Operator} (h : (m, o) ∈ Operator.spellings) :
    Plain (Ahead.mark m) m.length := by
  have := List.all_eq_true.1 (show Operator.spellings.all fun p => decide ('#' ∉ p.1.toList) by
    decide) _ h
  exact plain_mark (of_decide_eq_true this)

instance {e : Expr} {b : Bool} {p : Precedence} : Settles (climb g e b p) := by
  rw [climb_eq]
  refine settles_loop fun left => settles_look fun x found hfound => ?_
  cases found with
  | none => dsimp only; infer_instance
  | some found =>
    have := plain_operator (List.mem_of_find?_eq_some hfound)
    dsimp only
    infer_instance

instance : Settles (closureArgument g) := by unfold closureArgument; infer_instance

instance {b : Bool} : Settles (closure g b) := by unfold closure; infer_instance

instance {b : Bool} : Settles (pathExpression g b) := by unfold pathExpression; infer_instance

instance : Settles (parenOrTuple g) := by
  unfold parenOrTuple
  refine settles_bind inferInstance fun (elements, trailing) => ?_
  rcases elements with _ | ⟨_, _ | _⟩ <;> (dsimp only; infer_instance)

instance : Settles (arrayOrRepetition g) := by unfold arrayOrRepetition; infer_instance

instance {b : Bool} : Settles (breakJump g b) := by unfold breakJump; dsimp only; infer_instance

instance : Settles (matching g) := by unfold matching; infer_instance

instance {b : Bool} : Settles (letBinding g b) := by unfold letBinding; infer_instance

instance : Settles builtin where
  read {x x' f} h := by
    obtain ⟨w, x₁, hw, h₁⟩ := run_bind_eq_some.1 h
    obtain ⟨_, x₂, hmark, h₂⟩ := run_bind_eq_some.1 h₁
    obtain ⟨v, x₃, hv, h₃⟩ := run_bind_eq_some.1 h₂
    have : Settles (require Ahead.paren >>= fun _ => dropTrees 1 >>= fun _ =>
        (pure .verbatim : Parser ExprForm)) := inferInstance
    obtain ⟨z, rfl, hz⟩ := Settles.read hw
    obtain ⟨z', rfl, hz'⟩ := this.read h₃
    rw [run_mark] at hmark
    split at hmark <;> cases hmark
    rename_i hx
    rcases x₁ with _ | ⟨_ | ⟨c, j, s⟩ | _ | _, x₁⟩ <;> try cases hx
    -- A word follows the mark, and so it starts no attribute.
    obtain ⟨s', rfl⟩ : ∃ s', x₁ = .word v s' :: (z' ++ x') := by
      obtain ⟨_, x₂, hident, hv⟩ := run_bind_eq_some.1 hv
      rw [run_require] at hident
      split at hident <;> cases hident
      rcases x₁ with _ | ⟨_ | _ | _ | _, x₁⟩ <;> cases hv
      exact ⟨_, rfl⟩
    refine ⟨z ++ .mark c j s :: .word v s' :: z', by simp, settled_append hz ?_⟩
    rw [settled, settled, hz']
    simp [stub, Ahead.mark, Ahead.markChars]

instance {b : Bool} : Settles (atom g b) := by unfold atom; infer_instance

instance : Settles floatField := settles_head run_floatField fun _ _ _ => rfl

instance : Settles (callArguments g) := by unfold callArguments; infer_instance

instance : Settles numberField := settles_head run_numberField fun _ _ _ => rfl

instance : Settles (member g) := by rw [member_eq]; dsimp only; infer_instance

instance {e : Expr} : Settles (trailers g e) := by unfold trailers; infer_instance

instance {b : Bool} : Settles (operand g b) := by
  have : Plain (Ahead.mark "*") 1 := inferInstanceAs (Plain _ "*".length)
  have : Plain (Ahead.mark "!") 1 := inferInstanceAs (Plain _ "!".length)
  have : Plain (Ahead.mark "-") 1 := inferInstanceAs (Plain _ "-".length)
  rw [operand_eq]
  dsimp only
  infer_instance

instance {f : ExprForm} : Settles (afterBlock g f) := by unfold afterBlock; infer_instance

instance : Settles (bounded g) := by rw [bounded_eq]; infer_instance

instance {b : Bool} : Settles (expression g b) := by unfold expression; infer_instance

instance : g.next.Settles where
  type _ := inferInstanceAs (Settles (Parser.type g _))
  bound _ _ := inferInstanceAs (Settles (Parser.bound g _ _))
  pattern := inferInstanceAs (Settles (Parser.pattern g))
  expression _ := inferInstanceAs (Settles (Parser.expression g _))
  operand _ := inferInstanceAs (Settles (Parser.operand g _))
  climb _ _ _ := inferInstanceAs (Settles (Parser.climb g _ _ _))

instance : Grammar.none.Settles where
  type _ := inferInstanceAs (Settles failure)
  bound _ _ := inferInstanceAs (Settles failure)
  pattern := inferInstanceAs (Settles failure)
  expression _ := inferInstanceAs (Settles failure)
  operand _ := inferInstanceAs (Settles failure)
  climb _ _ _ := inferInstanceAs (Settles failure)

instance {n : Nat} : (Grammar.depth n).Settles := by
  induction n with
  | zero => exact inferInstanceAs Grammar.none.Settles
  | succ n ih => exact inferInstanceAs (Grammar.depth n).next.Settles

theorem Step.settled {x : List Tree} {s : Stmt} (h : Step g x s []) (hs : s.bare?.isSome = true) :
    settled (s.attributes ++ s.body) = true := by
  obtain ⟨e, he⟩ := Option.isSome_iff_exists.1 hs
  rw [Stmt.bare?_eq_some] at he
  obtain ⟨hattributes, -, hform⟩ := h.parts (by rw [he]; simp)
  rw [he] at hform
  obtain ⟨z, hz, hbody⟩ := Settles.read (statementForm_bare hform).2
  rw [List.append_nil] at hz
  exact hattributes.settled h.text.2 (hz ▸ hbody)

end Parser

end Notebook.Syntax
