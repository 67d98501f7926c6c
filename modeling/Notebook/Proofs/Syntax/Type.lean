import Notebook.Proofs.Syntax.Follow

/-!
Productions over grammars that follow each other follow each other: attributes, paths, generic
parameters, bounds and types.
-/

namespace Notebook.Syntax

/-- Statements that are alike but for their places. -/
structure Stmt.Alike (s s' : Stmt) : Prop where
  form : s.form = s'.form
  attributes : Track [] [] s.attributes s'.attributes
  body : Track [] [] s.body s'.body

theorem Stmt.Alike.refl (s : Stmt) : s.Alike s := ⟨rfl, .refl _, .refl _⟩

inductive Item.Alike : Item → Item → Prop
  | function {name : String} {b b' : List Stmt} (h : List.Forall₂ Stmt.Alike b b') :
    Alike (.function name b) (.function name b')
  | other : Alike .other .other

/-- Each production of `g'` follows that of `g`. What ends a group is needed only where a group
may end. -/
class Grammar.Follows (g g' : Grammar) : Prop where
  type {E : Ends} [Calm E] (plus : Bool) :
    Parser.Follows E Eq Parser.Always (g.type plus) (g'.type plus)
  bound {E : Ends} [Calm E] (capture const : Bool) :
    Parser.Follows E Eq Parser.Always (g.bound capture const) (g'.bound capture const)
  pattern {E : Ends} [Calm E] : Parser.Follows E Eq Parser.Always g.pattern g'.pattern
  expression {E : Ends} [Calm E] (structs : Bool) :
    Parser.Follows E Eq Parser.Always (g.expression structs) (g'.expression structs)
  bounded {E : Ends} [Calm E] : Parser.Follows E Eq Parser.Always g.bounded g'.bounded
  operand {E : Ends} [Calm E] (structs : Bool) :
    Parser.Follows E Eq Parser.Always (g.operand structs) (g'.operand structs)
  climb {E : Ends} [Calm E] (left : Expr) (structs : Bool) (base : Precedence) :
    Parser.Follows E Eq Parser.Never (g.climb left structs base) (g'.climb left structs base)
  statements :
    Parser.Follows Inner (List.Forall₂ Stmt.Alike) Parser.Never g.statements g'.statements
  item : Parser.Follows Inner Item.Alike Parser.Always g.item g'.item
  useTree {E : Ends} [Fair E] (root : Bool) :
    Parser.Follows E Eq Parser.Always (g.useTree root) (g'.useTree root)
  namedFields {E : Ends} [Fair E] : Parser.Follows E Eq Parser.Always g.namedFields g'.namedFields

set_option synthInstance.maxSize 10000
set_option synthInstance.maxHeartbeats 200000

namespace Parser

variable {E : Ends} {g g' : Grammar} [hg : g.Follows g']

section

variable [Calm E]

instance {b : Bool} : Follows E Eq Always (g.type b) (g'.type b) := hg.type b

instance {b b' : Bool} : Follows E Eq Always (g.bound b b') (g'.bound b b') := hg.bound b b'

instance : Follows E Eq Always g.pattern g'.pattern := hg.pattern

instance {b : Bool} : Follows E Eq Always (g.expression b) (g'.expression b) := hg.expression b

instance : Follows E Eq Always g.bounded g'.bounded := hg.bounded

instance {b : Bool} : Follows E Eq Always (g.operand b) (g'.operand b) := hg.operand b

instance {e : Expr} {b : Bool} {p : Precedence} :
    Follows E Eq Never (g.climb e b p) (g'.climb e b p) := hg.climb e b p

end

instance {b : Bool} [Fair E] : Follows E Eq Always (g.useTree b) (g'.useTree b) := hg.useTree b

instance [Fair E] : Follows E Eq Always g.namedFields g'.namedFields := hg.namedFields

instance : Follows Inner (List.Forall₂ Stmt.Alike) Never g.statements g'.statements :=
  hg.statements

instance : Follows Inner Any Never g.statements g'.statements :=
  hg.statements.weaken (fun _ => trivial) id

instance : Follows Inner Any Always g.item g'.item := hg.item.weaken (fun _ => trivial) id

/-! ### Attributes and blocks -/

instance [Calm E] : Follows E Eq Always plainPath plainPath := by unfold plainPath; infer_instance

/-- A literal is all that is left. -/
def literalAlone (ts : List Tree) : Bool :=
  match literal.run ts with
  | some (_, []) => true
  | _ => false

theorem literalAlone_eq (ts : List Tree) :
    literalAlone ts = (Ahead.literal ts && (ts.drop (literalSize ts)).isEmpty) := by
  unfold literalAlone
  rw [run_literal]
  cases Ahead.literal ts with
  | false => rfl
  | true => cases ts.drop (literalSize ts) <;> simp

instance {n : Nat} : Agree Inner n literalAlone where
  eq {e e' x y} hE ht _ := by
    have hlit : Ahead.literal x = Ahead.literal y := Agree.eq (n := 0) hE ht trivial
    obtain ⟨⟩ := hE
    have hlen := ht.length
    have hsize : literalSize x = literalSize y := by
      cases ht with
      | ends => rfl
      | last h => rcases h with ⟨_ | _⟩ | _ <;> rfl
      | cons h _ => cases h <;> rfl
    have hdrop (l : List Tree) (n : Nat) : (l.drop n).isEmpty = decide (l.length ≤ n) := by
      rw [Bool.eq_iff_iff, List.isEmpty_iff, List.drop_eq_nil_iff, decide_eq_true_iff]
    simp only [literalAlone_eq, hlit, hsize, hdrop]
    rw [show x.length = y.length from hlen]

instance {P : List Tree → Bool} :
    FollowsIf Inner P Eq Never (fun _ => set ([] : List Tree)) fun _ => set ([] : List Tree) where
  suffix hx := by
    cases hx
    exact List.nil_suffix
  follow {e e' x y} hE ht _ a x' hx _ := by
    obtain ⟨⟩ := hE
    have hlen : x.length = y.length := ht.length
    cases hx
    refine ⟨x.length, (), rfl, False.elim, rfl, ?_⟩
    rw [hlen, List.drop_length]
    rfl

theorem metaItem_eq (g : Grammar) : metaItem g = (do
    if ← ahead (Ahead.word "unsafe") then dropTrees 1 else plainPath
    let ts ← get
    if Ahead.anyGroup ts then
      let _ ← anyGroup
    else if Ahead.mark "=" ts && !Ahead.mark "==" ts && !Ahead.mark "=>" ts then
      mark "="
      let ts ← get
      if literalAlone ts then set ([] : List Tree)
      else if Ahead.mark "#" ts && Ahead.second Ahead.bracket ts then failure
      else
        let _ ← g.expression true) := by
  have step {α β : Type} {p : Parser α} {f f' : α → Parser β} (h : ∀ a, f a = f' a) :
      p >>= f = p >>= f' := bind_congr h
  unfold metaItem
  refine step fun b => ?_
  dsimp only
  split <;> refine step fun _ => step fun ts => ?_
  all_goals
    split
    · rfl
    split
    · refine step fun _ => step fun ts => ?_
      unfold literalAlone
      split
      · simp_all
      · split <;> simp_all
    · rfl

instance : Follows Inner Eq Always (metaItem g) (metaItem g') := by
  rw [metaItem_eq, metaItem_eq]
  dsimp only
  infer_instance

section

variable [Calm E]

instance : Follows E Eq Never (outerAttributes g) (outerAttributes g') := by
  unfold outerAttributes; infer_instance

instance : Follows E Eq Never (innerAttributes g) (innerAttributes g') := by
  unfold innerAttributes; infer_instance

instance : Follows E (List.Forall₂ Stmt.Alike) Always (block g) (block g') := by
  unfold block; infer_instance

instance : Follows E Any Always (block g) (block g') := by
  unfold block; infer_instance

instance : Follows E (List.Forall₂ Stmt.Alike) Always (attributedBlock g) (attributedBlock g') := by
  unfold attributedBlock; infer_instance

instance : Follows E Any Always (attributedBlock g) (attributedBlock g') := by
  unfold attributedBlock; infer_instance

instance : Follows E Eq Always label label := by unfold label; infer_instance

instance : Follows E Eq Never tryLabel tryLabel := by unfold tryLabel; infer_instance

/-! ### Generic arguments and paths -/

instance : Follows E Eq Always (constArgument g) (constArgument g') := by
  unfold constArgument; infer_instance

instance {stop : List Tree → Bool} [Agree E 0 stop] {p p' : Parser Bound}
    [Follows E Eq Always p p'] : Follows E Eq Never (boundsUntil stop p) (boundsUntil stop p') := by
  unfold boundsUntil; infer_instance

instance {stop : List Tree → Bool} [Agree E 0 stop] :
    Follows E Eq Never (lifetimeBoundsUntil stop) (lifetimeBoundsUntil stop) := by
  unfold lifetimeBoundsUntil; infer_instance

instance {b : Bool} : Follows E Eq Never (returnType g b) (returnType g' b) := by
  unfold returnType; infer_instance

instance : Follows E Eq Always (parenArguments g) (parenArguments g') := by
  unfold parenArguments; infer_instance

instance : Follows E Eq Always (genericArgument g) (genericArgument g') := by
  unfold genericArgument
  refine follows_get (followsIf_ite inferInstance (followsIf_ite inferInstance
    (follows_first fun t => ?_).followsIf))
  cases t with
  | path p => dsimp only; infer_instance
  | _ => infer_instance

instance : Follows E Eq Always (angleArguments g) (angleArguments g') := by
  unfold angleArguments; infer_instance

instance {b : Bool} : Follows E Eq Always (pathSegment g b) (pathSegment g' b) := by
  unfold pathSegment; dsimp only; infer_instance

instance {b : Bool} {p : PathForm} : Follows E Eq Never (pathRest g b p) (pathRest g' b p) := by
  unfold pathRest; infer_instance

instance {b : Bool} : Follows E Eq Always (path g b) (path g' b) := by
  unfold path; dsimp only; infer_instance

instance {b : Bool} : Follows E Eq Always (qualifiedPath g b) (qualifiedPath g' b) := by
  unfold qualifiedPath; dsimp only; infer_instance

/-! ### Generic parameters -/

instance : Follows E Eq Always lifetimeParameter lifetimeParameter := by
  unfold lifetimeParameter; infer_instance

instance : Follows E Eq Always (typeParameter g) (typeParameter g') := by
  unfold typeParameter; dsimp only; infer_instance

instance : Follows E Eq Always (constParameter g) (constParameter g') := by
  unfold constParameter; infer_instance

instance {b : Bool} : Follows E Eq Always (genericParameter g b) (genericParameter g' b) := by
  unfold genericParameter; infer_instance

instance : Follows E Eq Never (generics g) (generics g') := by unfold generics; infer_instance

instance : Follows E Eq Always (binder g) (binder g') := by unfold binder; infer_instance

instance : Follows E Eq Never (tryBinder g) (tryBinder g') := by unfold tryBinder; infer_instance

/-! ### Bounds -/

instance : Follows E Eq Always captureParameter captureParameter := by
  unfold captureParameter; infer_instance

instance {b : Bool} : Follows E Eq Always (traitBound g b) (traitBound g' b) := by
  unfold traitBound; dsimp only; infer_instance

instance {b b' : Bool} : Follows E Eq Always (bound g b b') (bound g' b b') := by
  unfold bound; infer_instance

instance {b b' b'' : Bool} : Follows E Eq Always (bounds g b b' b'') (bounds g' b b' b'') := by
  unfold bounds; dsimp only; infer_instance

/-! ### Types -/

instance : Follows E Eq Always abi abi := by unfold abi; infer_instance

instance : Follows E Eq Never tryAbi tryAbi := by unfold tryAbi; infer_instance

theorem functionTypeArgument_eq (g : Grammar) (first : Bool) : functionTypeArgument g first = (do
    outerAttributes g
    let mutSelf ← ahead fun ts =>
      first && Ahead.word "mut" ts && Ahead.second (Ahead.word "self") ts
    if mutSelf then dropTrees 1
    let self ← ahead fun ts => first && Ahead.word "self" ts
    let named ← ahead fun ts =>
      (Ahead.ident ts || Ahead.underscore ts || first && Ahead.word "self" ts) &&
        Ahead.second (Ahead.mark ":") ts && !Ahead.second (Ahead.mark "::") ts
    if named then
      let _ ← anyWord
      mark ":"
    let ts ← get
    if first && !(named && self) && Ahead.word "mut" ts && Ahead.second (Ahead.word "self") ts then
      dropTrees 2
    else if mutSelf && !named then word "self"
    else
      let _ ← g.type true) := by
  rfl

instance {b : Bool} :
    Follows E Eq Always (functionTypeArgument g b) (functionTypeArgument g' b) := by
  rw [functionTypeArgument_eq, functionTypeArgument_eq]
  dsimp only
  infer_instance

end

instance [Firm E] : Follows E Eq Never (functionTypeArguments g) (functionTypeArguments g') := by
  unfold functionTypeArguments; dsimp only; infer_instance

section

variable [Calm E]

instance : Follows E Eq Always (functionType g) (functionType g') := by
  unfold functionType; infer_instance

instance {n : Nat} : Follows E Eq Never (moreBounds g n) (moreBounds g' n) := by
  unfold moreBounds; infer_instance

instance {b b' : Bool} : Follows E Eq Always (traitObject g b b') (traitObject g' b b') := by
  unfold traitObject
  exact follows_first fun (n, trait, trailing) => by dsimp only; infer_instance

end

instance [Firm E] : Follows E Eq Never (parenTypeInner g) (parenTypeInner g') := by
  unfold parenTypeInner; infer_instance

section

variable [Calm E]

instance {b : Bool} : Follows E Eq Always (parenType g b) (parenType g' b) := by
  unfold parenType
  refine follows_first fun t => ?_
  cases t with
  | inner first => dsimp only; infer_instance
  | _ => infer_instance

instance {b : Bool} : Follows E Eq Never (pathBounds g b) (pathBounds g' b) := by
  unfold pathBounds; infer_instance

instance {p : PathForm} : Follows E Eq Never (pathTypeArguments g p) (pathTypeArguments g' p) := by
  unfold pathTypeArguments; dsimp only; infer_instance

instance {b b' : Bool} : Follows E Eq Always (pathType g b b') (pathType g' b b') := by
  unfold pathType; infer_instance

instance {b : Bool} : Follows E Eq Always (type g b) (type g' b) := by
  unfold type
  dsimp only
  infer_instance

end

/-! ### Where clauses -/

section

variable [Calm E]

instance : Follows E Eq Always (wherePredicate g) (wherePredicate g') := by
  unfold wherePredicate; infer_instance

instance : Follows E Eq Never (tryWhere g) (tryWhere g') := by unfold tryWhere; infer_instance

end

end Parser

end Notebook.Syntax
