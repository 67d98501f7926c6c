import Notebook.Syntax.Expression
import Notebook.Proofs.Syntax.Pattern

/-!
The productions of expressions over grammars that follow each other follow each other.
-/

set_option synthInstance.maxSize 10000
set_option synthInstance.maxHeartbeats 200000

namespace Notebook.Syntax.Parser

open Ahead (second third)

variable {E : Ends} {g g' : Grammar} [hg : g.Follows g']

section

variable [Calm E]

instance {n : Nat} : Agree E n precedenceAhead where
  eq hE h hd := by
    simp only [precedenceAhead, Agree.eq (P := Operator.ahead?) hE h hd,
      Agree.eq (P := Ahead.mark "=") hE h hd, Agree.eq (P := Ahead.mark "=>") hE h hd,
      Agree.eq (P := Ahead.mark "..") hE h hd, Agree.eq (P := Ahead.word "as") hE h hd]

theorem isRangeEnd_eq (structs : Bool) (ts : List Tree) : isRangeEnd structs ts =
    (silentAhead ts || Ahead.mark "," ts ||
      (Ahead.mark "." ts && !Ahead.mark ".." ts) || Ahead.mark "?" ts || Ahead.mark "=>" ts ||
      (!structs && Ahead.brace ts) || Ahead.mark "=" ts || Ahead.mark "+" ts ||
      Ahead.mark "/" ts || Ahead.mark "%" ts || Ahead.mark "^" ts || Ahead.mark ">" ts ||
      Ahead.mark "<=" ts || Ahead.mark "!=" ts || Ahead.mark "-=" ts || Ahead.mark "*=" ts ||
      Ahead.mark "&=" ts || Ahead.mark "|=" ts || Ahead.mark "<<=" ts || Ahead.word "as" ts) := by
  unfold isRangeEnd silentAhead
  rw [Bool.or_assoc ts.isEmpty, Bool.or_comm (Ahead.mark "," ts), ← Bool.or_assoc ts.isEmpty]

instance {structs : Bool} {n : Nat} : Agree E n (isRangeEnd structs) := by
  rw [funext (isRangeEnd_eq structs)]; infer_instance

instance : Follows E Eq Never (tryExpression g) (tryExpression g') := by
  unfold tryExpression; infer_instance

/-! ### Control flow -/

instance : Follows E Eq Always (conditional g) (conditional g') := by
  unfold conditional; infer_instance

instance : Follows E Eq Always (whileLoop g) (whileLoop g') := by unfold whileLoop; infer_instance

instance : Follows E Eq Always (forLoop g) (forLoop g') := by unfold forLoop; infer_instance

instance : Follows E Eq Always (endlessLoop g) (endlessLoop g') := by
  unfold endlessLoop; infer_instance

instance : Follows E Eq Always (labelled g) (labelled g') := by unfold labelled; infer_instance

/-! ### Operators -/

/-- Reads `p` and goes on with its result if it has read a tree. -/
def growing {α : Type} (p : Parser α) : Parser (α ⊕ Unit) := do
  let before ← get
  let a ← p
  if (← get).length = before.length then return .inr () else return .inl a

theorem run_growing {α : Type} (p : Parser α) (x : List Tree) : (growing p).run x =
    (p.run x).map fun r => (if r.2.length = x.length then .inr () else .inl r.1, r.2) := by
  unfold growing
  rw [run_get_bind, StateT.run_bind]
  cases p.run x with
  | none => rfl
  | some r =>
    simp only [Option.bind_eq_bind, Option.bind_some, Option.map_some, run_get_bind]
    split <;> rfl

instance {α : Type} {p q : Parser α} [h : Follows E Eq Never p q] :
    Follows E Eq Left (growing p) (growing q) where
  suffix {x x' r} hx := by
    rw [run_growing] at hx
    obtain ⟨⟨a, x₁⟩, hp, hr⟩ := Option.map_eq_some_iff.1 hx
    cases hr
    exact h.suffix hp
  follow {e e' x y} hE ht r x' hx hx' := by
    rw [run_growing] at hx ⊢
    obtain ⟨⟨a, x₁⟩, hp, hr⟩ := Option.map_eq_some_iff.1 hx
    cases hr
    replace hx' : e <:+ x₁ := hx'
    obtain ⟨n, b, hn, -, rfl, hq⟩ := h.follow hE ht a x₁ hp hx'
    have hle := hx'.length_le
    have hlen := ht.length
    refine ⟨n, _, hn, fun hleft => ?_, rfl, ?_⟩
    · by_cases hgrown : x₁.length = x.length
      · simp [Left, hgrown] at hleft
      · omega
    · have : (y.drop n).length = y.length ↔ x₁.length = x.length := by
        rw [List.length_drop]
        omega
      simp only [hq, Option.map_some, this]

theorem rightSide_eq (g : Grammar) (structs : Bool) (p : Precedence) : rightSide g structs p = (do
    let first ← g.operand structs
    iterate (fun e => do
      let next ← look precedenceAhead
      if p.rank < next.rank || (next == p && p == .assign) then growing (g.climb e structs next)
      else return .inr ()) first) := by
  unfold rightSide
  refine bind_congr (m := Parser) fun first => congrArg (iterate · first) (funext fun e => ?_)
  refine StateT.ext fun x => ?_
  rw [run_get_bind, run_look_bind]
  dsimp only
  split
  · unfold growing
    rw [run_get_bind]
  · rfl

instance {structs : Bool} {p : Precedence} :
    Follows E Eq Always (rightSide g structs p) (rightSide g' structs p) := by
  rw [rightSide_eq, rightSide_eq]
  infer_instance

instance {structs : Bool} : Follows E Eq Always (rangeRest g structs) (rangeRest g' structs) := by
  unfold rangeRest; infer_instance

theorem climb_eq (g : Grammar) (left : Expr) (structs : Bool) (base : Precedence) :
    climb g left structs base = iterate (fun left => do
      let found ← look Operator.ahead?
      let ts ← get
      if left.form == .range then return .inr left
      else match found with
        | some (m, o) =>
          if o.precedence.rank < base.rank then return .inr left
          else if Operator.chains o left.form then failure
          else
            mark m
            rightSide g structs o.precedence
            return .inl ⟨.binary o, left.leadsVerbatim⟩
        | none =>
          if base.rank ≤ Precedence.assign.rank && Ahead.mark "=" ts && !Ahead.mark "=>" ts then
            mark "="
            rightSide g structs .assign
            return .inl ⟨.assign, left.leadsVerbatim⟩
          else if base.rank ≤ Precedence.range.rank && Ahead.mark ".." ts then
            rangeRest g structs
            return .inl (.of .range)
          else if base.rank ≤ Precedence.cast.rank && Ahead.word "as" ts then
            word "as"
            let _ ← g.type false
            require isAfterCast
            return .inl ⟨.cast, left.leadsVerbatim⟩
          else return .inr left) left :=
  rfl

instance {left : Expr} {structs : Bool} {base : Precedence} :
    Follows E Eq Never (climb g left structs base) (climb g' left structs base) := by
  rw [climb_eq, climb_eq]
  refine follows_loop fun left => follows_then fun found => ?_
  cases found with
  | none => dsimp only; infer_instance
  | some found => dsimp only; infer_instance

/-! ### Atoms -/

instance : Follows E Eq Always (closureArgument g) (closureArgument g') := by
  unfold closureArgument; infer_instance

instance {structs : Bool} : Follows E Eq Always (closure g structs) (closure g' structs) := by
  unfold closure; infer_instance

end

section

variable [Firm E]

instance : Follows E Eq Always (structField g) (structField g') := by
  unfold structField; infer_instance

instance : Follows E Eq Never (structFields g) (structFields g') := by
  unfold structFields; infer_instance

instance : Follows E Eq Always (matchArm g) (matchArm g') := by
  unfold matchArm; infer_instance

end

section

variable [Calm E]

instance {structs : Bool} :
    Follows E Eq Always (pathExpression g structs) (pathExpression g' structs) := by
  unfold pathExpression; infer_instance

instance : Follows E Eq Always (parenOrTuple g) (parenOrTuple g') := by
  unfold parenOrTuple
  refine follows_first fun (elements, trailing) => ?_
  rcases elements with _ | ⟨_, _ | _⟩ <;> (dsimp only; infer_instance)

instance : Follows E Eq Always (arrayOrRepetition g) (arrayOrRepetition g') := by
  unfold arrayOrRepetition; infer_instance

instance {structs : Bool} : Follows E Eq Always (breakJump g structs) (breakJump g' structs) := by
  unfold breakJump; dsimp only; infer_instance

instance : Follows E Eq Always (matching g) (matching g') := by
  unfold matching; infer_instance

instance {structs : Bool} : Follows E Eq Always (letBinding g structs) (letBinding g' structs) := by
  unfold letBinding; infer_instance

instance : Follows E Eq Always builtin builtin := by
  unfold builtin; infer_instance

instance {structs : Bool} : Follows E Eq Always (atom g structs) (atom g' structs) := by
  unfold atom; infer_instance

/-! ### Calls, fields and the like -/

/-- The numbers of fields in a float: whether a point follows them. -/
def fieldNumbers? : Tree → Option Bool
  | .literal t _ =>
    let trailing := t.getLast? == some '.'
    if (splitPoints (if trailing then t.dropLast else t)).all isFieldNumber then some trailing
    else none
  | _ => none

theorem run_floatField (x : List Tree) :
    floatField.run x = x.head?.bind fun t => (fieldNumbers? t).map (·, x.tail) := by
  rcases x with _ | ⟨t, x⟩
  · rfl
  · cases t with
    | literal t s =>
      unfold floatField fieldNumbers?
      rw [run_get_bind]
      dsimp only [List.head?_cons, Option.bind_some, List.tail_cons]
      cases (splitPoints (if t.getLast? == some '.' then t.dropLast else t)).all isFieldNumber
      · rfl
      · rfl
    | _ => rfl

instance : Follows E Eq Always floatField floatField :=
  follows_head fieldNumbers? fieldNumbers? run_floatField run_floatField
    (by rintro t u a (⟨_ | _⟩ | _) h <;> exact ⟨a, h, rfl⟩)

instance : Follows E Eq Always (callArguments g) (callArguments g') := by
  unfold callArguments; infer_instance

/-- The number of a field of a tuple. -/
def numberField : Parser ExprForm := do
  match Ahead.literalKind? (← get) with
  | some (.integer v []) =>
    if v < 4_294_967_296 then
      dropTrees 1
      return .field
    else failure
  | _ => failure

def fieldNumber? : Tree → Option ExprForm
  | .literal t _ =>
    match Literal.kind t with
    | .integer v [] => if v < 4_294_967_296 then some .field else none
    | _ => none
  | _ => none

theorem run_numberField (x : List Tree) :
    numberField.run x = x.head?.bind fun t => (fieldNumber? t).map (·, x.tail) := by
  rcases x with _ | ⟨t, x⟩
  · rfl
  · cases t with
    | literal t s =>
      unfold numberField fieldNumber?
      rw [run_get_bind]
      dsimp only [List.head?_cons, Option.bind_some, List.tail_cons, Ahead.literalKind?]
      cases Literal.kind t with
      | integer v suffix =>
        cases suffix with
        | nil =>
          dsimp only
          split <;> rfl
        | cons => rfl
      | _ => rfl
    | _ => rfl

instance : Follows E Eq Always numberField numberField :=
  follows_head fieldNumber? fieldNumber? run_numberField run_numberField
    (by rintro t u a (⟨_ | _⟩ | _) h <;> exact ⟨a, h, rfl⟩)

theorem member_eq (g : Grammar) : member g = (do
    if ← tryWord "await" then return .await
    else
      let ts ← get
      if Ahead.ident ts then
        dropTrees 1
        let turbofish ← ahead (Ahead.mark "::")
        if turbofish then
          mark "::"
          angleArguments g
        if turbofish || (← ahead Ahead.paren) then
          callArguments g
          return .methodCall
        else return .field
      else numberField) := by
  unfold member
  refine bind_congr (m := Parser) fun b => ?_
  split
  · rfl
  · refine StateT.ext fun x => ?_
    rw [run_get_bind, run_get_bind]
    split
    · rfl
    · unfold numberField
      rewrite [run_get_bind]
      rcases Ahead.literalKind? x with _ | _ | ⟨v, _ | _⟩ | _ <;> rfl

instance : Follows E Eq Always (member g) (member g') := by
  rw [member_eq, member_eq]
  dsimp only
  infer_instance

instance {e : Expr} : Follows E Eq Never (trailers g e) (trailers g' e) := by
  unfold trailers; infer_instance

theorem operand_eq (g : Grammar) (structs : Bool) : operand g structs = (do
    let attributed ← ahead (Ahead.mark "#")
    outerAttributes g
    let ts ← get
    if Ahead.mark "&" ts then
      mark "&"
      let raw ← ahead fun ts => Ahead.word "raw" ts &&
        (second (Ahead.word "mut") ts || second (Ahead.word "const") ts)
      if raw then dropTrees 1
      let mutable ← tryWord "mut"
      if raw && !mutable then word "const"
      let _ ← g.operand structs
      return .of (if raw then .rawAddress else .reference)
    else if Ahead.mark "*" ts || Ahead.mark "!" ts || Ahead.mark "-" ts then
      dropTrees 1
      let _ ← g.operand structs
      return .of .unary
    else
      let e ← trailers g (Expr.ofAtom (← atom g structs))
      if attributed && e.form == .range then failure
      else return { e with leadsVerbatim := e.leadsVerbatim && !attributed }) :=
  rfl

instance {structs : Bool} : Follows E Eq Always (operand g structs) (operand g' structs) := by
  rw [operand_eq, operand_eq]
  dsimp only
  infer_instance

/-! ### Expressions as statements and bodies of arms -/

/-- What follows a block-like expression. -/
def afterBlock (g : Grammar) (f : ExprForm) : Parser Expr := do
  let ts ← get
  if (Ahead.mark "." ts && !Ahead.mark ".." ts) || Ahead.mark "?" ts then
    g.climb (← trailers g (Expr.of f)) true .jump
  else return Expr.of f

theorem bounded_eq (g : Grammar) : bounded g = (do
    outerAttributes g
    let ts ← get
    if Ahead.word "if" ts then afterBlock g (← conditional g)
    else if Ahead.word "while" ts then afterBlock g (← whileLoop g)
    else if Ahead.word "for" ts && !bindsAhead ts then afterBlock g (← forLoop g)
    else if Ahead.word "loop" ts then afterBlock g (← endlessLoop g)
    else if Ahead.word "match" ts then afterBlock g (← matching g)
    else if (Ahead.word "try" ts && second Ahead.brace ts) || Ahead.word "unsafe" ts ||
        (Ahead.word "const" ts && second Ahead.brace ts) || Ahead.brace ts then
      afterBlock g (← atom g true)
    else if Ahead.lifetime ts then afterBlock g (← labelled g)
    else g.climb (← operand g true) true .jump) := by
  unfold bounded
  refine bind_congr (m := Parser) fun _ => bind_congr (m := Parser) fun ts => ?_
  dsimp only
  split_ifs <;> rfl

instance : Follows E Eq Never (afterBlock g f) (afterBlock g' f) := by
  unfold afterBlock; infer_instance

instance : Follows E Eq Always (bounded g) (bounded g') := by
  rw [bounded_eq, bounded_eq]
  infer_instance

instance {structs : Bool} : Follows E Eq Always (expression g structs) (expression g' structs) := by
  unfold expression; infer_instance

end

end Notebook.Syntax.Parser
