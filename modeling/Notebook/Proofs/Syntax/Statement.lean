import Notebook.Syntax.Statement
import Notebook.Proofs.Syntax.Item

/-!
Statements over grammars that follow each other follow each other, and so the grammars of texts
that nest ever deeper follow each other.
-/

set_option synthInstance.maxSize 10000
set_option synthInstance.maxHeartbeats 200000

namespace Notebook.Syntax

theorem endsWithBrace_of_track {x y : List Tree} (h : Track [] [] x y) :
    endsWithBrace x = endsWithBrace y := by
  have last {t u : Tree} (h : t.Loose u) : endsWithBrace [t] = endsWithBrace [u] := by
    rcases h with ⟨_ | _ | _ | @⟨d, _, _, _, _, _⟩⟩ | _
    case same.group => cases d <;> rfl
    all_goals rfl
  induction h with
  | ends => rfl
  | last h => exact last h
  | cons h hs ih =>
    cases hs with
    | ends => exact last (.same h)
    | last => simpa [endsWithBrace] using ih
    | cons => simpa [endsWithBrace] using ih

namespace Parser

open Ahead (second third)

variable {E : Ends} {g g' : Grammar} [hg : g.Follows g']

/-! ### Bindings -/

section

variable [Calm E]

/-- Reads `p` and says whether it ends with a brace. -/
def endingWithBrace {α : Type} (p : Parser α) : Parser Bool := do
  let (_, read) ← reading p
  return endsWithBrace read

omit [Calm E] in
instance {α : Type} {p q : Parser α} [h : Follows E Eq Always p q] :
    Follows E Eq Always (endingWithBrace p) (endingWithBrace q) :=
  follows_bind (k := fun _ => Never) (follows_reading h)
    (follows_pure (E := E) (c := Never) rfl id).suffix
    (fun _ _ h => follows_pure (endsWithBrace_of_track h.2) id) fun _ => .inl trivial

theorem binding_eq (g : Grammar) : binding g = (do
    word "let"
    let _ ← g.pattern
    if ← tryMark ":" then
      let _ ← g.type true
    if ← tryMark "=" then
      let closed ← endingWithBrace (g.expression true)
      if !closed && (← ahead (Ahead.word "else")) then
        word "else"
        let _ ← block g
    mark ";") := by
  unfold binding endingWithBrace
  simp only [bind_assoc, pure_bind]

instance : Follows E Eq Always (binding g) (binding g') := by
  rw [binding_eq, binding_eq]
  dsimp only
  infer_instance

/-! ### What starts a statement -/

/-- A word of a path, and whether another follows. -/
def pathStep : Parser (Unit ⊕ Unit) := do
  require Ahead.pathWord
  let _ ← anyWord
  if ← tryMark "::" then return .inl () else return .inr ()

omit [Calm E] in
theorem run_pathStep (x : List Tree) : pathStep.run x =
    if Ahead.pathWord x = true then
      some (if Ahead.mark "::" x.tail = true then (.inl (), x.tail.drop 2) else (.inr (), x.tail))
    else none := by
  unfold pathStep
  rw [StateT.run_bind, run_require]
  split
  · rename_i h
    rcases x with _ | ⟨_ | _ | _ | _, x⟩ <;> try cases h
    change (tryMark "::" >>= fun b => if b = true then pure (.inl ()) else pure (.inr ()) :
      Parser (Unit ⊕ Unit)).run x =
        some (if Ahead.mark "::" x = true then (.inl (), x.drop 2) else (.inr (), x))
    rw [StateT.run_bind, run_tryMark]
    split <;> rfl
  · rfl

omit [Calm E] in
theorem plainPath_eq : plainPath = tryMark "::" >>= fun _ => iterate (fun _ => pathStep) () := rfl

omit [Calm E] in
theorem run_pathLoop (n : Nat) (x : List Tree) :
    (iterateFrom (fun _ => pathStep) (n + 1) ()).run x =
      if Ahead.pathWord x = true then
        if Ahead.mark "::" x.tail = true then
          (iterateFrom (fun _ => pathStep) n ()).run (x.tail.drop 2)
        else some ((), x.tail)
      else none := by
  rw [iterateFrom, StateT.run_bind, run_pathStep]
  split
  · split <;> rfl
  · rfl

theorem track_drop_two {e e' x y : List Tree} (hE : E e e') (ht : Track e e' x y)
    (hx : Ahead.mark "::" x = true) : Track e e' (x.drop 2) (y.drop 2) := by
  have hd := Guard.deep (P := Ahead.mark "::") (n := 0) hE ht trivial hx
  have hskip {z : List Tree} (hz : Ahead.mark "::" z = true) :
      Ahead.skip (Ahead.skip z) = z.drop 2 := by
    rcases z with _ | ⟨_ | ⟨c, j, _⟩ | _ | _, _ | ⟨_ | ⟨c', j', _⟩ | _ | _, z⟩⟩ <;>
      simp [Ahead.mark, Ahead.markChars] at hz
    obtain ⟨⟨rfl, rfl⟩, rfl⟩ := hz
    rfl
  have hy : Ahead.mark "::" y = true := by
    rwa [← Agree.eq (P := Ahead.mark "::") (n := 0) hE ht trivial]
  rw [← hskip hx, ← hskip hy]
  exact (ht.skip (Calm.alike hE) hd.1).skip (Calm.alike hE) hd.2.1

/-- The path at the front is read in both lists or in neither. -/
theorem plainPath_agrees {e e' x y : List Tree} (hE : E e e') (ht : Track e e' x y) :
    (plainPath.run x = none ∧ plainPath.run y = none) ∨
      ∃ x' y', plainPath.run x = some ((), x') ∧ plainPath.run y = some ((), y') ∧
        Track e e' x' y' := by
  have loop {n m : Nat} {x y : List Tree} (ht : Track e e' x y) (hn : x.length < n)
      (hm : y.length < m) :
      ((iterateFrom (fun _ => pathStep) n ()).run x = none ∧
        (iterateFrom (fun _ => pathStep) m ()).run y = none) ∨
      ∃ x' y', (iterateFrom (fun _ => pathStep) n ()).run x = some ((), x') ∧
        (iterateFrom (fun _ => pathStep) m ()).run y = some ((), y') ∧ Track e e' x' y' := by
    induction n generalizing x y m with
    | zero => omega
    | succ n ih =>
      obtain ⟨m, rfl⟩ : ∃ m', m = m' + 1 := ⟨m - 1, by omega⟩
      have hword : Ahead.pathWord x = Ahead.pathWord y := Agree.eq (n := 0) hE ht trivial
      rw [run_pathLoop, run_pathLoop, ← hword]
      by_cases hx : Ahead.pathWord x = true
      · rw [if_pos hx, if_pos hx]
        have hin := deep_one.1 (Guard.deep (P := Ahead.pathWord) (n := 0) hE ht trivial hx)
        obtain ⟨t, u, x, y, rfl, rfl, -, hs, -⟩ := ht.inside hin
        have hmark : Ahead.mark "::" x = Ahead.mark "::" y := Agree.eq (n := 0) hE hs trivial
        simp only [List.length_cons] at hn hm
        rw [List.tail_cons, List.tail_cons, ← hmark]
        by_cases hmore : Ahead.mark "::" x = true
        · rw [if_pos hmore, if_pos hmore]
          exact ih (track_drop_two hE hs hmore) (by simp; omega) (by simp; omega)
        · rw [if_neg hmore, if_neg hmore]
          exact .inr ⟨x, y, rfl, rfl, hs⟩
      · rw [if_neg hx, if_neg hx]
        exact .inl ⟨rfl, rfl⟩
  have hmark : Ahead.mark "::" x = Ahead.mark "::" y := Agree.eq (n := 0) hE ht trivial
  rw [plainPath_eq, StateT.run_bind, StateT.run_bind, run_tryMark, run_tryMark, ← hmark]
  split
  · exact loop (track_drop_two hE ht ‹_›) (by simp) (by simp)
  · exact loop ht (by simp) (by simp)

instance {n : Nat} : Agree E n goesOn := by unfold goesOn; infer_instance

/-- A group in braces that is the end of what it belongs to. -/
def bracedAhead (ts : List Tree) : Bool := Ahead.brace ts && !goesOn (Ahead.skip ts)

instance {n : Nat} : Agree E n bracedAhead where
  eq {e e' x y} hE ht _ := by
    have hbrace : Ahead.brace x = Ahead.brace y := Agree.eq (n := 0) hE ht trivial
    unfold bracedAhead
    rw [← hbrace]
    rcases Nat.lt_or_ge e.length x.length with hlt | hge
    · rw [Agree.eq (P := goesOn) (n := 0) hE (ht.skip (Calm.alike hE) hlt) trivial]
    · obtain ⟨rfl, rfl⟩ := ht.outside hge
      cases Calm.alike hE with
      | silent h _ => cases h <;> rfl
      | brace _ hr hr' => simp [skip_cons, Tree.isQuote, hr, hr']

/-- What a path that is read starts, by what follows it. -/
def macroAfter (ts : List Tree) : MacroStart :=
  if Ahead.mark "!" ts then
    if second Ahead.ident ts || second (Ahead.word "try") ts then .item
    else if second bracedAhead ts then .statement
    else .neither
  else .neither

omit [Calm E] in
theorem macroStart_eq (ts : List Tree) : macroStart ts =
    match plainPath.run ts with
    | some (_, rest) => macroAfter rest
    | none => .neither :=
  rfl

instance : Agree E 0 macroAfter where
  eq {e e' x y} hE ht _ := by
    have hmark : Ahead.mark "!" x = Ahead.mark "!" y := Agree.eq (n := 0) hE ht trivial
    unfold macroAfter
    rw [← hmark]
    by_cases hx : Ahead.mark "!" x = true
    · have hd := Guard.deep (P := Ahead.mark "!") (n := 0) hE ht trivial hx
      rw [Agree.eq (P := second Ahead.ident) hE ht hd,
        Agree.eq (P := second (Ahead.word "try")) hE ht hd,
        Agree.eq (P := second bracedAhead) hE ht hd]
    · rw [if_neg hx, if_neg hx]

instance : Agree E 0 macroStart where
  eq {e e' x y} hE ht _ := by
    rw [macroStart_eq, macroStart_eq]
    rcases plainPath_agrees hE ht with ⟨hx, hy⟩ | ⟨x', y', hx, hy, ht'⟩ <;> rw [hx, hy]
    exact Agree.eq (P := macroAfter) (n := 0) hE ht' trivial

/-- The kinds of statements that are read in ways of their own. -/
inductive StmtKind where
  | macroCall
  | binding
  | item
  | expression

def kindAhead (ts : List Tree) : StmtKind :=
  if macroStart ts = .statement then .macroCall
  else if Ahead.word "let" ts then .binding
  else if startsItem ts || macroStart ts = .item then .item
  else .expression

instance : Agree E 0 kindAhead where
  eq {e e' x y} hE ht _ := by
    unfold kindAhead
    rw [Agree.eq (P := macroStart) (n := 0) hE ht trivial,
      Agree.eq (P := Ahead.word "let") (n := 0) hE ht trivial,
      Agree.eq (P := startsItem) (n := 0) hE ht trivial]

/-- Reads `p` and a semicolon if there is one. -/
def maybeEnded {α : Type} (p : Parser α) (form : α → Bool → StmtForm) : Parser StmtForm := do
  let a ← p
  return form a (← tryMark ";")

def macroHead : Parser Delimiter := do
  plainPath
  mark "!"
  anyGroup

/-- The form of a statement that is an expression, with a semicolon or without. -/
def expressionForm (e : Expr) (semicolon : Bool) : StmtForm :=
  match e.form with
  | .macroCall d => if semicolon || d = .brace then .macroCall d semicolon else .expression e false
  | _ => .expression e semicolon

def formOf (g : Grammar) : StmtKind → Parser StmtForm
  | .macroCall => maybeEnded macroHead .macroCall
  | .binding => do binding g; return .binding
  | .item => do let _ ← plainItem g; return .item
  | .expression => maybeEnded (bounded g) expressionForm

omit [Calm E] in
theorem macroStatement_eq : macroStatement = maybeEnded macroHead .macroCall := by
  unfold macroStatement maybeEnded macroHead
  simp only [bind_assoc]

omit [Calm E] in
theorem expressionStatement_eq (g : Grammar) :
    expressionStatement g = maybeEnded (bounded g) expressionForm := by
  unfold expressionStatement maybeEnded expressionForm
  refine bind_congr (m := Parser) fun ⟨form, _⟩ => bind_congr (m := Parser) fun s => ?_
  cases form with
  | macroCall d => dsimp only; split <;> rfl
  | _ => rfl

omit [Calm E] in
theorem statementForm_eq (g : Grammar) : statementForm g = look kindAhead >>= formOf g := by
  refine StateT.ext fun x => ?_
  rw [run_look_bind]
  unfold statementForm
  rw [run_get_bind]
  unfold kindAhead
  dsimp only
  split
  · rw [macroStatement_eq]
    rfl
  split
  · rfl
  rw [expressionStatement_eq]
  by_cases h : (startsItem x || decide (macroStart x = .item)) = true
  · rw [if_pos h, if_pos h]
    rfl
  · rw [if_neg h, if_neg h]
    rfl

instance : Follows E Eq Always macroHead macroHead := by unfold macroHead; infer_instance

end

/-! ### Statements -/

section

variable [Firm E]

instance {α : Type} {p q : Parser α} [Follows E Eq Always p q] {form : α → Bool → StmtForm} :
    Follows E Eq Always (maybeEnded p form) (maybeEnded q form) := by
  unfold maybeEnded; infer_instance

instance {kind : StmtKind} : Follows E Eq Always (formOf g kind) (formOf g' kind) := by
  cases kind with
  | item =>
    have hitem : Follows E Item.Alike Always (plainItem g) (plainItem g') := inferInstance
    exact follows_bind (k := fun _ => Never) hitem
      (follows_pure (E := E) (c := Never) rfl id).suffix
      (fun _ _ _ => follows_pure rfl id) fun _ => .inl trivial
  | _ => unfold formOf; infer_instance

instance : Follows E Eq Always (statementForm g) (statementForm g') := by
  rw [statementForm_eq, statementForm_eq]; infer_instance

instance : Follows E Stmt.Alike Always (statement g) (statement g') := by
  have hattributes : Follows E Eq Never (outerAttributes g) (outerAttributes g') := inferInstance
  have hform : Follows E Eq Always (statementForm g) (statementForm g') := inferInstance
  have finish {a : List Tree} {r : StmtForm × List Tree} {x x' : List Tree} {s : Stmt}
      (h : (pure ⟨r.1, a, r.2⟩ : Parser Stmt).run x = some (s, x')) : x' <:+ x :=
    (follows_pure (E := E) (c := Never) (ρ := Eq) rfl id).suffix h
  refine follows_bind (k := fun _ => Always) (follows_reading hattributes)
    (suffix_bind (follows_reading hform).suffix finish) ?_ .inr
  intro a b hab
  exact follows_bind (k := fun _ => Never) (follows_reading hform) finish
    (fun r r' hr => follows_pure ⟨hr.1, hab.2, hr.2⟩ id) fun _ => .inl trivial

omit [Firm E] in
theorem follows_tree : Follows E Tree.Loose Always tree tree :=
  follows_head some some (fun x => by cases x <;> rfl) (fun x => by cases x <;> rfl)
    (by rintro t u a h ⟨⟩; exact ⟨u, rfl, h⟩)

/-- Reads one statement if any is left. -/
def statementsStep (g : Grammar) (read : List Stmt) : Parser (List Stmt ⊕ List Stmt) := do
  if ← isDone then return .inr read.reverse
  else if ← ahead (Ahead.mark ";") then
    let t ← tree
    return .inl (⟨.empty, [], [t]⟩ :: read)
  else
    let s ← statement g
    if StmtForm.needsSemicolon s.form && !(← isDone) then failure
    return .inl (s :: read)

omit [Firm E] in
theorem statements_eq (g : Grammar) : statements g = iterate (statementsStep g) [] := by
  refine congrArg (iterate · []) (funext fun read => StateT.ext fun x => ?_)
  cases x with
  | nil => rfl
  | cons t x =>
    change StateT.run (if Ahead.mark ";" (t :: x) = true then _ else _) (t :: x) =
      StateT.run (if Ahead.mark ";" (t :: x) = true then _ else _) (t :: x)
    split
    · rfl
    · rfl

theorem follows_statementsStep {read read' : List Stmt} (h : List.Forall₂ Stmt.Alike read read') :
    Follows E (Sum.LiftRel (List.Forall₂ Stmt.Alike) (List.Forall₂ Stmt.Alike)) Left
      (statementsStep g read) (statementsStep g' read') := by
  have done : Follows E (Sum.LiftRel (List.Forall₂ Stmt.Alike) (List.Forall₂ Stmt.Alike)) Left
      (pure (.inr read.reverse)) (pure (.inr read'.reverse)) :=
    follows_pure (.inr (List.rel_reverse h)) (by simp [Left])
  have more {s s' : Stmt} (hs : s.Alike s') :
      Follows E (Sum.LiftRel (List.Forall₂ Stmt.Alike) (List.Forall₂ Stmt.Alike)) Never
        (pure (.inl (s :: read))) (pure (.inl (s' :: read'))) :=
    follows_pure (.inl (.cons hs h)) id
  have empty : Follows E (Sum.LiftRel (List.Forall₂ Stmt.Alike) (List.Forall₂ Stmt.Alike)) Left
      (tree >>= fun t => pure (.inl (⟨.empty, [], [t]⟩ :: read)))
      (tree >>= fun t => pure (.inl (⟨.empty, [], [t]⟩ :: read'))) :=
    follows_bind (k := fun _ => Never) follows_tree
      (follows_pure (E := E) (c := Never) (ρ := Eq) rfl id).suffix
      (fun _ _ h => more ⟨rfl, .ends, .last h⟩) fun _ => .inl trivial
  have hstatement : Follows E Stmt.Alike Always (statement g) (statement g') := inferInstance
  have last {s s' : Stmt} (hs : s.Alike s') :
      Follows E (Sum.LiftRel (List.Forall₂ Stmt.Alike) (List.Forall₂ Stmt.Alike)) Never
        (isDone >>= fun b => if (StmtForm.needsSemicolon s.form && !b) = true then
          failure >>= fun _ : Unit => pure (.inl (s :: read)) else pure (.inl (s :: read)))
        (isDone >>= fun b => if (StmtForm.needsSemicolon s'.form && !b) = true then
          failure >>= fun _ : Unit => pure (.inl (s' :: read'))
        else pure (.inl (s' :: read'))) := by
    have := more hs
    rw [hs.form]
    infer_instance
  have full : Follows E (Sum.LiftRel (List.Forall₂ Stmt.Alike) (List.Forall₂ Stmt.Alike)) Left
      (statement g >>= fun s => isDone >>= fun b =>
        if (StmtForm.needsSemicolon s.form && !b) = true then failure >>= fun _ : Unit =>
          pure (.inl (s :: read)) else pure (.inl (s :: read)))
      (statement g' >>= fun s => isDone >>= fun b =>
        if (StmtForm.needsSemicolon s.form && !b) = true then failure >>= fun _ : Unit =>
          pure (.inl (s :: read')) else pure (.inl (s :: read'))) :=
    follows_bind (k := fun _ => Never) hstatement (last (.refl _)).suffix (fun _ _ => last)
      fun _ => .inl trivial
  unfold statementsStep
  dsimp only
  infer_instance

instance : Follows E (List.Forall₂ Stmt.Alike) Never (statements g) (statements g') := by
  rw [statements_eq, statements_eq]
  refine follows_iterate (σ := List.Forall₂ Stmt.Alike) (ρ := List.Forall₂ Stmt.Alike)
    (k := Left) (fun {read _ _ _} => ?_) follows_statementsStep (fun _ => rfl) False.elim .nil
  have halike : List.Forall₂ Stmt.Alike read read := List.forall₂_same.2 fun s _ => .refl s
  have hstep : Follows E (Sum.LiftRel (List.Forall₂ Stmt.Alike) (List.Forall₂ Stmt.Alike)) Left
      (statementsStep g read) (statementsStep g' read) := follows_statementsStep halike
  exact hstep.suffix

end

/-! ### Grammars that nest deeper -/

instance {g g' : Grammar} [g.Follows g'] : g.next.Follows g'.next where
  type _ := inferInstanceAs (Follows _ Eq Always (Parser.type g _) (Parser.type g' _))
  bound _ _ := inferInstanceAs (Follows _ Eq Always (Parser.bound g _ _) (Parser.bound g' _ _))
  pattern := inferInstanceAs (Follows _ Eq Always (Parser.pattern g) (Parser.pattern g'))
  expression _ :=
    inferInstanceAs (Follows _ Eq Always (Parser.expression g _) (Parser.expression g' _))
  bounded := inferInstanceAs (Follows _ Eq Always (Parser.bounded g) (Parser.bounded g'))
  operand _ := inferInstanceAs (Follows _ Eq Always (Parser.operand g _) (Parser.operand g' _))
  climb _ _ _ :=
    inferInstanceAs (Follows _ Eq Never (Parser.climb g _ _ _) (Parser.climb g' _ _ _))
  statements := inferInstanceAs
    (Follows Inner (List.Forall₂ Stmt.Alike) Never (Parser.statements g) (Parser.statements g'))
  item := inferInstanceAs (Follows Inner Item.Alike Always (Parser.item g) (Parser.item g'))
  useTree _ := inferInstanceAs (Follows _ Eq Always (Parser.useTree g _) (Parser.useTree g' _))
  namedFields := inferInstanceAs
    (Follows _ Eq Always (Parser.namedFields g) (Parser.namedFields g'))

instance {g : Grammar} : Grammar.none.Follows g where
  type _ := inferInstanceAs (Follows _ Eq Always failure _)
  bound _ _ := inferInstanceAs (Follows _ Eq Always failure _)
  pattern := inferInstanceAs (Follows _ Eq Always failure _)
  expression _ := inferInstanceAs (Follows _ Eq Always failure _)
  bounded := inferInstanceAs (Follows _ Eq Always failure _)
  operand _ := inferInstanceAs (Follows _ Eq Always failure _)
  climb _ _ _ := inferInstanceAs (Follows _ Eq Never failure _)
  statements := inferInstanceAs (Follows _ (List.Forall₂ Stmt.Alike) Never failure _)
  item := inferInstanceAs (Follows _ Item.Alike Always failure _)
  useTree _ := inferInstanceAs (Follows _ Eq Always failure _)
  namedFields := inferInstanceAs (Follows _ Eq Always failure _)

end Parser

/-- What a grammar reads is read by all that nest deeper. -/
theorem Grammar.follows_of_le {n m : Nat} (h : n ≤ m) : (depth n).Follows (depth m) := by
  induction n generalizing m with
  | zero => exact inferInstanceAs (Grammar.none.Follows (depth m))
  | succ n ih =>
    obtain ⟨m, rfl⟩ : ∃ m', m = m' + 1 := ⟨m - 1, by omega⟩
    have := ih (m := m) (by omega)
    exact inferInstanceAs ((depth n).next.Follows (depth m).next)

instance {n : Nat} : (Grammar.depth n).Follows (.depth n) := Grammar.follows_of_le (Nat.le_refl n)

end Notebook.Syntax
