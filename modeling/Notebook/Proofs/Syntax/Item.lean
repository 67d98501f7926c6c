import Notebook.Syntax.Item
import Notebook.Proofs.Syntax.Expression

/-!
The productions of items over grammars that follow each other follow each other.
-/

set_option synthInstance.maxSize 10000
set_option synthInstance.maxHeartbeats 200000

namespace Notebook.Syntax.Parser

open Ahead (second third)

variable {E : Ends} {g g' : Grammar} [hg : g.Follows g']

/-! ### Visibility -/

section

variable [Calm E]

/-- A place in parentheses. -/
def placeAhead : List Tree → Bool
  | .group .paren [.word w _] _ :: _ => w == "crate" || w == "self" || w == "super"
  | _ => false

/-- A path in parentheses. -/
def inPathAhead : List Tree → Bool
  | .group .paren [.word ..] _ :: _ => false
  | .group .paren inner _ :: _ => Ahead.word "in" inner
  | _ => false

theorem placeAhead_of_same {t u : Tree} (h : t.Same u) (ts us : List Tree) :
    placeAhead (t :: ts) = placeAhead (u :: us) ∧
      inPathAhead (t :: ts) = inPathAhead (u :: us) := by
  rcases h with _ | _ | _ | @⟨d, i, i', _, _, hi⟩
  case group =>
    rcases i with _ | ⟨_ | _ | _ | _, _ | ⟨_ | _ | _ | _, i⟩⟩ <;>
      rcases i' with _ | ⟨_ | _ | _ | _, _ | ⟨_ | _ | _ | _, i'⟩⟩ <;>
      simp [Tree.shape.shapes, Tree.shape] at hi <;> cases d <;>
      simp_all [placeAhead, inPathAhead, Ahead.word]
  all_goals exact ⟨rfl, rfl⟩

theorem placeAhead_cons (t : Tree) (ts : List Tree) :
    placeAhead (t :: ts) = placeAhead [t] ∧ inPathAhead (t :: ts) = inPathAhead [t] :=
  placeAhead_of_same (.refl t) ts []

theorem placeAhead_of_loose {t u : Tree} (h : t.Loose u) :
    placeAhead [t] = placeAhead [u] ∧ inPathAhead [t] = inPathAhead [u] := by
  cases h with
  | same h => exact placeAhead_of_same h [] []
  | mark => exact ⟨rfl, rfl⟩

instance {n : Nat} : Agree E n placeAhead :=
  agree_of_head (fun t => placeAhead [t]) (fun t ts => (placeAhead_cons t ts).1) rfl
    (fun h => (placeAhead_of_loose h).1) fun _ _ => rfl

instance : Guard E 0 placeAhead 1 :=
  guard_of_head (fun t => placeAhead [t]) (fun t ts => (placeAhead_cons t ts).1) rfl
    (fun _ _ => rfl) fun _ _ => rfl

instance {n : Nat} : Agree E n inPathAhead :=
  agree_of_head (fun t => inPathAhead [t]) (fun t ts => (placeAhead_cons t ts).2) rfl
    (fun h => (placeAhead_of_loose h).2) fun _ _ => rfl

theorem visibility_eq : visibility = (do
    if ← tryWord "pub" then
      let ts ← get
      if placeAhead ts then dropTrees 1
      else if inPathAhead ts then within .paren do word "in"; plainPath
      return true
    else return false) := by
  unfold visibility
  refine bind_congr (m := Parser) fun b => ?_
  split
  · refine StateT.ext fun x => ?_
    rw [run_get_bind, run_get_bind]
    dsimp only
    rcases x with _ | ⟨_ | _ | _ | ⟨_ | _ | _, _ | ⟨_ | _ | _ | _, _ | _⟩, _⟩, x⟩ <;>
      try rfl
    case group.paren.cons.word.nil =>
      dsimp only
      split <;> rename_i hplace
      · rw [if_pos]
        · rfl
        · exact hplace
      · rw [if_neg]
        · rfl
        · exact hplace
  · rfl

instance : Follows E Eq Found visibility visibility := by
  rw [visibility_eq]; dsimp only; infer_instance

/-! ### Signatures -/

omit [Calm E] in
theorem track_past {Q : List Tree → Bool} [Agree E 0 Q] [Guard E 0 Q 1] {e e' x y : List Tree}
    (hE : E e e') (ht : Track e e' x y) :
    Track e e' (if Q x = true then x.drop 1 else x) (if Q y = true then y.drop 1 else y) := by
  rw [← Agree.eq (P := Q) (n := 0) hE ht trivial]
  split
  · have := deep_one.1 (Guard.deep (P := Q) (n := 0) hE ht trivial ‹_›)
    exact ht.drop (by omega)
  · exact ht

/-- What follows a word that says whether a function is safe. -/
def skipSafety (safe : Bool) (ts : List Tree) : List Tree :=
  if safe && Ahead.word "safe" ts then ts.drop 1 else skipWord "unsafe" ts

/-- What follows the name of a calling convention. -/
def skipAbi (ts : List Tree) : List Tree :=
  if Ahead.word "extern" ts then
    let ts := ts.drop 1
    if Ahead.string ts then ts.drop 1 else ts
  else ts

theorem track_skipSafety {b : Bool} {e e' x y : List Tree} (hE : E e e') (ht : Track e e' x y) :
    Track e e' (skipSafety b x) (skipSafety b y) := by
  cases b with
  | false => exact track_past (Q := Ahead.word "unsafe") hE ht
  | true =>
    have hsafe : Ahead.word "safe" x = Ahead.word "safe" y := Agree.eq (n := 0) hE ht trivial
    unfold skipSafety
    simp only [Bool.true_and, ← hsafe]
    split
    · have := deep_one.1 (Guard.deep (P := Ahead.word "safe") (n := 0) hE ht trivial ‹_›)
      exact ht.drop (by omega)
    · exact track_past (Q := Ahead.word "unsafe") hE ht

theorem track_skipAbi {e e' x y : List Tree} (hE : E e e') (ht : Track e e' x y) :
    Track e e' (skipAbi x) (skipAbi y) := by
  unfold skipAbi
  rw [← Agree.eq (P := Ahead.word "extern") (n := 0) hE ht trivial]
  split
  · have := deep_one.1 (Guard.deep (P := Ahead.word "extern") (n := 0) hE ht trivial ‹_›)
    exact track_past (Q := Ahead.string) hE (ht.drop (by omega))
  · exact ht

instance {b : Bool} : Agree E 0 (signatureAhead b) where
  eq {e e' x y} hE ht _ := by
    have hconst := track_past (Q := Ahead.word "const") hE ht
    have hasync := track_past (Q := Ahead.word "async") hE hconst
    exact Agree.eq (P := Ahead.word "fn") (n := 0) hE
      (track_skipAbi hE (track_skipSafety (b := b) hE hasync)) trivial

/-- Whether a receiver is ahead, after a reference to it if `byRef`. -/
def selfAhead (byRef : Bool) (ts : List Tree) : Bool :=
  Ahead.word "self" ts && !(second (Ahead.mark ":") ts && !(byRef || second (Ahead.mark ":::") ts ||
    !(second (Ahead.mark "::") ts || third (Ahead.mark "...") ts)))

instance {b : Bool} : Agree E 0 (selfAhead b) := by unfold selfAhead; infer_instance

omit [Calm E] in
theorem selfAhead_drop (byRef : Bool) (ts : List Tree) : selfAhead byRef ts =
    (Ahead.word "self" ts && (byRef || !Ahead.mark ":" (ts.drop 1) ||
      Ahead.mark ":::" (ts.drop 1) ||
      !(Ahead.mark "::" (ts.drop 1) || second (Ahead.mark "...") (ts.drop 1)))) := by
  rcases ts with _ | ⟨_ | _ | _ | _, ts⟩
  case cons.word w s =>
    change (_ && !(Ahead.mark ":" ts && !(byRef || Ahead.mark ":::" ts ||
      !(Ahead.mark "::" ts || second (Ahead.mark "...") ts)))) = (_ && (byRef ||
        !Ahead.mark ":" ts || Ahead.mark ":::" ts ||
        !(Ahead.mark "::" ts || second (Ahead.mark "...") ts)))
    cases Ahead.mark ":" ts <;> simp
  all_goals rfl

/-- What follows a reference, possibly with a lifetime. -/
def skipReference (ts : List Tree) : List Tree :=
  if Ahead.mark "&" ts then
    let ts := ts.drop 1
    if Ahead.lifetime ts then ts.drop 2 else ts
  else ts

omit [Calm E] in
theorem skip_of_lifetime {ts : List Tree} (h : Ahead.lifetime ts = true) :
    Ahead.skip ts = ts.drop 2 := by
  unfold Ahead.lifetime at h
  split at h
  · rfl
  · cases h

theorem track_skipReference {e e' x y : List Tree} (hE : E e e') (ht : Track e e' x y) :
    Track e e' (skipReference x) (skipReference y) := by
  unfold skipReference
  rw [← Agree.eq (P := Ahead.mark "&") (n := 0) hE ht trivial]
  split
  · have := deep_one.1 (Guard.deep (P := Ahead.mark "&") (n := 0) hE ht trivial ‹_›)
    have ht₁ := ht.drop (n := 1) (by omega)
    dsimp only
    rw [← Agree.eq (P := Ahead.lifetime) (n := 0) hE ht₁ trivial]
    split
    · have hin := deep_one.1 (Guard.deep (P := Ahead.lifetime) (n := 0) hE ht₁ trivial ‹_›)
      have hy : Ahead.lifetime (y.drop 1) = true := by
        rw [← Agree.eq (P := Ahead.lifetime) (n := 0) hE ht₁ trivial]
        assumption
      rw [← skip_of_lifetime ‹_›, ← skip_of_lifetime hy]
      exact ht₁.skip (Calm.alike hE) hin
    · exact ht₁
  · exact ht

theorem receiverAhead_eq (ts : List Tree) : receiverAhead ts =
    selfAhead (Ahead.mark "&" ts) (skipWord "mut" (skipReference ts)) :=
  (selfAhead_drop _ _).symm

instance : Agree E 0 receiverAhead where
  eq {e e' x y} hE ht _ := by
    have hmut := track_past (Q := Ahead.word "mut") hE (track_skipReference hE ht)
    rw [receiverAhead_eq, receiverAhead_eq,
      ← Agree.eq (P := Ahead.mark "&") (n := 0) hE ht trivial]
    exact Agree.eq (n := 0) hE hmut trivial

instance : Follows E Eq Always (receiver g) (receiver g') := by
  unfold receiver; dsimp only; infer_instance

end

instance [Firm E] : Follows E Eq Never variadicEnd variadicEnd := by
  unfold variadicEnd; infer_instance

instance [Firm E] : Follows E Eq Never (parameters g) (parameters g') := by
  unfold parameters; dsimp only; infer_instance

section

variable [Fair E]

instance {b : Bool} : Follows E Eq Always (signature g b) (signature g' b) := by
  unfold signature; infer_instance

/-! ### Types, constants and statics -/

instance {b : Bool} {place : WherePlace} :
    Follows E Eq Always (typeItem g b place) (typeItem g' b place) := by
  unfold typeItem; cases b <;> (dsimp only; infer_instance)

instance : Follows E Eq Always (constItem g) (constItem g') := by
  unfold constItem; infer_instance

instance : Follows E Eq Always (staticItem g) (staticItem g') := by
  unfold staticItem; infer_instance

/-! ### Imports -/

instance {b : Bool} : Follows E Eq Always (useTree g b) (useTree g' b) := by
  unfold useTree; cases b <;> infer_instance

instance : Follows E Eq Always (useItem g) (useItem g') := by
  unfold useItem; infer_instance

instance : Follows E Eq Always externCrate externCrate := by
  unfold externCrate; dsimp only; infer_instance

/-! ### Macros -/

instance {b : Bool} : Follows E Eq Always (macroItem b) (macroItem b) := by
  unfold macroItem; dsimp only; infer_instance

instance : Follows E Eq Always macroDefinition macroDefinition := by
  unfold macroDefinition; dsimp only; infer_instance

/-! ### Structures, enumerations and unions -/

instance : Follows E Eq Always (namedField g) (namedField g') := by
  unfold namedField; dsimp only; infer_instance

instance : Follows E Eq Always (namedFields g) (namedFields g') := by
  unfold namedFields; infer_instance

instance : Follows E Eq Always (tupleFields g) (tupleFields g') := by
  unfold tupleFields; infer_instance

instance : Follows E Eq Always (structItem g) (structItem g') := by
  unfold structItem; infer_instance

instance : Follows E Eq Always (variant g) (variant g') := by
  unfold variant; dsimp only; infer_instance

instance : Follows E Eq Always (enumItem g) (enumItem g') := by
  unfold enumItem; infer_instance

instance : Follows E Eq Always (unionItem g) (unionItem g') := by
  unfold unionItem; infer_instance

/-! ### Foreign items, traits and implementations -/

/-- A static without its value's place in memory being checked. -/
def foreignStatic (g : Grammar) : Parser Unit := do
  word "static"
  let _ ← tryWord "mut"
  let _ ← ident
  mark ":"
  let _ ← g.type true
  if ← tryMark "=" then
    let _ ← g.expression true
  mark ";"

theorem foreignItem_eq (g : Grammar) : foreignItem g = (do
    outerAttributes g
    let isPublic ← visibility
    let ts ← get
    if signatureAhead true ts then
      let _ ← signature g true
      if ← ahead Ahead.brace then
        let _ ← attributedBlock g
      else mark ";"
    else if Ahead.word "static" ts then foreignStatic g
    else if (Ahead.word "unsafe" ts || Ahead.word "safe" ts) && second (Ahead.word "static") ts then
      dropTrees 1
      foreignStatic g
    else if Ahead.word "type" ts then typeItem g false .anywhere
    else if !isPublic && startsMacro ts then macroItem false
    else failure) := by
  unfold foreignItem
  refine bind_congr (m := Parser) fun _ => bind_congr (m := Parser) fun _ =>
    bind_congr (m := Parser) fun ts => ?_
  cases Ahead.word "static" ts <;> simp <;> rfl

instance : Follows E Eq Always (foreignStatic g) (foreignStatic g') := by
  unfold foreignStatic; dsimp only; infer_instance

instance : Follows E Eq Always (foreignItem g) (foreignItem g') := by
  rw [foreignItem_eq, foreignItem_eq]; infer_instance

instance : Follows E Eq Always (foreignMod g) (foreignMod g') := by
  unfold foreignMod; infer_instance

instance : Follows E Eq Always (traitMember g) (traitMember g') := by
  unfold traitMember; infer_instance

instance {stop : List Tree → Bool} [Heeds E stop] {b : Bool} :
    Follows E Eq Never (strictBounds g stop b) (strictBounds g' stop b) := by
  unfold strictBounds; infer_instance

instance : Follows E Eq Always (traitBody g) (traitBody g') := by
  unfold traitBody; infer_instance

instance : Follows E Eq Always (traitItem g) (traitItem g') := by
  unfold traitItem; infer_instance

theorem implMember_eq (g : Grammar) : implMember g = (do
    outerAttributes g
    let isPublic ← visibility
    let isDefault ← ahead fun ts => Ahead.word "default" ts && !second (Ahead.mark "!") ts
    if isDefault then dropTrees 1
    let ts ← get
    if signatureAhead false ts then
      let _ ← signature g false
      if ← tryMark ";" then pure ()
      else
        let _ ← attributedBlock g
    else if Ahead.word "const" ts then constItem g
    else if Ahead.word "type" ts then typeItem g false .afterValue
    else if !isPublic && !isDefault && startsMacro ts then macroItem false
    else failure) :=
  rfl

instance : Follows E Eq Always (implMember g) (implMember g') := by
  rw [implMember_eq, implMember_eq]; dsimp only; infer_instance

/-- What an implementation is for, and its members. -/
def implFor (g : Grammar) (negative : Bool) : Parser Unit := do
  let _ ← g.type true
  if ← tryWord "for" then
    let _ ← g.type true
  else if negative then failure
  tryWhere g
  within .brace do
    innerAttributes g
    let _ ← manyToEnd (implMember g)

theorem implItem_eq (g : Grammar) : implItem g = (do
    let _ ← tryWord "default"
    let _ ← tryWord "unsafe"
    word "impl"
    if ← ahead genericsAhead then generics g
    let ts ← get
    if Ahead.word "const" ts || (Ahead.mark "?" ts && second (Ahead.word "const") ts) then
      let _ ← tryMark "?"
      word "const"
    let negative ← ahead fun ts => Ahead.mark "!" ts && !second Ahead.brace ts
    if negative then mark "!"
    implFor g negative) :=
  rfl

instance {b : Bool} : Follows E Eq Always (implFor g b) (implFor g' b) := by
  unfold implFor; dsimp only; infer_instance

instance : Follows E Eq Always (implItem g) (implItem g') := by
  rw [implItem_eq, implItem_eq]; dsimp only; infer_instance

instance : Follows E Eq Always (modItem g) (modItem g') := by
  unfold modItem; infer_instance

/-! ### Items -/

instance : Follows E Item.Alike Never (pure .other) (pure .other) := follows_pure .other id

instance {name : String} : Follows E Item.Alike Always
    (attributedBlock g >>= fun b => pure (.function name b))
    (attributedBlock g' >>= fun b => pure (.function name b)) :=
  follows_bind (k := fun _ => Never) (inferInstanceAs
    (Follows E (List.Forall₂ Stmt.Alike) Always (attributedBlock g) (attributedBlock g')))
    (follows_pure (E := E) (c := Never) rfl id).suffix
    (fun _ _ h => follows_pure (.function h) id) fun _ => .inl trivial

instance : Follows E Item.Alike Always (functionItem g) (functionItem g') := by
  unfold functionItem; infer_instance

instance : Follows E Item.Alike Always (plainItem g) (plainItem g') := by
  unfold plainItem; dsimp only; infer_instance

instance : Follows E Item.Alike Always (item g) (item g') := by
  unfold item; infer_instance

end

end Notebook.Syntax.Parser
