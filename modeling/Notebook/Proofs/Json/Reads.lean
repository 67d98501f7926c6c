import Mathlib.Data.List.Basic
import Notebook.Json.Structure
import Notebook.Json.Writer

/-!
What a reader makes of a text that was written: it takes the written part, gives what was written,
and leaves what follows, wherever the text stands.
-/

namespace Notebook.Json

namespace Reader

variable {α β σ : Type} {s t u : List Char}

/-- From the text `s` on, `r` gives `a` and leaves `t`. -/
def Reads (r : Reader α) (s : List Char) (a : α) (t : List Char) : Prop :=
  ∀ m, ∃ m', StateT.run r ⟨s, m⟩ = .ok (a, ⟨t, m'⟩)

namespace Reads

theorem pure (a : α) (s : List Char) : Reads (Pure.pure a) s a s := fun m => ⟨m, rfl⟩

theorem bind {r : Reader α} {f : α → Reader β} {a : α} {b : β} (h : Reads r s a t)
    (hf : Reads (f a) t b u) : Reads (r >>= f) s b u := by
  intro m
  obtain ⟨m', h⟩ := h m
  obtain ⟨m'', hf⟩ := hf m'
  refine ⟨m'', ?_⟩
  rw [StateT.run_bind, h]
  exact hf

end Reads

/-! ### Characters -/

theorem reads_peek (s : List Char) : Reads peek s s.head? s := fun m => ⟨m, rfl⟩

theorem reads_advance (n : Nat) (s : List Char) : Reads (advance n) s () (s.drop n) :=
  fun m => ⟨m.afterAll (s.take n), rfl⟩

theorem reads_get {f : Cursor → Reader α} {a : α} (h : ∀ m, Reads (f ⟨s, m⟩) s a t) :
    Reads (get >>= f) s a t := fun m => h m m

/-- Blanks are gone past. -/
def Blank (b : List Char) : Prop := ∀ c ∈ b, Cursor.isBlank c = true

theorem blank_lineStart (depth : Nat) : Blank (lineStart depth) := by
  intro c hc
  rcases List.mem_cons.1 hc with rfl | hc
  · rfl
  · rw [List.eq_of_mem_replicate hc]
    rfl

/-- The next character that is no blank is at the front, or there is none. -/
def Solid (s : List Char) : Prop := ∀ c ∈ s.head?, Cursor.isBlank c = false

theorem reads_peekToken {b s : List Char} (hb : Blank b) (hs : Solid s) :
    Reads peekToken (b ++ s) s.head? s := by
  refine fun m => ⟨m.afterAll ((b ++ s).takeWhile Cursor.isBlank), ?_⟩
  have hdrop : (b ++ s).dropWhile Cursor.isBlank = s := by
    rw [List.dropWhile_append_of_pos hb]
    cases s with
    | nil => rfl
    | cons c s => rw [List.dropWhile_cons_of_neg (by simp [hs c rfl])]
  show (.ok (((b ++ s).dropWhile Cursor.isBlank).head?, _) : Except Problem _) = _
  simp only [Cursor.skipWhile, hdrop]

theorem reads_token {f : Option Char → Reader α} {a : α} {b : List Char} {c : Char}
    (hb : Blank b) (hc : Cursor.isBlank c = false) (h : Reads (f (some c)) (c :: s) a t) :
    Reads (peekToken >>= f) (b ++ c :: s) a t :=
  (reads_peekToken hb (by simpa [Solid] using hc)).bind h

theorem reads_token' {f : Option Char → Reader α} {a : α} {c : Char}
    (hc : Cursor.isBlank c = false) (h : Reads (f (some c)) (c :: s) a t) :
    Reads (peekToken >>= f) (c :: s) a t := reads_token (b := []) (by simp [Blank]) hc h

theorem reads_past {f : Unit → Reader α} {a : α} {c : Char} (h : Reads (f ()) s a t) :
    Reads (advance 1 >>= f) (c :: s) a t := (reads_advance 1 (c :: s)).bind h

/-! ### Repetition -/

/-- The steps of a repetition; every one but the last takes some of the text. -/
inductive Repeats (step : α → Reader (α ⊕ β)) : α → List Char → β → List Char → Prop
  | done {a : α} {b : β} {s t : List Char} (h : Reads (step a) s (.inr b) t) : Repeats step a s b t
  | more {a a' : α} {b : β} {s t u : List Char} (h : Reads (step a) s (.inl a') t)
      (hlt : t.length < s.length) (hs : Repeats step a' t b u) : Repeats step a s b u

theorem Repeats.from {step : α → Reader (α ⊕ β)} {a : α} {b : β} (h : Repeats step a s b t)
    {n : Nat} (hn : s.length < n) : Reads (iterateFrom step n a) s b t := by
  induction h generalizing n with
  | done h =>
    obtain ⟨n, rfl⟩ := Nat.exists_eq_succ_of_ne_zero (by omega : n ≠ 0)
    exact h.bind (.pure _ _)
  | more h hlt _ ih =>
    obtain ⟨n, rfl⟩ := Nat.exists_eq_succ_of_ne_zero (by omega : n ≠ 0)
    exact h.bind (ih (by omega))

theorem Repeats.iterate {step : α → Reader (α ⊕ β)} {a : α} {b : β} (h : Repeats step a s b t) :
    Reads (Reader.iterate step a) s b t := reads_get fun _ => h.from (Nat.lt_succ_self _)

/-! ### Strings -/

theorem hexNumber?_hexDigits : ∀ n < 32,
    hexNumber? ['0', '0', Digest.hexDigit (n / 16), Digest.hexDigit (n % 16)] = some n := by
  decide

theorem reads_fourHex {a b c d : Char} {n : Nat} (h : hexNumber? [a, b, c, d] = some n)
    (t : List Char) : Reads fourHex (a :: b :: c :: d :: t) n t := by
  refine reads_get fun m => ?_
  have hsize : ¬ Text.Utf8.size (a :: b :: c :: d :: t) < 4 := by
    have ha := a.utf8Size_pos
    have hb := b.utf8Size_pos
    have hc := c.utf8Size_pos
    have hd := d.utf8Size_pos
    simp only [Text.Utf8.size]
    omega
  simp only [hsize, if_false, List.take_succ_cons, List.take_zero, h]
  exact (reads_advance 4 _).bind (.pure _ _)

theorem reads_codePoint {a b c d : Char} {n : Nat} (h : hexNumber? [a, b, c, d] = some n)
    (hn : n < 0xD800) (t : List Char) :
    Reads codePoint (a :: b :: c :: d :: t) (Char.ofNat n) t := by
  refine (reads_fourHex h t).bind ?_
  have hlow : isLowSurrogate n = false := by
    simp only [isLowSurrogate, Bool.and_eq_false_iff, decide_eq_false_iff_not]
    omega
  have hhigh : isHighSurrogate n = false := by
    simp only [isHighSurrogate, Bool.and_eq_false_iff, decide_eq_false_iff_not]
    omega
  simp only [hlow, hhigh, Bool.false_eq_true, if_false]
  exact .pure _ _

/-- One piece of a string: a character, an escape, or the end. -/
def stringStep (read : List Char) : Reader (List Char ⊕ List Char) := do
  match ← peek with
  | none => fail .stringEnds
  | some '"' => advance 1; return .inr read.reverse
  | some '\\' => advance 1; return .inl ((← escape) :: read)
  | some c =>
    if c.toNat < 32 then failAhead .controlCharacter
    advance 1
    return .inl (c :: read)

theorem reads_stringEnd (read t : List Char) :
    Reads (stringStep read) ('"' :: t) (.inr read.reverse) t :=
  (reads_peek _).bind (reads_past (.pure _ _))

theorem reads_escaped {c : Char} {t u : List Char} (h : Reads escape t c u) (read : List Char) :
    Reads (stringStep read) ('\\' :: t) (.inl (c :: read)) u :=
  (reads_peek _).bind (reads_past (h.bind (.pure _ _)))

theorem reads_plainChar {c : Char} (hq : c ≠ '"') (hb : c ≠ '\\') (hc : ¬ c.toNat < 32)
    (read t : List Char) : Reads (stringStep read) (c :: t) (.inl (c :: read)) t := by
  refine (reads_peek _).bind ?_
  simp only [List.head?_cons]
  split
  · contradiction
  · exact reads_past (.pure _ _)

/-- A character as it is written is one piece of a string. -/
theorem reads_escapedChar (c : Char) (read t : List Char) :
    Reads (stringStep read) (escapedChar c ++ t) (.inl (c :: read)) t := by
  have short {x d : Char} (h : Reads escape (x :: t) d t) :
      Reads (stringStep read) (['\\', x] ++ t) (.inl (d :: read)) t := reads_escaped h read
  have lookup : ∀ x d, Reads (do advance 1; return d : Reader Char) (x :: t) d t :=
    fun x d => reads_past (.pure _ _)
  unfold escapedChar
  split
  · exact short ((reads_peek _).bind (lookup _ _))
  · exact short ((reads_peek _).bind (lookup _ _))
  · exact short ((reads_peek _).bind (lookup _ _))
  · exact short ((reads_peek _).bind (lookup _ _))
  · exact short ((reads_peek _).bind (lookup _ _))
  · exact short ((reads_peek _).bind (lookup _ _))
  · exact short ((reads_peek _).bind (lookup _ _))
  · rename_i hq hb _ _ _ _ _
    split
    · rename_i hlow
      have hcode := reads_codePoint (hexNumber?_hexDigits _ hlow) (by omega) t
      rw [Char.ofNat_toNat] at hcode
      exact reads_escaped ((reads_peek _).bind (reads_past hcode)) read
    · rename_i hlow
      exact reads_plainChar hq hb hlow read t

theorem escapedChar_ne_nil (c : Char) : escapedChar c ≠ [] := by
  unfold escapedChar
  split
  all_goals try exact List.cons_ne_nil _ _
  split <;> exact List.cons_ne_nil _ _

theorem repeats_string (s read t : List Char) :
    Repeats stringStep read (s.flatMap escapedChar ++ '"' :: t) (read.reverse ++ s) t := by
  induction s generalizing read with
  | nil => simpa using Repeats.done (reads_stringEnd read t)
  | cons c s ih =>
    have hpos := List.length_pos_of_ne_nil (escapedChar_ne_nil c)
    rw [List.flatMap_cons, List.append_assoc]
    refine .more (reads_escapedChar c read _) ?_ ?_
    · simp only [List.length_append]
      omega
    · simpa using ih (c :: read)

theorem reads_stringTail (s t : List Char) :
    Reads stringTail (s.flatMap escapedChar ++ '"' :: t) s t :=
  (repeats_string s [] t).iterate

theorem stringText_append (s t : List Char) :
    stringText s ++ t = '"' :: (s.flatMap escapedChar ++ '"' :: t) := by
  simp [stringText]

theorem reads_stringWith {expected : String} {decode : List Char → Except Issue α} {a : α}
    {b : List Char} (hb : Blank b) (h : decode s = .ok a) (t : List Char) :
    Reads (stringWith expected decode) (b ++ (stringText s ++ t)) a t := by
  rw [stringText_append]
  refine reads_token hb rfl (reads_past ((reads_stringTail s t).bind ?_))
  simp only [h]
  exact .pure _ _

theorem reads_string {b : List Char} (hb : Blank b) (s t : List Char) :
    Reads string (b ++ (stringText s ++ t)) s t := reads_stringWith hb rfl t

/-- A name of a list is read as what it stands for. -/
theorem reads_variantName {variants : List (String × α)} {name : String} {a : α} {b : List Char}
    (hb : Blank b) (h : variants.lookup name = some a) (t : List Char) :
    Reads (variantName variants) (b ++ (stringText name.toList ++ t)) a t := by
  refine reads_stringWith hb ?_ t
  simp only [String.ofList_toList, h]

theorem reads_variant {variants : List (String × α)} {name : String} {a : α} {b : List Char}
    (hb : Blank b) (h : variants.lookup name = some a) (t : List Char) :
    Reads (variant variants) (b ++ (stringText name.toList ++ t)) a t := by
  have hname := reads_variantName (b := []) (by simp [Blank]) h t
  rw [List.nil_append, stringText_append] at hname
  rw [stringText_append]
  exact reads_token hb rfl hname

/-! ### Separators -/

/-- What stands before an element or a field: blanks, and a comma if it is not the first. -/
def separator (first : Bool) (b : List Char) : List Char := if first then b else ',' :: b

theorem reads_listGoesOn {first : Bool} {b : List Char} {c : Char} (hb : Blank b)
    (hc : Cursor.isBlank c = false) (hend : c ≠ ']') (s : List Char) :
    Reads (listGoesOn first) (separator first b ++ c :: s) true (c :: s) := by
  cases first with
  | true =>
    refine reads_token hb hc ?_
    split
    · contradiction
    · rename_i heq
      exact absurd (Option.some.inj heq) hend
    · exact .pure _ _
  | false =>
    refine reads_token' rfl (reads_past (reads_token hb hc ?_))
    split
    · contradiction
    · rename_i heq
      exact absurd (Option.some.inj heq) hend
    · exact .pure _ _

theorem reads_listStops {first : Bool} {b : List Char} (hb : Blank b) (s : List Char) :
    Reads (listGoesOn first) (b ++ ']' :: s) false (']' :: s) :=
  reads_token hb rfl (.pure _ _)

theorem reads_listEnd (s : List Char) : Reads listEnd (']' :: s) () s :=
  reads_token' rfl (reads_advance 1 _)

theorem reads_objectGoesOn {first : Bool} {b : List Char} (hb : Blank b) (s : List Char) :
    Reads (objectGoesOn first) (separator first b ++ '"' :: s) true ('"' :: s) := by
  cases first with
  | true => exact reads_token hb rfl (.pure _ _)
  | false => exact reads_token' rfl (reads_past (reads_token hb rfl (.pure _ _)))

theorem reads_objectStops {first : Bool} {b : List Char} (hb : Blank b) (s : List Char) :
    Reads (objectGoesOn first) (b ++ '}' :: s) false ('}' :: s) :=
  reads_token hb rfl (.pure _ _)

theorem reads_objectEnd (s : List Char) : Reads objectEnd ('}' :: s) () s :=
  reads_token' rfl (reads_advance 1 _)

theorem reads_colon (s : List Char) : Reads colon (':' :: s) () s :=
  reads_token' rfl (reads_advance 1 _)

/-! ### Lists -/

/-- Elements with their separators. -/
def series (b : List Char) : Bool → List (List Char) → List Char
  | _, [] => []
  | first, p :: ps => separator first b ++ p ++ series b false ps

theorem series_eq (b p : List Char) (ps : List (List Char)) :
    b ++ List.intercalate (',' :: b) (p :: ps) = series b true (p :: ps) := by
  have h : ∀ p ps, List.intercalate (',' :: b) (p :: ps) = p ++ series b false ps := by
    intro p ps
    induction ps generalizing p with
    | nil => simp [List.intercalate, series]
    | cons q ps ih => simp [List.intercalate_cons_cons, ih, series, separator]
  rw [h, series, separator, if_pos rfl, List.append_assoc]

/-- A text that is neither blank at its front nor the end of a list. -/
def Opens (s : List Char) : Prop := ∃ c r, s = c :: r ∧ Cursor.isBlank c = false ∧ c ≠ ']'

theorem repeats_elements {element : Reader α} {text : α → List Char} {b z : List Char}
    (hb : Blank b) (hz : Blank z) (as : List α) (hopens : ∀ a ∈ as, Opens (text a))
    (h : ∀ a ∈ as, ∀ t, Reads element (text a ++ t) a t) (read : List α) (t : List Char) :
    Repeats (fun read => do
      if ← listGoesOn read.isEmpty then return .inl ((← element) :: read)
      else return .inr read.reverse) read
      (series b read.isEmpty (as.map text) ++ (z ++ ']' :: t)) (read.reverse ++ as) (']' :: t) := by
  induction as generalizing read with
  | nil =>
    rw [List.append_nil]
    exact .done ((reads_listStops hz t).bind (.pure _ _))
  | cons a as ih =>
    obtain ⟨c, r, htext, hc, hend⟩ := hopens a (by simp)
    have hrest := ih (fun a ha => hopens a (by simp [ha])) (fun a ha => h a (by simp [ha]))
      (a :: read)
    rw [List.reverse_cons, List.append_assoc, List.singleton_append] at hrest
    have hread := h a (by simp) (series b false (as.map text) ++ (z ++ ']' :: t))
    rw [List.map_cons, series, List.append_assoc, List.append_assoc]
    refine .more ?_ ?_ hrest
    · rw [htext, List.cons_append] at hread ⊢
      exact (reads_listGoesOn hb hc hend _).bind (hread.bind (.pure _ _))
    · rw [htext]
      simp only [List.isEmpty_cons, List.length_append, List.length_cons]
      omega

theorem reads_list (element : Reader α) (text : α → List Char) {a b z : List Char}
    (ha : Blank a) (hb : Blank b) (hz : Blank z) (as : List α)
    (hopens : ∀ a ∈ as, Opens (text a)) (h : ∀ a ∈ as, ∀ t, Reads element (text a ++ t) a t)
    (t : List Char) :
    Reads (list element) (a ++ '[' :: (series b true (as.map text) ++ (z ++ ']' :: t))) as t :=
  reads_token ha rfl (reads_past
    ((repeats_elements hb hz as hopens h [] t).iterate.bind
      ((reads_listEnd t).bind (.pure _ _))))

/-! ### Structures -/

/-- The next field of an object, or its end. -/
def fieldStep (fields : List (Field σ)) : Bool × σ → Reader ((Bool × σ) ⊕ σ) :=
  fun (first, st) => do
    if ← objectGoesOn first then
      advance 1
      let name ← stringTail
      match fields.find? (·.name.toList = name) with
      | some f =>
        if f.isSet st then failInObject (.duplicateField f.name)
        colon
        return .inl (false, ← f.read st)
      | none => colon; skipValue; return .inl (false, st)
    else return .inr st

/-- A field with its value is read into the state. -/
theorem repeats_field {fields : List (Field σ)} {f : Field σ} (first : Bool) (st : σ) {st' st'' : σ}
    {b : List Char} (hb : Blank b) (hf : fields.find? (·.name.toList = f.name.toList) = some f)
    (hset : f.isSet st = false) (h : Reads (f.read st) s st' t) (hle : t.length ≤ s.length)
    (hs : Repeats (fieldStep fields) (false, st') t st'' u) :
    Repeats (fieldStep fields) (first, st)
      (separator first b ++ (stringText f.name.toList ++ ':' :: s)) st'' u := by
  refine .more ?_ ?_ hs
  · rw [fieldStep, stringText_append]
    refine (reads_objectGoesOn hb _).bind ?_
    rw [if_pos rfl]
    refine reads_past ((reads_stringTail _ _).bind ?_)
    simp only [hf, hset, Bool.false_eq_true, if_false]
    exact (reads_colon s).bind (h.bind (.pure _ _))
  · simp only [List.length_append, List.length_cons]
    omega

theorem repeats_fieldsEnd (fields : List (Field σ)) (first : Bool) (st : σ) {z : List Char}
    (hz : Blank z) (t : List Char) :
    Repeats (fieldStep fields) (first, st) (z ++ '}' :: t) st ('}' :: t) :=
  .done ((reads_objectStops hz t).bind (.pure _ _))

theorem reads_structured (form : Structure σ α) {st : σ} (a : α) {b : List Char} (hb : Blank b)
    (h : Repeats (fieldStep form.fields) (true, form.start) s st ('}' :: t))
    (hfinish : form.finish st = .ok a) : Reads (structured form) (b ++ '{' :: s) a t := by
  refine reads_token hb rfl (reads_past (h.iterate.bind ?_))
  simp only [hfinish]
  exact (reads_objectEnd t).bind (.pure _ _)

/-! ### Whole texts -/

/-- What follows a value may be blank. -/
theorem run_of_reads {r : Reader α} {a : α} (h : Reads r s a t) (ht : Blank t) :
    run r s = .ok a := by
  have hend := reads_peekToken (s := []) ht (by simp [Solid])
  rw [List.append_nil] at hend
  have hwhole {f : α → Option Char → Reader α} (hf : f a none = Pure.pure a) :
      Reads (r >>= fun a => peekToken >>= f a) s a [] := h.bind (hend.bind (hf ▸ .pure a []))
  refine congrArg (fun e => do return (← e).1) (hwhole ?_ .start).choose_spec
  rfl

end Reader

end Notebook.Json
