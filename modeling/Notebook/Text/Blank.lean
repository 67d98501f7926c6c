namespace Notebook.Text

/-- The characters with the property White_Space. -/
def isBlank (c : Char) : Bool :=
  (9 ≤ c.toNat && c.toNat ≤ 13) || c == ' ' || c.toNat == 0x85 || c.toNat == 0xA0 ||
  c.toNat == 0x1680 || (0x2000 ≤ c.toNat && c.toNat ≤ 0x200A) || c.toNat == 0x2028 ||
  c.toNat == 0x2029 || c.toNat == 0x202F || c.toNat == 0x205F || c.toNat == 0x3000

def dropEndWhile (p : Char → Bool) (s : List Char) : List Char :=
  (s.reverse.dropWhile p).reverse

def trimWhile (p : Char → Bool) (s : List Char) : List Char :=
  dropEndWhile p (s.dropWhile p)

def trimEnd (s : List Char) : List Char := dropEndWhile isBlank s

def trim (s : List Char) : List Char := trimWhile isBlank s

def allBlank (s : List Char) : Bool := s.all isBlank

/-- Removes `p` from the front of `s`, if it is there. -/
def dropPrefix? {α : Type} [DecidableEq α] : List α → List α → Option (List α)
  | [], s => some s
  | _ :: _, [] => none
  | p :: ps, c :: s => if p = c then dropPrefix? ps s else none

theorem dropPrefix?_eq_some {α : Type} [DecidableEq α] {p s r : List α} :
    dropPrefix? p s = some r ↔ s = p ++ r := by
  induction p generalizing s with
  | nil => simp [dropPrefix?, eq_comm]
  | cons a p ih =>
    cases s with
    | nil => simp [dropPrefix?]
    | cons c s => by_cases h : a = c <;> simp [dropPrefix?, h, ih, eq_comm]

def hasPrefix {α : Type} [DecidableEq α] (p s : List α) : Bool := (dropPrefix? p s).isSome

/-- Removes `p` from the end of `s`, if it is there. -/
def dropSuffix? {α : Type} [DecidableEq α] (p s : List α) : Option (List α) :=
  (dropPrefix? p.reverse s.reverse).map List.reverse

theorem dropSuffix?_eq_some {α : Type} [DecidableEq α] {p s r : List α} :
    dropSuffix? p s = some r ↔ s = r ++ p := by
  simp only [dropSuffix?, Option.map_eq_some_iff, dropPrefix?_eq_some]
  constructor
  · rintro ⟨a, h, rfl⟩
    have := congrArg List.reverse h
    simpa using this
  · rintro rfl
    exact ⟨r.reverse, by simp, by simp⟩

/-- The text before and after the first occurrence of `p`. -/
def splitFirst? {α : Type} [DecidableEq α] (p : List α) : List α → Option (List α × List α)
  | [] => if p = [] then some ([], []) else none
  | c :: s =>
    match dropPrefix? p (c :: s) with
    | some r => some ([], r)
    | none => (splitFirst? p s).map fun (a, b) => (c :: a, b)

theorem eq_append_of_splitFirst? {α : Type} [DecidableEq α] {p s a b : List α}
    (h : splitFirst? p s = some (a, b)) : s = a ++ p ++ b := by
  induction s generalizing a b with
  | nil =>
    by_cases hp : p = []
    · simp [splitFirst?, hp] at h; simp [h, hp]
    · simp [splitFirst?, hp] at h
  | cons c s ih =>
    unfold splitFirst? at h
    split at h
    · rename_i r hr
      simp only [Option.some.injEq, Prod.mk.injEq] at h
      obtain ⟨rfl, rfl⟩ := h
      simpa using dropPrefix?_eq_some.1 hr
    · obtain ⟨⟨x, y⟩, hx, hy⟩ := Option.map_eq_some_iff.1 h
      simp only [Prod.mk.injEq] at hy
      obtain ⟨rfl, rfl⟩ := hy
      rw [ih hx]; simp

/-- The text before and after the last occurrence of `p`. -/
def splitLast? {α : Type} [DecidableEq α] (p : List α) (s : List α) :
    Option (List α × List α) :=
  (splitFirst? p.reverse s.reverse).map fun (b, a) => (a.reverse, b.reverse)

theorem eq_append_of_splitLast? {α : Type} [DecidableEq α] {p s a b : List α}
    (h : splitLast? p s = some (a, b)) : s = a ++ p ++ b := by
  obtain ⟨⟨x, y⟩, hx, hy⟩ := Option.map_eq_some_iff.1 h
  simp only [Prod.mk.injEq] at hy
  obtain ⟨rfl, rfl⟩ := hy
  have := congrArg List.reverse (eq_append_of_splitFirst? hx)
  simpa using this

/-- The lines of a text without their line feeds; a text that ends with one has an empty
last line. -/
def splitLines : List Char → List (List Char)
  | [] => [[]]
  | c :: s =>
    match splitLines s with
    | [] => [[c]]
    | l :: ls => if c = '\n' then [] :: l :: ls else (c :: l) :: ls

def joinLines : List (List Char) → List Char
  | [] => []
  | [l] => l
  | l :: ls => l ++ '\n' :: joinLines ls

/-- What the last line ends with stands last. -/
theorem joinLines_concat_append (ls : List (List Char)) (a b : List Char) :
    joinLines (ls ++ [a ++ b]) = joinLines (ls ++ [a]) ++ b := by
  induction ls with
  | nil => rfl
  | cons l ls ih =>
    have hcons (x : List Char) : joinLines (l :: ls ++ [x]) = l ++ '\n' :: joinLines (ls ++ [x]) := by
      cases ls <;> rfl
    rw [hcons, hcons, ih]
    simp

theorem splitLines_ne_nil (s : List Char) : splitLines s ≠ [] := by
  cases s with
  | nil => simp [splitLines]
  | cons c s =>
    unfold splitLines
    split
    · simp
    · split <;> simp

theorem joinLines_splitLines (s : List Char) : joinLines (splitLines s) = s := by
  induction s with
  | nil => rfl
  | cons c s ih =>
    unfold splitLines
    split
    · rename_i h; exact absurd h (splitLines_ne_nil s)
    · rename_i l ls h
      rw [h] at ih
      by_cases hc : c = '\n'
      · simp [hc, joinLines, ih]
      · cases ls with
        | nil => simp [hc, joinLines] at ih ⊢; exact ih
        | cons m ms => simp [hc, joinLines] at ih ⊢; exact ih

end Notebook.Text
