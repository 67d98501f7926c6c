/-!
Names that are like a misspelt one.
-/

namespace Notebook.Command

/-- The characters that two texts share, each near its place in the other. For each character of
the first text the place of its partner is given, if there is one. -/
def partners (range : Nat) (b : List Char) : Nat → List Nat → List Char → List (Option Nat)
  | _, _, [] => []
  | i, taken, c :: a =>
    let partner := b.zipIdx.find? fun (d, j) =>
      i ≤ j + range && j ≤ i + range && c = d && !taken.contains j
    match partner with
    | some (_, j) => some j :: partners range b (i + 1) (j :: taken) a
    | none => none :: partners range b (i + 1) taken a

/-- A fraction. -/
structure Likeness where
  numerator : Nat
  denominator : Nat
  deriving DecidableEq, Repr

namespace Likeness

def lt (a b : Likeness) : Bool := a.numerator * b.denominator < b.numerator * a.denominator

end Likeness

/-- How like two texts are: the mean of the shares of shared characters in both, and of the share
of those that stand in the same order. -/
def likeness (a b : List Char) : Likeness :=
  if a.isEmpty && b.isEmpty then ⟨1, 1⟩
  else
    let range := max a.length b.length / 2 - 1
    let places := partners range b 0 [] a
    let found := places.filterMap id
    let m := found.length
    if m = 0 then ⟨0, 1⟩
    else
      let fromA := (a.zip places).filterMap fun (c, p) => p.map fun _ => c
      let fromB := (b.zipIdx.filter fun (_, j) => found.contains j).map (·.1)
      let swapped := ((fromA.zip fromB).filter fun (c, d) => c ≠ d).length / 2
      let (x, y) := (a.length, b.length)
      ⟨m * m * y + m * m * x + (m - swapped) * x * y, 3 * x * y * m⟩

/-- The names that are like a text, the one most like it last. -/
def similar (s : List Char) (names : List String) : List String :=
  let scored := names.map fun n => (likeness s n.toList, n)
  let near := scored.filter fun (l, _) => Likeness.lt ⟨7, 10⟩ l
  (near.foldl (fun sorted e =>
    let (before, after) := sorted.span fun f => !Likeness.lt e.1 f.1
    before ++ e :: after) []).map (·.2)

end Notebook.Command
