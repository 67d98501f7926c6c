import Notebook.Json.Value

/-!
Reading a value of a form that is known: scalars, names out of a list, and structures, which are
written as objects or, in the order of their fields, as lists.
-/

namespace Notebook.Json

/-- A field of a structure that is read into `σ`. -/
structure Field (σ : Type) where
  name : String
  isSet : σ → Bool
  read : σ → Reader σ

/-- How a structure is read: what has been read so far, and what it makes in the end, or the field
that is missing. -/
structure Structure (σ α : Type) where
  expected : String
  start : σ
  fields : List (Field σ)
  finish : σ → Except String α

def Structure.expectedLength {σ α : Type} (s : Structure σ α) : String :=
  let unit := if s.fields.length = 1 then "element" else "elements"
  s!"{s.expected} with {s.fields.length} {unit}"

namespace Reader

/-- Stops at a value of another form than the expected one. -/
def mismatch {α : Type} (expected : String) : Reader α := do
  match ← peekToken with
  | none => failAhead .valueEnds
  | some 'n' => advance 1; ident "ull".toList; fail (.invalidType "null".toList expected)
  | some 't' => advance 1; ident "rue".toList; fail (.invalidType (foundBool true) expected)
  | some 'f' => advance 1; ident "alse".toList; fail (.invalidType (foundBool false) expected)
  | some '-' =>
    advance 1
    let n ← number false
    fail (.invalidType n.naming expected)
  | some '"' =>
    advance 1
    let s ← stringTail
    fail (.invalidType (foundString s) expected)
  | some '[' => fail (.invalidType "sequence".toList expected)
  | some '{' => fail (.invalidType "map".toList expected)
  | some c =>
    if c.isDigit then
      let n ← number true
      fail (.invalidType n.naming expected)
    else failAhead .expectedValue

/-- A string, read by `decode`. -/
def stringWith {α : Type} (expected : String) (decode : List Char → Except Issue α) : Reader α := do
  match ← peekToken with
  | some '"' =>
    advance 1
    match decode (← stringTail) with
    | .ok a => return a
    | .error i => fail i
  | _ => mismatch expected

def string : Reader (List Char) := stringWith "a string" .ok

/-- A whole number from `low` to `high`. -/
def integer (expected : String) (low high : Int) : Reader Int := do
  let check (n : Number) : Reader Int :=
    match n with
    | .integer i =>
      if low ≤ i && i ≤ high then return i else fail (.invalidValue n.naming expected)
    | .fraction _ => fail (.invalidType n.naming expected)
  match ← peekToken with
  | some '-' => advance 1; check (← number false)
  | some c => if c.isDigit then check (← number true) else mismatch expected
  | none => mismatch expected

def natural (expected : String) : Reader Nat := do
  return (← integer expected 0 18_446_744_073_709_551_615).toNat

/-- A value, or nothing if it is null. -/
def optional {α : Type} (r : Reader α) : Reader (Option α) := do
  if (← peekToken) = some 'n' then
    advance 1; ident "ull".toList
    return none
  else return some (← r)

/-- One of the names of a list. -/
def variantName {α : Type} (variants : List (String × α)) : Reader α :=
  stringWith "variant identifier" fun s =>
    match variants.lookup (String.ofList s) with
    | some a => .ok a
    | none => .error (.unknownVariant s (variants.map (·.1)))

/-- One of the names of a list, which may also be the only field of an object and null there. -/
def variant {α : Type} (variants : List (String × α)) : Reader α := do
  match ← peekToken with
  | none => failAhead .valueEnds
  | some '"' => variantName variants
  | some '{' =>
    advance 1
    let a ← variantName variants
    colon
    if (← peekToken) = some 'n' then
      advance 1; ident "ull".toList
    else mismatch "unit"
    match ← peekToken with
    | none => fail .objectEnds
    | some '}' => advance 1
    | some _ => fail .expectedValue
    return a
  | some _ => failAhead .expectedValue

def list {α : Type} (element : Reader α) : Reader (List α) := do
  if (← peekToken) = some '[' then
    advance 1
    let as ← elements element
    listEnd
    return as
  else mismatch "a sequence"

/-- The fields in their order, as the elements of a list. -/
def fieldsInOrder {σ : Type} (expectedLength : String) : Nat → List (Field σ) → σ → Reader σ
  | _, [], st => return st
  | n, f :: fs, st => do
    if ← listGoesOn (n = 0) then
      fieldsInOrder expectedLength (n + 1) fs (← f.read st)
    else failInList (.invalidLength n expectedLength)

/-- The fields of an object in any order; those of other names are gone past. -/
def fieldsByName {σ : Type} (fields : List (Field σ)) (st : σ) : Reader σ :=
  iterate (fun (first, st) => do
    if ← objectGoesOn first then
      advance 1
      let name ← stringTail
      match fields.find? (·.name.toList = name) with
      | some f =>
        if f.isSet st then failInObject (.duplicateField f.name)
        colon
        return .inl (false, ← f.read st)
      | none => colon; skipValue; return .inl (false, st)
    else return .inr st) (true, st)

def structured {σ α : Type} (s : Structure σ α) : Reader α := do
  match ← peekToken with
  | some '[' =>
    advance 1
    match s.finish (← fieldsInOrder s.expectedLength 0 s.fields s.start) with
    | .ok a => listEnd; return a
    | .error name => failInList (.missingField name)
  | some '{' =>
    advance 1
    match s.finish (← fieldsByName s.fields s.start) with
    | .ok a => objectEnd; return a
    | .error name => failInObject (.missingField name)
  | _ => mismatch s.expected

end Reader

end Notebook.Json
