/-!
Numbers as a reader finds them, and how one is named. A number that is no whole number of 64 bits
is a binary fraction; it is named by the shortest decimal that reads back as it.
-/

namespace Notebook.Json

inductive Number where
  | integer (n : Int)
  | fraction (f : Float)

namespace Fraction

/-- A positive binary fraction as `significand * 2 ^ exponent`, and whether the one below it is
half as far away as the one above. -/
structure Binary where
  significand : Nat
  exponent : Int
  narrow : Bool

def decode (f : Float) : Binary :=
  let bits : Nat := f.toBits.toNat
  let mantissa : Nat := bits % 4_503_599_627_370_496
  let exponent : Nat := bits / 4_503_599_627_370_496 % 2048
  if exponent = 0 then ⟨mantissa, -1074, false⟩
  else ⟨mantissa + 4_503_599_627_370_496, (exponent : Int) - 1075, mantissa = 0 && exponent > 1⟩

/-- The multiple of `10 ^ k` that reads back as `b` and is nearest to it, if there is one. -/
def onGrid? (b : Binary) (k : Int) : Option Nat :=
  let up := Nat.pow 2 (b.exponent - 2).toNat * Nat.pow 10 (-k).toNat
  let unit := Nat.pow 2 (2 - b.exponent).toNat * Nat.pow 10 k.toNat
  let value := 4 * b.significand * up
  let low := (4 * b.significand - (if b.narrow then 1 else 2)) * up
  let high := (4 * b.significand + 2) * up
  let even := b.significand % 2 = 0
  let fits (d : Nat) : Bool :=
    if even then low ≤ d * unit && d * unit ≤ high else low < d * unit && d * unit < high
  let below := value / unit
  let above := below + 1
  match fits below && below > 0, fits above with
  | true, true =>
    let down := value - below * unit
    let rest := above * unit - value
    some (if down < rest || (down = rest && below % 2 = 0) then below else above)
  | true, false => some below
  | false, true => some above
  | false, false => none

/-- The first grid that has a hit, from `10 ^ k` on down. -/
def search (b : Binary) : Nat → Int → Nat × Int
  | 0, k => (0, k)
  | n + 1, k =>
    match onGrid? b k with
    | some d => (d, k)
    | none => search b n (k - 1)

/-- The digits of the shortest decimal and the exponent of its last digit. -/
def shortest (b : Binary) : Nat × Int := search b 640 309

/-- Exponents from -5 to 15 are written out; a whole number ends with `.0`. -/
def positionalText (digits : List Char) (last : Int) : List Char :=
  let lead := digits.length + last - 1
  if last ≥ 0 then digits ++ List.replicate last.toNat '0' ++ ['.', '0']
  else if lead ≥ 0 then
    digits.take (lead.toNat + 1) ++ '.' :: digits.drop (lead.toNat + 1)
  else '0' :: '.' :: List.replicate (-lead - 1).toNat '0' ++ digits

def exponentText (digits : List Char) (lead : Int) : List Char :=
  digits.take 1 ++ (if digits.length > 1 then '.' :: digits.drop 1 else []) ++
    ['e', if lead < 0 then '-' else '+'] ++ Nat.toDigits 10 lead.natAbs

def text (f : Float) : List Char :=
  let sign := if f.toBits.toNat ≥ 9_223_372_036_854_775_808 then ['-'] else []
  if f == 0 then sign ++ ['0', '.', '0']
  else
    let (d, last) := shortest (decode f)
    let digits := Nat.toDigits 10 d
    let lead := digits.length + last - 1
    sign ++ (if -5 ≤ lead && lead ≤ 15 then positionalText digits last
      else exponentText digits lead)

/-- A decimal of a rounded significand and a power of ten, in the steps of the reader: one
division or multiplication by an exact power as far as there is one, and by `1e308` before. -/
def scale : Nat → Float → Int → Option Float
  | 0, f, _ => some f
  | n + 1, f, e =>
    if e.natAbs ≤ 308 then
      let power := Float.ofScientific 1 false e.natAbs
      if e ≥ 0 then
        let f := f * power
        if f.isInf then none else some f
      else some (f / power)
    else if f == 0 then some f
    else if e ≥ 0 then none
    else scale n (f / 1e308) (e + 308)

end Fraction

/-- A whole number in digits. -/
def integerText (n : Int) : List Char :=
  (if n < 0 then ['-'] else []) ++ Nat.toDigits 10 n.natAbs

/-- A number as messages name it. -/
def Number.naming : Number → List Char
  | .integer n => "integer `".toList ++ integerText n ++ ['`']
  | .fraction f => "floating point `".toList ++ Fraction.text f ++ ['`']

end Notebook.Json
