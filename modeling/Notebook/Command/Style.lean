import Notebook.Text.Blank

/-!
How results look on a terminal.
-/

namespace Notebook.Command

namespace Style

def escape (code : String) : List Char := '\x1b' :: '[' :: code.toList ++ ['m']

def reset : List Char := escape "0"
def bold : List Char := escape "1"
def dim : List Char := escape "2"
def red : List Char := escape "31"
def green : List Char := escape "32"
def yellow : List Char := escape "33"
def cyan : List Char := escape "36"

/-- A text in a style of its own. -/
def styled (style text : List Char) : List Char := style ++ text ++ reset

end Style

/-! ### Times -/

/-- The quotient, rounded to the nearest whole number, in the middle to an even one. -/
def roundedQuotient (a b : Nat) : Nat :=
  let q := a / b
  let r := a % b
  if 2 * r < b || (2 * r = b && q % 2 = 0) then q else q + 1

/-- The hundredths of a second in a positive number of milliseconds. The seconds are a binary
fraction of 53 digits first, which decides in the middle between two hundredths. -/
def hundredths (ms : Nat) : Nat :=
  if ms % 10 ≠ 5 then roundedQuotient ms 10
  else
    let scale := Nat.pow 2 (63 - ms.log2)
    let significand := roundedQuotient (ms * scale) 1000
    let unit := Nat.pow 2 (significand.log2 - 52)
    let shortened := roundedQuotient (ms * scale) (1000 * unit) * unit
    roundedQuotient (shortened * 100) scale

/-- Milliseconds as seconds with two decimals. -/
def seconds (ms : Int) : List Char :=
  let h := hundredths ms.natAbs
  let decimals := toString (h % 100)
  (if ms < 0 then ['-'] else []) ++ (toString (h / 100)).toList ++ '.' ::
    (if h % 100 < 10 then '0' :: decimals.toList else decimals.toList)

end Notebook.Command
