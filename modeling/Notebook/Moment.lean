import Notebook.Text.Blank
import Notebook.Text.Utf8

/-!
Moments of time in coordinated universal time, and their written form. A minute may have a 61st
second, which is written as the second 60 and kept as a fraction of the one before.
-/

namespace Notebook

/-- A day counted from the first of January 1970, a second of it, and nanoseconds, of which there
are twice as many in a second that a leap second follows. -/
structure Moment where
  day : Int
  second : Nat
  nano : Nat
  deriving DecidableEq, Repr

namespace Moment

def epoch : Moment := ⟨0, 0, 0⟩

inductive Refusal where
  | tooShort
  | tooLong
  | invalid
  | outOfRange
  deriving DecidableEq, Repr

def Refusal.message : Refusal → String
  | tooShort => "premature end of input"
  | tooLong => "trailing input"
  | invalid => "input contains invalid characters"
  | outOfRange => "input is out of range"

/-! ### Dates -/

def isLeapYear (y : Int) : Bool := y % 4 = 0 && (y % 100 ≠ 0 || y % 400 = 0)

def daysInMonth (y : Int) (m : Nat) : Nat :=
  if m = 2 then (if isLeapYear y then 29 else 28)
  else if m = 4 || m = 6 || m = 9 || m = 11 then 30 else 31

/-- The day of a date. Years are taken from March on, so that a leap day ends one. -/
def dayOfDate (y : Int) (m d : Nat) : Int :=
  let y := if m ≤ 2 then y - 1 else y
  let era := y.fdiv 400
  let yearOfEra := y - era * 400
  let monthFromMarch : Int := if m > 2 then (m : Int) - 3 else (m : Int) + 9
  let dayOfYear := (153 * monthFromMarch + 2) / 5 + d - 1
  let dayOfEra := yearOfEra * 365 + yearOfEra / 4 - yearOfEra / 100 + dayOfYear
  era * 146097 + dayOfEra - 719468

/-- The date of a day. -/
def dateOfDay (day : Int) : Int × Nat × Nat :=
  let z := day + 719468
  let era := z.fdiv 146097
  let dayOfEra := z - era * 146097
  let yearOfEra :=
    (dayOfEra - dayOfEra / 1460 + dayOfEra / 36524 - dayOfEra / 146096) / 365
  let dayOfYear := dayOfEra - (365 * yearOfEra + yearOfEra / 4 - yearOfEra / 100)
  let monthFromMarch := (5 * dayOfYear + 2) / 153
  let d := dayOfYear - (153 * monthFromMarch + 2) / 5 + 1
  let m := if monthFromMarch < 10 then monthFromMarch + 3 else monthFromMarch - 9
  let y := yearOfEra + era * 400 + (if m ≤ 2 then 1 else 0)
  (y, m.toNat, d.toNat)

/-- The years that a date may have. -/
def firstYear : Int := -262143

def lastYear : Int := 262142

/-! ### Reading -/

abbrev Scan (α : Type) := List Char → Except Refusal (α × List Char)

/-- A number of at least one digit and at most `max`. -/
def number (max : Nat) : Scan Nat := fun s =>
  match s with
  | [] => .error .tooShort
  | c :: _ =>
    if !c.isDigit then .error .invalid
    else
      let ds := (s.take max).takeWhile Char.isDigit
      let n := ds.foldl (fun n c => 10 * n + (c.toNat - '0'.toNat)) 0
      if n < 9_223_372_036_854_775_808 then .ok (n, s.drop ds.length) else .error .outOfRange

/-- A number of at most two digits between two bounds. -/
def part (low high : Nat) : Scan Nat := fun s => do
  let (n, s) ← number 2 (s.dropWhile Text.isBlank)
  if low ≤ n && n ≤ high then .ok (n, s) else .error .outOfRange

/-- A year of at most four digits, or of any number of them after a sign. -/
def year : Scan Int := fun s => do
  let (y, s) ←
    match s.dropWhile Text.isBlank with
    | '-' :: s => do let (n, s) ← number s.length s; pure (-(n : Int), s)
    | '+' :: s => do let (n, s) ← number s.length s; pure ((n : Int), s)
    | s => do let (n, s) ← number 4 s; pure ((n : Int), s)
  if -2_147_483_648 ≤ y && y < 2_147_483_648 then .ok (y, s) else .error .outOfRange

/-- A sign between two parts, after any blanks. -/
def sign (c : Char) : Scan Unit := fun s =>
  match s.dropWhile Text.isBlank with
  | [] => .error .tooShort
  | d :: s => if c = d then .ok ((), s) else .error .invalid

/-- A fraction of a second, of which nine digits count. -/
def nanos : Scan Nat := fun s =>
  match s with
  | '.' :: s => do
    let (n, rest) ← number 9 s
    let scale := Nat.pow 10 (9 - (s.length - rest.length))
    .ok (n * scale, rest.dropWhile Char.isDigit)
  | _ => .ok (0, s)

def twoDigits (s : List Char) : Except Refusal (Nat × Nat × List Char) :=
  if Text.Utf8.size s < 2 then .error .tooShort
  else
    match s with
    | a :: b :: s =>
      if a.isDigit && b.isDigit then .ok (a.toNat - '0'.toNat, b.toNat - '0'.toNat, s)
      else .error .invalid
    | _ => .error .invalid

/-- The seconds that a place is ahead of universal time. -/
def offset : Scan Int := fun s =>
  match s with
  | [] => .error .tooShort
  | c :: rest =>
    if c = 'Z' || c = 'z' then .ok (0, rest)
    else if (s.take 3).map Char.toUpper = ['U', 'T', 'C'] then .ok (0, s.drop 3)
    else if c = '+' || c = '-' || c = '\u2212' then do
      let (h1, h2, s) ← twoDigits rest
      let (m1, m2, s) ← twoDigits (s.dropWhile fun c => c = ':' || Text.isBlank c)
      if m1 > 5 then .error .outOfRange
      let seconds : Int := (h1 * 10 + h2) * 3600 + (m1 * 10 + m2) * 60
      .ok (if c = '+' then seconds else -seconds, s)
    else .error .invalid

/-- A date, a time of day and an offset. -/
def parse (s : List Char) : Except Refusal Moment := do
  let (y, s) ← year s
  let ((), s) ← sign '-' s
  let (m, s) ← part 1 12 s
  let ((), s) ← sign '-' s
  let (d, s) ← part 1 31 s
  let s ←
    match s with
    | [] => .error .tooShort
    | c :: s => if c = 't' || c = 'T' || c = ' ' then .ok s else .error .invalid
  let (hour, s) ← part 0 23 s
  let ((), s) ← sign ':' s
  let (minute, s) ← part 0 59 s
  let ((), s) ← sign ':' s
  let (second, s) ← part 0 60 s
  let (nano, s) ← nanos s
  let (ahead, s) ← offset (s.dropWhile Text.isBlank)
  if !Text.allBlank s then .error .tooLong
  if y < firstYear || lastYear < y || daysInMonth y m < d then .error .outOfRange
  if ahead ≤ -86400 || 86400 ≤ ahead then .error .outOfRange
  let clock : Int := hour * 3600 + minute * 60 + (min second 59 : Nat)
  let total := dayOfDate y m d * 86400 + clock - ahead
  let day := total.fdiv 86400
  if day < dayOfDate firstYear 1 1 || dayOfDate lastYear 12 31 < day then .error .outOfRange
  .ok ⟨day, (total - day * 86400).toNat, if second = 60 then nano + 1_000_000_000 else nano⟩

/-! ### Writing -/

/-- A number with zeros in front up to a width. -/
def padded (width n : Nat) : List Char :=
  let ds := Nat.toDigits 10 n
  List.replicate (width - ds.length) '0' ++ ds

def yearText (y : Int) : List Char :=
  if 0 ≤ y && y ≤ 9999 then padded 4 y.toNat
  else (if y < 0 then '-' else '+') :: padded 4 y.natAbs

/-- Three, six or nine digits, or none, as few as show all. -/
def fractionText (nano : Nat) : List Char :=
  if nano = 0 then []
  else if nano % 1_000_000 = 0 then '.' :: padded 3 (nano / 1_000_000)
  else if nano % 1000 = 0 then '.' :: padded 6 (nano / 1000)
  else '.' :: padded 9 nano

def text (t : Moment) : List Char :=
  let (y, m, d) := dateOfDay t.day
  let leap := t.nano ≥ 1_000_000_000
  let second := t.second % 60 + (if leap then 1 else 0)
  yearText y ++ '-' :: padded 2 m ++ '-' :: padded 2 d ++ 'T' :: padded 2 (t.second / 3600) ++
    ':' :: padded 2 (t.second / 60 % 60) ++ ':' :: padded 2 second ++
    fractionText (if leap then t.nano - 1_000_000_000 else t.nano) ++ ['Z']

/-- The nanoseconds from `s` to `t`. A leap second between them counts if they lie on different
seconds of the day. -/
def since (t s : Moment) : Int :=
  let leap : Int :=
    if t.second > s.second && s.nano ≥ 1_000_000_000 then 1
    else if t.second < s.second && t.nano ≥ 1_000_000_000 then -1
    else 0
  ((t.day - s.day) * 86400 + t.second - s.second + leap) * 1_000_000_000 + t.nano - s.nano

end Moment

end Notebook
