import SuiteRunner.Text.Blank
import SuiteRunner.Text.Numeral

/-! # Points in time as text

Dates are those of the Gregorian calendar, extended to all years. Written stamps are in universal
time with as many fraction digits as are needed, in groups of three; stamps that are read may have
any offset, and blanks between their parts. -/
namespace SuiteRunner

open Text (isDigit digitsValue paddedDigits)

/-- Seconds since the start of 1970 and a fraction, which reaches one second and more inside a leap
second. -/
structure Stamp where
  seconds : Int
  nanos : Nat := 0
deriving DecidableEq, Repr, Inhabited

structure Date where
  year : Int
  month : Nat
  day : Nat
deriving DecidableEq, Repr, Inhabited

namespace Date

def isLeapYear (y : Int) : Bool := y % 4 = 0 && (y % 100 ≠ 0 || y % 400 = 0)

def monthLength (y : Int) (month : Nat) : Nat :=
  if month = 2 then if isLeapYear y then 29 else 28
  else if month = 4 ∨ month = 6 ∨ month = 9 ∨ month = 11 then 30
  else 31

def maxYear : Int := 262142

def minYear : Int := -262143

def isValid (d : Date) : Bool :=
  minYear ≤ d.year && d.year ≤ maxYear && 1 ≤ d.month && d.month ≤ 12 && 1 ≤ d.day &&
    d.day ≤ monthLength d.year d.month

/-- Days since the start of 1970. The year is counted from March, so that a leap day comes last. -/
def toDays (d : Date) : Int :=
  let y := if d.month ≤ 2 then d.year - 1 else d.year
  let era := y.fdiv 400
  let yearOfEra := y - era * 400
  let month : Int := if d.month ≤ 2 then d.month + 9 else d.month - 3
  let dayOfYear := (153 * month + 2).fdiv 5 + d.day - 1
  let dayOfEra := yearOfEra * 365 + yearOfEra.fdiv 4 - yearOfEra.fdiv 100 + dayOfYear
  era * 146097 + dayOfEra - 719468

def ofDays (days : Int) : Date :=
  let z := days + 719468
  let era := z.fdiv 146097
  let dayOfEra := z - era * 146097
  let yearOfEra :=
    (dayOfEra - dayOfEra.fdiv 1460 + dayOfEra.fdiv 36524 - dayOfEra.fdiv 146096).fdiv 365
  let dayOfYear := dayOfEra - (365 * yearOfEra + yearOfEra.fdiv 4 - yearOfEra.fdiv 100)
  let month := (5 * dayOfYear + 2).fdiv 153
  let day := dayOfYear - (153 * month + 2).fdiv 5 + 1
  let month' := if month < 10 then month + 3 else month - 9
  let year := yearOfEra + era * 400
  ⟨if month' ≤ 2 then year + 1 else year, month'.toNat, day.toNat⟩

end Date

namespace Stamp

def day (t : Stamp) : Date := .ofDays (t.seconds.fdiv 86400)

/-! ## Writing -/

/-- Four digits, or a sign and at least four outside the years `0` to `9999`. -/
def yearText (y : Int) : List Char :=
  if 0 ≤ y ∧ y ≤ 9999 then paddedDigits 4 y.toNat
  else (if y < 0 then '-' else '+') :: paddedDigits 4 y.natAbs

def fractionText (nanos : Nat) : List Char :=
  if nanos = 0 then []
  else if nanos % 1000000 = 0 then '.' :: paddedDigits 3 (nanos / 1000000)
  else if nanos % 1000 = 0 then '.' :: paddedDigits 6 (nanos / 1000)
  else '.' :: paddedDigits 9 nanos

def write (t : Stamp) : List Char :=
  let date := t.day
  let ofDay := (t.seconds - t.seconds.fdiv 86400 * 86400).toNat
  let (second, nanos) :=
    if 1000000000 ≤ t.nanos then (ofDay % 60 + 1, t.nanos - 1000000000) else (ofDay % 60, t.nanos)
  yearText date.year ++ '-' :: paddedDigits 2 date.month ++ '-' :: paddedDigits 2 date.day ++
    'T' :: paddedDigits 2 (ofDay / 3600) ++ ':' :: paddedDigits 2 (ofDay / 60 % 60) ++
    ':' :: paddedDigits 2 second ++ fractionText nanos ++ ['Z']

def text (t : Stamp) : String := String.ofList t.write

/-! ## Reading -/

abbrev Reader (α : Type) := List Char → Option (α × List Char)

def skipBlank (cs : List Char) : List Char := cs.dropWhile Text.isBlank

/-- One digit at least, and no more than `most` of them. -/
def number (most : Nat) : Reader Nat := fun cs =>
  match (cs.take most).takeWhile isDigit with
  | [] => none
  | ds => some (digitsValue ds, cs.drop ds.length)

def year : Reader Int := fun cs =>
  match skipBlank cs with
  | '-' :: r => (number r.length r).map fun (n, r) => (-(n : Int), r)
  | '+' :: r => (number r.length r).map fun (n, r) => ((n : Int), r)
  | r => (number 4 r).map fun (n, r) => ((n : Int), r)

def twoDigits : Reader Nat := fun cs => number 2 (skipBlank cs)

/-- A mark, with blanks before it. -/
def mark (c : Char) (cs : List Char) : Option (List Char) :=
  match skipBlank cs with
  | d :: r => if d = c then some r else none
  | [] => none

/-- Nanoseconds behind a point; digits after the ninth are dropped. -/
def fraction : Reader Nat
  | '.' :: cs =>
    match cs.takeWhile isDigit with
    | [] => none
    | ds =>
      some (digitsValue (ds.take 9) * Nat.pow 10 (9 - (ds.take 9).length), cs.drop ds.length)
  | cs => some (0, cs)

def date : Reader Date := fun cs => do
  let (y, cs) ← year cs
  let cs ← mark '-' cs
  let (m, cs) ← twoDigits cs
  let cs ← mark '-' cs
  let (d, cs) ← twoDigits cs
  some (⟨y, m, d⟩, cs)

/-- Seconds of the day and nanoseconds. The sixtieth second of a minute is the end of its
fifty-ninth. -/
def timeOfDay : Reader (Nat × Nat) := fun cs => do
  let (h, cs) ← twoDigits cs
  let cs ← mark ':' cs
  let (m, cs) ← twoDigits cs
  let cs ← mark ':' cs
  let (s, cs) ← twoDigits cs
  let (nanos, cs) ← fraction cs
  if h ≤ 23 ∧ m ≤ 59 ∧ s ≤ 60 then
    some ((h * 3600 + m * 60 + min s 59, if s = 60 then nanos + 1000000000 else nanos), cs)
  else none

def exactlyTwo : Reader Nat
  | a :: b :: cs => if isDigit a && isDigit b then some (digitsValue [a, b], cs) else none
  | _ => none

def offsetSign : Reader Int
  | c :: cs =>
    if c = '+' then some (1, cs)
    else if c = '-' ∨ c = Char.ofNat 0x2212 then some (-1, cs)
    else none
  | [] => none

def isUniversal (cs : List Char) : Bool :=
  cs.length = 3 && (cs.map Char.toUpper) = ['U', 'T', 'C']

/-- Seconds east of Greenwich. -/
def offset : Reader Int := fun cs =>
  if isUniversal (cs.take 3) then some (0, cs.drop 3)
  else
    match cs with
    | 'Z' :: r => some (0, r)
    | 'z' :: r => some (0, r)
    | _ => do
      let (sign, cs) ← offsetSign cs
      let (h, cs) ← exactlyTwo cs
      let (m, cs) ← exactlyTwo (cs.dropWhile fun c => c = ':' || Text.isBlank c)
      if m ≤ 59 ∧ h < 24 then some (sign * (h * 3600 + m * 60), cs) else none

def separator : List Char → Option (List Char)
  | c :: cs => if c = 'T' ∨ c = 't' ∨ c = ' ' then some cs else none
  | [] => none

/-- A stamp has to be in range both as written and in universal time. -/
def read? (cs : List Char) : Option Stamp := do
  let (d, cs) ← date cs
  let cs ← separator cs
  let ((second, nanos), cs) ← timeOfDay cs
  let (east, cs) ← offset (skipBlank cs)
  let stamp : Stamp := ⟨d.toDays * 86400 + second - east, nanos⟩
  if d.isValid && (skipBlank cs).isEmpty && stamp.day.isValid then some stamp else none

end Stamp

end SuiteRunner
