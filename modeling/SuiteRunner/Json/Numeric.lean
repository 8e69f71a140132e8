import SuiteRunner.Number.Binary64
import SuiteRunner.Text.Numeral

/-! # What a JSON number denotes

An integer literal that fits sixty-four bits is that integer. All other literals are doubles: as
many leading digits as fit sixty-four bits are scaled by a power of ten, with one rounding for the
digits and one for the scaling. -/
namespace SuiteRunner.Json

inductive Numeric where
  | natural (n : Nat)
  | negative (n : Nat)
  | double (x : Binary64)
deriving DecidableEq, Repr

/-- A literal taken apart; the signs and the point are gone. -/
structure Literal where
  negative : Bool
  whole : List Char
  fraction : Option (List Char)
  exponent : Option Int

def Literal.isInteger (l : Literal) : Bool := l.fraction.isNone && l.exponent.isNone

def exponentOf : List Char → Option Int
  | [] => none
  | _ :: '-' :: ds => some (-(Text.digitsValue ds : Int))
  | _ :: '+' :: ds => some (Text.digitsValue ds)
  | _ :: ds => some (Text.digitsValue ds)

def Literal.ofChars (cs : List Char) : Literal :=
  let (negative, cs) := match cs with
    | '-' :: r => (true, r)
    | r => (false, r)
  let (whole, cs) := (cs.takeWhile Text.isDigit, cs.dropWhile Text.isDigit)
  let (fraction, cs) := match cs with
    | '.' :: r => (some (r.takeWhile Text.isDigit), r.dropWhile Text.isDigit)
    | r => (none, r)
  ⟨negative, whole, fraction, exponentOf cs⟩

/-- Adds digits to a significand as long as it stays below `2 ^ 64`; the digits left over follow. -/
def gather (acc : Nat) : List Char → Nat × List Char
  | [] => (acc, [])
  | d :: ds =>
    let next := 10 * acc + Text.digitValue d
    if next < Nat.pow 2 64 then gather next ds else (acc, d :: ds)

def powerOfTen (k : Nat) : Binary64 := .ofNat (Nat.pow 10 k)

/-- Scales by a power of ten, in steps of at most `308`. After three steps down nothing is left of a
significand below `2 ^ 64`. `none` if the result is too large. -/
def scaleByTen : Nat → Binary64 → Int → Option Binary64
  | 0, _, _ => some .zero
  | steps + 1, x, e =>
    if 0 ≤ e ∧ e ≤ 308 then
      let y := x.mul (powerOfTen e.toNat)
      if y.isInfinite then none else some y
    else if -308 ≤ e ∧ e < 0 then some (x.div (powerOfTen (-e).toNat))
    else if x = .zero then some x
    else if 0 ≤ e then none
    else scaleByTen steps (x.div (powerOfTen 308)) (e + 308)

/-- `none` for a number beyond all doubles. -/
def Literal.value? (l : Literal) : Option Numeric :=
  let (wholePart, dropped) := gather 0 l.whole
  if l.isInteger && dropped.isEmpty &&
      !(l.negative && (wholePart = 0 || Nat.pow 2 63 < wholePart)) then
    some (if l.negative then .negative wholePart else .natural wholePart)
  else
    let fraction := l.fraction.getD []
    let (significand, unused) := gather wholePart fraction
    let shift : Int := dropped.length - (fraction.length - unused.length : Nat) + l.exponent.getD 0
    (scaleByTen 4 (.ofNat significand) shift).map fun x =>
      .double (if l.negative then x.neg else x)

def Numeric.ofChars? (cs : List Char) : Option Numeric := (Literal.ofChars cs).value?

end SuiteRunner.Json
