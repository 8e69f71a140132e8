import SuiteRunner.Number.Fixed

/-! # The shortest decimal that identifies a number

Of all decimals that round to a given number, one with the fewest digits is chosen, and among
those the closest. How it is laid out is a decision of its own. -/
namespace SuiteRunner.Number
open Text

/-- `digits * 10 ^ exponent`. -/
structure Decimal where
  digits : Nat
  exponent : Int
deriving DecidableEq, Repr

/-- A finite number other than zero, by mantissa and exponent. Below a power of two the next
smaller number is only half as far away. -/
structure Candidate where
  mantissa : Nat
  exponent : Int
  narrowBelow : Bool

def Candidate.ofMagnitude (m : Nat) (e : Int) : Candidate :=
  ⟨m, e, m == Nat.pow 2 52 && e > -1074⟩

/-- Compares `a * 10 ^ i` with `n * 2 ^ j`. -/
def compareScaled (a : Nat) (i : Int) (n : Nat) (j : Int) : Ordering :=
  compare (a * Nat.pow 10 i.toNat * Nat.pow 2 (-j).toNat)
    (n * Nat.pow 2 j.toNat * Nat.pow 10 (-i).toNat)

/-- The decimal lies halfway to the neighbours or nearer; the ends belong to the interval exactly
when the mantissa is even. -/
def Candidate.readsBack (x : Candidate) (d : Decimal) : Bool :=
  let low := compareScaled d.digits d.exponent (4 * x.mantissa - if x.narrowBelow then 1 else 2)
    (x.exponent - 2)
  let high := compareScaled d.digits d.exponent (4 * x.mantissa + 2) (x.exponent - 2)
  let even := x.mantissa % 2 == 0
  (low == .gt || (even && low == .eq)) && (high == .lt || (even && high == .eq))

/-- The least `k` from `start` on, within `fuel` steps, with the number below `10 ^ k`. -/
def Candidate.scaleFrom (x : Candidate) : Nat → Int → Int
  | 0, k => k
  | fuel + 1, k =>
    if compareScaled 1 k x.mantissa x.exponent == .gt then k else x.scaleFrom fuel (k + 1)

/-- The number of digits before the point, negative for zeros after it. -/
def Candidate.scale (x : Candidate) : Int :=
  x.scaleFrom 8 ((((x.mantissa.log2 : Int) + x.exponent) * 30103).fdiv 100000 - 1)

/-- What to do with a number exactly in the middle of two shortest decimals. -/
inductive Tie where
  | up
  | toEven
deriving DecidableEq

/-- The neighbours of the number on the grid of step `10 ^ k`, the closer one first. -/
def Candidate.neighbours (x : Candidate) (tie : Tie) (k : Int) : List Decimal :=
  let n := x.mantissa * Nat.pow 2 x.exponent.toNat * Nat.pow 10 (-k).toNat
  let d := Nat.pow 2 (-x.exponent).toNat * Nat.pow 10 k.toNat
  let q := n / d
  let lower : Decimal := ⟨q, k⟩
  let upper : Decimal := ⟨q + 1, k⟩
  match compare (2 * (n % d)) d with
  | .lt => [lower, upper]
  | .gt => [upper, lower]
  | .eq => if tie = .toEven ∧ q % 2 = 0 then [lower, upper] else [upper, lower]

/-- A factor ten moved from the digits to the exponent as long as there is one. -/
def Decimal.reduce : Nat → Decimal → Decimal
  | 0, d => d
  | fuel + 1, d =>
    if d.digits ≠ 0 ∧ d.digits % 10 = 0 then Decimal.reduce fuel ⟨d.digits / 10, d.exponent + 1⟩
    else d

def Candidate.exact (x : Candidate) : Decimal :=
  ⟨x.mantissa * Nat.pow 2 x.exponent.toNat * Nat.pow 5 (-x.exponent).toNat, min 0 x.exponent⟩

/-- Grids are tried from one digit on; seventeen digits tell all numbers apart. -/
def Candidate.shortest (x : Candidate) (tie : Tie) : Decimal :=
  let k := x.scale
  let found := (List.range 17).findSome? fun (i : Nat) =>
    (x.neighbours tie (k - (i + 1))).find? x.readsBack
  (found.getD x.exact).reduce 400

/-- How a number is written around its shortest digits: the exponents of the leading digit that are
written out positionally, and whether whole numbers keep a zero decimal. -/
structure Layout where
  positionalFrom : Option Int
  positionalTo : Option Int
  zeroDecimal : Bool
  tie : Tie

def Layout.isPositional (l : Layout) (lead : Int) : Bool :=
  l.positionalFrom.all (· ≤ lead) && l.positionalTo.all (lead ≤ ·)

/-- Digits with the point after the first `before` of them, zeros filled in on either side. -/
def placePoint (ds : List Char) (before : Int) (zeroDecimal : Bool) : List Char :=
  if before ≤ 0 then '0' :: '.' :: List.replicate (-before).toNat '0' ++ ds
  else if ds.length ≤ before.toNat then
    ds ++ List.replicate (before.toNat - ds.length) '0' ++ if zeroDecimal then ['.', '0'] else []
  else ds.take before.toNat ++ '.' :: ds.drop before.toNat

def Layout.place (l : Layout) (d : Decimal) : List Char :=
  let ds := digits d.digits
  let before := d.exponent + ds.length
  let lead := before - 1
  if l.isPositional lead then placePoint ds before l.zeroDecimal
  else
    let fraction := if ds.length = 1 then ds else ds.take 1 ++ '.' :: ds.drop 1
    fraction ++ 'e' :: (if lead < 0 then '-' else '+') :: digits lead.natAbs

def Layout.write (l : Layout) (x : Binary64) : List Char :=
  match x.magnitude with
  | .finite m e =>
    let sign := if x.isNegative then ['-'] else []
    if m = 0 then sign ++ '0' :: (if l.zeroDecimal then ['.', '0'] else [])
    else sign ++ l.place ((Candidate.ofMagnitude m e).shortest l.tie)
  | special => specialText x.isNegative special

/-- Never an exponent, and no decimal for whole numbers. -/
def plain : Layout := ⟨none, none, false, .up⟩

end SuiteRunner.Number
