/-! # Binary floating-point numbers of 64 bits

Every value is read as an exact multiple of a power of two, and every operation is the exact one
followed by a single rounding to the nearest representable value, ties to even. -/
namespace SuiteRunner

structure Binary64 where
  bits : UInt64
deriving DecidableEq, Repr, Inhabited

/-- `numerator / denominator` to the nearest natural number, a half to the even neighbour. -/
def roundHalfEven (numerator denominator : Nat) : Nat :=
  let q := numerator / denominator
  let r := numerator % denominator
  if 2 * r < denominator ∨ (2 * r = denominator ∧ q % 2 = 0) then q else q + 1

/-- A fraction times a power of two, as numerator and denominator. -/
def scaleByTwo (numerator denominator : Nat) (e : Int) : Nat × Nat :=
  (numerator * Nat.pow 2 e.toNat, denominator * Nat.pow 2 (-e).toNat)

namespace Binary64

/-- What the bits apart from the sign stand for. -/
inductive Magnitude where
  | finite (mantissa : Nat) (exponent : Int)
  | infinite
  | undefined
deriving DecidableEq, Repr

def isNegative (x : Binary64) : Bool := Nat.pow 2 63 ≤ x.bits.toNat

def exponentField (x : Binary64) : Nat := x.bits.toNat / Nat.pow 2 52 % Nat.pow 2 11

def fractionField (x : Binary64) : Nat := x.bits.toNat % Nat.pow 2 52

/-- A finite value is `mantissa * 2 ^ exponent` up to its sign. -/
def magnitude (x : Binary64) : Magnitude :=
  if x.exponentField = 2047 then
    if x.fractionField = 0 then .infinite else .undefined
  else if x.exponentField = 0 then .finite x.fractionField (-1074)
  else .finite (Nat.pow 2 52 + x.fractionField) (x.exponentField - 1075)

/-- The bits of a magnitude, counted from zero upwards; beyond the largest finite value stands
infinity. -/
def ofIndex (negative : Bool) (index : Nat) : Binary64 :=
  ⟨UInt64.ofNat ((if negative then Nat.pow 2 63 else 0) + min index (2047 * Nat.pow 2 52))⟩

/-- Exponent of the last mantissa bit for a positive fraction: the mantissa gets 53 bits, or fewer
next to zero. -/
def unitExponent (numerator denominator : Nat) : Int :=
  let guess : Int := (numerator.log2 : Int) - denominator.log2 - 53
  let (n, d) := scaleByTwo numerator denominator (-guess)
  max (-1074) (if Nat.pow 2 53 * d ≤ n then guess + 1 else guess)

/-- The representable value nearest to a fraction. -/
def ofFraction (negative : Bool) (numerator denominator : Nat) : Binary64 :=
  if numerator = 0 then ofIndex negative 0
  else
    let e := unitExponent numerator denominator
    let (n, d) := scaleByTwo numerator denominator (-e)
    ofIndex negative ((e + 1074).toNat * Nat.pow 2 52 + roundHalfEven n d)

def ofNat (n : Nat) : Binary64 := ofFraction false n 1

/-- The absolute value of a finite number as a fraction; the other values have none. -/
def fraction? (x : Binary64) : Option (Nat × Nat) :=
  match x.magnitude with
  | .finite m e => some (scaleByTwo m 1 e)
  | _ => none

def infinity : Binary64 := ofIndex false (2047 * Nat.pow 2 52)

def zero : Binary64 := ofIndex false 0

def isInfinite (x : Binary64) : Bool := x.magnitude = .infinite

/-- The two operands as fractions; `infinity` when one of them is not finite. The operations below
are for numbers that are not negative. -/
def lift (f : Nat × Nat → Nat × Nat → Binary64) (x y : Binary64) : Binary64 :=
  match x.fraction?, y.fraction? with
  | some a, some b => f a b
  | _, _ => infinity

def add (x y : Binary64) : Binary64 :=
  lift (fun a b => ofFraction false (a.1 * b.2 + b.1 * a.2) (a.2 * b.2)) x y

def mul (x y : Binary64) : Binary64 :=
  lift (fun a b => ofFraction false (a.1 * b.1) (a.2 * b.2)) x y

def div (x y : Binary64) : Binary64 :=
  lift (fun a b => if b.1 = 0 then infinity else ofFraction false (a.1 * b.2) (a.2 * b.1)) x y

def neg (x : Binary64) : Binary64 := ⟨x.bits ^^^ 0x8000000000000000⟩

end Binary64

end SuiteRunner
