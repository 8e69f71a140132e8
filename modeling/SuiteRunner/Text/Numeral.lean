/-! # Decimal numerals -/
namespace SuiteRunner.Text

def isDigit (c : Char) : Bool :=
  '0'.toNat ≤ c.toNat && c.toNat ≤ '9'.toNat

def digitValue (c : Char) : Nat :=
  c.toNat - '0'.toNat

/-- Value of a string of decimal digits. -/
def digitsValue (cs : List Char) : Nat :=
  cs.foldl (fun n c => 10 * n + digitValue c) 0

def digitChar (d : Nat) : Char :=
  Char.ofNat ('0'.toNat + d)

/-- Decimal digits of a number, most significant first, without leading zeros. -/
def digits (n : Nat) : List Char :=
  go (n + 1) n []
where
  go : Nat → Nat → List Char → List Char
    | 0, _, acc => acc
    | fuel + 1, n, acc =>
      if n < 10 then digitChar n :: acc else go fuel (n / 10) (digitChar (n % 10) :: acc)

/-- Decimal digits, filled up with zeros in front to at least `width`. -/
def paddedDigits (width n : Nat) : List Char :=
  let ds := digits n
  List.replicate (width - ds.length) '0' ++ ds

def decimal (n : Nat) : String :=
  String.ofList (digits n)

/-- Why a text is no unsigned number. -/
inductive NumeralFault where
  | missing
  | badDigit
  | tooLarge
deriving DecidableEq, Repr

def NumeralFault.message : NumeralFault → String
  | .missing => "cannot parse integer from empty string"
  | .badDigit => "invalid digit found in string"
  | .tooLarge => "number too large to fit in target type"

/-- Digits are taken one by one, so that a bad digit is reported only if the value read before it
was still below the limit. -/
def accumulate (limit : Nat) : Nat → List Char → Except NumeralFault Nat
  | n, [] => .ok n
  | n, c :: cs =>
    if isDigit c then
      if 10 * n + digitValue c < limit then accumulate limit (10 * n + digitValue c) cs
      else .error .tooLarge
    else .error .badDigit

/-- An unsigned number below `limit`: an optional `+` and at least one decimal digit. -/
def readUnsigned (limit : Nat) : List Char → Except NumeralFault Nat
  | [] => .error .missing
  | ['+'] => .error .badDigit
  | '+' :: cs => accumulate limit 0 cs
  | cs => accumulate limit 0 cs

/-- A whole number with an optional sign. -/
def readSigned : List Char → Option Int
  | '-' :: cs => if cs.isEmpty || !cs.all isDigit then none else some (-(digitsValue cs : Int))
  | '+' :: cs => if cs.isEmpty || !cs.all isDigit then none else some (digitsValue cs)
  | cs => if cs.isEmpty || !cs.all isDigit then none else some (digitsValue cs)

end SuiteRunner.Text
