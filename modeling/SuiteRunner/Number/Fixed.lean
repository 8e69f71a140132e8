import SuiteRunner.Number.Binary64
import SuiteRunner.Text.Blank
import SuiteRunner.Text.Numeral

/-! # Numbers with a fixed number of decimal places -/
namespace SuiteRunner.Number
open Text

def specialText (negative : Bool) : Binary64.Magnitude → List Char
  | .undefined => "NaN".toList
  | _ => if negative then "-inf".toList else "inf".toList

/-- Digits, point and `places` further digits of `units / 10 ^ places`. -/
def pointed (places units : Nat) : List Char :=
  let whole := digits (units / Nat.pow 10 places)
  if places = 0 then whole else whole ++ '.' :: paddedDigits places (units % Nat.pow 10 places)

/-- The exact value rounded to `places` decimals, ties to even. The sign is that of the number,
also where it rounds to zero. -/
def fixed (places : Nat) (x : Binary64) : List Char :=
  match x.magnitude with
  | .finite m e =>
    let (n, d) := scaleByTwo m 1 e
    (if x.isNegative then ['-'] else []) ++ pointed places (roundHalfEven (n * Nat.pow 10 places) d)
  | special => specialText x.isNegative special

/-- Seconds with millisecond precision and neither trailing zeros nor a trailing point. -/
def seconds (x : Binary64) : String :=
  String.ofList (dropEndWhile (· == '.') (dropEndWhile (· == '0') (fixed 3 x)))

/-- A share in percent, with one decimal. -/
def percentage (x : Binary64) : String :=
  String.ofList (fixed 1 x)

end SuiteRunner.Number
