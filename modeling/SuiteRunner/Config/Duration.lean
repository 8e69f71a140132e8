import SuiteRunner.Text.Blank
import SuiteRunner.Text.Lowercase
import SuiteRunner.Text.Numeral
import SuiteRunner.Time.Span

/-! # Durations as people write them

A number with a unit, such as `500ms`, `15s`, `2m` or `1h`. A bare number means seconds. -/
namespace SuiteRunner

inductive DurationFault where
  | badFormat (text : String) (cause : Text.NumeralFault)
  | outOfRange (text : String)
deriving DecidableEq, Repr

def DurationFault.message : DurationFault → String
  | .badFormat text _ => "Invalid duration format: " ++ text
  | .outOfRange text => "Duration out of range: " ++ text

/-- The message with its cause. -/
def DurationFault.fullMessage : DurationFault → String
  | .badFormat text cause => DurationFault.message (.badFormat text cause) ++ ": " ++ cause.message
  | .outOfRange text => DurationFault.message (.outOfRange text)

namespace Duration

/-- Milliseconds of each unit. Where one unit ends in another the longer one stands first. -/
def units : List (List Char × Nat) :=
  [("ms".toList, 1), ("sec".toList, 1000), ("s".toList, 1000), ("min".toList, 60000),
    ("m".toList, 60000), ("hr".toList, 3600000), ("h".toList, 3600000), ([], 1000)]

def stripSuffix? (suffix cs : List Char) : Option (List Char) :=
  if suffix.isSuffixOf cs then some (cs.take (cs.length - suffix.length)) else none

/-- The number part and the milliseconds of the unit behind it. -/
def splitUnit (cs : List Char) : List Char × Nat :=
  (units.findSome? fun (suffix, ms) => (stripSuffix? suffix cs).map (·, ms)).getD (cs, 1000)

/-- Milliseconds of a written duration. -/
def parse (s : String) : Except DurationFault Nat :=
  let cs := Text.lower (Text.trim s.toList)
  let (number, unit) := splitUnit cs
  match Text.readUnsigned word64 (Text.trim number) with
  | .error cause => .error (.badFormat (String.ofList cs) cause)
  | .ok n =>
    if n * unit < word64 then .ok (n * unit) else .error (.outOfRange (String.ofList cs))

end Duration

end SuiteRunner
