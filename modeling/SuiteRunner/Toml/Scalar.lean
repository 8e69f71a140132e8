import SuiteRunner.Text.Numeral
import SuiteRunner.Time.Stamp
import SuiteRunner.Toml.Value

/-! # Strings, numbers, dates and keys of TOML

Lines end in a line feed here; carriage returns before line feeds are removed beforehand. -/
namespace SuiteRunner.Toml

open Text (isDigit digitsValue)

/-- What was read, and the rest of the text. -/
abbrev Reader (α : Type) := List Char → Option (α × List Char)

def isSpace (c : Char) : Bool := c = ' ' || c = '\t'

def skipSpace (cs : List Char) : List Char := cs.dropWhile isSpace

/-- Tabs and all characters that are not control characters. -/
def isPrintable (c : Char) : Bool :=
  c = '\t' || (0x20 ≤ c.toNat && c.toNat ≤ 0x7E) || 0x80 ≤ c.toNat

/-! ## Strings -/

structure Quoting where
  quote : Char
  multiline : Bool
  escapes : Bool

/-- Where the reader stands inside a string. -/
inductive Mode where
  | plain
  /-- So many quotes in a row. -/
  | quotes (n : Nat)
  | escape
  | hex (left value : Nat)
  /-- Behind a backslash at the end of a line: whether the line has ended. -/
  | fold (ended : Bool)
deriving DecidableEq

def hexValue? (c : Char) : Option Nat :=
  let n := c.toNat
  if isDigit c then some (n - '0'.toNat)
  else if 'a'.toNat ≤ n ∧ n ≤ 'f'.toNat then some (n - 'a'.toNat + 10)
  else if 'A'.toNat ≤ n ∧ n ≤ 'F'.toNat then some (n - 'A'.toNat + 10)
  else none

/-- A code point that is a character. -/
def scalar? (n : Nat) : Option Char :=
  if n < 0xD800 ∨ (0xDFFF < n ∧ n < 0x110000) then some (Char.ofNat n) else none

/-- A string being read, its characters in reverse. -/
abbrev Draft := List Char × Mode

def plainStep (q : Quoting) (acc : List Char) (c : Char) : Option Draft :=
  if c = q.quote then some (acc, .quotes 1)
  else if c = '\\' ∧ q.escapes then some (acc, .escape)
  else if c = '\n' then if q.multiline then some (c :: acc, .plain) else none
  else if isPrintable c then some (c :: acc, .plain)
  else none

def escapeStep (q : Quoting) (acc : List Char) (c : Char) : Option Draft :=
  match c with
  | '"' => some ('"' :: acc, .plain)
  | '\\' => some ('\\' :: acc, .plain)
  | 'b' => some (Char.ofNat 8 :: acc, .plain)
  | 't' => some ('\t' :: acc, .plain)
  | 'n' => some ('\n' :: acc, .plain)
  | 'f' => some (Char.ofNat 12 :: acc, .plain)
  | 'r' => some ('\r' :: acc, .plain)
  | 'u' => some (acc, .hex 4 0)
  | 'U' => some (acc, .hex 8 0)
  | _ =>
    if !q.multiline then none
    else if isSpace c then some (acc, .fold false)
    else if c = '\n' then some (acc, .fold true)
    else none

def hexStep (acc : List Char) (left value : Nat) (c : Char) : Option Draft := do
  let value := 16 * value + (← hexValue? c)
  if left ≤ 1 then some ((← scalar? value) :: acc, .plain) else some (acc, .hex (left - 1) value)

def foldStep (q : Quoting) (acc : List Char) (ended : Bool) (c : Char) : Option Draft :=
  if isSpace c then some (acc, .fold ended)
  else if c = '\n' then some (acc, .fold true)
  else if ended then plainStep q acc c
  else none

/-- One character further; a run of quotes that does not close the string belongs to it. -/
def stringStep (q : Quoting) (acc : List Char) (c : Char) : Mode → Option Draft
  | .plain => plainStep q acc c
  | .escape => escapeStep q acc c
  | .hex left value => hexStep acc left value c
  | .fold ended => foldStep q acc ended c
  | .quotes n =>
    if c = q.quote then if n < 5 then some (acc, .quotes (n + 1)) else none
    else plainStep q (List.replicate n q.quote ++ acc) c

/-- The string is closed by one quote, or by three after at most two that belong to it. -/
def closed? (q : Quoting) (acc : List Char) : Mode → Option String
  | .quotes n =>
    if !q.multiline then some (String.ofList acc.reverse)
    else if 3 ≤ n then some (String.ofList (List.replicate (n - 3) q.quote ++ acc).reverse)
    else none
  | _ => none

def stringFrom (q : Quoting) (acc : List Char) (mode : Mode) : Reader String
  | [] => (closed? q acc mode).map (·, [])
  | c :: cs =>
    match closed? q acc mode, q.multiline && c = q.quote with
    | some s, false => some (s, c :: cs)
    | _, _ => do
      let (acc, mode) ← stringStep q acc c mode
      stringFrom q acc mode cs

/-- A string of one line, from behind its opening quote. -/
def lineString (quote : Char) : Reader String :=
  stringFrom ⟨quote, false, quote = '"'⟩ [] .plain

/-- A string over several lines, from behind its opening quotes. A line break right there does not
count. -/
def textBlock (quote : Char) : Reader String
  | '\n' :: cs => stringFrom ⟨quote, true, quote = '"'⟩ [] .plain cs
  | cs => stringFrom ⟨quote, true, quote = '"'⟩ [] .plain cs

/-- Any string, from behind its first quote. -/
def stringValue (quote : Char) (cs : List Char) : Option (String × List Char) :=
  match cs with
  | a :: b :: rest =>
    if a = quote ∧ b = quote then textBlock quote rest else lineString quote (a :: b :: rest)
  | cs => lineString quote cs

/-! ## Keys -/

def isBareKeyChar (c : Char) : Bool :=
  isDigit c || ('a'.toNat ≤ c.toNat && c.toNat ≤ 'z'.toNat) ||
    ('A'.toNat ≤ c.toNat && c.toNat ≤ 'Z'.toNat) || c = '-' || c = '_'

def simpleKey : Reader String
  | '"' :: cs => lineString '"' cs
  | '\'' :: cs => lineString '\'' cs
  | cs =>
    match cs.takeWhile isBareKeyChar with
    | [] => none
    | key => some (String.ofList key, cs.dropWhile isBareKeyChar)

def keyParts : Nat → Reader (List String)
  | 0, _ => none
  | n + 1, cs => do
    let (key, cs) ← simpleKey (skipSpace cs)
    match skipSpace cs with
    | '.' :: cs =>
      let (keys, cs) ← keyParts n cs
      some (key :: keys, cs)
    | cs => some ([key], cs)

def maxDepth : Nat := 80

/-- A key, possibly dotted: the path to its table and the last part. -/
def dottedKey : Reader (List String × String) := fun cs => do
  let (keys, rest) ← keyParts (maxDepth - 1) cs
  some ((keys.dropLast, keys.getLastD ""), rest)

/-! ## Numbers -/

/-- Digits with single underscores between them. -/
def moreDigits (p : Char → Bool) : Reader (List Char)
  | '_' :: c :: cs =>
    if p c then (moreDigits p cs).map fun (ds, rest) => (c :: ds, rest) else none
  | ['_'] => none
  | c :: cs =>
    if p c then (moreDigits p cs).map fun (ds, rest) => (c :: ds, rest) else some ([], c :: cs)
  | [] => some ([], [])

def someDigits (p : Char → Bool) : Reader (List Char)
  | c :: cs =>
    if p c then (moreDigits p cs).map fun (ds, rest) => (c :: ds, rest) else none
  | [] => none

/-- A whole number without leading zeros. -/
def wholeDigits : Reader (List Char)
  | '0' :: cs => some (['0'], cs)
  | cs => someDigits isDigit cs

def signOf : List Char → Bool × List Char
  | '-' :: cs => (true, cs)
  | '+' :: cs => (false, cs)
  | cs => (false, cs)

def integerValue? (negative : Bool) (n : Nat) : Option Value :=
  if negative then if n ≤ Nat.pow 2 63 then some (.integer (-(n : Int))) else none
  else if n < Nat.pow 2 63 then some (.integer n) else none

/-- The value of digits with a decimal exponent. Exponents far out of range are not computed. -/
def decimalValue (negative : Bool) (digits : List Char) (exponent : Int) : Binary64 :=
  let n := digitsValue digits
  let lead := (digits.dropWhile (· = '0')).length + exponent
  if n = 0 ∨ lead < -400 then .ofFraction negative 0 1
  else if 400 < lead then .ofFraction negative (Nat.pow 10 400) 1
  else .ofFraction negative (n * Nat.pow 10 exponent.toNat) (Nat.pow 10 (-exponent).toNat)

def fractionPart : Reader (List Char)
  | '.' :: cs => someDigits isDigit cs
  | cs => some ([], cs)

def exponentPart : Reader Int
  | c :: cs =>
    if c = 'e' ∨ c = 'E' then do
      let (negative, cs) := signOf cs
      let (ds, rest) ← someDigits isDigit cs
      let n : Int := digitsValue ds
      some (if negative then -n else n, rest)
    else some (0, c :: cs)
  | [] => some (0, [])

def startsFloat : List Char → Bool
  | c :: _ => c = '.' || c = 'e' || c = 'E'
  | [] => false

/-- Too large a number is refused, but not its negative. -/
def floatValue? (x : Binary64) : Option Value :=
  if x.isInfinite && !x.isNegative then none else some (.float x)

def undefinedNumber : Binary64 := ⟨0x7FF8000000000000⟩

def decimalNumber (cs : List Char) : Option (Value × List Char) := do
  let (negative, cs) := signOf cs
  match cs with
  | 'i' :: 'n' :: 'f' :: rest =>
    some (.float (if negative then Binary64.neg .infinity else .infinity), rest)
  | 'n' :: 'a' :: 'n' :: rest => some (.float undefinedNumber, rest)
  | cs =>
    let (whole, cs) ← wholeDigits cs
    if startsFloat cs then
      let (fraction, cs) ← fractionPart cs
      let (exponent, cs) ← exponentPart cs
      let v ← floatValue? (decimalValue negative (whole ++ fraction) (exponent - fraction.length))
      some (v, cs)
    else some (← integerValue? negative (digitsValue whole), cs)

def radixNumber (base : Nat) (p : Char → Bool) (cs : List Char) : Option (Value × List Char) := do
  let (ds, rest) ← someDigits p cs
  let n := ds.foldl (fun n c => base * n + (hexValue? c).getD 0) 0
  some (← integerValue? false n, rest)

/-! ## Dates -/

/-- A fixed number of digits with a value in a range. -/
def fixedDigits (count low high : Nat) (cs : List Char) : Option (Nat × List Char) :=
  let ds := cs.take count
  if ds.length = count ∧ ds.all isDigit ∧ low ≤ digitsValue ds ∧ digitsValue ds ≤ high then
    some (digitsValue ds, cs.drop count)
  else none

def mark (c : Char) : List Char → Option (List Char)
  | d :: cs => if d = c then some cs else none
  | [] => none

def readDate (cs : List Char) : Option (List Char) := do
  let (y, cs) ← fixedDigits 4 0 9999 cs
  let (m, cs) ← fixedDigits 2 1 12 (← mark '-' cs)
  let (d, cs) ← fixedDigits 2 1 31 (← mark '-' cs)
  if d ≤ Date.monthLength y m then some cs else none

def readTime (cs : List Char) : Option (List Char) := do
  let (_, cs) ← fixedDigits 2 0 23 cs
  let (_, cs) ← fixedDigits 2 0 59 (← mark ':' cs)
  let (_, cs) ← fixedDigits 2 0 60 (← mark ':' cs)
  match cs with
  | '.' :: cs => if (cs.takeWhile isDigit).isEmpty then none else some (cs.dropWhile isDigit)
  | cs => some cs

def readOffset (cs : List Char) : Option (List Char) :=
  match cs with
  | c :: rest =>
    if c = 'Z' ∨ c = 'z' then some rest
    else if c = '+' ∨ c = '-' then do
      let (_, rest) ← fixedDigits 2 0 23 rest
      let (_, rest) ← fixedDigits 2 0 59 (← mark ':' rest)
      some rest
    else some cs
  | [] => some []

/-- Two digits and a colon. -/
def startsTime : List Char → Bool
  | a :: b :: c :: _ => isDigit a && isDigit b && c = ':'
  | _ => false

/-- Four digits and a hyphen. -/
def startsDate : List Char → Bool
  | a :: b :: c :: d :: e :: _ => isDigit a && isDigit b && isDigit c && isDigit d && e = '-'
  | _ => false

def isTimeDelimiter (c : Char) : Bool := c = 'T' || c = 't' || c = ' '

/-- The time behind a date, if there is one. -/
def timeBehind (cs : List Char) : Option (List Char) :=
  match cs with
  | c :: rest =>
    if isTimeDelimiter c && startsTime rest then do readOffset (← readTime rest) else some cs
  | [] => some []

def spelled (cs rest : List Char) : Value :=
  .datetime (String.ofList (cs.take (cs.length - rest.length)))

def numberOrDate (cs : List Char) : Option (Value × List Char) :=
  if startsDate cs then do
    let rest ← timeBehind (← readDate cs)
    some (spelled cs rest, rest)
  else if startsTime cs then do
    let rest ← readTime cs
    some (spelled cs rest, rest)
  else
    match cs with
    | '0' :: 'x' :: rest => radixNumber 16 (fun c => (hexValue? c).isSome) rest
    | '0' :: 'o' :: rest => radixNumber 8 (fun c => '0' ≤ c && c ≤ '7') rest
    | '0' :: 'b' :: rest => radixNumber 2 (fun c => c = '0' || c = '1') rest
    | cs => decimalNumber cs

end SuiteRunner.Toml
