/-! # UTF-8: reading bytes as text -/
namespace SuiteRunner.Text.Utf8

abbrev Byte := UInt8

def encodeChars (cs : List Char) : List Byte :=
  cs.flatMap String.utf8EncodeChar

def encode (s : String) : List Byte :=
  encodeChars s.toList

/-- Between two characters, or inside one: the bits read so far, the number of bytes still to
come, and the range in which the next byte has to lie. -/
inductive State where
  | ground
  | inside (value need low high : Nat)
deriving DecidableEq, Repr

/-- The first byte of a character fixes its length and narrows the second byte, which excludes
overlong forms, surrogates and values above `0x10FFFF`. -/
def State.enter (b : Nat) : List (Option Char) × State :=
  if b < 0x80 then ([some (Char.ofNat b)], .ground)
  else if b < 0xC2 then ([none], .ground)
  else if b < 0xE0 then ([], .inside (b - 0xC0) 1 0x80 0xBF)
  else if b = 0xE0 then ([], .inside 0 2 0xA0 0xBF)
  else if b = 0xED then ([], .inside 0xD 2 0x80 0x9F)
  else if b < 0xF0 then ([], .inside (b - 0xE0) 2 0x80 0xBF)
  else if b = 0xF0 then ([], .inside 0 3 0x90 0xBF)
  else if b < 0xF4 then ([], .inside (b - 0xF0) 3 0x80 0xBF)
  else if b = 0xF4 then ([], .inside 4 3 0x80 0x8F)
  else ([none], .ground)

/-- One byte further. A byte that cannot continue the open character ends it as one invalid part
and is then looked at afresh. -/
def State.next : State → Nat → List (Option Char) × State
  | .ground, b => State.enter b
  | .inside value need low high, b =>
    if low ≤ b ∧ b ≤ high then
      if need ≤ 1 then ([some (Char.ofNat (64 * value + (b - 0x80)))], .ground)
      else ([], .inside (64 * value + (b - 0x80)) (need - 1) 0x80 0xBF)
    else
      let (out, state) := State.enter b
      (none :: out, state)

/-- The characters of a byte string, with `none` for each maximal invalid part. -/
def scan : State → List Byte → List (Option Char)
  | .ground, [] => []
  | .inside .., [] => [none]
  | s, b :: bs =>
    let (out, s') := s.next b.toNat
    out ++ scan s' bs

def replacement : Char := Char.ofNat 0xFFFD

/-- The text of a byte string, if it is valid throughout. -/
def decode? (bs : List Byte) : Option String :=
  ((scan .ground bs).mapM id).map String.ofList

/-- The text of a byte string with every invalid part replaced. -/
def decodeLossy (bs : List Byte) : String :=
  String.ofList ((scan .ground bs).map (·.getD replacement))

end SuiteRunner.Text.Utf8
