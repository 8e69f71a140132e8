import SuiteRunner.Text.Numeral

/-! # JSON documents as far as they can be read

A document is read once, up to the place where its text stops being JSON. What was read before that
place is kept, so that a reader that knows what it expects can tell which fault comes first. -/
namespace SuiteRunner.Json

/-- Why a text stops being JSON: it ends too early, or it goes on in a way no JSON text does. -/
inductive Stop where
  | truncated
  | malformed
deriving DecidableEq, Repr, Inhabited

/-- Where a text stops. A reader that takes in every value and one that only passes over it may see
different reasons, because the latter does not look into escapes and cannot tell a number that
breaks off from a bad one. -/
structure Cut where
  reading : Stop
  passing : Stop
deriving DecidableEq, Repr, Inhabited

def Cut.both (s : Stop) : Cut := ⟨s, s⟩

/-- A value in a document. A string is `none` when one of its escapes names only half of a
character; a container tells how it ended, `none` meaning by its closing bracket. -/
inductive Node where
  | cut (at_ : Cut)
  | null
  | bool (b : Bool)
  | number (literal : List Char)
  | string (s : Option String)
  | array (items : List Node) (ending : Option Cut)
  | object (members : List (Option String × Node)) (ending : Option Cut)
deriving Inhabited

/-! ## Strings -/

def hexValue? (c : Char) : Option Nat :=
  let n := c.toNat
  if Text.isDigit c then some (n - '0'.toNat)
  else if 'a'.toNat ≤ n ∧ n ≤ 'f'.toNat then some (n - 'a'.toNat + 10)
  else if 'A'.toNat ≤ n ∧ n ≤ 'F'.toNat then some (n - 'A'.toNat + 10)
  else none

def isHighSurrogate (n : Nat) : Bool := 0xD800 ≤ n && n ≤ 0xDBFF

def isLowSurrogate (n : Nat) : Bool := 0xDC00 ≤ n && n ≤ 0xDFFF

def joinSurrogates (high low : Nat) : Char :=
  Char.ofNat (0x10000 + (high - 0xD800) * 0x400 + (low - 0xDC00))

/-- Where the reader stands inside a string. -/
inductive Quoted where
  | plain
  | escape
  | hex (count value : Nat) (high : Option Nat)
  /-- Four bytes belong to an escape with a bad digit; so many of them are still to come. -/
  | badHex (missing : Nat)
  | afterHigh (high : Nat)
  | afterHighEscape (high : Nat)
deriving DecidableEq, Repr

/-- Characters read so far, in reverse, and whether all escapes were whole characters. -/
structure Reading where
  chars : List Char := []
  whole : Bool := true

def Reading.push (r : Reading) (c : Char) : Reading := { r with chars := c :: r.chars }

def Reading.half (r : Reading) : Reading := { r with whole := false }

def Reading.cut (r : Reading) (s : Stop) : Cut :=
  ⟨if r.whole then s else .malformed, s⟩

/-- A sixteen-bit unit given by an escape. -/
def Reading.unit (r : Reading) (n : Nat) : Option Nat → Quoted × Reading
  | some high =>
    if isLowSurrogate n then (.plain, r.push (joinSurrogates high n)) else (.plain, r.half)
  | none =>
    if isLowSurrogate n then (.plain, r.half)
    else if isHighSurrogate n then (.afterHigh n, r)
    else (.plain, r.push (Char.ofNat n))

/-- The character after a backslash. -/
def Reading.escaped (r : Reading) (c : Char) : Except Cut (Quoted × Reading) :=
  match c with
  | '"' | '\\' | '/' => .ok (.plain, r.push c)
  | 'b' => .ok (.plain, r.push (Char.ofNat 8))
  | 'f' => .ok (.plain, r.push (Char.ofNat 12))
  | 'n' => .ok (.plain, r.push (Char.ofNat 10))
  | 'r' => .ok (.plain, r.push (Char.ofNat 13))
  | 't' => .ok (.plain, r.push (Char.ofNat 9))
  | 'u' => .ok (.hex 0 0 none, r)
  | _ => .error (r.cut .malformed)

/-- A character outside escapes, other than the closing quote. -/
def Reading.unescaped (r : Reading) (c : Char) : Except Cut (Quoted × Reading) :=
  if c = '\\' then .ok (.escape, r)
  else if c.toNat < 0x20 then .error (r.cut .malformed)
  else .ok (.plain, r.push c)

/-- A character of a `\u` escape, of which `count` digits are read. -/
def Reading.hexDigit (r : Reading) (count value : Nat) (high : Option Nat) (c : Char) :
    Except Cut (Quoted × Reading) :=
  match hexValue? c with
  | some d =>
    if count = 3 then .ok (r.unit (16 * value + d) high)
    else .ok (.hex (count + 1) (16 * value + d) high, r)
  | none =>
    if 4 ≤ count + c.utf8Size then .error (r.cut .malformed)
    else .ok (.badHex (4 - (count + c.utf8Size)), r)

def Reading.step (r : Reading) (c : Char) : Quoted → Except Cut (Quoted × Reading)
  | .plain => r.unescaped c
  | .escape => r.escaped c
  | .hex count value high => r.hexDigit count value high c
  | .badHex missing =>
    if missing ≤ c.utf8Size then .error (r.cut .malformed)
    else .ok (.badHex (missing - c.utf8Size), r)
  | .afterHigh high => if c = '\\' then .ok (.afterHighEscape high, r) else r.half.unescaped c
  | .afterHighEscape high => if c = 'u' then .ok (.hex 0 0 (some high), r) else r.half.escaped c

/-- What a string says once it is closed; half a character at its end counts as well. -/
def Reading.close (r : Reading) : Quoted → Option String
  | .plain => if r.whole then some (String.ofList r.chars.reverse) else none
  | _ => none

/-- A quote closes the string unless it belongs to an escape. -/
def Quoted.closes : Quoted → Bool
  | .plain | .afterHigh _ => true
  | _ => false

/-- A string from behind its opening quote: its text and what follows the closing quote. -/
def readString : Quoted → Reading → List Char → Except Cut (Option String × List Char)
  | _, r, [] => .error (r.cut .truncated)
  | mode, r, c :: cs =>
    if c = '"' && mode.closes then .ok (r.close mode, cs)
    else
      match r.step c mode with
      | .error e => .error e
      | .ok (mode', r') => readString mode' r' cs

/-! ## Numbers and words -/

/-- At least one digit, then the rest. -/
def readDigits (cs : List Char) : Except Stop (List Char × List Char) :=
  match cs.takeWhile Text.isDigit, cs.dropWhile Text.isDigit with
  | [], [] => .error .truncated
  | [], _ => .error .malformed
  | ds, rest => .ok (ds, rest)

/-- The whole part of a number: no leading zero. -/
def readWhole (cs : List Char) : Except Stop (List Char × List Char) := do
  match ← readDigits cs with
  | ('0' :: _ :: _, _) => .error .malformed
  | r => .ok r

def readFraction : List Char → Except Stop (List Char × List Char)
  | '.' :: cs => do
    let (ds, rest) ← readDigits cs
    .ok ('.' :: ds, rest)
  | cs => .ok ([], cs)

def readExponent : List Char → Except Stop (List Char × List Char)
  | c :: cs =>
    if c = 'e' ∨ c = 'E' then do
      let (sign, cs') := match cs with
        | '+' :: r => (['+'], r)
        | '-' :: r => (['-'], r)
        | r => ([], r)
      let (ds, rest) ← readDigits cs'
      .ok (c :: sign ++ ds, rest)
    else .ok ([], c :: cs)
  | [] => .ok ([], [])

/-- A number as spelled, and the rest. -/
def readNumber (cs : List Char) : Except Stop (List Char × List Char) := do
  let (sign, cs) := match cs with
    | '-' :: r => (['-'], r)
    | r => ([], r)
  let (whole, cs) ← readWhole cs
  let (fraction, cs) ← readFraction cs
  let (exponent, cs) ← readExponent cs
  .ok (sign ++ whole ++ fraction ++ exponent, cs)

/-- The rest of a text behind a given word. -/
def readWord : List Char → List Char → Except Stop (List Char)
  | [], cs => .ok cs
  | _ :: _, [] => .error .truncated
  | w :: ws, c :: cs => if w = c then readWord ws cs else .error .malformed

/-! ## Documents -/

def isSpace (c : Char) : Bool := c = ' ' || c = '\t' || c = '\n' || c = '\r'

def skipSpace (cs : List Char) : List Char := cs.dropWhile isSpace

/-- What follows a value, or where the text stopped inside it. -/
abbrev Rest := Except Cut (List Char)

def ending : Rest → Option Cut
  | .ok _ => none
  | .error e => some e

def readScalar : List Char → Node × Rest
  | [] => (.cut (.both .truncated), .error (.both .truncated))
  | '"' :: cs =>
    match readString .plain {} cs with
    | .ok (s, rest) => (.string s, .ok rest)
    | .error e => (.cut e, .error e)
  | 'n' :: cs => word .null "ull" cs
  | 't' :: cs => word (.bool true) "rue" cs
  | 'f' :: cs => word (.bool false) "alse" cs
  | c :: cs =>
    if c = '-' || Text.isDigit c then
      match readNumber (c :: cs) with
      | .ok (literal, rest) => (.number literal, .ok rest)
      | .error s => (.cut ⟨s, .malformed⟩, .error ⟨s, .malformed⟩)
    else (.cut (.both .malformed), .error (.both .malformed))
where
  word (n : Node) (w : String) (cs : List Char) : Node × Rest :=
    match readWord w.toList cs with
    | .ok rest => (n, .ok rest)
    | .error s => (.cut (.both s), .error (.both s))

mutual
/-- One value. The fuel bounds the nesting and the number of parts. -/
def readNode : Nat → List Char → Node × Rest
  | 0, _ => (.cut (.both .malformed), .error (.both .malformed))
  | fuel + 1, cs =>
    match skipSpace cs with
    | '[' :: cs =>
      match skipSpace cs with
      | ']' :: rest => (.array [] none, .ok rest)
      | cs =>
        let (items, rest) := readItems fuel cs
        (.array items (ending rest), rest)
    | '\x7b' :: cs =>
      match skipSpace cs with
      | '\x7d' :: rest => (.object [] none, .ok rest)
      | cs =>
        let (members, rest) := readMembers fuel cs
        (.object members (ending rest), rest)
    | cs => readScalar cs

/-- Items of an array that has at least one more, up to its closing bracket. -/
def readItems : Nat → List Char → List Node × Rest
  | 0, _ => ([], .error (.both .malformed))
  | fuel + 1, cs =>
    let (item, rest) := readNode fuel cs
    match rest with
    | .error e => ([item], .error e)
    | .ok cs =>
      match skipSpace cs with
      | ',' :: cs =>
        let (items, rest) := readItems fuel cs
        (item :: items, rest)
      | ']' :: rest => ([item], .ok rest)
      | [] => ([item], .error (.both .truncated))
      | _ => ([item], .error (.both .malformed))

/-- Members of an object that has at least one more, up to its closing bracket. -/
def readMembers : Nat → List Char → List (Option String × Node) × Rest
  | 0, _ => ([], .error (.both .malformed))
  | fuel + 1, cs =>
    match skipSpace cs with
    | [] => ([], .error (.both .truncated))
    | '"' :: cs =>
      match readString .plain {} cs with
      | .error e => ([], .error e)
      | .ok (key, cs) =>
        let (value, rest) := readValue fuel cs
        match rest with
        | .error e => ([(key, value)], .error e)
        | .ok cs =>
          match skipSpace cs with
          | ',' :: cs =>
            let (members, rest) := readMembers fuel cs
            ((key, value) :: members, rest)
          | '\x7d' :: rest => ([(key, value)], .ok rest)
          | [] => ([(key, value)], .error (.both .truncated))
          | _ => ([(key, value)], .error (.both .malformed))
    | _ => ([], .error (.both .malformed))

/-- A colon and the value behind it. -/
def readValue : Nat → List Char → Node × Rest
  | 0, _ => (.cut (.both .malformed), .error (.both .malformed))
  | fuel + 1, cs =>
    match skipSpace cs with
    | ':' :: cs => readNode fuel cs
    | [] => (.cut (.both .truncated), .error (.both .truncated))
    | _ => (.cut (.both .malformed), .error (.both .malformed))
end

/-- The first value of a text and what follows it. Every level of an array uses two units of fuel a
character, all else fewer. -/
def readDocument (text : String) : Node × Rest :=
  let cs := text.toList
  readNode (2 * cs.length + 4) cs

end SuiteRunner.Json
