import SuiteRunner.Text.Numeral

/-! # JSON values and their texts -/
namespace SuiteRunner

/-- A JSON value. Numbers are kept as spelled, members in order. -/
inductive Json where
  | null
  | bool (b : Bool)
  | number (literal : String)
  | string (s : String)
  | array (items : List Json)
  | object (members : List (String × Json))
deriving Repr, Inhabited

namespace Json

def nat (n : Nat) : Json := .number (Text.decimal n)

def hexDigit (n : Nat) : Char :=
  if n < 10 then Char.ofNat ('0'.toNat + n) else Char.ofNat ('a'.toNat + (n - 10))

/-- Only the quote, the backslash and the control characters below `0x20` are escaped. -/
def escapeChar (c : Char) : List Char :=
  if c = '"' then ['\\', '"']
  else if c = '\\' then ['\\', '\\']
  else if c.toNat < 0x20 then
    match c.toNat with
    | 8 => ['\\', 'b']
    | 9 => ['\\', 't']
    | 10 => ['\\', 'n']
    | 12 => ['\\', 'f']
    | 13 => ['\\', 'r']
    | n => ['\\', 'u', '0', '0', hexDigit (n / 16), hexDigit (n % 16)]
  else [c]

def quote (s : String) : List Char :=
  '"' :: s.toList.flatMap escapeChar ++ ['"']

/-- Texts in order with `sep` between them. -/
def joinWith (sep : List Char) : List (List Char) → List Char
  | [] => []
  | [x] => x
  | x :: xs => x ++ sep ++ joinWith sep xs

mutual
/-- Text without any white space. -/
def compact : Json → List Char
  | .null => "null".toList
  | .bool b => (if b then "true" else "false").toList
  | .number l => l.toList
  | .string s => quote s
  | .array xs => '[' :: joinWith [','] (compactItems xs) ++ [']']
  | .object ms => '\x7b' :: joinWith [','] (compactMembers ms) ++ ['\x7d']

def compactItems : List Json → List (List Char)
  | [] => []
  | x :: xs => compact x :: compactItems xs

def compactMembers : List (String × Json) → List (List Char)
  | [] => []
  | (k, x) :: ms => (quote k ++ ':' :: compact x) :: compactMembers ms
end

def lineBreak (depth : Nat) : List Char :=
  '\n' :: List.replicate (2 * depth) ' '

/-- Parts of a non-empty container on lines of their own. -/
def onLines (depth : Nat) (opening closing : Char) : List (List Char) → List Char
  | [] => [opening, closing]
  | parts =>
    opening :: lineBreak (depth + 1) ++ joinWith (',' :: lineBreak (depth + 1)) parts ++
      lineBreak depth ++ [closing]

mutual
/-- Text with one item or member a line, two blanks further in at each level. Empty containers stay
on one line. -/
def pretty (depth : Nat) : Json → List Char
  | .null => "null".toList
  | .bool b => (if b then "true" else "false").toList
  | .number l => l.toList
  | .string s => quote s
  | .array xs => onLines depth '[' ']' (prettyItems (depth + 1) xs)
  | .object ms => onLines depth '\x7b' '\x7d' (prettyMembers (depth + 1) ms)

def prettyItems (depth : Nat) : List Json → List (List Char)
  | [] => []
  | x :: xs => pretty depth x :: prettyItems depth xs

def prettyMembers (depth : Nat) : List (String × Json) → List (List Char)
  | [] => []
  | (k, x) :: ms => (quote k ++ ':' :: ' ' :: pretty depth x) :: prettyMembers depth ms
end

/-! ## In pieces

An indented text is not handed out at once: line breaks, blanks, quotes, brackets, numbers and words
come one by one, and strings in runs between the characters that have to be escaped. -/

def isEscaped (c : Char) : Bool := c == '"' || c == '\\' || c.toNat < 0x20

/-- The runs of a string and the characters between them; `run` is what came before. -/
def runs (run : List Char) : List Char → List (List Char)
  | [] => if run.isEmpty then [] else [run]
  | c :: cs =>
    if isEscaped c then (if run.isEmpty then [] else [run]) ++ escapeChar c :: runs [] cs
    else runs (run ++ [c]) cs

def quotePieces (s : String) : List (List Char) := ['"'] :: runs [] s.toList ++ [['"']]

/-- A line break before a part, with a comma if it is not the first one. -/
def breakPieces (first : Bool) (depth : Nat) : List (List Char) :=
  (if first then ['\n'] else [',', '\n']) :: List.replicate depth [' ', ' ']

/-- The closing bracket stands alone on a line if there are parts. -/
def closePieces (empty : Bool) (depth : Nat) (closing : Char) : List (List Char) :=
  (if empty then [] else breakPieces true depth) ++ [[closing]]

mutual
def prettyPieces (depth : Nat) : Json → List (List Char)
  | .null => ["null".toList]
  | .bool b => [(if b then "true" else "false").toList]
  | .number l => [l.toList]
  | .string s => quotePieces s
  | .array xs => ['['] :: itemPieces (depth + 1) true xs ++ closePieces xs.isEmpty depth ']'
  | .object ms =>
    ['\x7b'] :: memberPieces (depth + 1) true ms ++ closePieces ms.isEmpty depth '\x7d'

def itemPieces (depth : Nat) (first : Bool) : List Json → List (List Char)
  | [] => []
  | x :: xs => breakPieces first depth ++ prettyPieces depth x ++ itemPieces depth false xs

def memberPieces (depth : Nat) (first : Bool) : List (String × Json) → List (List Char)
  | [] => []
  | (k, x) :: ms =>
    breakPieces first depth ++ quotePieces k ++ [':', ' '] :: prettyPieces depth x ++
      memberPieces depth false ms
end

def render (j : Json) : String := String.ofList j.compact

def renderPretty (j : Json) : String := String.ofList (j.pretty 0)

end Json

end SuiteRunner
