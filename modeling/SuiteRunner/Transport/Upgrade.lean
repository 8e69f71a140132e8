import SuiteRunner.Text.Blank

/-! # Requests to the listener

Only a request to switch to the WebSocket protocol is of interest. -/
namespace SuiteRunner.Transport

/-- The head of a request; header names in lower case. -/
structure RequestHead where
  method : String
  version : String
  headers : List (String × String)
deriving DecidableEq, Repr, Inhabited

namespace RequestHead

def lowerAscii (s : String) : String := String.ofList (s.toList.map Char.toLower)

def header? (r : RequestHead) (name : String) : Option String := r.headers.lookup name

/-- Whether `needle` occurs in `cs`. -/
def contains (needle : List Char) : List Char → Bool
  | [] => needle.isEmpty
  | c :: cs => needle.isPrefixOf (c :: cs) || contains needle cs

def headerContains (r : RequestHead) (name word : String) : Bool :=
  (r.header? name).any fun v => contains word.toList (lowerAscii v).toList

def headerIs (r : RequestHead) (name word : String) : Bool :=
  (r.header? name).any fun v => lowerAscii v = word

/-- A request to go on as a WebSocket. -/
def isUpgrade (r : RequestHead) : Bool :=
  r.method = "GET" && r.version = "HTTP/1.1" && r.headerContains "connection" "upgrade" &&
    r.headerIs "upgrade" "websocket" && r.header? "sec-websocket-version" = some "13" &&
    (r.header? "sec-websocket-key").isSome

/-! ## Reading -/

/-- The lines of a request head, up to the empty one. -/
def headLines (s : String) : List String :=
  ((s.splitOn "\n").map fun l => if l.endsWith "\r" then String.ofList l.toList.dropLast else l)
    |>.takeWhile (· ≠ "")

def isTokenChar (c : Char) : Bool := c.isAlphanum || c ∈ "!#$%&'*+-.^_`|~".toList

def isToken (cs : List Char) : Bool := !cs.isEmpty && cs.all isTokenChar

def readHeader (line : String) : Option (String × String) :=
  let name := line.toList.takeWhile (· ≠ ':')
  match line.toList.dropWhile (· ≠ ':') with
  | ':' :: value =>
    if isToken name then
      some (lowerAscii (String.ofList name), String.ofList (Text.trim value))
    else none
  | _ => none

def readStart (line : String) : Option (String × String) :=
  match line.splitOn " " with
  | [method, target, version] =>
    if isToken method.toList && !target.isEmpty && (version = "HTTP/1.1" || version = "HTTP/1.0")
    then some (method, version)
    else none
  | _ => none

/-- A request head, if the text is one. -/
def read? (s : String) : Option RequestHead :=
  match headLines s with
  | [] => none
  | start :: rest => do
    let (method, version) ← readStart start
    some ⟨method, version, ← rest.mapM readHeader⟩

end RequestHead

end SuiteRunner.Transport
