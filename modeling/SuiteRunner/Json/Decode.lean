import SuiteRunner.Json.Node
import SuiteRunner.Json.Numeric
import SuiteRunner.Json.Value

/-! # Reading expected shapes out of documents

Every reader goes through its part of a document in the order of the text and reports the first
fault it meets. -/
namespace SuiteRunner.Json

inductive Fault where
  | truncated
  | malformed
  /-- The text is fine so far but does not say what is wanted. -/
  | mismatched
deriving DecidableEq, Repr, Inhabited

def Stop.fault : Stop → Fault
  | .truncated => .truncated
  | .malformed => .malformed

def Cut.fault (c : Cut) : Fault := c.reading.fault

/-- Nothing is wrong with a container that was closed. -/
def checkEnding : Option Cut → Except Fault Unit
  | none => .ok ()
  | some c => .error c.fault

/-! ## Whole values -/

mutual
/-- Passes over a value that nobody asked for. -/
def Node.skip : Node → Except Fault Unit
  | .cut c => .error c.passing.fault
  | .array items ending => do
    skipItems items
    skipEnding ending
  | .object members ending => do
    skipMembers members
    skipEnding ending
  | .null | .bool _ | .number _ | .string _ => .ok ()

def skipItems : List Node → Except Fault Unit
  | [] => .ok ()
  | n :: ns => do
    n.skip
    skipItems ns

def skipMembers : List (Option String × Node) → Except Fault Unit
  | [] => .ok ()
  | (_, n) :: ns => do
    n.skip
    skipMembers ns

def skipEnding : Option Cut → Except Fault Unit
  | none => .ok ()
  | some c => .error c.passing.fault
end

/-- The text of a string whose escapes are whole characters. -/
def wholeString : Option String → Except Fault String
  | some s => .ok s
  | none => .error .malformed

mutual
/-- Takes in a value, with at most `depth - 1` containers around any part of it. -/
def Node.value (depth : Nat) : Node → Except Fault Json
  | .cut c => .error c.fault
  | .null => .ok .null
  | .bool b => .ok (.bool b)
  | .number literal =>
    if (Numeric.ofChars? literal).isSome then .ok (.number (String.ofList literal))
    else .error .malformed
  | .string s => do .ok (.string (← wholeString s))
  | .array items ending =>
    if depth ≤ 1 then .error .malformed
    else do
      let xs ← valueItems (depth - 1) items
      checkEnding ending
      .ok (.array xs)
  | .object members ending =>
    if depth ≤ 1 then .error .malformed
    else do
      let xs ← valueMembers (depth - 1) members
      checkEnding ending
      .ok (.object xs)

def valueItems (depth : Nat) : List Node → Except Fault (List Json)
  | [] => .ok []
  | n :: ns => do
    let x ← n.value depth
    let xs ← valueItems depth ns
    .ok (x :: xs)

def valueMembers (depth : Nat) : List (Option String × Node) → Except Fault (List (String × Json))
  | [] => .ok []
  | (k, n) :: ns => do
    let key ← wholeString k
    let x ← n.value depth
    let xs ← valueMembers depth ns
    .ok ((key, x) :: xs)
end

/-! ## Single values -/

/-- The fault of a value that has the wrong kind: its own, if it has one, and a mismatch otherwise.
Containers are not looked into. -/
def Node.mismatch : Node → Fault
  | .cut c => c.fault
  | .number literal => if (Numeric.ofChars? literal).isSome then .mismatched else .malformed
  | .string none => .malformed
  | _ => .mismatched

def Node.toNat : Node → Except Fault Nat
  | .number literal =>
    match Numeric.ofChars? literal with
    | some (.natural n) => .ok n
    | some _ => .error .mismatched
    | none => .error .malformed
  | n => .error n.mismatch

def Node.toDouble : Node → Except Fault Binary64
  | .number literal =>
    match Numeric.ofChars? literal with
    | some (.natural n) => .ok (.ofNat n)
    | some (.negative n) => .ok (Binary64.neg (.ofNat n))
    | some (.double x) => .ok x
    | none => .error .malformed
  | n => .error n.mismatch

def Node.toBool : Node → Except Fault Bool
  | .bool b => .ok b
  | n => .error n.mismatch

def Node.toText : Node → Except Fault String
  | .string s => wholeString s
  | n => .error n.mismatch

/-- A value that may be `null`. -/
def Node.toOption {α : Type} (read : Node → Except Fault α) : Node → Except Fault (Option α)
  | .null => .ok none
  | n => do .ok (some (← read n))

def Node.toList {α : Type} (read : Node → Except Fault α) : Node → Except Fault (List α)
  | .array items ending => do
    let xs ← items.mapM read
    checkEnding ending
    .ok xs
  | n => .error n.mismatch

/-! ## Records -/

/-- How a record is filled: its fields in order, and what it takes to store the value of one of
them. -/
structure Shape (σ : Type) where
  names : List String
  /-- Whether a field is there already. -/
  has : σ → String → Bool
  store : σ → String → Node → Except Fault σ

/-- One named member. Unknown ones are passed over. -/
def Shape.member {σ : Type} (shape : Shape σ) (r : σ) (name : String) (n : Node) :
    Except Fault σ :=
  if name ∈ shape.names then
    if shape.has r name then .error .mismatched else shape.store r name n
  else do
    n.skip
    .ok r

def Shape.members {σ : Type} (shape : Shape σ) (r : σ) :
    List (Option String × Node) → Except Fault σ
  | [] => .ok r
  | (k, n) :: ns => do
    let name ← wholeString k
    let r ← shape.member r name n
    shape.members r ns

/-- Fields by position. An item too many makes the text malformed, one too few is a mismatch. -/
def Shape.items {σ : Type} (shape : Shape σ) (r : σ) :
    List String → List Node → Option Cut → Except Fault σ
  | [], [], ending => do
    checkEnding ending
    .ok r
  | [], _ :: _, _ => .error .malformed
  | _ :: _, [], ending => do
    checkEnding ending
    .error .mismatched
  | name :: names, n :: ns, ending => do
    let r ← shape.store r name n
    shape.items r names ns ending

/-- A record is an object with its fields as members, or an array of them in order. -/
def Shape.read {σ : Type} (shape : Shape σ) (empty : σ) : Node → Except Fault σ
  | .object members ending => do
    let r ← shape.members empty members
    checkEnding ending
    .ok r
  | .array items ending => shape.items empty shape.names items ending
  | n => .error n.mismatch

/-- A field that has to be there. -/
def required {α : Type} : Option α → Except Fault α
  | some a => .ok a
  | none => .error .mismatched

/-- Reads a text that is one value and nothing else. -/
def decode {α : Type} (read : Node → Except Fault α) (text : String) : Except Fault α := do
  let (node, rest) := readDocument text
  let a ← read node
  match rest with
  | .ok cs => if (skipSpace cs).isEmpty then .ok a else .error .malformed
  | .error c => .error c.fault

end SuiteRunner.Json
