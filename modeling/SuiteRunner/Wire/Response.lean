import SuiteRunner.Json.Decode

/-! # Results of single tests

A response is one JSON object, for instance
`{"id":0,"index":2,"result":{"status":"failed","errorMessage":"boom"}}`. -/
namespace SuiteRunner.Wire

/-- What became of a test. -/
inductive Verdict where
  | ok
  | failed (message : Option String)
deriving DecidableEq, Repr, Inhabited

/-- The verdict on the test at `index` of the batch `id`. -/
structure Response where
  id : Nat
  index : Nat
  verdict : Verdict
deriving DecidableEq, Repr, Inhabited

/-! ## Writing -/

def Verdict.toJson : Verdict → Json
  | .ok => .object [("status", .string "OK")]
  | .failed none => .object [("status", .string "failed")]
  | .failed (some m) => .object [("status", .string "failed"), ("errorMessage", .string m)]

def Response.toJson (r : Response) : Json :=
  .object [("id", .nat r.id), ("index", .nat r.index), ("result", r.verdict.toJson)]

def Response.encode (r : Response) : String := r.toJson.render

/-! ## Reading -/

open Json (Node Fault Shape required)

inductive Status where
  | ok
  | failed
deriving DecidableEq, Repr

def Status.ofNode (n : Node) : Except Fault Status := do
  match ← n.toText with
  | "OK" => .ok .ok
  | "failed" => .ok .failed
  | _ => .error .mismatched

/-- Containers open around the parts of a verdict, the response and the verdict among them, may not
exceed `127`. -/
def verdictDepth : Nat := 126

/-- The status and the other members of a verdict. -/
def verdictMembers (status : Option Status) :
    List (Option String × Node) → Except Fault (Option Status × List (String × Json))
  | [] => .ok (status, [])
  | (k, n) :: ns => do
    let name ← Json.wholeString k
    if name = "status" then
      if status.isSome then .error .mismatched
      else verdictMembers (some (← Status.ofNode n)) ns
    else
      let x ← n.value verdictDepth
      let (status, rest) ← verdictMembers status ns
      .ok (status, (name, x) :: rest)

def messageOfJson : Json → Except Fault (Option String)
  | .null => .ok none
  | .string s => .ok (some s)
  | _ => .error .mismatched

/-- The message among the members of a failed verdict, at most once. -/
def messageOfMembers (members : List (String × Json)) : Except Fault (Option String) :=
  match members.filter (·.1 = "errorMessage") with
  | [] => .ok none
  | [(_, x)] => messageOfJson x
  | _ => .error .mismatched

def Verdict.ofMembers (members : List (String × Json)) : Status → Except Fault Verdict
  | .ok => .ok .ok
  | .failed => do .ok (.failed (← messageOfMembers members))

def Verdict.ofItems : Status → List Json → Except Fault Verdict
  | .ok, [] => .ok .ok
  | .failed, [] => .ok (.failed none)
  | .failed, [x] => do .ok (.failed (← messageOfJson x))
  | _, _ => .error .mismatched

/-- A verdict is an object with a `status`, or an array that starts with one. The status decides
what else is looked at, but everything is read first. -/
def Verdict.ofNode : Node → Except Fault Verdict
  | .object members ending => do
    let (status, rest) ← verdictMembers none members
    Json.checkEnding ending
    Verdict.ofMembers rest (← required status)
  | .array (n :: ns) ending => do
    let status ← Status.ofNode n
    let rest ← Json.valueItems verdictDepth ns
    Json.checkEnding ending
    Verdict.ofItems status rest
  | .array [] ending => do
    Json.checkEnding ending
    .error .mismatched
  | n => .error n.mismatch

structure ResponseDraft where
  id : Option Nat := none
  index : Option Nat := none
  verdict : Option Verdict := none

def responseShape : Shape ResponseDraft where
  names := ["id", "index", "result"]
  has d name :=
    if name = "id" then d.id.isSome
    else if name = "index" then d.index.isSome
    else d.verdict.isSome
  store d name n :=
    if name = "id" then do .ok { d with id := some (← n.toNat) }
    else if name = "index" then do .ok { d with index := some (← n.toNat) }
    else do .ok { d with verdict := some (← Verdict.ofNode n) }

def Response.ofNode (n : Node) : Except Fault Response := do
  let d ← responseShape.read {} n
  .ok ⟨← required d.id, ← required d.index, ← required d.verdict⟩

def Response.decode (frame : String) : Except Fault Response := Json.decode Response.ofNode frame

def Response.decodeFault : String := "Failed to deserialize response"

end SuiteRunner.Wire
