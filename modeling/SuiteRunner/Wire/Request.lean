import SuiteRunner.Json.Decode
import SuiteRunner.Path

/-! # Batch requests

A request is one JSON object, for instance
`{"id":0,"tests":[{"name":"bar simple","files":["/abs/runtime.js","/abs/test.js"]}]}`. -/
namespace SuiteRunner.Wire

/-- One test of a request, with its input files in load order. -/
structure Descriptor where
  name : String
  files : List Path
deriving DecidableEq, Repr, Inhabited

/-- The tests of one suite. Results refer to them by their index. -/
structure Request where
  id : Nat
  tests : List Descriptor
deriving DecidableEq, Repr, Inhabited

/-! ## Writing -/

/-- Only paths that are valid text have a JSON form. -/
def Descriptor.toJson? (t : Descriptor) : Option Json := do
  let files ← t.files.mapM Path.text?
  some (.object [("name", .string t.name), ("files", .array (files.map .string))])

def Request.toJson? (r : Request) : Option Json := do
  let tests ← r.tests.mapM Descriptor.toJson?
  some (.object [("id", .nat r.id), ("tests", .array tests)])

/-- The frame of a request, unless some file has no JSON form. -/
def Request.encode? (r : Request) : Option String := r.toJson?.map Json.render

def Request.encodeFault (id : Nat) : String := "Failed to serialize batch " ++ Text.decimal id

/-! ## Reading -/

open Json (Node Fault Shape required)

structure DescriptorDraft where
  name : Option String := none
  files : Option (List Path) := none

def descriptorShape : Shape DescriptorDraft where
  names := ["name", "files"]
  has d name := if name = "name" then d.name.isSome else d.files.isSome
  store d name n :=
    if name = "name" then do .ok { d with name := some (← n.toText) }
    else do .ok { d with files := some ((← n.toList Node.toText).map Path.ofString) }

def Descriptor.ofNode (n : Node) : Except Fault Descriptor := do
  let d ← descriptorShape.read {} n
  .ok ⟨← required d.name, ← required d.files⟩

structure RequestDraft where
  id : Option Nat := none
  tests : Option (List Descriptor) := none

def requestShape : Shape RequestDraft where
  names := ["id", "tests"]
  has d name := if name = "id" then d.id.isSome else d.tests.isSome
  store d name n :=
    if name = "id" then do .ok { d with id := some (← n.toNat) }
    else do .ok { d with tests := some (← n.toList Descriptor.ofNode) }

def Request.ofNode (n : Node) : Except Fault Request := do
  let d ← requestShape.read {} n
  .ok ⟨← required d.id, ← required d.tests⟩

def Request.decode (frame : String) : Except Fault Request := Json.decode Request.ofNode frame

def Request.decodeFault : String := "Failed to deserialize batch request"

end SuiteRunner.Wire
