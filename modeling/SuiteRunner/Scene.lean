import SuiteRunner.Coordinator
import SuiteRunner.Json.Decode

/-! # Scenes

A scene is a JSON text that sets up the surroundings of a run. `files` holds the entries of the file
system by path: a text for a file, `null` for a directory, an array with a path for a link. `worker`
holds the steps of the worker, such as `["receive"]` and `["sleep", 30]`. All parts can be left out. -/
namespace SuiteRunner.Scene

open Dispatch (AnswerPlan WorkerStep)

def number? (literal : String) : Option Nat := (Text.readUnsigned word64 literal.toList).toOption

def plan? : List Json → Option AnswerPlan
  | [] => some {}
  | [.string suffix] => some { failSuffix := some suffix }
  | [.string suffix, .string message] => some { failSuffix := some suffix, message := some message }
  | _ => none

def step? : Json → Option WorkerStep
  | .array [.string "receive"] => some .receive
  | .array [.string "send", .string frame] => some (.send frame)
  | .array (.string "answer" :: plan) => (plan? plan).map .answer
  | .array (.string "serve" :: plan) => (plan? plan).map .serve
  | .array [.string "sleep", .number ms] => (number? ms).map .sleep
  | .array [.string "closeInbound"] => some .closeInbound
  | .array [.string "closeOutbound"] => some .closeOutbound
  | _ => none

/-- Adds an entry along with the directories above it. -/
def addEntry? (fs : FileSystem) : String × Json → Option FileSystem
  | (name, .null) => (fs.makeDirectories (.ofString name)).toOption
  | (name, .string content) => do
    let fs ← (fs.makeDirectories (Path.ofString name).parent).toOption
    (fs.store (.ofString name) (Text.Utf8.encode content)).toOption
  | (name, .array [.string target]) => do
    let fs ← (fs.makeDirectories (Path.ofString name).parent).toOption
    (fs.makeLink (.ofString name) (.ofString target)).toOption
  | _ => none

def addMember? (w : Surroundings) : String × Json → Option Surroundings
  | ("files", .object entries) => do some { w with files := ← entries.foldlM addEntry? w.files }
  | ("worker", .array steps) => do
    some { w with arrival := .worker (.scripted (← steps.mapM step?)) }
  | ("addressTaken", .bool b) =>
    some { w with listenFault := if b then some .addressTaken else none }
  | ("room", .number n) => do some { w with room := some (← number? n) }
  | _ => none

/-- Containers of a scene are nested at most so deep. -/
def depth : Nat := 8

def read? (text : String) : Option Surroundings :=
  match Json.decode (Json.Node.value depth) text with
  | .ok (.object members) => members.foldlM addMember? {}
  | _ => none

end SuiteRunner.Scene
