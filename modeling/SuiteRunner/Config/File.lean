import SuiteRunner.Config.Basic
import SuiteRunner.FileSystem
import SuiteRunner.Toml.Document

/-! # Settings from a file

Every setting that a file leaves out has its default, and what a file says beyond the settings is
ignored. A group of settings is a table, or an array of them in order. -/
namespace SuiteRunner.Config

open Toml (Value)

def text? : Value → Option String
  | .string s => some s
  | _ => none

def bool? : Value → Option Bool
  | .boolean b => some b
  | _ => none

/-- A whole number up to a limit. -/
def number? (limit : Nat) : Value → Option Nat
  | .integer i => if 0 ≤ i ∧ i.toNat ≤ limit then some i.toNat else none
  | _ => none

/-- The values of a group by name or by position. A date counts as a table without settings. -/
inductive Group where
  | named (members : List (String × Value))
  | listed (items : List Value)

def Group.ofValue : Value → Option Group
  | .table ms => some (.named ms)
  | .array vs => some (.listed vs)
  | .datetime _ => some (.named [])
  | _ => none

def Group.get? (g : Group) (index : Nat) (name : String) : Option Value :=
  match g with
  | .named ms => ms.lookup name
  | .listed vs => vs[index]?

/-- A setting that may be absent but not wrong. -/
def Group.getD {α : Type} (g : Group) (index : Nat) (name : String) (read : Value → Option α)
    (default : α) : Option α :=
  match g.get? index name with
  | none => some default
  | some v => read v

def Group.required {α : Type} (g : Group) (index : Nat) (name : String)
    (read : Value → Option α) : Option α :=
  (g.get? index name).bind read

def profile? (v : Value) : Option Profile := do
  let g ← Group.ofValue v
  some ⟨← g.required 0 "label" text?, ← g.required 1 "file" text?⟩

def profiles? : Value → Option (List Profile)
  | .array vs => vs.mapM profile?
  | _ => none

def discovery? (v : Value) : Option DiscoverySettings := do
  let g ← Group.ofValue v
  let d : DiscoverySettings := {}
  some {
    runtimeFile := ← g.getD 0 "runtime_file" text? d.runtimeFile
    testFile := ← g.getD 1 "test_file" text? d.testFile
    profiles := ← g.getD 2 "profiles" profiles? d.profiles }

def server? (v : Value) : Option ServerSettings := do
  let g ← Group.ofValue v
  let d : ServerSettings := {}
  some {
    host := ← g.getD 0 "host" text? d.host
    port := ← g.getD 1 "port" (number? 65535) d.port
    connectTimeout := ← g.getD 2 "connect_timeout_ms" (number? (Nat.pow 2 63)) d.connectTimeout }

def dispatch? (v : Value) : Option DispatchSettings := do
  let g ← Group.ofValue v
  let d : DispatchSettings := {}
  some {
    batchTimeout := ← g.getD 0 "batch_timeout_ms" (number? (Nat.pow 2 63)) d.batchTimeout
    continueOnTimeout := ← g.getD 1 "continue_on_batch_timeout" bool? d.continueOnTimeout }

/-- The report file has no default of its own, so that it cannot be left out of a list. -/
def jsonOutput? : Group → Option (Option Path)
  | .named ms =>
    match ms.lookup "json_output" with
    | none => some none
    | some v => (text? v).map fun s => some (.ofString s)
  | .listed vs => (vs.head?.bind text?).map fun s => some (.ofString s)

def output? (v : Value) : Option OutputSettings := do
  let g ← Group.ofValue v
  some { jsonOutput := ← jsonOutput? g, debug := ← g.getD 1 "debug" bool? false }

def ofValue? (v : Value) : Option Config := do
  let g ← Group.ofValue v
  some {
    discovery := ← g.getD 0 "discovery" discovery? {}
    server := ← g.getD 1 "server" server? {}
    dispatch := ← g.getD 2 "dispatch" dispatch? {}
    output := ← g.getD 3 "output" output? {} }

/-- Settings as spelled in a text. -/
def read? (text : String) : Option Config := (Toml.read? text).bind ofValue?

/-! ## Files -/

inductive FileFault where
  | unreadable (file : Path) (cause : FileSystem.Fault)
  | notText (file : Path)
  | malformed (file : Path)
deriving DecidableEq, Repr, Inhabited

def readFault : String := "Failed to parse TOML configuration"

def FileFault.message : FileFault → String
  | .unreadable file cause =>
    "Failed to read config file: " ++ file.display ++ ": " ++ cause.message
  | .notText file =>
    "Failed to read config file: " ++ file.display ++ ": stream did not contain valid UTF-8"
  | .malformed file => "Failed to parse config file: " ++ file.display ++ ": " ++ readFault

def ofFile (fs : FileSystem) (file : Path) : Except FileFault Config :=
  match fs.contentAt file with
  | .error cause => .error (.unreadable file cause)
  | .ok bytes =>
    match Text.Utf8.decode? bytes with
    | none => .error (.notText file)
    | some text =>
      match read? text with
      | none => .error (.malformed file)
      | some c => .ok c

end SuiteRunner.Config
