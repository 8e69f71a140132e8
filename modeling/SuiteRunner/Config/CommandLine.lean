import SuiteRunner.Config.Options
import SuiteRunner.Text.Terminal

/-! # Reading the command line

Arguments are read from left to right. A value that stands apart from its option is looked at only
when the next argument makes sense, or at the end; so an argument that makes no sense goes first. -/
namespace SuiteRunner.CommandLine

inductive Fault where
  | missingRequired
  | unknownArgument
  | invalidValue
  | valueValidation
  | conflict
  | tooManyValues
deriving DecidableEq, Repr, Inhabited

/-- What ends the reading of a command line early. -/
inductive Stop where
  | fault (f : Fault)
  | help
  | version
deriving DecidableEq, Repr, Inhabited

/-- Usage faults have an exit status of their own. -/
def Stop.exitCode : Stop → Nat
  | .fault _ => 2
  | .help | .version => 0

/-- Arguments with a value. -/
inductive Slot where
  | root
  | config
  | host
  | port
  | connectTimeout
  | batchTimeout
  | jsonOutput
deriving DecidableEq, Repr

/-- Arguments without one. -/
inductive Switch where
  | continueOnTimeout
  | debug
  | help
  | version
deriving DecidableEq, Repr

inductive Known where
  | slot (s : Slot)
  | switch (s : Switch)
deriving DecidableEq, Repr

def longNames : List (String × Known) :=
  [("config", .slot .config), ("host", .slot .host), ("port", .slot .port),
    ("connect-timeout", .slot .connectTimeout), ("batch-timeout", .slot .batchTimeout),
    ("continue-on-batch-timeout", .switch .continueOnTimeout),
    ("json-output", .slot .jsonOutput), ("debug", .switch .debug), ("help", .switch .help),
    ("version", .switch .version)]

def shortNames : List (Char × Known) :=
  [('c', .slot .config), ('p', .slot .port), ('h', .switch .help), ('V', .switch .version)]

structure Draft where
  root : Option Path := none
  config : Option Path := none
  host : Option String := none
  port : Option Nat := none
  connectTimeout : Option String := none
  batchTimeout : Option String := none
  continueOnTimeout : Bool := false
  jsonOutput : Option Path := none
  debug : Bool := false
deriving Repr, Inhabited

/-- The reading so far: an argument may still wait for its value, or for a look at it. -/
structure State where
  draft : Draft := {}
  pending : Option (Slot × Option String) := none
  /-- A root was given, looked at or not. -/
  rooted : Bool := false
  /-- Only positional arguments follow. -/
  escaped : Bool := false
deriving Repr, Inhabited

def Draft.has (d : Draft) : Slot → Bool
  | .root => d.root.isSome
  | .config => d.config.isSome
  | .host => d.host.isSome
  | .port => d.port.isSome
  | .connectTimeout => d.connectTimeout.isSome
  | .batchTimeout => d.batchTimeout.isSome
  | .jsonOutput => d.jsonOutput.isSome

def pathValue (v : String) : Except Stop Path :=
  if v.isEmpty then .error (.fault .invalidValue) else .ok (.ofString v)

/-- A port may be written with either sign, so the only one with a minus is zero. -/
def portValue (v : String) : Except Stop Nat :=
  match Text.readSigned v.toList with
  | some n => if 0 ≤ n ∧ n < 65536 then .ok n.toNat else .error (.fault .valueValidation)
  | none => .error (.fault .valueValidation)

/-- Stores a value; no argument may be given twice. -/
def Draft.assign (d : Draft) (s : Slot) (v : String) : Except Stop Draft :=
  if d.has s then .error (.fault .conflict)
  else
    match s with
    | .root => do .ok { d with root := some (← pathValue v) }
    | .config => do .ok { d with config := some (← pathValue v) }
    | .host => .ok { d with host := some v }
    | .port => do .ok { d with port := some (← portValue v) }
    | .connectTimeout => .ok { d with connectTimeout := some v }
    | .batchTimeout => .ok { d with batchTimeout := some v }
    | .jsonOutput => do .ok { d with jsonOutput := some (← pathValue v) }

/-- Looks at the argument that waits. -/
def State.resolve (st : State) : Except Stop State :=
  match st.pending with
  | none => .ok st
  | some (_, none) => .error (.fault .invalidValue)
  | some (s, some v) => do .ok { st with draft := ← st.draft.assign s v, pending := none }

def State.await (st : State) (s : Slot) : Except Stop State := do
  .ok { ← st.resolve with pending := some (s, none) }

def State.attach (st : State) (s : Slot) (v : String) : Except Stop State := do
  let st ← st.resolve
  .ok { st with draft := ← st.draft.assign s v }

def State.setSwitch (st : State) (s : Switch) : Except Stop State := do
  let st ← st.resolve
  match s with
  | .help => .error .help
  | .version => .error .version
  | .continueOnTimeout =>
    if st.draft.continueOnTimeout then .error (.fault .conflict)
    else .ok { st with draft := { st.draft with continueOnTimeout := true } }
  | .debug =>
    if st.draft.debug then .error (.fault .conflict)
    else .ok { st with draft := { st.draft with debug := true } }

def State.positional (st : State) (v : String) : Except Stop State :=
  if st.rooted then .error (.fault .unknownArgument)
  else do .ok { ← st.resolve with pending := some (.root, some v), rooted := true }

/-- A name and what follows the first `=`. -/
def splitAssignment (cs : List Char) : String × Option String :=
  (String.ofList (cs.takeWhile (· ≠ '=')),
    match cs.dropWhile (· ≠ '=') with
    | [] => none
    | _ :: v => some (String.ofList v))

def State.long (st : State) (cs : List Char) : Except Stop State :=
  let (name, value) := splitAssignment cs
  match longNames.lookup name, value with
  | none, _ => .error (.fault .unknownArgument)
  | some (.slot s), none => st.await s
  | some (.slot s), some v => st.attach s v
  | some (.switch s), none => st.setSwitch s
  | some (.switch _), some _ => .error (.fault .tooManyValues)

def attachedValue : List Char → String
  | '=' :: cs => String.ofList cs
  | cs => String.ofList cs

/-- Letters behind one hyphen; the first one that takes a value takes the rest. -/
def State.short : List Char → State → Except Stop State
  | [], st => .ok st
  | c :: cs, st =>
    match shortNames.lookup c with
    | none => .error (.fault .unknownArgument)
    | some (.switch s) => do State.short cs (← st.setSwitch s)
    | some (.slot s) => if cs.isEmpty then st.await s else st.attach s (attachedValue cs)

/-- A plain word is the value that is waited for, if any. -/
def State.plain (st : State) (v : String) : Except Stop State :=
  match st.pending with
  | some (s, none) => .ok { st with pending := some (s, some v) }
  | _ => st.positional v

def State.step (st : State) (arg : String) : Except Stop State :=
  if st.escaped then st.positional arg
  else
    match arg.toList with
    | ['-', '-'] => .ok { st with escaped := true }
    | '-' :: '-' :: cs => st.long cs
    | ['-'] => st.plain arg
    | '-' :: cs => State.short cs st
    | _ => st.plain arg

def State.steps : List String → State → Except Stop State
  | [], st => .ok st
  | arg :: args, st => do State.steps args (← st.step arg)

/-- Without an option for it the configuration file may come from the environment. -/
def Draft.addEnvironment (d : Draft) (env : Option String) : Except Stop Draft :=
  match d.config, env with
  | none, some v => d.assign .config v
  | _, _ => .ok d

def Draft.complete (d : Draft) : Except Stop Options :=
  match d.root with
  | none => .error (.fault .missingRequired)
  | some root =>
    .ok {
      root
      config := d.config
      host := d.host
      port := d.port
      connectTimeout := d.connectTimeout
      batchTimeout := d.batchTimeout
      continueOnTimeout := d.continueOnTimeout
      jsonOutput := d.jsonOutput
      debug := d.debug }

/-- Names a configuration file when no argument does. -/
def environmentVariable : String := "TESTRELAY_CONFIG"

/-- Arguments without the program's name; `env` is the value of the environment variable. -/
def parse (args : List String) (env : Option String) : Except Stop Options := do
  let st ← State.steps args {}
  let st ← st.resolve
  let d ← st.draft.addEnvironment env
  d.complete

/-! ## Texts -/

def versionText : String := "testrelay 0.1.0\n"

/-- The value in the environment is shown where the option is explained, its lines moved in as the
explanation is. -/
def environmentNote (env : Option String) : String :=
  "[env: " ++ environmentVariable ++ "=" ++
    "\n          ".intercalate ((env.getD "").splitOn "\n") ++ "]"

def helpText (env : Option String) : String :=
  "Batch test orchestrator that streams directory-discovered test suites to a remote " ++
  "WebSocket worker\n\nUsage: testrelay [OPTIONS] <ROOT>\n\nArguments:\n" ++
  "  <ROOT>  Root directory to scan for tests\n\nOptions:\n" ++
  "  -c, --config <CONFIG>\n" ++
  "          TOML configuration file (CLI flags take precedence) " ++
  environmentNote env ++ "\n" ++
  "      --host <HOST>\n" ++
  "          Host to listen on for the worker connection\n" ++
  "  -p, --port <PORT>\n" ++
  "          Port to listen on for the worker connection\n" ++
  "      --connect-timeout <CONNECT_TIMEOUT>\n" ++
  "          How long to wait for the worker to connect (e.g., 15s, 500ms)\n" ++
  "      --batch-timeout <BATCH_TIMEOUT>\n" ++
  "          Abort a batch after this long without any response (e.g., 10s, 2m)\n" ++
  "      --continue-on-batch-timeout\n" ++
  "          Record unanswered tests as failures and continue after a batch timeout\n" ++
  "      --json-output <JSON_OUTPUT>\n" ++
  "          Write the run summary as JSON to this file\n" ++
  "      --debug\n" ++
  "          Enable debug logging\n" ++
  "  -h, --help\n" ++
  "          Print help\n" ++
  "  -V, --version\n" ++
  "          Print version\n"

/-- What is printed instead of a run; usage faults say nothing on standard output. -/
def Stop.text (env : Option String) : Stop → String
  | .fault _ => ""
  | .help => Text.Terminal.plain (helpText env)
  | .version => versionText

end SuiteRunner.CommandLine
