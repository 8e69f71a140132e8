import SuiteRunner.Path
import SuiteRunner.Text.Numeral
import SuiteRunner.Time.Span

/-! # Settings of a run -/
namespace SuiteRunner

/-- A variant of a leaf test: the file that holds it and the label its test case is named by. -/
structure Profile where
  label : String
  file : String
deriving DecidableEq, Repr, Inhabited

/-- Which directories are leaves and which test cases they hold. -/
structure DiscoverySettings where
  runtimeFile : String := "runtime.js"
  testFile : String := "test.js"
  profiles : List Profile :=
    [⟨"simple", "test.js"⟩, ⟨"minified", "test-min.js"⟩, ⟨"optimized", "test-optimized.js"⟩]
deriving DecidableEq, Repr, Inhabited

/-- Where the worker is awaited, and for how many milliseconds. -/
structure ServerSettings where
  host : String := "localhost"
  port : Nat := 9090
  connectTimeout : Nat := 15000
deriving DecidableEq, Repr, Inhabited

/-- For how many milliseconds a batch may be silent, and whether the run then goes on. -/
structure DispatchSettings where
  batchTimeout : Nat := 10000
  continueOnTimeout : Bool := false
deriving DecidableEq, Repr, Inhabited

structure OutputSettings where
  jsonOutput : Option Path := none
  debug : Bool := false
deriving DecidableEq, Repr, Inhabited

structure Config where
  discovery : DiscoverySettings := {}
  server : ServerSettings := {}
  dispatch : DispatchSettings := {}
  output : OutputSettings := {}
deriving DecidableEq, Repr, Inhabited

def ServerSettings.connectSpan (s : ServerSettings) : Span := .ofMillis s.connectTimeout

def DispatchSettings.batchSpan (d : DispatchSettings) : Span := .ofMillis d.batchTimeout

def ServerSettings.bindAddress (s : ServerSettings) : String :=
  s.host ++ ":" ++ Text.decimal s.port

/-! ## Texts -/

def Profile.text (p : Profile) : String := p.label ++ ":" ++ p.file

def DiscoverySettings.text (d : DiscoverySettings) : String :=
  "runtime=" ++ d.runtimeFile ++ ", test=" ++ d.testFile ++ ", profiles=[" ++
    ", ".intercalate (d.profiles.map Profile.text) ++ "]"

def ServerSettings.text (s : ServerSettings) : String :=
  s.bindAddress ++ ", connect_timeout=" ++ Text.decimal s.connectTimeout ++ "ms"

def DispatchSettings.text (d : DispatchSettings) : String :=
  "batch_timeout=" ++ Text.decimal d.batchTimeout ++ "ms" ++
    (if d.continueOnTimeout then ", continue_on_batch_timeout" else "")

def Config.text (c : Config) : String :=
  "Configuration:\n" ++ "  Discovery: " ++ c.discovery.text ++ "\n" ++
    "  Server: " ++ c.server.text ++ "\n" ++ "  Dispatch: " ++ c.dispatch.text ++ "\n"

end SuiteRunner
