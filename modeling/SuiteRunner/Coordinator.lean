import SuiteRunner.Config.Validation
import SuiteRunner.Discovery
import SuiteRunner.Dispatch.Simulation
import SuiteRunner.Transport.Listener

/-! # One whole run

Tests are found first, then the worker is awaited, then all suites are dispatched. What goes wrong
before the first suite leaves nothing to report; what goes wrong later is part of the report. -/
namespace SuiteRunner

/-- Why there is no listener, with what the system gives as the cause. -/
inductive ListenFault where
  | bind (cause : String)
  | localAddress (cause : String)
deriving DecidableEq, Repr, Inhabited

def ListenFault.addressTaken : ListenFault := .bind "Address already in use (os error 98)"

/-- What the listener sees within the window. -/
inductive Arrival where
  | nobody
  /-- The listener stops by itself. -/
  | stopped
  | worker (behaviour : Dispatch.Behaviour)
deriving Inhabited

/-- The world in which a run takes place. -/
structure Surroundings where
  files : FileSystem := {}
  /-- What the disk can still take, without a bound if absent. -/
  room : Option Nat := none
  /-- Why nobody can listen at the address, if so. -/
  listenFault : Option ListenFault := none
  arrival : Arrival := .nobody
  start : Moment := default
deriving Inhabited

def Surroundings.cwd (s : Surroundings) : Path :=
  ⟨match s.files.cwd with
    | [] => [Path.slash]
    | names => names.flatMap (Path.slash :: ·)⟩

/-- A later moment, in milliseconds. -/
def Moment.after (m : Moment) (ms : Nat) : Moment where
  date := ⟨m.date.seconds + (ms / 1000 : Nat), m.date.nanos + ms % 1000 * 1000000⟩
  ticks := m.ticks + ms * 1000000

namespace Coordinator

inductive Fault where
  | invalid (cause : SettingFault)
  | discovery (root : Path) (cause : DiscoveryFault)
  | listen (address : String) (cause : ListenFault)
  | accept (cause : Transport.Listener.AcceptFault)
deriving DecidableEq, Repr

def Fault.message : Fault → String
  | .invalid cause => "Configuration validation failed: " ++ cause.message
  | .discovery root cause => "Test discovery failed under " ++ root.display ++ ": " ++ cause.message
  | .listen address (.bind cause) =>
    "Failed to bind worker listener on " ++ address ++ ": " ++ cause
  | .listen _ (.localAddress cause) => "Failed to read listener address: " ++ cause
  | .accept cause => cause.message

/-- What a run printed and sent, how long it took and how it ended. There is no result as long as
tests are dispatched. -/
structure Outcome where
  console : String := ""
  requests : List String := []
  elapsed : Nat := 0
  result : Option (Except Fault Summary)
deriving Repr, Inhabited

/-- Why a traversal that ended early did so. -/
def abortCause? : Dispatch.Ending → Option String
  | .completed => none
  | .aborted fault => some fault.message
  | .unencodable id => some (Wire.Request.encodeFault id)
  | .broken assertion => some assertion

def conclude (s : Summary) (now : Moment) (e : Dispatch.Ending) : Summary :=
  match abortCause? e with
  | none => s.finish now
  | some cause => s.abort now cause

def foundLines (total : Nat) : String :=
  "Found " ++ Text.decimal total ++ " tests\n\nRunning tests\n"

/-- The dispatcher at the outset. -/
def dispatcher (c : Config) (w : Surroundings) (m : Manifest) : Dispatch.Dispatcher :=
  { settings := c.dispatch, total := m.total, summary := .start w.start, cwd := w.cwd }

/-- Dispatches all tests to a worker that is connected. -/
def dispatch (c : Config) (w : Surroundings) (m : Manifest) (worker : Dispatch.Behaviour)
    (printed : String) : Outcome :=
  let inputs := worker (dispatcher c w m) m.root
  let d := (dispatcher c w m).run 0 m.root inputs
  let elapsed := (inputs.getLast?.map (·.1)).getD 0
  { console :=
      printed ++ "Worker connected from: worker\n\n" ++ Dispatch.consoleText d.console
    requests := d.sent
    elapsed
    result := d.ending?.map fun e => .ok (conclude d.summary (w.start.after elapsed) e) }

/-- Listens for the worker and dispatches once it is there. -/
def serve (c : Config) (w : Surroundings) (m : Manifest) (printed : String) : Outcome :=
  match w.listenFault with
  | some cause =>
    { console := printed
      result := some (.error (.listen c.server.bindAddress cause)) }
  | none =>
    let printed := printed ++ "Server is listening on " ++ c.server.bindAddress ++ "\n"
    match w.arrival with
    | .worker behaviour => dispatch c w m behaviour printed
    | .stopped => { console := printed, result := some (.error (.accept .stopped)) }
    | .nobody =>
      { console := printed
        elapsed := c.server.connectTimeout
        result := some (.error (.accept (.timedOut (.connectionTimeout c.server.connectSpan)))) }

/-- A run with settings that make sense. -/
def runChecked (c : Config) (root : Path) (w : Surroundings) : Outcome :=
  let printed := "Searching tests\n"
  match Discovery.discover w.files c.discovery root with
  | .error cause => { console := printed, result := some (.error (.discovery root cause)) }
  | .ok m => serve c w m (printed ++ foundLines m.total)

def run (c : Config) (root : Path) (w : Surroundings) : Outcome :=
  match c.check with
  | .error cause => { result := some (.error (.invalid cause)) }
  | .ok _ => runChecked c root w

end Coordinator

end SuiteRunner
