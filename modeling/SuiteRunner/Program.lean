import SuiteRunner.Config.CommandLine
import SuiteRunner.Coordinator
import SuiteRunner.Report.File
import SuiteRunner.Report.Text

/-! # The command

From a command line to what is printed, the exit status and the files left behind. -/
namespace SuiteRunner.Program

inductive Fault where
  | options (cause : Options.Fault)
  | build (cause : Options.BuildFault)
  | run (cause : Coordinator.Fault)
  | report (cause : Report.WriteFault)
deriving DecidableEq, Repr

def Fault.message : Fault → String
  | .options cause => cause.message
  | .build cause => cause.message
  | .run cause => cause.message
  | .report cause => cause.message

structure Outcome where
  /-- Absent as long as the run goes on. -/
  exitCode : Option Nat
  console : String
  requests : List String := []
  elapsed : Nat := 0
  files : FileSystem
deriving Repr, Inhabited

def errorLine (f : Fault) : String := "Error: " ++ f.message ++ "\n"

/-- The settings that a command line leads to. -/
def configure (o : Options) (files : FileSystem) : Except Fault Config := do
  match o.check with
  | .error cause => .error (.options cause)
  | .ok _ =>
    match o.build files with
    | .error cause => .error (.build cause)
    | .ok c => .ok c

/-- Writes the report to a file if one is wanted. -/
def saveReport (c : Config) (s : Summary) (w : Surroundings) (now : Moment) :
    FileSystem × Except Fault String :=
  match c.output.jsonOutput with
  | none => (w.files, .ok "")
  | some file =>
    match (Report.ofSummary s now).save w.files w.room file with
    | (files, .ok _) => (files, .ok ("JSON report written to: " ++ file.display ++ "\n"))
    | (files, .error cause) => (files, .error (.report cause))

/-- Prints the report and writes it to a file if one is wanted. -/
def finish (c : Config) (s : Summary) (w : Surroundings) (out : Coordinator.Outcome) : Outcome :=
  let now := w.start.after out.elapsed
  let printed := out.console ++ s.report now
  let (files, saved) := saveReport c s w now
  let base : Outcome :=
    { exitCode := some 1
      console := printed
      requests := out.requests
      elapsed := out.elapsed
      files }
  match saved with
  | .ok line => { base with exitCode := some s.exitCode, console := printed ++ line }
  | .error fault => { base with console := printed ++ errorLine fault }

def runOptions (o : Options) (w : Surroundings) : Outcome :=
  match configure o w.files with
  | .error fault => { exitCode := some 1, console := errorLine fault, files := w.files }
  | .ok c =>
    let out := Coordinator.run c o.root w
    let base : Outcome :=
      { exitCode := none
        console := out.console
        requests := out.requests
        elapsed := out.elapsed
        files := w.files }
    match out.result with
    | none => base
    | some (.ok s) => finish c s w out
    | some (.error cause) =>
      { base with exitCode := some 1, console := out.console ++ errorLine (.run cause) }

/-- The whole command; `env` names a configuration file from the environment. -/
def run (args : List String) (env : Option String) (w : Surroundings) : Outcome :=
  match CommandLine.parse args env with
  | .error stop =>
    { exitCode := some stop.exitCode, console := CommandLine.Stop.text env stop, files := w.files }
  | .ok o => runOptions o w

end SuiteRunner.Program
