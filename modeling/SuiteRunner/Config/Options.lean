import SuiteRunner.Config.Duration
import SuiteRunner.Config.File
import SuiteRunner.Text.Blank

/-! # Settings given on the command line

They take precedence over those of a configuration file, and those over the defaults. -/
namespace SuiteRunner

/-- What a command line asks for. Durations are kept as written. -/
structure Options where
  root : Path
  config : Option Path := none
  host : Option String := none
  port : Option Nat := none
  connectTimeout : Option String := none
  batchTimeout : Option String := none
  continueOnTimeout : Bool := false
  jsonOutput : Option Path := none
  debug : Bool := false
deriving DecidableEq, Repr, Inhabited

namespace Options

inductive Fault where
  | noHost
  | badDuration (cause : DurationFault)
deriving DecidableEq, Repr

def Fault.message : Fault → String
  | .noHost => "--host must not be empty"
  | .badDuration cause => cause.fullMessage

def checkDuration : Option String → Except Fault Unit
  | none => .ok ()
  | some s =>
    match Duration.parse s with
    | .ok _ => .ok ()
    | .error cause => .error (.badDuration cause)

/-- The first fault that can be told without looking at files. -/
def check (o : Options) : Except Fault Unit := do
  if o.host.any Text.blank then .error .noHost
  checkDuration o.connectTimeout
  checkDuration o.batchTimeout

/-! ## Merging -/

inductive MergeFault where
  | connectTimeout (cause : DurationFault)
  | batchTimeout (cause : DurationFault)
deriving DecidableEq, Repr

def MergeFault.cause : MergeFault → DurationFault
  | .connectTimeout cause => cause
  | .batchTimeout cause => cause

def MergeFault.message : MergeFault → String
  | .connectTimeout cause => "Invalid connect timeout: " ++ cause.fullMessage
  | .batchTimeout cause => "Invalid batch timeout: " ++ cause.fullMessage

/-- A duration if one is given, and what there was before otherwise. -/
def mergeDuration (context : DurationFault → MergeFault) (given : Option String) (base : Nat) :
    Except MergeFault Nat :=
  match given with
  | none => .ok base
  | some s =>
    match Duration.parse s with
    | .ok ms => .ok (Span.ofMillis ms).toMillis
    | .error cause => .error (context cause)

def merge (o : Options) (base : Config) : Except MergeFault Config := do
  let connectTimeout ← mergeDuration .connectTimeout o.connectTimeout base.server.connectTimeout
  let batchTimeout ← mergeDuration .batchTimeout o.batchTimeout base.dispatch.batchTimeout
  .ok { base with
    server :=
      { host := o.host.getD base.server.host
        port := o.port.getD base.server.port
        connectTimeout }
    dispatch :=
      { batchTimeout
        continueOnTimeout := o.continueOnTimeout || base.dispatch.continueOnTimeout }
    output :=
      { jsonOutput := o.jsonOutput.or base.output.jsonOutput
        debug := o.debug || base.output.debug } }

inductive BuildFault where
  | file (cause : Config.FileFault)
  | merging (cause : MergeFault)
deriving DecidableEq, Repr

def BuildFault.message : BuildFault → String
  | .file cause => cause.message
  | .merging cause => cause.message

/-- The settings in force: those of the configuration file, if one is named, with those of the
command line on top. -/
def build (o : Options) (fs : FileSystem) : Except BuildFault Config := do
  let base ← match o.config with
    | none => .ok {}
    | some file =>
      match Config.ofFile fs file with
      | .ok c => .ok c
      | .error cause => .error (.file cause)
  match o.merge base with
  | .ok c => .ok c
  | .error cause => .error (.merging cause)

end Options

end SuiteRunner
