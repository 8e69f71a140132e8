import SuiteRunner.Config.Basic
import SuiteRunner.Text.Blank

/-! # Which settings make sense -/
namespace SuiteRunner

open Text (blank)

inductive SettingFault where
  | noRuntimeFile
  | noTestFile
  | sameFiles (file : String)
  | noProfiles
  | noLabel (index : Nat)
  | noFile (index : Nat) (label : String)
  | runtimeAsProfile (index : Nat) (label file : String)
  | sameLabel (label : String)
  | noHost
  | noConnectTimeout
  | noBatchTimeout
deriving DecidableEq, Repr, Inhabited

def profilePlace (index : Nat) : String := "discovery.profiles[" ++ Text.decimal index ++ "]"

def SettingFault.message : SettingFault → String
  | .noRuntimeFile => "discovery.runtime_file must not be empty"
  | .noTestFile => "discovery.test_file must not be empty"
  | .sameFiles file =>
    "discovery.runtime_file and discovery.test_file must differ (both are '" ++ file ++ "')"
  | .noProfiles => "discovery.profiles must contain at least one profile"
  | .noLabel index => profilePlace index ++ ": label must not be empty"
  | .noFile index label => profilePlace index ++ " (" ++ label ++ "): file must not be empty"
  | .runtimeAsProfile index label file =>
    profilePlace index ++ " (" ++ label ++ "): file must not be the runtime file '" ++ file ++ "'"
  | .sameLabel label => "discovery.profiles: duplicate label '" ++ label ++ "'"
  | .noHost => "server.host must not be empty"
  | .noConnectTimeout => "server.connect_timeout_ms must be greater than 0"
  | .noBatchTimeout => "dispatch.batch_timeout_ms must be greater than 0"

/-- One profile, at its index and after the labels before it. -/
def Profile.check (runtimeFile : String) (index : Nat) (before : List String) (p : Profile) :
    Except SettingFault Unit :=
  if blank p.label then .error (.noLabel index)
  else if blank p.file then .error (.noFile index p.label)
  else if p.file = runtimeFile then .error (.runtimeAsProfile index p.label runtimeFile)
  else if p.label ∈ before then .error (.sameLabel p.label)
  else .ok ()

def checkProfiles (runtimeFile : String) (index : Nat) (before : List String) :
    List Profile → Except SettingFault Unit
  | [] => .ok ()
  | p :: ps => do
    p.check runtimeFile index before
    checkProfiles runtimeFile (index + 1) (before ++ [p.label]) ps

def DiscoverySettings.check (d : DiscoverySettings) : Except SettingFault Unit :=
  if blank d.runtimeFile then .error .noRuntimeFile
  else if blank d.testFile then .error .noTestFile
  else if d.runtimeFile = d.testFile then .error (.sameFiles d.runtimeFile)
  else if d.profiles.isEmpty then .error .noProfiles
  else checkProfiles d.runtimeFile 0 [] d.profiles

def ServerSettings.check (s : ServerSettings) : Except SettingFault Unit :=
  if blank s.host then .error .noHost
  else if s.connectTimeout = 0 then .error .noConnectTimeout
  else .ok ()

def DispatchSettings.check (d : DispatchSettings) : Except SettingFault Unit :=
  if d.batchTimeout = 0 then .error .noBatchTimeout else .ok ()

/-- The first fault of the settings, in their order. -/
def Config.check (c : Config) : Except SettingFault Unit := do
  c.discovery.check
  c.server.check
  c.dispatch.check

end SuiteRunner
