import SuiteRunner.Suite
import SuiteRunner.Wire.Request

/-! # Test cases as the worker gets them

Files are sent by their absolute paths, which have to be valid text. -/
namespace SuiteRunner.Dispatch

/-- Why a file cannot be sent. -/
inductive FileFault where
  | emptyPath (file : Path)
  | notText (absolute : Path)
deriving DecidableEq, Repr, Inhabited

def FileFault.message : FileFault → String
  | .emptyPath file =>
    "Failed to resolve path: " ++ file.display ++ ": cannot make an empty path absolute"
  | .notText absolute => "Path is not valid UTF-8: " ++ absolute.display

def resolveFile (cwd file : Path) : Except FileFault Path :=
  match file.absolute? cwd with
  | none => .error (.emptyPath file)
  | some absolute =>
    if absolute.text?.isSome then .ok absolute else .error (.notText absolute)

def describeCase (cwd : Path) (c : TestCase) : Except FileFault Wire.Descriptor := do
  .ok ⟨c.name, ← c.files.mapM (resolveFile cwd)⟩

/-- Descriptors of all cases in order, or the fault of the first file that cannot be sent. -/
def describe (cwd : Path) (cases : List TestCase) : Except FileFault (List Wire.Descriptor) :=
  cases.mapM (describeCase cwd)

end SuiteRunner.Dispatch
