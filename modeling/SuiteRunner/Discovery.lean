import SuiteRunner.Config.Basic
import SuiteRunner.FileSystem
import SuiteRunner.Suite

/-! # Finding tests in a directory tree

A directory that holds both the runtime file and the test file is a leaf. Each profile file in a
leaf is a test case, named by the directory and the profile, in the suite of the directory around
it. All other directories are suites. Entries are visited in the byte order of their names. -/
namespace SuiteRunner

inductive DiscoveryFault where
  | unreadable (directory : Path) (cause : FileSystem.Fault)
  | unknown (entry : Path) (cause : FileSystem.Fault)
deriving DecidableEq, Repr, Inhabited

def DiscoveryFault.message : DiscoveryFault → String
  | .unreadable directory cause =>
    "Failed to read directory: " ++ directory.display ++ ": " ++ cause.message
  | .unknown entry cause => "Failed to stat: " ++ entry.display ++ ": " ++ cause.message

/-- All tests and how many they are. -/
structure Manifest where
  root : Suite
  total : Nat
deriving Repr, Inhabited

namespace Discovery

/-- What a directory adds to the suite around it. -/
inductive Contribution where
  | cases (cs : List TestCase)
  | suite (s : Suite)
deriving Repr, Inhabited

def rootName : String := "root"

def sortNames (ns : List Name) : List Name := ns.mergeSort fun a b => decide (a ≤ b)

/-- The names in a directory, in byte order. -/
def sortedNames (fs : FileSystem) (p : Path) : Except DiscoveryFault (List Name) :=
  match fs.list p with
  | .ok ns => .ok (sortNames ns)
  | .error e => .error (.unreadable p e)

def holds (ns : List Name) (file : String) : Bool := Text.Utf8.encode file ∈ ns

def isLeaf (d : DiscoverySettings) (ns : List Name) : Bool :=
  holds ns d.runtimeFile && holds ns d.testFile

/-- The test cases of a leaf, in the order of the profiles. -/
def leafCases (d : DiscoverySettings) (p : Path) (name : String) (ns : List Name) :
    List TestCase :=
  (d.profiles.filter fun profile => holds ns profile.file).map fun profile =>
    ⟨name ++ " " ++ profile.label,
      [p.join (.ofString d.runtimeFile), p.join (.ofString profile.file)]⟩

def Contribution.casesOf : Contribution → List TestCase
  | .cases cs => cs
  | .suite _ => []

def Contribution.suitesOf : Contribution → List Suite
  | .cases _ => []
  | .suite s => [s]

/-- The suite of a directory, given what the directories in it add. -/
def gather (name : String) (children : List Contribution) : Suite :=
  .mk name (children.flatMap Contribution.casesOf) (children.flatMap Contribution.suitesOf)

/-- An entry of a directory that is no leaf; `walk` goes into directories. -/
def visitEntry (fs : FileSystem) (walk : Path → String → Except DiscoveryFault Contribution)
    (p : Path) (n : Name) : Except DiscoveryFault (List Contribution) :=
  let child := p.join ⟨n⟩
  match fs.isDirectory child with
  | .error e => .error (.unknown child e)
  | .ok false => .ok []
  | .ok true => do .ok [← walk child (Text.Utf8.decodeLossy n)]

/-- A directory and everything below it, down to a given depth. -/
def walk (fs : FileSystem) (d : DiscoverySettings) :
    Nat → Path → String → Except DiscoveryFault Contribution
  | 0, p, _ => .error (.unreadable p .nameTooLong)
  | depth + 1, p, name => do
    let ns ← sortedNames fs p
    if isLeaf d ns then .ok (.cases (leafCases d p name ns))
    else
      let children ← ns.mapM (visitEntry fs (walk fs d depth) p)
      .ok (.suite (gather name children.flatten))

/-- No directory lies deeper: each level makes the path longer, and paths have a greatest length. -/
def depthBound : Nat := FileSystem.maxPath + 1

/-- All tests under a directory. Any fault is fatal, since a run needs to know all its tests. -/
def discover (fs : FileSystem) (d : DiscoverySettings) (root : Path) :
    Except DiscoveryFault Manifest := do
  let top : Suite := match ← walk fs d depthBound root rootName with
    | .cases cs => .mk rootName cs []
    | .suite s => .mk rootName [] [s]
  .ok ⟨top, top.testCount⟩

end Discovery

end SuiteRunner
