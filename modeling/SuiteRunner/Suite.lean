import SuiteRunner.Path

/-! # Suites of test cases -/
namespace SuiteRunner

/-- A test: a name and its input files in load order. -/
structure TestCase where
  name : String
  files : List Path
deriving DecidableEq, Repr, Inhabited

/-- A node of the test tree. -/
inductive Suite where
  | mk (name : String) (cases : List TestCase) (suites : List Suite)
deriving Repr, Inhabited

namespace Suite

def name : Suite → String
  | mk n _ _ => n

def cases : Suite → List TestCase
  | mk _ cs _ => cs

def suites : Suite → List Suite
  | mk _ _ ss => ss

mutual
/-- Number of test cases in a suite and below it. -/
def testCount : Suite → Nat
  | mk _ cs ss => cs.length + testCountAll ss

def testCountAll : List Suite → Nat
  | [] => 0
  | s :: ss => s.testCount + testCountAll ss
end

/-- A suite with its path in the tree. -/
structure Located where
  path : String
  suite : Suite
deriving Repr, Inhabited

def childPath (path : String) (child : Suite) : String := path ++ "/" ++ child.name

mutual
/-- All suites, each before those below it. -/
def preorder (path : String) : Suite → List Located
  | mk n cs ss => ⟨path, mk n cs ss⟩ :: preorderAll path ss

def preorderAll (path : String) : List Suite → List Located
  | [] => []
  | s :: ss => s.preorder (childPath path s) ++ preorderAll path ss
end

end Suite

end SuiteRunner
