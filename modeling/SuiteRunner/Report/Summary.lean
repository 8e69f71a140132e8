import SuiteRunner.Number.Fixed
import SuiteRunner.Time.Span
import SuiteRunner.Time.Stamp

/-! # What a run has come to so far -/
namespace SuiteRunner

/-- A test that failed, by suite path and test name. -/
structure Failure where
  path : String
  message : String
deriving DecidableEq, Repr, Inhabited

/-- A reading of both clocks: the date, and nanoseconds that never go back. -/
structure Moment where
  date : Stamp
  ticks : Nat
deriving DecidableEq, Repr, Inhabited

def Moment.since (now start : Moment) : Span := .ofNanos (now.ticks - start.ticks)

/-- When a run ended and how long it took. -/
structure Finish where
  date : Stamp
  elapsed : Span
deriving DecidableEq, Repr, Inhabited

structure Summary where
  started : Moment
  testsRun : Nat := 0
  failures : List Failure := []
  finished : Option Finish := none
  abortCause : Option String := none
deriving DecidableEq, Repr, Inhabited

namespace Summary

def start (now : Moment) : Summary := { started := now }

def recordRun (s : Summary) (count : Nat) : Summary := { s with testsRun := s.testsRun + count }

/-- Counts more tests, if the count still fits sixty-four bits. -/
def recordRun? (s : Summary) (count : Nat) : Option Summary :=
  if s.testsRun + count < word64 then some (s.recordRun count) else none

/-- Failures are numbered from one. -/
def recordFailure (s : Summary) (path message : String) : Summary × Nat :=
  let s' := { s with failures := s.failures ++ [⟨path, message⟩] }
  (s', s'.failures.length)

/-- Stops the clock, once. -/
def finish (s : Summary) (now : Moment) : Summary :=
  { s with finished := some (s.finished.getD ⟨now.date, now.since s.started⟩) }

/-- Stops the clock and notes why the run could not go on. -/
def abort (s : Summary) (now : Moment) (cause : String) : Summary :=
  ({ s with abortCause := some cause }).finish now

/-! ## Calls in sequence -/

/-- A call on a summary, with what the clocks show where they are read. -/
inductive Operation where
  | recordRun (count : Nat)
  | recordFailure (path message : String)
  | finish (now : Moment)
  | abort (now : Moment) (cause : String)
deriving DecidableEq, Repr

/-- `none` if the count of tests overflows. -/
def step? (s : Summary) : Operation → Option Summary
  | .recordRun count => s.recordRun? count
  | .recordFailure path message => some (s.recordFailure path message).1
  | .finish now => some (s.finish now)
  | .abort now cause => some (s.abort now cause)

def replay? : Summary → List Operation → Option Summary
  | s, [] => some s
  | s, op :: ops => do replay? (← s.step? op) ops

/-! ## What it comes to -/

def failed (s : Summary) : Nat := s.failures.length

def success (s : Summary) : Bool := s.failures.isEmpty && s.abortCause.isNone

def exitCode (s : Summary) : Nat := if s.success then 0 else 1

/-- The time of the whole run, or up to now while it goes on. -/
def elapsed (s : Summary) (now : Moment) : Span :=
  match s.finished with
  | some f => f.elapsed
  | none => now.since s.started

/-- The share of the tests that was handed out, in percent. -/
def percentComplete (s : Summary) (total : Nat) : Binary64 :=
  if total = 0 then .ofNat 100
  else ((Binary64.ofNat s.testsRun).div (.ofNat total)).mul (.ofNat 100)

end Summary

end SuiteRunner
