import SuiteRunner.Json.Decode
import SuiteRunner.Number.Shortest
import SuiteRunner.Report.Summary

/-! # The report for programs -/
namespace SuiteRunner

structure Report where
  testsRun : Nat
  testsFailed : Nat
  success : Bool
  startedAt : Stamp
  finishedAt : Option Stamp
  elapsed : Binary64
  failures : List Failure
  aborted : Option String
deriving DecidableEq, Repr, Inhabited

namespace Report

def ofSummary (s : Summary) (now : Moment) : Report where
  testsRun := s.testsRun
  testsFailed := s.failed
  success := s.success
  startedAt := s.started.date
  finishedAt := s.finished.map (·.date)
  elapsed := (s.elapsed now).seconds
  failures := s.failures
  aborted := s.abortCause

/-! ## Writing -/

/-- Elapsed seconds are positional down to `1e-5` and below `1e16`. -/
def elapsedLayout : Number.Layout := ⟨some (-5), some 15, true, .toEven⟩

def failureJson (f : Failure) : Json :=
  .object [("path", .string f.path), ("message", .string f.message)]

def optional {α : Type} (name : String) (toJson : α → Json) : Option α → List (String × Json)
  | some a => [(name, toJson a)]
  | none => []

def stampJson (t : Stamp) : Json := .string t.text

def toJson (r : Report) : Json :=
  .object <|
    [("tests_run", .nat r.testsRun), ("tests_failed", .nat r.testsFailed),
      ("success", .bool r.success), ("started_at", stampJson r.startedAt)] ++
    optional "finished_at" stampJson r.finishedAt ++
    [("elapsed_secs", .number (String.ofList (elapsedLayout.write r.elapsed))),
      ("failures", .array (r.failures.map failureJson))] ++
    optional "aborted" .string r.aborted

def text (r : Report) : String := r.toJson.renderPretty

/-! ## Reading -/

open Json (Node Fault Shape required)

structure FailureDraft where
  path : Option String := none
  message : Option String := none

def failureShape : Shape FailureDraft where
  names := ["path", "message"]
  has d name := if name = "path" then d.path.isSome else d.message.isSome
  store d name n :=
    if name = "path" then do .ok { d with path := some (← n.toText) }
    else do .ok { d with message := some (← n.toText) }

def failureOfNode (n : Node) : Except Fault Failure := do
  let d ← failureShape.read {} n
  .ok ⟨← required d.path, ← required d.message⟩

def stampOfNode (n : Node) : Except Fault Stamp := do
  required (Stamp.read? (← n.toText).toList)

structure Draft where
  testsRun : Option Nat := none
  testsFailed : Option Nat := none
  success : Option Bool := none
  startedAt : Option Stamp := none
  finishedAt : Option (Option Stamp) := none
  elapsed : Option Binary64 := none
  failures : Option (List Failure) := none
  aborted : Option (Option String) := none

def shape : Shape Draft where
  names :=
    ["tests_run", "tests_failed", "success", "started_at", "finished_at", "elapsed_secs",
      "failures", "aborted"]
  has d name :=
    match name with
    | "tests_run" => d.testsRun.isSome
    | "tests_failed" => d.testsFailed.isSome
    | "success" => d.success.isSome
    | "started_at" => d.startedAt.isSome
    | "finished_at" => d.finishedAt.isSome
    | "elapsed_secs" => d.elapsed.isSome
    | "failures" => d.failures.isSome
    | _ => d.aborted.isSome
  store d name n :=
    match name with
    | "tests_run" => do .ok { d with testsRun := some (← n.toNat) }
    | "tests_failed" => do .ok { d with testsFailed := some (← n.toNat) }
    | "success" => do .ok { d with success := some (← n.toBool) }
    | "started_at" => do .ok { d with startedAt := some (← stampOfNode n) }
    | "finished_at" => do .ok { d with finishedAt := some (← n.toOption stampOfNode) }
    | "elapsed_secs" => do .ok { d with elapsed := some (← n.toDouble) }
    | "failures" => do .ok { d with failures := some (← n.toList failureOfNode) }
    | _ => do .ok { d with aborted := some (← n.toOption Node.toText) }

/-- Only the end of the run and the cause of an abort may be absent. -/
def ofNode (n : Node) : Except Fault Report := do
  let d ← shape.read {} n
  .ok {
    testsRun := ← required d.testsRun
    testsFailed := ← required d.testsFailed
    success := ← required d.success
    startedAt := ← required d.startedAt
    finishedAt := d.finishedAt.getD none
    elapsed := ← required d.elapsed
    failures := ← required d.failures
    aborted := d.aborted.getD none }

def read (text : String) : Except Fault Report := Json.decode ofNode text

end Report

end SuiteRunner
