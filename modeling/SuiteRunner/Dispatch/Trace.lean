import SuiteRunner.Fault
import SuiteRunner.Number.Fixed

/-! # What a run tells while it goes on -/
namespace SuiteRunner.Dispatch

/-- A line on the console. -/
inductive Line where
  | running (path : String)
  | failure (name : String) (number : Nat)
  | timedOut (missing total : Nat)
  | progress (run failed : Nat) (elapsed : Span) (percent : Binary64)
  | blank
deriving DecidableEq, Repr, Inhabited

def Line.text : Line → String
  | .running path => "Running " ++ path
  | .failure name number => "  " ++ name ++ " failure (" ++ Text.decimal number ++ ")"
  | .timedOut missing total =>
    "  batch timed out, " ++ Text.decimal missing ++ " of " ++ Text.decimal total ++
      " tests without result"
  | .progress run failed elapsed percent =>
    "Tests run: " ++ Text.decimal run ++ ", failed: " ++ Text.decimal failed ++ ", elapsed: " ++
      Number.seconds elapsed.seconds ++ " seconds (" ++ Number.percentage percent ++
      "% complete)"
  | .blank => ""

/-- Lines as printed, each with its line break. -/
def consoleText (lines : List Line) : String :=
  String.join (lines.map fun l => l.text ++ "\n")

/-- An entry of the diagnostic log. -/
inductive Event where
  | sendingBatch (batch : Nat) (suite : String) (tests : Nat)
  | resultReceived (batch index unresolved : Nat)
  | unknownTest (batch index : Nat)
  | undecodable (frame : String)
  | unsendable (suite error : String)
  | timedOut (fault : RunFault)
deriving DecidableEq, Repr, Inhabited

def Event.isWarning : Event → Bool
  | .sendingBatch .. | .resultReceived .. => false
  | _ => true

def Event.message : Event → String
  | .sendingBatch .. => "sending batch"
  | .resultReceived .. => "result received"
  | .unknownTest .. => "ignoring result for unknown test"
  | .undecodable _ => "ignoring undecodable worker message"
  | .unsendable .. => "suite cannot be sent to the worker"
  | .timedOut fault => fault.message

end SuiteRunner.Dispatch
