import SuiteRunner.Program
import SuiteRunner.Scene

/-! # The executable

The command line is given as usual, and the scene on the first line of standard input. -/

open SuiteRunner in
def main (args : List String) : IO UInt32 := do
  match Scene.read? (← (← IO.getStdin).getLine) with
  | none =>
    IO.println "Error: standard input does not describe a scene"
    return 1
  | some surroundings =>
    let env ← IO.getEnv CommandLine.environmentVariable
    let outcome := Program.run args env surroundings
    IO.print outcome.console
    match outcome.exitCode with
    | some status => return status.toUInt32
    | none =>
      -- The next request waits for room, and the worker has come to the end of its script.
      IO.println "Error: the run waits for the worker for ever"
      return 1
