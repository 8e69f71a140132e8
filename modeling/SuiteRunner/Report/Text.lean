import SuiteRunner.Report.Summary

/-! # The report for people -/
namespace SuiteRunner

/-- A failure with its number: path, message and an empty line. -/
def Failure.block (number : Nat) (f : Failure) : String :=
  "(" ++ Text.decimal number ++ ") " ++ f.path ++ ":\n" ++ f.message ++ "\n\n"

namespace Summary

def failureBlocks (number : Nat) : List Failure → String
  | [] => ""
  | f :: fs => f.block number ++ failureBlocks (number + 1) fs

def summaryLine (s : Summary) (now : Moment) : String :=
  "Tests run: " ++ Text.decimal s.testsRun ++ ", failed: " ++ Text.decimal s.failed ++
    ", elapsed " ++ Number.seconds (s.elapsed now).seconds ++ " seconds\n"

def abortLines (s : Summary) : String :=
  match s.abortCause with
  | some cause => "\nRun aborted: " ++ cause ++ "\n"
  | none => ""

/-- All failures in order, the counts, and why the run was aborted, if it was. -/
def report (s : Summary) (now : Moment) : String :=
  failureBlocks 1 s.failures ++ s.summaryLine now ++ s.abortLines

end Summary

end SuiteRunner
