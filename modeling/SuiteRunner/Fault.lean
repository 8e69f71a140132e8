import SuiteRunner.Time.Span

/-! # Conditions that end a run -/
namespace SuiteRunner

inductive RunFault where
  /-- No worker came within the window. -/
  | connectionTimeout (window : Span)
  /-- A batch was silent for the whole window while results were missing. -/
  | batchTimeout (batch : Nat) (suite : String) (missing total : Nat) (window : Span)
  /-- The worker went away before the batch was complete. -/
  | channelClosed (batch : Nat) (suite : String)
  /-- The worker takes no more requests. -/
  | sendFailed (batch : Nat)
deriving DecidableEq, Repr, Inhabited

def RunFault.message : RunFault → String
  | .connectionTimeout window =>
    "Connection time out: no worker connected within " ++ window.secondsText ++ "s"
  | .batchTimeout batch suite missing total window =>
    "Batch " ++ Text.decimal batch ++ " (" ++ suite ++ ") timed out: " ++ Text.decimal missing ++
      " of " ++ Text.decimal total ++ " results missing after " ++ window.secondsText ++
      "s without activity"
  | .channelClosed batch suite =>
    "Worker channel closed while waiting for batch " ++ Text.decimal batch ++ " (" ++ suite ++ ")"
  | .sendFailed batch =>
    "Failed to send batch " ++ Text.decimal batch ++ " to worker: channel closed"

end SuiteRunner
