/-! # A deadline that every sign of life moves -/
namespace SuiteRunner.Dispatch

/-- All times are milliseconds of one clock. -/
structure Watchdog where
  window : Nat
  deadline : Nat
deriving DecidableEq, Repr, Inhabited

namespace Watchdog

def arm (now window : Nat) : Watchdog := ⟨window, now + window⟩

def refresh (w : Watchdog) (now : Nat) : Watchdog := { w with deadline := now + w.window }

def expired (w : Watchdog) (now : Nat) : Bool := w.deadline ≤ now

/-- Waits for expiry, but no longer than `ms`: whether it expired, and when the wait was over. -/
def race (w : Watchdog) (now ms : Nat) : Bool × Nat :=
  if w.deadline ≤ now + ms then (true, max now w.deadline) else (false, now + ms)

end Watchdog

end SuiteRunner.Dispatch
