import SuiteRunner.Number.Shortest

/-! # Spans of time -/
namespace SuiteRunner

/-- One more than the largest value of a 64-bit counter. -/
def word64 : Nat := Nat.pow 2 64

structure Span where
  secs : Nat
  nanos : Nat := 0
deriving DecidableEq, Repr, Inhabited

namespace Span

/-- Seconds and any number of nanoseconds, if the seconds still fit sixty-four bits. -/
def ofParts? (secs nanos : Nat) : Option Span :=
  let t : Span := ⟨secs + nanos / 1000000000, nanos % 1000000000⟩
  if t.secs < word64 then some t else none

def ofMillis (ms : Nat) : Span := ⟨ms / 1000, ms % 1000 * 1000000⟩

def ofNanos (n : Nat) : Span := ⟨n / 1000000000, n % 1000000000⟩

/-- Whole milliseconds, at most the largest 64-bit value. -/
def toMillis (t : Span) : Nat :=
  min (t.secs * 1000 + t.nanos / 1000000) (word64 - 1)

/-- Seconds as a floating-point number: whole seconds and their fraction are rounded apart. -/
def seconds (t : Span) : Binary64 :=
  (Binary64.ofNat t.secs).add ((Binary64.ofNat t.nanos).div (Binary64.ofNat 1000000000))

/-- Seconds in the fewest digits, as messages give them. -/
def secondsText (t : Span) : String :=
  String.ofList (Number.plain.write t.seconds)

end Span

end SuiteRunner
