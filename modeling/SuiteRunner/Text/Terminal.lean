import SuiteRunner.Text.Utf8

/-! # Text without control sequences

What is printed where no terminal reads it is only the text: control characters other than white
space are left out, and so are the sequences that an escape character starts. -/
namespace SuiteRunner.Text.Terminal

open Utf8 (Byte)

/-- Where in a control sequence the reading is. -/
inductive State where
  | ground
  | escape
  | escapeIntermediate
  /-- After `ESC [`, up to a final byte. -/
  | controlSequence
  /-- After `ESC ]`, up to a bell. -/
  | systemCommand
  /-- After `ESC P`, before the string of the device. -/
  | deviceEntry
  | deviceParameter
  | deviceIntermediate
  /-- A string of a device or an application, up to its terminator. -/
  | controlString
deriving DecidableEq, Repr, Inhabited

def within (low high : Nat) (b : Byte) : Bool := low ≤ b.toNat && b.toNat ≤ high

/-- White space among the control characters. -/
def isLayout (b : Byte) : Bool := b = 0x09 || b = 0x0A || b = 0x0C || b = 0x0D

/-- Bytes that are shown, or start a character that is, outside any sequence. -/
def isVisible (b : Byte) : Bool := isLayout b || within 0x20 0x7E b || within 0xC2 0xF4 b

namespace State

def afterEscape (b : Byte) : State :=
  if within 0x20 0x2F b then .escapeIntermediate
  else if b = 0x5B then .controlSequence
  else if b = 0x5D then .systemCommand
  else if b = 0x50 then .deviceEntry
  else if b = 0x58 || b = 0x5E || b = 0x5F then .controlString
  else if within 0x30 0x7E b then .ground
  else .escape

/-- Between the parameters of a device string. -/
def inDeviceHeader (s : State) (b : Byte) : State :=
  if within 0x40 0x7E b then .controlString
  else if within 0x20 0x2F b then .deviceIntermediate
  else if within 0x30 0x3F b then
    match s with
    | .deviceEntry => .deviceParameter
    | .deviceParameter => if within 0x3C 0x3F b then .controlString else .deviceParameter
    | _ => .controlString
  else s

/-- The state behind a byte. A sequence can be cut short by a cancel or by the next escape. -/
def next (s : State) (b : Byte) : State :=
  if b = 0x18 || b = 0x1A then .ground
  else if b = 0x1B then .escape
  else
    match s with
    | .ground => .ground
    | .escape => afterEscape b
    | .escapeIntermediate => if within 0x30 0x7E b then .ground else s
    | .controlSequence => if within 0x40 0x7E b then .ground else s
    | .systemCommand => if b = 0x07 then .ground else s
    | .deviceEntry | .deviceParameter | .deviceIntermediate => s.inDeviceHeader b
    | .controlString => if b = 0x9C then .ground else s

/-- White space is shown even inside a sequence, unless that holds a string. -/
def shows (s : State) (b : Byte) : Bool :=
  match s with
  | .ground => isVisible b
  | .escape | .escapeIntermediate | .controlSequence => isLayout b
  | _ => false

end State

/-- While text is being shown a sequence that it interrupted is only held; it goes on at the next
byte that is not visible. -/
structure Reading where
  showing : Bool := false
  held : State := .ground
deriving DecidableEq, Repr, Inhabited

/-- One byte further, and whether it is shown. All bytes of a character beyond ASCII go with its
first one. -/
def Reading.step (r : Reading) (b : Byte) : Reading × Bool :=
  if r.showing && within 0x80 0xFF b then (⟨true, .ground⟩, true)
  else if r.showing && isVisible b then (r, true)
  else
    let shown := r.held.shows b
    (⟨shown, r.held.next b⟩, shown)

def shownBytes : Reading → List Byte → List Byte
  | _, [] => []
  | r, b :: bs =>
    let (r, shown) := r.step b
    if shown then b :: shownBytes r bs else shownBytes r bs

def plain (s : String) : String := Utf8.decodeLossy (shownBytes {} (Utf8.encode s))

end SuiteRunner.Text.Terminal
