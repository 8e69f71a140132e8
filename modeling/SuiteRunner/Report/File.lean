import SuiteRunner.FileSystem
import SuiteRunner.Report.Json

/-! # Writing the report to a file

The text passes through a buffer on its way to the file. A full buffer is handed on, and a failure
to do so is reported; what is in the buffer at the end is handed on too, but then nobody asks
whether that worked. -/
namespace SuiteRunner

open Text.Utf8 (Byte)

/-- A file that takes so many bytes more and then fails. -/
structure Sink where
  written : List Byte := []
  room : Option Nat := none
deriving Repr, Inhabited

/-- Takes what it can; whether that was all. -/
def Sink.put (s : Sink) (bs : List Byte) : Sink × Bool :=
  match s.room with
  | none => (⟨s.written ++ bs, none⟩, true)
  | some n => (⟨s.written ++ bs.take n, some (n - bs.length)⟩, bs.length ≤ n)

structure BufferedSink where
  sink : Sink
  buffer : List Byte := []
deriving Repr, Inhabited

namespace BufferedSink

def capacity : Nat := 8192

/-- Adds a piece of text. A piece that does not fit makes room first; one that is as large as the
buffer goes past it. -/
def write (b : BufferedSink) (piece : List Byte) : Except BufferedSink BufferedSink :=
  if b.buffer.length + piece.length < capacity then .ok { b with buffer := b.buffer ++ piece }
  else
    let (sink, done) :=
      if capacity < b.buffer.length + piece.length then b.sink.put b.buffer else (b.sink, true)
    let buffer := if capacity < b.buffer.length + piece.length then [] else b.buffer
    if !done then .error ⟨sink, []⟩
    else if capacity ≤ piece.length then
      let (sink, done) := sink.put piece
      if done then .ok ⟨sink, buffer⟩ else .error ⟨sink, buffer⟩
    else .ok ⟨sink, buffer ++ piece⟩

def writeAll : BufferedSink → List (List Byte) → Except BufferedSink BufferedSink
  | b, [] => .ok b
  | b, p :: ps => do writeAll (← b.write p) ps

/-- Hands on what is left, whatever comes of it. -/
def close (b : BufferedSink) : Sink := (b.sink.put b.buffer).1

end BufferedSink

namespace Report

inductive WriteFault where
  | cannotCreate (file : Path) (cause : FileSystem.Fault)
  | cannotWrite (file : Path) (cause : FileSystem.Fault)
deriving DecidableEq, Repr, Inhabited

def WriteFault.message : WriteFault → String
  | .cannotCreate file cause =>
    "Failed to create JSON report: " ++ file.display ++ ": " ++ cause.message
  | .cannotWrite file cause =>
    "Failed to write JSON report: " ++ file.display ++ ": " ++ cause.message

/-- The file after a text was written in pieces, and whether a failure was noticed. -/
def pour (sink : Sink) (pieces : List (List Byte)) : Sink × Bool :=
  match BufferedSink.writeAll ⟨sink, []⟩ pieces with
  | .ok b => (b.close, true)
  | .error b => (b.close, false)

/-- The bytes of a report as they are handed to the buffer. -/
def pieces (r : Report) : List (List Byte) := (r.toJson.prettyPieces 0).map Text.Utf8.encodeChars

/-- Makes the file and writes the report to it; `room` is what the disk can still take. -/
def save (r : Report) (fs : FileSystem) (room : Option Nat) (file : Path) :
    FileSystem × Except WriteFault Unit :=
  match fs.fileLocation file with
  | .error cause => (fs, .error (.cannotCreate file cause))
  | .ok loc =>
    let (room, cause) := fs.roomAt room loc
    let (sink, done) := pour { room } r.pieces
    (fs.fill loc sink.written, if done then .ok () else .error (.cannotWrite file cause))

end Report

end SuiteRunner
