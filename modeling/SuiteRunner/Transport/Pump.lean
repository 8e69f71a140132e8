import SuiteRunner.Text.Utf8
import SuiteRunner.Transport.Queue

/-! # From socket frames to text frames

A reader takes frames off the socket and puts their texts on the inbound queue. It ends with the
first close or error, and then the queue ends as well. -/
namespace SuiteRunner.Transport

open Text.Utf8 (Byte)

inductive SocketFrame where
  | text (s : String)
  | binary (bytes : List Byte)
  | ping
  | pong
  | close
  | failure
deriving DecidableEq, Repr, Inhabited

namespace SocketFrame

/-- The text of a frame; binary frames count if they are valid text. -/
def text? : SocketFrame → Option String
  | .text s => some s
  | .binary bytes => Text.Utf8.decode? bytes
  | _ => none

/-- Nothing is read behind such a frame. -/
def isLast : SocketFrame → Bool
  | .close | .failure => true
  | _ => false

/-- All texts that a sequence of frames has to say. -/
def texts (frames : List SocketFrame) : List String :=
  (frames.takeWhile (!·.isLast)).filterMap text?

end SocketFrame

/-- The reader between socket and queue. -/
structure Pump where
  socket : List SocketFrame
  /-- A text that waits for room in the queue. -/
  held : Option String := none
  queue : Queue String
deriving Repr, Inhabited

namespace Pump

def start (capacity : Nat) (socket : List SocketFrame) : Pump := { socket, queue := { capacity } }

/-- Takes the next frame off the socket. -/
def take (p : Pump) : Pump :=
  match p.socket with
  | [] => p
  | f :: rest =>
    if f.isLast then { p with socket := [], queue := p.queue.dropSender }
    else { p with socket := rest, held := f.text? }

/-- Puts the text that waits on the queue if there is room. When nobody reads any more the reader
ends. -/
def push (p : Pump) (text : String) : Pump :=
  match p.queue.send text with
  | (queue, .accepted) => { p with queue, held := none }
  | (_, .full) => p
  | (queue, .refused) => { p with socket := [], held := none, queue := queue.dropSender }

/-- One step of the reader. -/
def advance (p : Pump) : Pump :=
  match p.held with
  | some text => p.push text
  | none => p.take

/-- Who moves next. -/
inductive Move where
  | reader
  | receiver
deriving DecidableEq, Repr

/-- Any interleaving of the reader with a receiver, and what the receiver gets. -/
def run : List Move → Pump → Pump × List (Queue.Received String)
  | [], p => (p, [])
  | .reader :: ms, p => run ms p.advance
  | .receiver :: ms, p =>
    let (queue, got) := p.queue.receive
    let (p, rest) := run ms { p with queue }
    (p, got :: rest)

end Pump

end SuiteRunner.Transport
