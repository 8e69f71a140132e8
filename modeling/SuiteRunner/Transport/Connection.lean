import SuiteRunner.Transport.Queue

/-! # A channel of text frames to the worker -/
namespace SuiteRunner.Transport

/-- Frames that either direction holds before the sender has to wait. -/
def channelCapacity : Nat := 256

/-- A queue in each direction. Closing drops both near ends. -/
structure Connection where
  outbound : Queue String := { capacity := channelCapacity }
  inbound : Queue String := { capacity := channelCapacity }
deriving Repr, Inhabited

namespace Connection

/-! ## The near side -/

def send (c : Connection) (frame : String) : Connection × Queue.Sent :=
  let (outbound, sent) := c.outbound.send frame
  ({ c with outbound }, sent)

def receive (c : Connection) : Connection × Queue.Received String :=
  let (inbound, received) := c.inbound.receive
  ({ c with inbound }, received)

def close (c : Connection) : Connection :=
  { outbound := c.outbound.dropSender, inbound := c.inbound.dropReceiver }

def isClosed (c : Connection) : Bool := c.outbound.senderGone

/-! ## The worker's side -/

def peerSend (c : Connection) (frame : String) : Connection × Queue.Sent :=
  let (inbound, sent) := c.inbound.send frame
  ({ c with inbound }, sent)

def peerReceive (c : Connection) : Connection × Queue.Received String :=
  let (outbound, received) := c.outbound.receive
  ({ c with outbound }, received)

/-- The worker sends nothing more. -/
def peerStopSending (c : Connection) : Connection := { c with inbound := c.inbound.dropSender }

/-- The worker takes nothing more. -/
def peerStopReceiving (c : Connection) : Connection :=
  { c with outbound := c.outbound.dropReceiver }

end Connection

end SuiteRunner.Transport
