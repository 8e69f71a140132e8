import SuiteRunner.Text.Numeral
import SuiteRunner.Transport.Listener
import SuiteRunner.Transport.Pump

/-! # A listener and the workers that come to it

Workers connect over a network that may not carry any connection at all. -/
namespace SuiteRunner.Transport

inductive Network where
  | reachable
  | unreachable
deriving DecidableEq, Repr, Inhabited

/-- What a worker reads from its socket. -/
inductive Incoming where
  | frame (text : String)
  | pong (length : Nat)
  | close
deriving DecidableEq, Repr

/-- What a worker puts on its socket. -/
inductive Outgoing where
  | data (f : SocketFrame)
  | ping (length : Nat)
deriving DecidableEq, Repr

/-- A worker whose upgrade is through. -/
structure Peer where
  /-- Not yet read by the worker, oldest first. -/
  inbox : List Incoming := []
  /-- Not yet read by the near side, oldest first. -/
  outbox : List Outgoing := []
  /-- The near side still holds its end. -/
  kept : Bool := true
  /-- The worker still holds its end. -/
  present : Bool := true
deriving Repr, Inhabited

structure Session where
  network : Network
  listener : Option Listener := some {}
  peers : List Peer := []
  /-- The worker that was accepted, until its connection is closed. -/
  worker : Option PeerId := none
  console : List String := []
  clock : Nat := 0
deriving Repr, Inhabited

namespace Session

def peer? (s : Session) (i : PeerId) : Option Peer := s.peers[i]?

def setPeer (s : Session) (i : PeerId) (p : Peer) : Session := { s with peers := s.peers.set i p }

/-! ## Connecting -/

inductive Connected where
  | refused
  | replied (r : Reply)
  | joined (peer : PeerId)
deriving DecidableEq, Repr

/-- A new connection that starts with a request head. -/
def request (s : Session) (head : Option RequestHead) : Session × Connected :=
  match s.network, s.listener with
  | .unreachable, _ => (s, .refused)
  | _, none => (s, .refused)
  | .reachable, some l =>
    match l.answer head with
    | .switching =>
      let id := s.peers.length
      let (l, kept) := l.complete id
      ({ s with listener := some l, peers := s.peers ++ [{ kept }] }, .joined id)
    | r => (s, .replied r)

/-- The request of a regular worker. -/
def upgradeHead : RequestHead where
  method := "GET"
  version := "HTTP/1.1"
  headers :=
    [("connection", "Upgrade"), ("upgrade", "websocket"), ("sec-websocket-version", "13"),
      ("sec-websocket-key", "dGhlIHNhbXBsZSBub25jZQ==")]

def connect (s : Session) : Session × Connected := s.request (some upgradeHead)

/-- Waits for a worker; none if nobody listens any more. -/
def accept (s : Session) (ms : Nat) : Session × Option (Except Listener.AcceptFault PeerId) :=
  match s.listener with
  | none => (s, none)
  | some l =>
    match l.accept (.ofMillis ms) with
    | (l, .ok id) =>
      ({ s with
        listener := some l
        worker := some id
        console := s.console ++ ["Worker connected from: worker " ++ Text.decimal id] },
        some (.ok id))
    | (l, .error (.timedOut f)) =>
      ({ s with listener := some l, clock := s.clock + ms }, some (.error (.timedOut f)))
    | (l, .error f) => ({ s with listener := some l }, some (.error f))

/-- Connections that nobody accepted go with the listener. -/
def stop (s : Session) : Session :=
  { s with
    listener := none
    peers := (List.range s.peers.length).zip s.peers |>.map fun (i, p) =>
      if s.worker = some i then p else { p with kept := false } }

/-! ## The near side -/

/-- Whether the frame is on its way; none without a connection. -/
def send (s : Session) (frame : String) : Session × Option Bool :=
  match s.worker.bind fun i => (s.peer? i).map (i, ·) with
  | none => (s, none)
  | some (i, p) =>
    if p.present then (s.setPeer i { p with inbox := p.inbox ++ [.frame frame] }, some true)
    else (s, some false)

/-- The next text among the frames that were read, with the answers to pings on the way. -/
def nextText : List Outgoing → List Incoming → Option String × List Outgoing × List Incoming
  | [], inbox => (none, [], inbox)
  | .ping n :: rest, inbox => nextText rest (inbox ++ [.pong n])
  | .data f :: rest, inbox =>
    if f.isLast then (none, .data f :: rest, inbox)
    else
      match f.text? with
      | some t => (some t, rest, inbox)
      | none => nextText rest inbox

def receive (s : Session) : Session × Option (Option String) :=
  match s.worker.bind fun i => (s.peer? i).map (i, ·) with
  | none => (s, none)
  | some (i, p) =>
    let (text, outbox, inbox) := nextText p.outbox p.inbox
    (s.setPeer i { p with outbox, inbox }, some text)

def close (s : Session) : Session :=
  match s.worker.bind fun i => (s.peer? i).map (i, ·) with
  | none => s
  | some (i, p) =>
    { s.setPeer i { p with kept := false, inbox := p.inbox ++ [.close] } with worker := none }

/-! ## The worker's side -/

def workerSend (s : Session) (i : PeerId) (f : Outgoing) : Session × Bool :=
  match s.peer? i with
  | none => (s, false)
  | some p =>
    if p.kept then (s.setPeer i { p with outbox := p.outbox ++ [f] }, true) else (s, false)

/-- The worker reads what waits for it; none once the connection is gone. -/
def workerReceive (s : Session) (i : PeerId) : Session × Option Incoming :=
  match s.peer? i with
  | none => (s, none)
  | some p =>
    let p := if s.worker = some i then
        let pings := p.outbox.takeWhile fun o => match o with
          | .ping _ => true
          | .data f => f.text?.isNone && !f.isLast
        let (_, _, inbox) := nextText pings p.inbox
        { p with outbox := p.outbox.drop pings.length, inbox }
      else p
    match p.inbox with
    | x :: rest => (s.setPeer i { p with inbox := rest }, some x)
    | [] => (s.setPeer i p, none)

def workerDrop (s : Session) (i : PeerId) : Session :=
  match s.peer? i with
  | none => s
  | some p => s.setPeer i { p with present := false, outbox := p.outbox ++ [.data .failure] }

end Session

end SuiteRunner.Transport
