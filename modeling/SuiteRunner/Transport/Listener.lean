import SuiteRunner.Fault
import SuiteRunner.Transport.Queue
import SuiteRunner.Transport.Upgrade

/-! # Waiting for the worker

The listener answers every request with `404`, except for upgrades while no worker was accepted. The
first upgrade that completes waits to be accepted; others that complete meanwhile are dropped. -/
namespace SuiteRunner.Transport

/-- An upgraded connection, by a name of its own. -/
abbrev PeerId := Nat

inductive Reply where
  | badRequest
  | notFound
  | switching
deriving DecidableEq, Repr, Inhabited

def Reply.status : Reply → Nat
  | .badRequest => 400
  | .notFound => 404
  | .switching => 101

/-- At most one upgraded connection waits; the queue is closed by the first success. -/
structure Listener where
  upgrades : Queue PeerId := { capacity := 1 }
deriving Repr, Inhabited

namespace Listener

/-- What a request is answered, from its head. -/
def answer (l : Listener) (head : Option RequestHead) : Reply :=
  match head with
  | none => .badRequest
  | some r => if r.isUpgrade && !l.upgrades.senderGone then .switching else .notFound

/-- An admitted upgrade is through; whether its connection is kept. -/
def complete (l : Listener) (peer : PeerId) : Listener × Bool :=
  match l.upgrades.send peer with
  | (upgrades, .accepted) => ({ l with upgrades }, true)
  | _ => (l, false)

inductive AcceptFault where
  | timedOut (fault : RunFault)
  | stopped
deriving DecidableEq, Repr

def AcceptFault.message : AcceptFault → String
  | .timedOut fault => fault.message
  | .stopped => "Worker listener stopped before a worker connected"

/-- Takes the connection that waits and refuses all later ones. With nobody there the window
passes. -/
def accept (l : Listener) (window : Span) : Listener × Except AcceptFault PeerId :=
  match l.upgrades.receive with
  | (upgrades, .item peer) => ({ l with upgrades := upgrades.close }, .ok peer)
  | (_, .ended) => (l, .error .stopped)
  | (_, .nothingYet) => (l, .error (.timedOut (.connectionTimeout window)))

end Listener

/-! ## Requests and calls in any order -/

/-- How far a request has come. -/
inductive Stage where
  | arrived
  /-- It was admitted, and its upgrade is not through yet. -/
  | upgrading
  | done
deriving DecidableEq, Repr, Inhabited

structure Client where
  head : Option RequestHead
  stage : Stage := .arrived
deriving DecidableEq, Repr, Inhabited

/-- The listener with all requests that came to it, numbered from zero. -/
structure Reception where
  listener : Listener := {}
  clients : List Client := []
deriving Repr, Inhabited

namespace Reception

inductive Event where
  | arrives (head : Option RequestHead)
  /-- A request is looked at. -/
  | checked (peer : PeerId)
  /-- An upgrade that was admitted is through. -/
  | completed (peer : PeerId)
  /-- Somebody who waits for a worker looks for one, for the last time if nobody is there. -/
  | accept (window : Span)
  /-- The window passes before anybody looks again. -/
  | lapse (window : Span)
deriving DecidableEq, Repr

inductive Effect where
  | came
  | replied (r : Reply)
  | kept
  | dropped
  | accepted (peer : PeerId)
  | refused (fault : Listener.AcceptFault)
deriving DecidableEq, Repr

/-- What an event brings about, if it is possible. No window passes once the queue is closed, as its
end is seen at once. -/
def step? (r : Reception) : Event → Option (Reception × Effect)
  | .arrives head => some ({ r with clients := r.clients ++ [{ head }] }, .came)
  | .checked peer =>
    match r.clients[peer]? with
    | some ⟨head, .arrived⟩ =>
      let reply := r.listener.answer head
      let stage : Stage := if reply = .switching then .upgrading else .done
      some ({ r with clients := r.clients.set peer ⟨head, stage⟩ }, .replied reply)
    | _ => none
  | .completed peer =>
    match r.clients[peer]? with
    | some ⟨head, .upgrading⟩ =>
      let (listener, kept) := r.listener.complete peer
      some (⟨listener, r.clients.set peer ⟨head, .done⟩⟩, if kept then .kept else .dropped)
    | _ => none
  | .accept window =>
    match r.listener.accept window with
    | (listener, .ok peer) => some ({ r with listener }, .accepted peer)
    | (listener, .error fault) => some ({ r with listener }, .refused fault)
  | .lapse window =>
    if r.listener.upgrades.senderGone then none
    else some (r, .refused (.timedOut (.connectionTimeout window)))

/-- Events one after the other, each with its effect, if all are possible. -/
def replay? (r : Reception) : List Event → Option (Reception × List (Event × Effect))
  | [] => some (r, [])
  | e :: es => do
    let (r, effect) ← r.step? e
    let (r, history) ← r.replay? es
    some (r, (e, effect) :: history)

end Reception

end SuiteRunner.Transport
