/-! # Bounded queues between two parties -/
namespace SuiteRunner.Transport

/-- Items not yet taken, oldest first. Either end may be gone. -/
structure Queue (α : Type) where
  capacity : Nat
  items : List α := []
  senderGone : Bool := false
  receiverGone : Bool := false
deriving Repr, Inhabited

namespace Queue

variable {α : Type}

inductive Sent where
  | accepted
  /-- The sender has to wait for room. -/
  | full
  /-- Nobody will ever take it. -/
  | refused
deriving DecidableEq, Repr

inductive Received (α : Type) where
  | item (a : α)
  /-- The receiver has to wait. -/
  | nothingYet
  /-- Everything was taken and nothing more will come. -/
  | ended
deriving DecidableEq, Repr

def send (q : Queue α) (a : α) : Queue α × Sent :=
  if q.receiverGone || q.senderGone then (q, .refused)
  else if q.items.length < q.capacity then ({ q with items := q.items ++ [a] }, .accepted)
  else (q, .full)

def receive (q : Queue α) : Queue α × Received α :=
  match q.items with
  | a :: rest => ({ q with items := rest }, .item a)
  | [] => (q, if q.senderGone then .ended else .nothingYet)

def dropSender (q : Queue α) : Queue α := { q with senderGone := true }

/-- What nobody will take is lost. -/
def dropReceiver (q : Queue α) : Queue α := { q with receiverGone := true, items := [] }

/-- Takes no more items, but those that are there can still be received. -/
def close (q : Queue α) : Queue α := { q with senderGone := true }

end Queue

end SuiteRunner.Transport
