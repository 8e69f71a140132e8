import SuiteRunner.Dispatch.Machine
import SuiteRunner.Dispatch.Worker
import SuiteRunner.Transport.Connection

/-! # A run against a scripted worker

Worker and dispatcher take turns, each going on until it has to wait. When both wait the clock
jumps to the next point in time at which one of them can go on. -/
namespace SuiteRunner.Dispatch

structure World where
  clock : Nat := 0
  worker : Worker
  /-- How many requests the outbound queue holds, without a bound if absent. -/
  capacity : Option Nat := none
  dispatcher : Dispatcher
  /-- What the dispatcher has taken in, and when. -/
  past : List (Nat × Input) := []
deriving Repr, Inhabited

namespace World

def hasRoom (w : World) : Bool :=
  match w.capacity with
  | some n => w.worker.requests.length < n
  | none => true

/-- What the dispatcher finds when it looks. A request waits for room in the outbound queue,
however long that takes. While results are awaited a frame goes before expiry, and the end of the
frames is seen after the last one. -/
def offer (w : World) : Option Input :=
  match w.dispatcher.phase with
  | .sending .. =>
    if !w.worker.takes then some .refused else if w.hasRoom then some .accepted else none
  | .awaiting b =>
    match w.worker.frames with
    | f :: _ => some (.frame f)
    | [] =>
      if !w.worker.sends then some .closed
      else if b.watchdog.expired w.clock then some .expired
      else none
  | _ => none

/-- The worker's queues after the dispatcher took an input. -/
def consume (w : World) (i : Input) : Worker :=
  match i, w.dispatcher.phase with
  | .accepted, .sending _ frame =>
    { w.worker with requests := w.worker.requests ++ [frame] }
  | .frame _, _ => { w.worker with frames := w.worker.frames.drop 1 }
  | _, _ => w.worker

def take (w : World) (i : Input) : World :=
  { w with
    worker := w.consume i
    dispatcher := w.dispatcher.step w.clock i
    past := w.past ++ [(w.clock, i)] }

def dispatch : Nat → World → World
  | 0, w => w
  | n + 1, w =>
    match w.offer with
    | none => w
    | some i => dispatch n (w.take i)

/-- The worker has something to do right now. -/
def workerCanAct (w : World) : Bool :=
  match w.worker.script with
  | .receive :: _ => !w.worker.requests.isEmpty
  | .serve _ :: _ => !w.worker.requests.isEmpty
  | _ => false

def deadline? (w : World) : Option Nat :=
  match w.dispatcher.phase with
  | .awaiting b => some b.watchdog.deadline
  | _ => none

/-- The next point in time at which something happens. -/
def nextTime (w : World) : Nat :=
  match w.worker.wakeAt, w.deadline? with
  | some t, some u => min t u
  | some t, none => t
  | none, some u => u
  | none, none => w.clock

def tick (w : World) : World :=
  if w.workerCanAct then w else { w with clock := max w.clock w.nextTime }

/-- A turn of the worker and one of the dispatcher, over and over until the dispatcher is done. -/
def play (budget : Nat) : Nat → World → World
  | 0, w => w
  | n + 1, w =>
    let w := { w with worker := w.worker.act w.clock }
    let w := dispatch budget w
    if w.dispatcher.ending?.isSome then w else play budget n w.tick

/-- More inputs and turns than a run can have before it ends or waits for ever: for each step of the
script and each suite as many frames as there are tests, and a few inputs besides. -/
def budget (script : List WorkerStep) (root : Suite) : Nat :=
  (script.length + Dispatcher.suiteSize root + 1) * (root.testCount + 4)

/-- Runs a tree. The worker gets as far as it can before the dispatcher starts. -/
def run (d : Dispatcher) (script : List WorkerStep) (root : Suite) (capacity : Option Nat) : World :=
  let w : World :=
    { worker := ({ script } : Worker).act 0, capacity, dispatcher := (d.start root).settle 0 }
  let n := budget script root
  play n n w

end World

/-- What a dispatcher takes in while it works through a tree, and when, as it comes about with some
worker. -/
abbrev Behaviour := Dispatcher → Suite → List (Nat × Input)

/-- A worker that follows a script, behind the queue of a connection. -/
def Behaviour.scripted (script : List WorkerStep) : Behaviour :=
  fun d root => (World.run d script root (some Transport.channelCapacity)).past

end SuiteRunner.Dispatch
