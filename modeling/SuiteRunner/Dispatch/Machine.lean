import SuiteRunner.Config.Basic
import SuiteRunner.Dispatch.Descriptors
import SuiteRunner.Dispatch.Pending
import SuiteRunner.Dispatch.Trace
import SuiteRunner.Dispatch.Watchdog
import SuiteRunner.Report.Summary
import SuiteRunner.Suite

/-! # The dispatcher

Suites are visited depth first, and each one that has test cases becomes a batch. A batch is sent
and then awaited until every test has its result, so there is never more than one in flight. The
dispatcher is a machine: left alone it gets to a point where it needs something from outside, and
there it takes one input at a time. -/
namespace SuiteRunner.Dispatch

open Suite (Located)
open Wire (Request Response Verdict)

/-- A suite in flight. -/
structure Batch where
  id : Nat
  path : String
  cases : List TestCase
  tickets : List Ticket
  watchdog : Watchdog
  begun : Nat
deriving Repr, Inhabited

def Batch.size (b : Batch) : Nat := b.cases.length

/-- How a traversal ends. The last two cannot come about. -/
inductive Ending where
  | completed
  | aborted (fault : RunFault)
  | unencodable (batch : Nat)
  | broken (assertion : String)
deriving DecidableEq, Repr, Inhabited

inductive Phase where
  /-- Nothing is in flight. -/
  | ready
  /-- The frame waits for room in the outbound queue. -/
  | sending (b : Batch) (frame : String)
  | awaiting (b : Batch)
  | ended (e : Ending)
deriving Repr, Inhabited

/-- What the world outside has to say. -/
inductive Input where
  /-- The outbound queue took the request, or will never take one again. -/
  | accepted
  | refused
  | frame (text : String)
  /-- The worker will send nothing more. -/
  | closed
  /-- The watchdog of the batch has expired. -/
  | expired
deriving DecidableEq, Repr, Inhabited

structure Dispatcher where
  settings : DispatchSettings
  total : Nat
  summary : Summary
  cwd : Path := ⟨[Path.slash]⟩
  /-- Suites still to visit, the next one first. -/
  todo : List Located := []
  phase : Phase := .ready
  pending : Pending := {}
  nextId : Nat := 0
  /-- Frames the outbound queue has taken, in order. -/
  sent : List String := []
  console : List Line := []
  log : List (Nat × Event) := []
deriving Repr, Inhabited

namespace Dispatcher

/-- Starts on a tree, with whatever earlier trees have left behind. -/
def start (d : Dispatcher) (root : Suite) : Dispatcher :=
  { d with todo := [⟨"", root⟩], phase := .ready }

def print (d : Dispatcher) (lines : List Line) : Dispatcher :=
  { d with console := d.console ++ lines }

def note (d : Dispatcher) (now : Nat) (e : Event) : Dispatcher :=
  { d with log := d.log ++ [(now, e)] }

def finish (d : Dispatcher) (e : Ending) : Dispatcher := { d with phase := .ended e }

def window (d : Dispatcher) : Span := d.settings.batchSpan

/-! ## Recording -/

def logFailure (d : Dispatcher) (path : String) (c : TestCase) (message : String) : Dispatcher :=
  let (summary, number) := d.summary.recordFailure (path ++ "/" ++ c.name) message
  ({ d with summary }).print [.failure c.name number]

def printProgress (d : Dispatcher) (run failed begun now : Nat) : Dispatcher :=
  d.print
    [.progress run failed (.ofMillis (now - begun)) (d.summary.percentComplete d.total), .blank]

/-- All cases of a suite that cannot be put on the wire fail. Nothing is sent for it. -/
def failUnsendable (d : Dispatcher) (now : Nat) (path : String) (cases : List TestCase)
    (message : String) : Dispatcher :=
  let d := d.note now (.unsendable path message)
  let d := { d with summary := d.summary.recordRun cases.length }
  let d := cases.foldl (fun d c => d.logFailure path c message) d
  d.printProgress cases.length cases.length now now

/-! ## Sending -/

/-- Allocates an id, counts and registers the tests, and is ready to send. -/
def openBatch (d : Dispatcher) (now : Nat) (path : String) (cases : List TestCase)
    (tests : List Wire.Descriptor) : Dispatcher :=
  let id := d.nextId
  let d := { d with nextId := id + 1 }
  match (Request.mk id tests).encode? with
  | none => d.finish (.unencodable id)
  | some frame =>
    let d := { d with summary := d.summary.recordRun cases.length }
    match d.pending.register? id cases.length with
    | none => d.finish (.broken (Pending.registerFault id))
    | some (pending, tickets) =>
      let batch : Batch :=
        ⟨id, path, cases, tickets, .arm now d.settings.batchTimeout, now⟩
      ({ d with pending, phase := .sending batch frame }).note now
        (.sendingBatch id path cases.length)

def beginSuite (d : Dispatcher) (now : Nat) (path : String) (cases : List TestCase) : Dispatcher :=
  let d := d.print [.running path]
  match describe d.cwd cases with
  | .error fault => d.failUnsendable now path cases fault.message
  | .ok tests => d.openBatch now path cases tests

def leftover : String := "continuations left after traversal"

def children (l : Located) : List Located :=
  l.suite.suites.map fun s => ⟨Suite.childPath l.path s, s⟩

/-- Visits the next suite. -/
def visit (d : Dispatcher) (now : Nat) : Dispatcher :=
  match d.todo with
  | [] => d.finish (if d.pending.isEmpty then .completed else .broken leftover)
  | l :: rest =>
    let d := { d with todo := children l ++ rest }
    if l.suite.cases.isEmpty then d else d.beginSuite now l.path l.suite.cases

/-! ## Awaiting -/

def timeoutMessage (window : Span) : String :=
  "No result received: worker inactive for " ++ Number.seconds window.seconds ++ " seconds"

/-- The message of a failed test, none for a test that is well; `absent` is for a test without a
result. -/
def failureMessage? (absent : String) : Pending.Taken → Option String
  | .verdict .ok => none
  | .verdict (.failed message) => some (message.getD "")
  | .notYet | .never => some absent

/-- Takes the results of a batch out of their mailboxes and records the failures. -/
def classify (d : Dispatcher) (path absent : String) :
    List (TestCase × Ticket) → Nat → Dispatcher × Nat
  | [], failed => (d, failed)
  | (c, t) :: rest, failed =>
    let (pending, taken) := d.pending.take t
    let d := { d with pending }
    match failureMessage? absent taken with
    | none => d.classify path absent rest failed
    | some message => (d.logFailure path c message).classify path absent rest (failed + 1)

/-- Closes the books on a batch and goes on to the next suite. -/
def conclude (d : Dispatcher) (now : Nat) (b : Batch) (absent : String) : Dispatcher :=
  let (d, failed) := d.classify b.path absent (b.cases.zip b.tickets) 0
  ({ d with phase := .ready }).printProgress b.size failed b.begun now

/-- Posts a result to its test, or notes why it cannot. -/
def handleFrame (d : Dispatcher) (now : Nat) (text : String) : Dispatcher :=
  match Response.decode text with
  | .error _ => d.note now (.undecodable text)
  | .ok r =>
    match d.pending.resolve r with
    | (pending, .delivered) =>
      ({ d with pending }).note now (.resultReceived r.id r.index pending.size)
    | (pending, .unknown) => ({ d with pending }).note now (.unknownTest r.id r.index)

/-- A frame of any kind shows that the worker is alive. -/
def receive (d : Dispatcher) (now : Nat) (b : Batch) (text : String) : Dispatcher :=
  let d := d.handleFrame now text
  if d.pending.outstanding b.id = 0 then d.conclude now b ""
  else { d with phase := .awaiting { b with watchdog := b.watchdog.refresh now } }

def giveUp (d : Dispatcher) (b : Batch) (fault : RunFault) : Dispatcher :=
  ({ d with pending := (d.pending.abandon b.id).1 }).finish (.aborted fault)

/-- Without a sign of life the run is aborted, or goes on without the missing results. -/
def timeOut (d : Dispatcher) (now : Nat) (b : Batch) : Dispatcher :=
  let missing := d.pending.outstanding b.id
  let fault := RunFault.batchTimeout b.id b.path missing b.size d.window
  if d.settings.continueOnTimeout then
    let d := d.note now (.timedOut fault)
    let d := { d with pending := (d.pending.abandon b.id).1 }
    (d.print [.timedOut missing b.size]).conclude now b (timeoutMessage d.window)
  else d.giveUp b fault

/-- One input. What does not concern the present phase changes nothing. -/
def feed (d : Dispatcher) (now : Nat) (i : Input) : Dispatcher :=
  match d.phase, i with
  | .sending b frame, .accepted => { d with sent := d.sent ++ [frame], phase := .awaiting b }
  | .sending b _, .refused => d.giveUp b (.sendFailed b.id)
  | .awaiting b, .frame text => d.receive now b text
  | .awaiting b, .closed => d.giveUp b (.channelClosed b.id b.path)
  | .awaiting b, .expired => d.timeOut now b
  | _, _ => d

/-! ## Going on alone -/

def isReady (d : Dispatcher) : Bool :=
  match d.phase with
  | .ready => true
  | _ => false

mutual
def suiteSize : Suite → Nat
  | .mk _ _ ss => 1 + suitesSize ss

def suitesSize : List Suite → Nat
  | [] => 0
  | s :: ss => suiteSize s + suitesSize ss
end

/-- Suites that are still to be visited. -/
def remaining (d : Dispatcher) : Nat := suitesSize (d.todo.map (·.suite))

def settleFor (now : Nat) : Nat → Dispatcher → Dispatcher
  | 0, d => d
  | n + 1, d => if d.isReady then settleFor now n (d.visit now) else d

/-- Visits suites until one has to be sent or none is left. -/
def settle (d : Dispatcher) (now : Nat) : Dispatcher := settleFor now (d.remaining + 1) d

/-- One input and everything that follows from it. -/
def step (d : Dispatcher) (now : Nat) (i : Input) : Dispatcher := (d.feed now i).settle now

/-- A whole tree, given the inputs in order and the time of each. -/
def run (d : Dispatcher) (now : Nat) (root : Suite) (inputs : List (Nat × Input)) : Dispatcher :=
  inputs.foldl (fun d i => d.step i.1 i.2) ((d.start root).settle now)

def ending? (d : Dispatcher) : Option Ending :=
  match d.phase with
  | .ended e => some e
  | _ => none

end Dispatcher

end SuiteRunner.Dispatch
