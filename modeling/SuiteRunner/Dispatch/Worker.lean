import SuiteRunner.Wire.Request
import SuiteRunner.Wire.Response

/-! # A worker that follows a script

It stands in for a remote worker: it takes requests off one queue and puts frames on another. -/
namespace SuiteRunner.Dispatch

open Wire (Request Response Verdict)

/-- How a request is answered. -/
structure AnswerPlan where
  reversed : Bool := false
  limit : Option Nat := none
  /-- Tests whose name ends so fail; `none` lets all of them pass. -/
  failSuffix : Option String := none
  message : Option String := none
deriving DecidableEq, Repr, Inhabited

inductive WorkerStep where
  | receive
  | send (frame : String)
  | answer (plan : AnswerPlan)
  /-- Answers every request from now on. -/
  | serve (plan : AnswerPlan)
  | sleep (ms : Nat)
  /-- Sends nothing more. -/
  | closeInbound
  /-- Takes no more requests. -/
  | closeOutbound
deriving DecidableEq, Repr, Inhabited

structure Worker where
  script : List WorkerStep
  /-- Requests not yet taken, oldest first. -/
  requests : List String := []
  /-- Frames not yet read by the dispatcher, oldest first. -/
  frames : List String := []
  last : Option Request := none
  wakeAt : Option Nat := none
  sends : Bool := true
  takes : Bool := true
deriving Repr, Inhabited

namespace AnswerPlan

def verdict (plan : AnswerPlan) (name : String) : Verdict :=
  match plan.failSuffix with
  | some suffix => if suffix.toList.isSuffixOf name.toList then .failed plan.message else .ok
  | none => .ok

def responses (plan : AnswerPlan) (r : Request) : List Response :=
  let all := (List.range r.tests.length).zip r.tests |>.map fun (i, t) =>
    ⟨r.id, i, plan.verdict t.name⟩
  let ordered := if plan.reversed then all.reverse else all
  match plan.limit with
  | some n => ordered.take n
  | none => ordered

def frames (plan : AnswerPlan) (r : Request) : List String :=
  (plan.responses r).map Response.encode

end AnswerPlan

namespace Worker

def push (w : Worker) (frames : List String) : Worker :=
  if w.sends then { w with frames := w.frames ++ frames } else w

def note (w : Worker) (request : String) : Worker :=
  { w with last := (Request.decode request).toOption }

def answer (w : Worker) (plan : AnswerPlan) : Worker :=
  match w.last with
  | some r => w.push (plan.frames r)
  | none => w

/-- Answers all requests that wait. -/
def serveAll (w : Worker) (plan : AnswerPlan) : Worker :=
  w.requests.foldl (fun w r => (w.note r).answer plan) { w with requests := [] }

/-- Does what it can do at a given time, and stops at the first step that has to wait. -/
def run (now : Nat) : List WorkerStep → Worker → Worker
  | [], w => { w with script := [] }
  | step :: rest, w =>
    match step with
    | .receive =>
      match w.requests with
      | r :: requests => run now rest ({ w with requests }.note r)
      | [] =>
        if w.takes then { w with script := step :: rest }
        else run now rest { w with last := none }
    | .send frame => run now rest (w.push [frame])
    | .answer plan => run now rest (w.answer plan)
    | .serve plan => { w.serveAll plan with script := step :: rest }
    | .sleep ms =>
      let wake := w.wakeAt.getD (now + ms)
      if wake ≤ now then run now rest { w with wakeAt := none }
      else { w with script := step :: rest, wakeAt := some wake }
    | .closeInbound => run now rest { w with sends := false }
    | .closeOutbound => run now rest { w with takes := false, requests := [] }

def act (w : Worker) (now : Nat) : Worker := run now w.script w

end Worker

end SuiteRunner.Dispatch
