import SuiteRunner.Wire.Response

/-! # Tests that wait for their result

Every test of a batch in flight owns a mailbox, and the table holds the right to post to it once.
Posting gives that right up, so a second result for the same test finds nobody waiting. -/
namespace SuiteRunner.Dispatch

open Wire (Verdict Response)

/-- A batch id and the index of a test in that batch. -/
abbrev Key := Nat × Nat

/-- A mailbox, named by its place in the order in which they were handed out. -/
abbrev Ticket := Nat

inductive Mailbox where
  /-- Somebody reads it and a result may still come. -/
  | waiting
  | holding (v : Verdict)
  /-- Empty, and nothing will come any more. -/
  | spent
  /-- Nobody reads it. -/
  | deserted
deriving DecidableEq, Repr, Inhabited

structure Pending where
  entries : List (Key × Ticket) := []
  counts : List (Nat × Nat) := []
  boxes : List Mailbox := []
deriving Repr, Inhabited

inductive Resolution where
  | delivered
  | unknown
deriving DecidableEq, Repr, Inhabited

namespace Pending

/-- Number of unresolved tests of a batch. -/
def outstanding (p : Pending) (id : Nat) : Nat := (p.counts.lookup id).getD 0

def size (p : Pending) : Nat := p.entries.length

def isEmpty (p : Pending) : Bool := p.entries.isEmpty

def ticket? (p : Pending) (k : Key) : Option Ticket := p.entries.lookup k

def box (p : Pending) (t : Ticket) : Mailbox := p.boxes.getD t .spent

def setBox (p : Pending) (t : Ticket) (b : Mailbox) : Pending := { p with boxes := p.boxes.set t b }

/-- The right to post is gone. -/
def Mailbox.release : Mailbox → Mailbox
  | .waiting => .spent
  | b => b

def releaseAll (p : Pending) (ts : List Ticket) : Pending :=
  ts.foldl (fun p t => p.setBox t (Mailbox.release (p.box t))) p

/-- The keys of the first `len` tests of a batch. -/
def batchKeys (id len : Nat) : List Key := (List.range len).map (id, ·)

/-- New mailboxes for the tests of a batch, and their tickets in order. A batch that is still
outstanding is not registered again. -/
def register? (p : Pending) (id len : Nat) : Option (Pending × List Ticket) :=
  if (p.counts.lookup id).isSome then none
  else
    let tickets := (List.range len).map (p.boxes.length + ·)
    some
      ({ entries := p.entries ++ (batchKeys id len).zip tickets
         counts := if len = 0 then p.counts else p.counts ++ [(id, len)]
         boxes := p.boxes ++ List.replicate len .waiting },
        tickets)

/-- The most tests whose mailboxes can be laid out in one stretch of memory. -/
def maxBatch : Nat := 0xFFFFFFFFFFFFFFF

def registerFault (id : Nat) : String := "batch id " ++ Text.decimal id ++ " registered twice"

/-- One test less to wait for; a batch without any is forgotten. -/
def settle (counts : List (Nat × Nat)) (id : Nat) : List (Nat × Nat) :=
  match counts with
  | [] => []
  | (i, n) :: rest =>
    if i = id then if n ≤ 1 then rest else (i, n - 1) :: rest
    else (i, n) :: settle rest id

/-- Posts a result and gives up the right to do so again. -/
def resolve (p : Pending) (r : Response) : Pending × Resolution :=
  match p.ticket? (r.id, r.index) with
  | none => (p, .unknown)
  | some t =>
    let p' := { p with
      entries := p.entries.filter (·.1 ≠ (r.id, r.index))
      counts := settle p.counts r.id }
    match p.box t with
    | .waiting => (p'.setBox t (.holding r.verdict), .delivered)
    | _ => (p', .unknown)

def ofBatch (id : Nat) (e : Key × Ticket) : Bool := e.1.1 = id

/-- The indices of a batch that are still waiting, in increasing order. -/
def waitingIndices (p : Pending) (id : Nat) : List Nat :=
  ((p.entries.filter (ofBatch id)).map (·.1.2)).mergeSort

/-- Gives up on the unresolved tests of a batch. -/
def abandon (p : Pending) (id : Nat) : Pending × List Nat :=
  let gone := p.entries.filter (ofBatch id)
  let p' := { p with
    entries := p.entries.filter fun e => !ofBatch id e
    counts := p.counts.filter (·.1 ≠ id) }
  (p'.releaseAll (gone.map (·.2)), p.waitingIndices id)

/-- Nobody will read a mailbox any more. -/
def desert (p : Pending) (t : Ticket) : Pending := p.setBox t .deserted

inductive Taken where
  | verdict (v : Verdict)
  | notYet
  | never
deriving DecidableEq, Repr

/-- Takes the result out of a mailbox, if there is one. -/
def take (p : Pending) (t : Ticket) : Pending × Taken :=
  match p.box t with
  | .holding v => (p.setBox t .spent, .verdict v)
  | .waiting => (p, .notYet)
  | .spent | .deserted => (p, .never)

end Pending

end SuiteRunner.Dispatch
