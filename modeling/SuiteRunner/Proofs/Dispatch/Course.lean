import SuiteRunner.Proofs.Dispatch.Descriptors
import SuiteRunner.Proofs.Dispatch.InFlight
import SuiteRunner.Proofs.Suite

/-! # The course of a run

A run is told by two things: the suites of the tree in pre-order, and what the dispatcher took in
while it awaited each batch. `Course` says what a dispatcher has made of them at any point; visiting
a suite and taking an input keep it. -/
namespace SuiteRunner.Dispatch

open Suite (Located upcoming)
open Wire (Descriptor Request Response Verdict)

/-! ## What a run takes in -/

/-- Inputs, each with the id of the batch that was awaited when it was taken. -/
abbrev Hearing := List (Nat × Input)

/-- The result of a test: the first one that came while its batch was awaited. -/
def verdict? (heard : Hearing) (id index : Nat) : Option Verdict :=
  heard.findSome? fun e => if e.1 = id then e.2.answer? id index else none

/-- Every test of the batch has its result, or the run goes on without those that are missing. -/
def Settled (settings : DispatchSettings) (heard : Hearing) (id size : Nat) : Prop :=
  (∀ i < size, (verdict? heard id i).isSome = true) ∨
    settings.continueOnTimeout = true ∧ (id, Input.expired) ∈ heard

theorem verdict?_append (heard : Hearing) (id' : Nat) (i : Input) (id index : Nat) :
    verdict? (heard ++ [(id', i)]) id index =
      (verdict? heard id index).or (if id' = id then i.answer? id index else none) := by
  simp [verdict?, List.findSome?_append]

theorem verdict?_append_of_ne {id id' : Nat} (h : id' ≠ id) (heard : Hearing) (i : Input)
    (index : Nat) : verdict? (heard ++ [(id', i)]) id index = verdict? heard id index := by
  simp [verdict?_append, h]

theorem verdict?_append_silent {id : Nat} {i : Input} (h : ∀ index, i.answer? id index = none)
    (heard : Hearing) : verdict? (heard ++ [(id, i)]) id = verdict? heard id := by
  funext index
  rw [verdict?_append, if_pos rfl, h, Option.or_none]

private theorem verdict?_eq_none {heard : Hearing} {id : Nat} (h : ∀ e ∈ heard, e.1 < id)
    (index : Nat) : verdict? heard id index = none := by
  refine List.findSome?_eq_none_iff.mpr fun e he => ?_
  rw [if_neg (Nat.ne_of_lt (h e he))]

theorem Settled.append {settings : DispatchSettings} {heard : Hearing} {id size : Nat}
    (h : Settled settings heard id size) (e : Nat × Input) :
    Settled settings (heard ++ [e]) id size := by
  rcases h with h | ⟨hc, hm⟩
  · refine .inl fun i hi => ?_
    obtain ⟨v, hv⟩ := Option.isSome_iff_exists.mp (h i hi)
    rw [verdict?_append, hv]
    rfl
  · exact .inr ⟨hc, List.mem_append_left _ hm⟩

namespace Dispatcher

/-- What an input adds to the hearing. -/
def hears (d : Dispatcher) (i : Input) : Hearing :=
  match d.phase with
  | .awaiting b => [(b.id, i)]
  | _ => []

def hearing (d : Dispatcher) : List (Nat × Input) → Hearing
  | [] => []
  | (now, i) :: rest => d.hears i ++ (d.step now i).hearing rest

/-- What a run takes in while it awaits its batches. -/
def heard (d : Dispatcher) (now : Nat) (root : Suite) (inputs : List (Nat × Input)) : Hearing :=
  ((d.start root).settle now).hearing inputs

/-- A dispatcher that has not run anything yet. -/
def fresh (settings : DispatchSettings) (total : Nat) (begun : Moment) (cwd : Path) : Dispatcher :=
  { settings, total, summary := .start begun, cwd }

/-- The batch that is registered and not over yet. -/
def inFlight? (d : Dispatcher) : Option Batch :=
  match d.phase with
  | .sending b _ | .awaiting b => some b
  | _ => none

/-! ## One induction for all runs -/

theorem settleFor_induction {P : Dispatcher → Prop} {now : Nat}
    (visit : ∀ d, d.isReady = true → P d → P (d.visit now)) (n : Nat) (d : Dispatcher) (h : P d) :
    P (settleFor now n d) := by
  induction n generalizing d with
  | zero => exact h
  | succ n ih =>
    unfold settleFor
    split
    · next hr => exact ih _ (visit d hr h)
    · exact h

/-- What holds at the start, and is kept by visiting a suite and by taking an input, holds after
every run of what the run has heard. -/
theorem run_induction {P : Dispatcher → Hearing → Prop} {d : Dispatcher} {root : Suite}
    (start : P (d.start root) [])
    (visit : ∀ d heard now, d.isReady = true → P d heard → P (d.visit now) heard)
    (feed : ∀ d heard now i, P d heard → P (d.feed now i) (heard ++ d.hears i))
    (now : Nat) (inputs : List (Nat × Input)) :
    P (d.run now root inputs) (d.heard now root inputs) := by
  have hsettle (now : Nat) (d : Dispatcher) (heard : Hearing) (h : P d heard) :
      P (d.settle now) heard :=
    settleFor_induction (P := (P · heard)) (fun d hr hd => visit d heard now hr hd) _ d h
  -- The hearing so far is carried along, so that what an input adds stands at its end.
  have hfold (inputs : List (Nat × Input)) (d : Dispatcher) (heard : Hearing) (h : P d heard) :
      P (inputs.foldl (fun d i => d.step i.1 i.2) d) (heard ++ d.hearing inputs) := by
    induction inputs generalizing d heard with
    | nil => simpa [hearing] using h
    | cons i inputs ih =>
      have hstep := hsettle i.1 _ _ (feed d heard i.1 i.2 h)
      simpa [hearing, List.append_assoc] using ih (d.step i.1 i.2) (heard ++ d.hears i.2) hstep
  simpa [run, heard] using hfold inputs _ [] (hsettle now _ _ start)

end Dispatcher

/-! ## What a run has to send and to record -/

/-- The request of a suite, if it has cases and all of them can be sent. -/
def batchOf? (cwd : Path) (l : Located) : Option (Located × List Descriptor) :=
  if l.suite.cases.isEmpty then none else (describe cwd l.suite.cases).toOption.map (l, ·)

def batches (cwd : Path) (suites : List Located) : List (Located × List Descriptor) :=
  suites.filterMap (batchOf? cwd)

/-- The requests of some suites in order, with ids counted from `id` on. -/
def requests (cwd : Path) (id : Nat) (suites : List Located) : List Request :=
  ((batches cwd suites).zipIdx id).map fun b => ⟨b.2, b.1.2⟩

/-- The failures of some suites in order, the first batch among them having the given id. A suite
that cannot be sent fails in all its cases and takes no id. -/
def failuresFrom (cwd : Path) (absent : String) (verdicts : Nat → Nat → Option Verdict) :
    Nat → List Located → List Failure
  | _, [] => []
  | id, l :: rest =>
    if l.suite.cases.isEmpty then failuresFrom cwd absent verdicts id rest
    else
      match describe cwd l.suite.cases with
      | .error fault =>
        l.suite.cases.map (fun c => ⟨l.path ++ "/" ++ c.name, fault.message⟩) ++
          failuresFrom cwd absent verdicts id rest
      | .ok _ =>
        suiteFailures l.path absent l.suite.cases (verdicts id) ++
          failuresFrom cwd absent verdicts (id + 1) rest

theorem batches_append (cwd : Path) (xs ys : List Located) :
    batches cwd (xs ++ ys) = batches cwd xs ++ batches cwd ys := List.filterMap_append

theorem requests_append (cwd : Path) (id : Nat) (xs ys : List Located) :
    requests cwd id (xs ++ ys) =
      requests cwd id xs ++ requests cwd (id + (batches cwd xs).length) ys := by
  simp [requests, batches_append, List.zipIdx_append]

section

variable {cwd : Path} {l : Located}

theorem batches_of_empty (h : l.suite.cases.isEmpty = true) : batches cwd [l] = [] := by
  simp [batches, batchOf?, h]

theorem batches_of_error {fault : FileFault} (h : describe cwd l.suite.cases = .error fault) :
    batches cwd [l] = [] := by
  simp [batches, batchOf?, h, Except.toOption]

theorem batches_of_ok {tests : List Descriptor} (hc : l.suite.cases.isEmpty = false)
    (h : describe cwd l.suite.cases = .ok tests) : batches cwd [l] = [(l, tests)] := by
  simp [batches, batchOf?, hc, h, Except.toOption]

variable {absent : String} {verdicts : Nat → Nat → Option Verdict}

theorem failuresFrom_append (id : Nat) (xs ys : List Located) :
    failuresFrom cwd absent verdicts id (xs ++ ys) =
      failuresFrom cwd absent verdicts id xs ++
        failuresFrom cwd absent verdicts (id + (batches cwd xs).length) ys := by
  induction xs generalizing id with
  | nil => simp [failuresFrom, batches]
  | cons l xs ih =>
    have hb : batches cwd (l :: xs) = batches cwd [l] ++ batches cwd xs :=
      batches_append cwd [l] xs
    cases hc : l.suite.cases.isEmpty with
    | true =>
      simp only [List.cons_append, failuresFrom, hc, ↓reduceIte, hb, batches_of_empty hc,
        List.nil_append, ih]
    | false =>
      simp only [List.cons_append, failuresFrom, hc, Bool.false_eq_true, ↓reduceIte, hb]
      cases hd : describe cwd l.suite.cases with
      | error fault => simp [batches_of_error hd, ih]
      | ok tests => simp [batches_of_ok hc hd, ih, Nat.add_assoc, Nat.add_comm 1]

/-- Only the results of the tests of the suites matter. -/
theorem failuresFrom_congr {verdicts' : Nat → Nat → Option Verdict} {id : Nat} {xs : List Located}
    (h : ∀ j b, (batches cwd xs)[j]? = some b → ∀ i < b.1.suite.cases.length,
      verdicts (id + j) i = verdicts' (id + j) i) :
    failuresFrom cwd absent verdicts id xs = failuresFrom cwd absent verdicts' id xs := by
  induction xs generalizing id with
  | nil => rfl
  | cons l xs ih =>
    have hb : batches cwd (l :: xs) = batches cwd [l] ++ batches cwd xs :=
      batches_append cwd [l] xs
    rw [hb] at h
    cases hc : l.suite.cases.isEmpty with
    | true =>
      rw [batches_of_empty hc] at h
      simp only [failuresFrom, hc, ↓reduceIte]
      exact ih h
    | false =>
      simp only [failuresFrom, hc, Bool.false_eq_true, ↓reduceIte]
      cases hd : describe cwd l.suite.cases with
      | error fault =>
        rw [batches_of_error hd] at h
        simp only
        rw [ih h]
      | ok tests =>
        rw [batches_of_ok hc hd] at h
        have hfirst : suiteFailures l.path absent l.suite.cases (verdicts id) =
            suiteFailures l.path absent l.suite.cases (verdicts' id) := by
          apply List.filterMap_congr
          rintro ⟨c, i⟩ hmem
          have hi := h 0 (l, tests) rfl i (List.snd_lt_of_mem_zipIdx hmem)
          rw [Nat.add_zero] at hi
          rw [hi]
        have hrest : ∀ j b, (batches cwd xs)[j]? = some b → ∀ i < b.1.suite.cases.length,
            verdicts (id + 1 + j) i = verdicts' (id + 1 + j) i := by
          intro j b hj i hi
          rw [Nat.add_assoc, Nat.add_comm 1]
          exact h (j + 1) b hj i hi
        simp only
        rw [hfirst, ih hrest]

end

/-! ## The invariant -/

namespace Dispatcher

variable {d₀ d : Dispatcher} {plan : List Located} {heard : Hearing} {done : List Located}

/-- The requests of these suites are on their way, and nothing else. -/
def Sent (d₀ d : Dispatcher) (suites : List Located) : Prop :=
  d.sent.map some =
    d₀.sent.map some ++ (requests d₀.cwd d₀.nextId suites).map Request.encode?

/-- A run that began with `d₀` has dealt with the suites `done`. -/
structure Behind (d₀ d : Dispatcher) (heard : Hearing) (done : List Located) : Prop where
  settings : d.settings = d₀.settings
  cwd : d.cwd = d₀.cwd
  failures : d.summary.failures = d₀.summary.failures ++
    failuresFrom d₀.cwd (timeoutMessage d₀.window) (verdict? heard) d₀.nextId done
  settled : ∀ j b, (batches d₀.cwd done)[j]? = some b →
    Settled d₀.settings heard (d₀.nextId + j) b.1.suite.cases.length
  ids : ∀ e ∈ heard, e.1 < d.nextId

/-- The batch `b` is that of the suite `l`, which comes right after `done`. -/
structure Carries (d₀ d : Dispatcher) (plan : List Located) (done : List Located) (b : Batch)
    (l : Located) (tests : List Descriptor) : Prop where
  order : plan = done ++ l :: upcoming d.todo
  nonempty : l.suite.cases.isEmpty = false
  path : b.path = l.path
  cases : b.cases = l.suite.cases
  described : describe d₀.cwd l.suite.cases = .ok tests
  id : b.id = d₀.nextId + (batches d₀.cwd done).length
  next : d.nextId = b.id + 1
  tickets : b.tickets.length = b.cases.length

/-- The fault is one of sending or awaiting the batch `id` of the suite `l`. -/
def Blames (settings : DispatchSettings) (l : Located) (id : Nat) : RunFault → Prop
  | .sendFailed batch => batch = id
  | .channelClosed batch path => batch = id ∧ path = l.path
  | .batchTimeout batch path _ total window => settings.continueOnTimeout = false ∧ batch = id ∧
      path = l.path ∧ total = l.suite.cases.length ∧ window = settings.batchSpan
  | .connectionTimeout _ => False

/-- What is the case in each phase of a run. -/
def Stands (d₀ d : Dispatcher) (plan : List Located) (heard : Hearing) (done : List Located) :
    Phase → Prop
  | .ready => d.pending.Quiet ∧ plan = done ++ upcoming d.todo ∧
      d.nextId = d₀.nextId + (batches d₀.cwd done).length ∧ Sent d₀ d done
  | .sending b frame => ∃ l tests, Carries d₀ d plan done b l tests ∧
      d.pending.InFlight b.id b.tickets (verdict? heard b.id) ∧
      (Request.mk b.id tests).encode? = some frame ∧ Sent d₀ d done
  | .awaiting b => ∃ l tests, Carries d₀ d plan done b l tests ∧
      d.pending.InFlight b.id b.tickets (verdict? heard b.id) ∧ Sent d₀ d (done ++ [l])
  | .ended .completed => d.pending.Quiet ∧ plan = done ∧ Sent d₀ d done
  | .ended (.aborted fault) => d.pending.Quiet ∧ ∃ l rest, plan = done ++ l :: rest ∧
      Blames d₀.settings l (d₀.nextId + (batches d₀.cwd done).length) fault ∧
      (Sent d₀ d done ∨ Sent d₀ d (done ++ [l]))
  | .ended _ => False

/-- How far a run that began with `d₀` has come. -/
def Course (d₀ : Dispatcher) (plan : List Located) (d : Dispatcher) (heard : Hearing) : Prop :=
  ∃ done, Behind d₀ d heard done ∧ Stands d₀ d plan heard done d.phase

theorem Stands.inFlight {b : Batch} (h : Stands d₀ d plan heard done d.phase)
    (hb : d.inFlight? = some b) :
    ∃ l tests, Carries d₀ d plan done b l tests ∧
      d.pending.InFlight b.id b.tickets (verdict? heard b.id) := by
  unfold inFlight? at hb
  cases hp : d.phase with
  | ready => simp [hp] at hb
  | sending b' frame =>
    rw [hp] at h hb
    cases hb
    obtain ⟨l, tests, hc, hin, -, -⟩ := h
    exact ⟨l, tests, hc, hin⟩
  | awaiting b' =>
    rw [hp] at h hb
    cases hb
    obtain ⟨l, tests, hc, hin, -⟩ := h
    exact ⟨l, tests, hc, hin⟩
  | ended e => simp [hp] at hb

theorem Behind.of_eq {d' : Dispatcher} (h : Behind d₀ d heard done)
    (hs : d'.settings = d.settings) (hc : d'.cwd = d.cwd)
    (hf : d'.summary.failures = d.summary.failures) (hn : d.nextId ≤ d'.nextId) :
    Behind d₀ d' heard done where
  settings := hs.trans h.settings
  cwd := hc.trans h.cwd
  failures := hf.trans h.failures
  settled := h.settled
  ids e he := Nat.lt_of_lt_of_le (h.ids e he) hn

theorem Carries.of_eq {d' : Dispatcher} {b : Batch} {l : Located} {tests : List Descriptor}
    (h : Carries d₀ d plan done b l tests) (ht : d'.todo = d.todo) (hn : d'.nextId = d.nextId) :
    Carries d₀ d' plan done b l tests :=
  ⟨ht ▸ h.order, h.nonempty, h.path, h.cases, h.described, h.id, hn ▸ h.next, h.tickets⟩

/-- One suite more is dealt with. -/
theorem Behind.extend {d' : Dispatcher} {l : Located} (h : Behind d₀ d heard done)
    (hs : d'.settings = d.settings) (hc : d'.cwd = d.cwd) (hn : d.nextId ≤ d'.nextId)
    (hf : d'.summary.failures = d.summary.failures ++
      failuresFrom d₀.cwd (timeoutMessage d₀.window) (verdict? heard)
        (d₀.nextId + (batches d₀.cwd done).length) [l])
    (hb : ∀ b ∈ batches d₀.cwd [l], Settled d₀.settings heard
      (d₀.nextId + (batches d₀.cwd done).length) b.1.suite.cases.length) :
    Behind d₀ d' heard (done ++ [l]) where
  settings := hs.trans h.settings
  cwd := hc.trans h.cwd
  failures := by rw [hf, h.failures, failuresFrom_append, List.append_assoc]
  settled j b hj := by
    rw [batches_append] at hj
    rcases Nat.lt_or_ge j (batches d₀.cwd done).length with hlt | hge
    · rw [List.getElem?_append_left hlt] at hj
      exact h.settled j b hj
    · rw [List.getElem?_append_right hge] at hj
      -- A suite makes one batch at most, so this is its first one.
      have hlen : (batches d₀.cwd [l]).length ≤ 1 := List.length_filterMap_le _ _
      have hlt := (List.getElem?_eq_some_iff.mp hj).1
      obtain rfl : j = (batches d₀.cwd done).length := by omega
      exact hb b (List.mem_of_getElem? hj)
  ids e he := Nat.lt_of_lt_of_le (h.ids e he) hn

/-- What is heard of a later batch does not change what the suites behind have come to. -/
theorem Behind.hear {id : Nat} (h : Behind d₀ d heard done)
    (hid : d₀.nextId + (batches d₀.cwd done).length ≤ id) (hlt : id < d.nextId) (i : Input) :
    Behind d₀ d (heard ++ [(id, i)]) done where
  settings := h.settings
  cwd := h.cwd
  failures := by
    rw [h.failures]
    congr 1
    apply failuresFrom_congr
    intro j b hj index _
    have hlt := (List.getElem?_eq_some_iff.mp hj).1
    exact (verdict?_append_of_ne (by omega) heard i index).symm
  settled j b hj := (h.settled j b hj).append _
  ids e he := by
    rcases List.mem_append.mp he with he | he
    · exact h.ids e he
    · obtain rfl := List.mem_singleton.mp he
      exact hlt

theorem Behind.hear_batch {b : Batch} {l : Located} {tests : List Descriptor}
    (h : Behind d₀ d heard done) (hc : Carries d₀ d plan done b l tests) (i : Input) :
    Behind d₀ d (heard ++ [(b.id, i)]) done := by
  have hlt : b.id < d.nextId := by
    rw [hc.next]
    exact Nat.lt_succ_self b.id
  exact h.hear (Nat.le_of_eq hc.id.symm) hlt i

theorem course_start (h : d₀.pending.Quiet) (root : Suite) :
    Course d₀ (root.preorder "") (d₀.start root) [] := by
  refine ⟨[], ⟨rfl, rfl, ?_, ?_, ?_⟩, h, ?_, rfl, ?_⟩
  · simp [start, failuresFrom]
  · simp [batches]
  · simp
  · simp [start, upcoming]
  · simp [Sent, start, requests, batches]

/-! ## Visiting a suite -/

theorem failUnsendable_logs (d : Dispatcher) (now : Nat) (path : String) (cases : List TestCase)
    (message : String) :
    d.failUnsendable now path cases message =
      (({ d.note now (.unsendable path message) with
          summary := d.summary.recordRun cases.length } : Dispatcher).logFailures path
        (cases.map (·, message))).printProgress cases.length cases.length now now := by
  rw [failUnsendable, logFailures, List.foldl_map]
  rfl

theorem failUnsendable_eq (d : Dispatcher) (now : Nat) (path : String) (cases : List TestCase)
    (message : String) :
    ∃ console log, d.failUnsendable now path cases message =
      { d with
        summary := { d.summary with
          testsRun := d.summary.testsRun + cases.length
          failures := d.summary.failures ++ cases.map fun c => ⟨path ++ "/" ++ c.name, message⟩ }
        console
        log } := by
  refine ⟨(d.failUnsendable now path cases message).console,
    d.log ++ [(now, .unsendable path message)], ?_⟩
  rw [failUnsendable_logs, logFailures_eq, List.map_map]
  rfl

theorem phase_failUnsendable (d : Dispatcher) (now : Nat) (path : String) (cases : List TestCase)
    (message : String) : (d.failUnsendable now path cases message).phase = d.phase := by
  obtain ⟨console, log, he⟩ := failUnsendable_eq d now path cases message
  rw [he]

section

variable {l : Located} {rest : List Located} (now : Nat)

theorem visit_nil (hq : d.pending.Quiet) (ht : d.todo = []) :
    d.visit now = d.finish .completed := by
  simp [visit, ht, hq.isEmpty]

theorem visit_empty (ht : d.todo = l :: rest) (hc : l.suite.cases.isEmpty = true) :
    d.visit now = { d with todo := children l ++ rest } := by
  simp [visit, ht, hc]

theorem visit_fails {fault : FileFault} (ht : d.todo = l :: rest)
    (hc : l.suite.cases.isEmpty = false) (h : describe d.cwd l.suite.cases = .error fault) :
    d.visit now =
      (({ d with todo := children l ++ rest }).print [.running l.path]).failUnsendable now l.path
        l.suite.cases fault.message := by
  simp [visit, ht, hc, beginSuite, print, h]

theorem visit_unsendable {fault : FileFault} (ht : d.todo = l :: rest)
    (hc : l.suite.cases.isEmpty = false) (h : describe d.cwd l.suite.cases = .error fault) :
    ∃ console log, d.visit now =
      { d with
        todo := children l ++ rest
        summary := { d.summary with
          testsRun := d.summary.testsRun + l.suite.cases.length
          failures := d.summary.failures ++
            l.suite.cases.map fun c => ⟨l.path ++ "/" ++ c.name, fault.message⟩ }
        console
        log } := by
  rw [visit_fails now ht hc h]
  exact failUnsendable_eq _ now l.path l.suite.cases fault.message

/-- A suite that can be sent is counted, gets its mailboxes and an armed watchdog, and is ready to
go. -/
theorem visit_opens {tests : List Descriptor} (hq : d.pending.Quiet) (ht : d.todo = l :: rest)
    (hc : l.suite.cases.isEmpty = false) (h : describe d.cwd l.suite.cases = .ok tests) :
    ∃ frame, (Request.mk d.nextId tests).encode? = some frame ∧
      d.visit now =
        { d with
          todo := children l ++ rest
          nextId := d.nextId + 1
          summary := d.summary.recordRun l.suite.cases.length
          pending := d.pending.enroll d.nextId l.suite.cases.length
          phase := .sending ⟨d.nextId, l.path, l.suite.cases,
            d.pending.newTickets l.suite.cases.length, .arm now d.settings.batchTimeout, now⟩ frame
          console := d.console ++ [.running l.path]
          log := d.log ++ [(now, .sendingBatch d.nextId l.path l.suite.cases.length)] } := by
  obtain ⟨frame, hframe⟩ := encode?_of_describe h d.nextId
  have h0 : d.pending.outstanding d.nextId = 0 :=
    hq.1.outstanding_eq_zero_iff.mpr (by simp [hq.2])
  have hreg := hq.1.register?_of_outstanding h0 l.suite.cases.length
  refine ⟨frame, hframe, ?_⟩
  simp [visit, ht, hc, beginSuite, print, h, openBatch, hframe, hreg, note]

/-- Nobody has a result yet of the tests of a suite that was just registered. -/
theorem visit_sendable {tests : List Descriptor} (hq : d.pending.Quiet) (ht : d.todo = l :: rest)
    (hc : l.suite.cases.isEmpty = false) (h : describe d.cwd l.suite.cases = .ok tests) :
    ∃ pending tickets frame watchdog console log,
      (Request.mk d.nextId tests).encode? = some frame ∧
      tickets.length = l.suite.cases.length ∧
      pending.InFlight d.nextId tickets (fun _ => none) ∧
      d.visit now =
        { d with
          todo := children l ++ rest
          nextId := d.nextId + 1
          summary := d.summary.recordRun l.suite.cases.length
          pending
          phase := .sending ⟨d.nextId, l.path, l.suite.cases, tickets, watchdog, now⟩ frame
          console
          log } := by
  obtain ⟨frame, hframe, hvisit⟩ := visit_opens now hq ht hc h
  obtain ⟨hlen, hin⟩ := hq.enroll d.nextId l.suite.cases.length
  exact ⟨_, _, frame, _, _, _, hframe, hlen, hin, hvisit⟩

end

theorem phase_of_isReady (h : d.isReady = true) : d.phase = .ready := by
  unfold isReady at h
  split at h
  · assumption
  · cases h

theorem phase_of_ending? {e : Ending} (h : d.ending? = some e) :
    d.phase = .ended e := by
  unfold ending? at h
  split at h
  · next hp => rw [hp, Option.some.inj h]
  · cases h

/-- A run ends only by completing or by being given up. -/
theorem Course.ending_cases (h : Course d₀ plan d heard) {e : Ending} (he : d.ending? = some e) :
    e = .completed ∨ ∃ fault, e = .aborted fault := by
  obtain ⟨done, -, hs⟩ := h
  rw [phase_of_ending? he] at hs
  cases e with
  | completed => exact .inl rfl
  | aborted fault => exact .inr ⟨fault, rfl⟩
  | unencodable batch => exact hs.elim
  | broken assertion => exact hs.elim

theorem course_visit (h : Course d₀ plan d heard) (hr : d.isReady = true) (now : Nat) :
    Course d₀ plan (d.visit now) heard := by
  obtain ⟨done, hb, hs⟩ := h
  rw [phase_of_isReady hr] at hs
  obtain ⟨hq, horder, hnext, hsent⟩ := hs
  cases ht : d.todo with
  | nil =>
    rw [visit_nil now hq ht]
    refine ⟨done, hb.of_eq rfl rfl rfl (Nat.le_refl _), hq, ?_, hsent⟩
    simpa [ht, upcoming] using horder
  | cons l rest =>
    rw [ht, Suite.upcoming_cons] at horder
    have horder' : plan = (done ++ [l]) ++ upcoming (children l ++ rest) := by
      rw [horder, List.append_assoc]
      rfl
    -- Suites without a batch move to those behind, and all else stays.
    have hstays (d' : Dispatcher) (hnone : batches d₀.cwd [l] = []) (hphase : d'.phase = .ready)
        (htodo : d'.todo = children l ++ rest) (hp : d'.pending = d.pending)
        (hn : d'.nextId = d.nextId) (hm : d'.sent = d.sent) :
        Stands d₀ d' plan heard (done ++ [l]) d'.phase := by
      rw [hphase]
      refine ⟨hp ▸ hq, htodo ▸ horder', ?_, ?_⟩
      · rw [hn, hnext, batches_append, hnone, List.append_nil]
      · unfold Sent
        rw [hm, requests_append, hsent]
        simp [requests, hnone]
    cases hc : l.suite.cases.isEmpty with
    | true =>
      have hnone : batches d₀.cwd [l] = [] := batches_of_empty hc
      rw [visit_empty now ht hc]
      refine ⟨done ++ [l], hb.extend rfl rfl (Nat.le_refl _) ?_ (by simp [hnone]), ?_⟩
      · simp [failuresFrom, hc]
      · exact hstays _ hnone (phase_of_isReady hr) rfl rfl rfl rfl
    | false =>
      cases hd : describe d.cwd l.suite.cases with
      | error fault =>
        obtain ⟨console, log, he⟩ := visit_unsendable now ht hc hd
        have hd' : describe d₀.cwd l.suite.cases = .error fault := hb.cwd ▸ hd
        have hnone := batches_of_error hd'
        rw [he]
        refine ⟨done ++ [l], hb.extend rfl rfl (Nat.le_refl _) ?_ (by simp [hnone]), ?_⟩
        · simp [failuresFrom, hc, hd']
        · exact hstays _ hnone (phase_of_isReady hr) rfl rfl rfl rfl
      | ok tests =>
        obtain ⟨pending, tickets, frame, watchdog, console, log, hframe, hlen, hin, he⟩ :=
          visit_sendable now hq ht hc hd
        rw [he]
        have hnew : verdict? heard d.nextId = fun _ => none :=
          funext fun index => verdict?_eq_none hb.ids index
        refine ⟨done, hb.of_eq rfl rfl rfl (Nat.le_succ _), l, tests, ?_, hnew ▸ hin, hframe, hsent⟩
        exact ⟨horder, hc, rfl, rfl, hb.cwd ▸ hd, hnext, rfl, hlen⟩

/-! ## Going on alone -/

theorem todo_visit {l : Located} {rest : List Located} (ht : d.todo = l :: rest) (now : Nat) :
    (d.visit now).todo = children l ++ rest := by
  have hopen (d : Dispatcher) (path : String) (cases : List TestCase) (tests : List Descriptor) :
      (d.openBatch now path cases tests).todo = d.todo := by
    simp only [openBatch]
    split
    · rfl
    · split <;> rfl
  simp only [visit, ht]
  split
  · rfl
  · simp only [beginSuite]
    split
    · obtain ⟨console, log, he⟩ := failUnsendable_eq
        (({ d with todo := children l ++ rest } : Dispatcher).print [.running l.path]) now l.path
        l.suite.cases _
      rw [he]
      rfl
    · exact hopen ..

private theorem suitesSize_append (ss ts : List Suite) :
    suitesSize (ss ++ ts) = suitesSize ss + suitesSize ts := by
  induction ss with
  | nil => simp [suitesSize]
  | cons s ss ih => simp only [List.cons_append, suitesSize, ih, Nat.add_assoc]

theorem remaining_visit {l : Located} {rest : List Located} (ht : d.todo = l :: rest) (now : Nat) :
    (d.visit now).remaining + 1 = d.remaining := by
  have hchildren : (children l).map (·.suite) = l.suite.suites := by
    simp [children, Function.comp_def]
  have hsize : suiteSize l.suite = 1 + suitesSize l.suite.suites := by
    cases l.suite
    rfl
  simp only [remaining, todo_visit ht, ht, List.map_append, hchildren, suitesSize_append,
    List.map_cons, suitesSize, hsize]
  omega

theorem settleFor_of_not_ready (h : d.isReady = false) (now n : Nat) : settleFor now n d = d := by
  cases n with
  | zero => rfl
  | succ n => simp [settleFor, h]

theorem isReady_settleFor {n : Nat} (h : d.remaining < n) (now : Nat) :
    (settleFor now n d).isReady = false := by
  induction n generalizing d with
  | zero => omega
  | succ n ih =>
    unfold settleFor
    cases hr : d.isReady with
    | false => simpa using hr
    | true =>
      simp only [↓reduceIte]
      cases ht : d.todo with
      | nil =>
        have hended : (d.visit now).isReady = false := by simp [visit, ht, finish, isReady]
        rwa [settleFor_of_not_ready hended]
      | cons l rest =>
        have hvisit := remaining_visit ht now
        exact ih (by omega)

/-- Left alone, a run goes on until it has ended or needs something from outside. -/
theorem isReady_run (d : Dispatcher) (now : Nat) (root : Suite) (inputs : List (Nat × Input)) :
    (d.run now root inputs).isReady = false := by
  have hsettle (d : Dispatcher) (now : Nat) : (d.settle now).isReady = false :=
    isReady_settleFor (Nat.lt_succ_self _) now
  have hfold (inputs : List (Nat × Input)) (d : Dispatcher) (h : d.isReady = false) :
      (inputs.foldl (fun d i => d.step i.1 i.2) d).isReady = false := by
    induction inputs generalizing d with
    | nil => exact h
    | cons i inputs ih => exact ih _ (hsettle _ _)
  exact hfold inputs _ (hsettle _ _)

/-! ## Taking an input -/

theorem window_eq (h : d.settings = d₀.settings) : d.window = d₀.window := by
  rw [window, window, h]

/-- A batch that is over joins the suites behind. -/
theorem course_conclude {b : Batch} {l : Located} {tests : List Descriptor} {absent : String}
    {empty : Mailbox} (hb : Behind d₀ d heard done) (hc : Carries d₀ d plan done b l tests)
    (hsent : Sent d₀ d (done ++ [l])) (hq : d.pending.Quiet) (hn : b.tickets.Nodup)
    (hempty : empty = .waiting ∨ empty = .spent)
    (hbox : ∀ i t, b.tickets[i]? = some t →
      d.pending.box t = mailboxOf empty (verdict? heard b.id i))
    (hsettled : Settled d₀.settings heard b.id b.cases.length)
    (habsent : absent = timeoutMessage d₀.window ∨
      ∀ i < b.cases.length, (verdict? heard b.id i).isSome = true) (now : Nat) :
    Course d₀ plan (d.conclude now b absent) heard := by
  obtain ⟨boxes, console, he⟩ := conclude_eq d now b absent hempty hn hc.tickets hbox
  have hbatches := batches_of_ok hc.nonempty hc.described
  -- The text for a missing result is the one for a silent worker, or no result is missing.
  have hfailures : suiteFailures b.path absent b.cases (verdict? heard b.id) =
      suiteFailures l.path (timeoutMessage d₀.window) l.suite.cases
        (verdict? heard (d₀.nextId + (batches d₀.cwd done).length)) := by
    rw [← hc.path, ← hc.cases, ← hc.id]
    rcases habsent with rfl | hall
    · rfl
    · exact suiteFailures_congr hall
  rw [he]
  refine ⟨done ++ [l], hb.extend rfl rfl (Nat.le_refl _) ?_ ?_, hq.boxes boxes, ?_, ?_, hsent⟩
  · simp [failuresFrom, hc.nonempty, hc.described, hfailures]
  · simpa [hbatches, ← hc.id, ← hc.cases] using hsettled
  · simpa using hc.order
  · rw [batches_append, hbatches, List.length_append, ← Nat.add_assoc, ← hc.id]
    exact hc.next

theorem course_giveUp {b : Batch} {l : Located} {tests : List Descriptor} {fault : RunFault}
    (hb : Behind d₀ d heard done) (hc : Carries d₀ d plan done b l tests)
    (hin : d.pending.InFlight b.id b.tickets (verdict? heard b.id))
    (hfault : Blames d₀.settings l b.id fault)
    (hsent : Sent d₀ d done ∨ Sent d₀ d (done ++ [l])) :
    Course d₀ plan (d.giveUp b fault) heard := by
  rw [hc.id] at hfault
  exact ⟨done, hb.of_eq rfl rfl rfl (Nat.le_refl _), hin.abandon.1, l, upcoming d.todo, hc.order,
    hfault, hsent⟩

/-- A frame adds to the results of the batch in flight what it brings for them. -/
theorem inFlight_handleFrame {id : Nat} {tickets : List Ticket}
    (h : d.pending.InFlight id tickets (verdict? heard id)) (now : Nat) (text : String) :
    (d.handleFrame now text).pending.InFlight id tickets
      (verdict? (heard ++ [(id, .frame text)]) id) := by
  obtain ⟨pending, log, he, hstep⟩ := d.handleFrame_eq now text
  have hverdicts : verdict? (heard ++ [(id, .frame text)]) id = fun i =>
      (verdict? heard id i).or ((Input.frame text).answer? id i) := by
    funext i
    rw [verdict?_append, if_pos rfl]
  rw [he, hverdicts]
  exact hstep _ _ _ h

private theorem course_receive {b : Batch} {l : Located} {tests : List Descriptor}
    (hb : Behind d₀ d heard done) (hc : Carries d₀ d plan done b l tests)
    (hin : d.pending.InFlight b.id b.tickets (verdict? heard b.id))
    (hsent : Sent d₀ d (done ++ [l])) (now : Nat) (text : String) :
    Course d₀ plan (d.receive now b text) (heard ++ [(b.id, .frame text)]) := by
  obtain ⟨pending, log, he, -⟩ := d.handleFrame_eq now text
  have hb' : Behind d₀ (d.handleFrame now text) (heard ++ [(b.id, .frame text)]) done := by
    rw [he]
    exact (hb.hear_batch hc _).of_eq rfl rfl rfl (Nat.le_refl _)
  have hin' := inFlight_handleFrame hin now text
  have hc' : Carries d₀ (d.handleFrame now text) plan done b l tests := by
    rw [he]
    exact hc.of_eq rfl rfl
  have hsent' : Sent d₀ (d.handleFrame now text) (done ++ [l]) := by
    rw [he]
    exact hsent
  by_cases h0 : (d.handleFrame now text).pending.outstanding b.id = 0
  · have hall := hin'.outstanding_eq_zero_iff.mp h0
    rw [hc.tickets] at hall
    rw [receive, if_pos h0]
    exact course_conclude hb' hc' hsent' (hin'.quiet h0) hin'.nodup (.inl rfl) hin'.box (.inl hall)
      (.inr hall) now
  · rw [receive, if_neg h0]
    refine ⟨done, hb'.of_eq rfl rfl rfl (Nat.le_refl _), l, tests, ?_, hin', hsent'⟩
    exact ⟨hc'.order, hc'.nonempty, hc'.path, hc'.cases, hc'.described, hc'.id, hc'.next,
      hc'.tickets⟩

private theorem course_timeOut {b : Batch} {l : Located} {tests : List Descriptor}
    (hb : Behind d₀ d heard done) (hc : Carries d₀ d plan done b l tests)
    (hin : d.pending.InFlight b.id b.tickets (verdict? heard b.id))
    (hsent : Sent d₀ d (done ++ [l])) (now : Nat) :
    Course d₀ plan (d.timeOut now b) (heard ++ [(b.id, .expired)]) := by
  have hb' := hb.hear_batch hc .expired
  have hin' : d.pending.InFlight b.id b.tickets (verdict? (heard ++ [(b.id, .expired)]) b.id) := by
    rw [verdict?_append_silent fun _ => rfl]
    exact hin
  by_cases hgo : d.settings.continueOnTimeout = true
  · have hsettled : Settled d₀.settings (heard ++ [(b.id, .expired)]) b.id b.cases.length :=
      .inr ⟨hb.settings ▸ hgo, by simp⟩
    obtain ⟨hq, hbox⟩ := hin'.abandon
    rw [timeOut, if_pos hgo]
    refine @course_conclude d₀ _ plan _ done b l tests _ .spent ?_ ?_ ?_ ?_ hin.nodup (.inr rfl)
      hbox hsettled (.inl ?_) now
    · exact hb'.of_eq rfl rfl rfl (Nat.le_refl _)
    · exact hc.of_eq rfl rfl
    · exact hsent
    · exact hq
    · exact congrArg timeoutMessage (window_eq hb.settings)
  · rw [timeOut, if_neg hgo]
    rw [Bool.not_eq_true, hb.settings] at hgo
    refine course_giveUp hb' hc hin' ⟨hgo, rfl, hc.path, ?_, window_eq hb.settings⟩ (.inr hsent)
    rw [Batch.size, hc.cases]

theorem course_feed (h : Course d₀ plan d heard) (now : Nat) (i : Input) :
    Course d₀ plan (d.feed now i) (heard ++ d.hears i) := by
  cases hphase : d.phase with
  | ready => simpa [feed, hears, hphase] using h
  | ended e => simpa [feed, hears, hphase] using h
  | sending b frame =>
    have hears_eq : heard ++ d.hears i = heard := by simp [hears, hphase]
    rw [hears_eq]
    obtain ⟨done, hb, hs⟩ := id h
    rw [hphase] at hs
    obtain ⟨l, tests, hc, hin, hframe, hsent⟩ := hs
    cases i with
    | accepted =>
      simp only [feed, hphase]
      refine ⟨done, hb.of_eq rfl rfl rfl (Nat.le_refl _), l, tests, hc.of_eq rfl rfl, hin, ?_⟩
      unfold Sent at hsent ⊢
      rw [requests_append, List.map_append, hsent, List.map_append]
      simp [requests, batches_of_ok hc.nonempty hc.described, ← hc.id, hframe]
    | refused =>
      simp only [feed, hphase]
      exact course_giveUp hb hc hin rfl (.inl hsent)
    | frame text => simpa [feed, hphase] using h
    | closed => simpa [feed, hphase] using h
    | expired => simpa [feed, hphase] using h
  | awaiting b =>
    have hears_eq : d.hears i = [(b.id, i)] := by simp [hears, hphase]
    rw [hears_eq]
    obtain ⟨done, hb, hs⟩ := h
    rw [hphase] at hs
    obtain ⟨l, tests, hc, hin, hsent⟩ := hs
    have hb' := hb.hear_batch hc i
    -- All inputs but frames leave the results as they are.
    have hquiet (hi : ∀ index, i.answer? b.id index = none) : d.pending.InFlight b.id b.tickets
        (verdict? (heard ++ [(b.id, i)]) b.id) := by
      rw [verdict?_append_silent hi]
      exact hin
    cases i with
    | accepted =>
      simp only [feed, hphase]
      exact ⟨done, hb', hphase ▸ ⟨l, tests, hc, hquiet (fun _ => rfl), hsent⟩⟩
    | refused =>
      simp only [feed, hphase]
      exact ⟨done, hb', hphase ▸ ⟨l, tests, hc, hquiet (fun _ => rfl), hsent⟩⟩
    | frame text =>
      simp only [feed, hphase]
      exact course_receive hb hc hin hsent now text
    | closed =>
      simp only [feed, hphase]
      exact course_giveUp hb' hc (hquiet fun _ => rfl) ⟨rfl, hc.path⟩ (.inr hsent)
    | expired =>
      simp only [feed, hphase]
      exact course_timeOut hb hc hin hsent now

/-- Every run takes its course. -/
theorem course_run (h : d₀.pending.Quiet) (now : Nat) (root : Suite)
    (inputs : List (Nat × Input)) :
    Course d₀ (root.preorder "") (d₀.run now root inputs) (d₀.heard now root inputs) :=
  run_induction (course_start h root) (fun _ _ now hr hd => course_visit hd hr now)
    (fun _ _ now i hd => course_feed hd now i) now inputs

theorem course_fresh (settings : DispatchSettings) (total : Nat) (begun : Moment) (cwd : Path)
    (now : Nat) (root : Suite) (inputs : List (Nat × Input)) :
    Course (fresh settings total begun cwd) (root.preorder "")
      ((fresh settings total begun cwd).run now root inputs)
      ((fresh settings total begun cwd).heard now root inputs) :=
  course_run Pending.quiet_empty now root inputs

end Dispatcher

end SuiteRunner.Dispatch
