import SuiteRunner.Proofs.Dispatch.Course
import Mathlib.Algebra.Ring.Nat

/-! # What a run has begun

Tests are counted and get their mailboxes when their suite is visited, and at no other time. So the
numbers of a dispatcher tell which suites of the tree it has visited. -/
namespace SuiteRunner.Dispatch

open Suite (Located upcoming)
open Wire (Descriptor Request Response Verdict)

/-- Number of test cases of some suites. -/
def caseCount (suites : List Located) : Nat := (suites.map fun l => l.suite.cases.length).sum

/-- Number of test cases of those suites that can be sent. -/
def sentCount (cwd : Path) (suites : List Located) : Nat :=
  ((batches cwd suites).map fun b => b.1.suite.cases.length).sum

/-- The tests of a batch that have no result, by index. -/
def missing (heard : Hearing) (id size : Nat) : List Nat :=
  (List.range size).filter fun i => (verdict? heard id i).isNone

theorem caseCount_append (xs ys : List Located) :
    caseCount (xs ++ ys) = caseCount xs + caseCount ys := by
  simp [caseCount]

private theorem sentCount_append (cwd : Path) (xs ys : List Located) :
    sentCount cwd (xs ++ ys) = sentCount cwd xs + sentCount cwd ys := by
  simp [sentCount, batches_append]

private theorem mem_missing {heard : Hearing} {id size i : Nat} :
    i ∈ missing heard id size ↔ i < size ∧ verdict? heard id i = none := by
  simp [missing]

theorem length_missing_le (heard : Hearing) (id size : Nat) :
    (missing heard id size).length ≤ size := by
  have hle := List.length_filter_le (fun i => (verdict? heard id i).isNone) (List.range size)
  rwa [List.length_range] at hle

namespace Pending

/-- What is outstanding of a batch in flight are its tests without a result. -/
theorem InFlight.outstanding_eq {p : Pending} {id : Nat} {tickets : List Ticket} {heard : Hearing}
    (h : p.InFlight id tickets (verdict? heard id)) :
    p.outstanding id = (missing heard id tickets.length).length := by
  have hlength : p.outstanding id = (p.waitingIndices id).length := by
    rw [h.wellFormed.counted, waitingIndices, List.length_mergeSort, List.length_map]
    rfl
  have hnodup : (p.waitingIndices id).Nodup :=
    (h.wellFormed.waitingIndices_sorted id).imp Nat.ne_of_lt
  have hnodup' : (missing heard id tickets.length).Nodup := List.nodup_range.filter _
  have hperm : (p.waitingIndices id).Perm (missing heard id tickets.length) := by
    refine (List.perm_ext_iff_of_nodup hnodup hnodup').mpr fun i => ?_
    rw [mem_waitingIndices, mem_missing]
    constructor
    · intro hcase
      obtain ⟨t, ht⟩ := hcase
      obtain ⟨-, hticket, hnone⟩ := (h.mem_entries (id, i) t).mp ht
      exact ⟨(List.getElem?_eq_some_iff.mp hticket).1, hnone⟩
    · intro hcase
      obtain ⟨hi, hnone⟩ := hcase
      exact ⟨_, (h.mem_entries (id, i) _).mpr ⟨rfl, List.getElem?_eq_getElem hi, hnone⟩⟩
  rw [hlength, hperm.length_eq]

private theorem boxes_length_take (p : Pending) (t : Ticket) :
    (p.take t).1.boxes.length = p.boxes.length := by
  unfold take
  cases p.box t <;> simp

private theorem boxes_length_resolve (p : Pending) (r : Response) :
    (p.resolve r).1.boxes.length = p.boxes.length := by
  unfold resolve
  split
  · rfl
  · split <;> simp

end Pending

namespace Dispatcher

variable {d₀ d d' : Dispatcher} {plan : List Located} {heard : Hearing}

/-! ## What inputs leave alone -/

/-- Nothing was begun or sent from `d` to `d'`. -/
structure Frame (d d' : Dispatcher) : Prop where
  settings : d'.settings = d.settings
  cwd : d'.cwd = d.cwd
  todo : d'.todo = d.todo
  sent : d'.sent = d.sent
  testsRun : d'.summary.testsRun = d.summary.testsRun
  abortCause : d'.summary.abortCause = d.summary.abortCause
  nextId : d'.nextId = d.nextId
  boxes : d'.pending.boxes.length = d.pending.boxes.length

theorem Frame.refl (d : Dispatcher) : Frame d d := ⟨rfl, rfl, rfl, rfl, rfl, rfl, rfl, rfl⟩

theorem Frame.trans {d'' : Dispatcher} (h : Frame d d') (h' : Frame d' d'') : Frame d d'' where
  settings := h'.settings.trans h.settings
  cwd := h'.cwd.trans h.cwd
  todo := h'.todo.trans h.todo
  sent := h'.sent.trans h.sent
  testsRun := h'.testsRun.trans h.testsRun
  abortCause := h'.abortCause.trans h.abortCause
  nextId := h'.nextId.trans h.nextId
  boxes := h'.boxes.trans h.boxes

theorem frame_classify (path absent : String) (l : List (TestCase × Ticket)) (d : Dispatcher)
    (n : Nat) : Frame d (d.classify path absent l n).1 := by
  induction l generalizing d n with
  | nil => exact .refl d
  | cons e l ih =>
    obtain ⟨c, t⟩ := e
    have htake : Frame d { d with pending := (d.pending.take t).1 } :=
      ⟨rfl, rfl, rfl, rfl, rfl, rfl, rfl, d.pending.boxes_length_take t⟩
    cases hm : failureMessage? absent (d.pending.take t).2 with
    | none =>
      simp only [classify, hm]
      exact htake.trans (ih _ n)
    | some message =>
      have hlog : Frame { d with pending := (d.pending.take t).1 }
          (({ d with pending := (d.pending.take t).1 } : Dispatcher).logFailure path c message) :=
        ⟨rfl, rfl, rfl, rfl, rfl, rfl, rfl, rfl⟩
      simp only [classify, hm]
      exact (htake.trans hlog).trans (ih _ (n + 1))

theorem frame_conclude (d : Dispatcher) (now : Nat) (b : Batch) (absent : String) :
    Frame d (d.conclude now b absent) := by
  have h := frame_classify b.path absent (b.cases.zip b.tickets) d 0
  exact h.trans ⟨rfl, rfl, rfl, rfl, rfl, rfl, rfl, rfl⟩

private theorem frame_handleFrame (d : Dispatcher) (now : Nat) (text : String) :
    Frame d (d.handleFrame now text) := by
  unfold handleFrame
  cases Response.decode text with
  | error fault => exact ⟨rfl, rfl, rfl, rfl, rfl, rfl, rfl, rfl⟩
  | ok r =>
    have hboxes := d.pending.boxes_length_resolve r
    cases hr : d.pending.resolve r with
    | mk pending resolution =>
      rw [hr] at hboxes
      simp only [hr]
      cases resolution <;> exact ⟨rfl, rfl, rfl, rfl, rfl, rfl, rfl, hboxes⟩

theorem frame_giveUp (d : Dispatcher) (b : Batch) (fault : RunFault) :
    Frame d (d.giveUp b fault) :=
  ⟨rfl, rfl, rfl, rfl, rfl, rfl, rfl, d.pending.boxes_length_abandon b.id⟩

theorem frame_timeOut (d : Dispatcher) (now : Nat) (b : Batch) : Frame d (d.timeOut now b) := by
  unfold timeOut
  split
  · refine Frame.trans ?_ (frame_conclude _ now b _)
    exact ⟨rfl, rfl, rfl, rfl, rfl, rfl, rfl, d.pending.boxes_length_abandon b.id⟩
  · exact frame_giveUp d b _

theorem frame_receive (d : Dispatcher) (now : Nat) (b : Batch) (text : String) :
    Frame d (d.receive now b text) := by
  have h := frame_handleFrame d now text
  simp only [receive]
  split
  · exact h.trans (frame_conclude _ now b "")
  · exact h.trans ⟨rfl, rfl, rfl, rfl, rfl, rfl, rfl, rfl⟩

theorem feed_accepted {b : Batch} {frame : String} (hp : d.phase = .sending b frame) (now : Nat) :
    d.feed now .accepted = { d with sent := d.sent ++ [frame], phase := .awaiting b } := by
  simp [feed, hp]

/-- Only the outbound queue takes anything. -/
theorem frame_feed (d : Dispatcher) (now : Nat) (i : Input) :
    (∃ b frame, d.phase = .sending b frame ∧ i = .accepted) ∨ Frame d (d.feed now i) := by
  unfold feed
  split
  · next b frame hp => exact .inl ⟨b, frame, hp, rfl⟩
  · exact .inr (frame_giveUp d _ _)
  · exact .inr (frame_receive d now _ _)
  · exact .inr (frame_giveUp d _ _)
  · exact .inr (frame_timeOut d now _)
  · exact .inr (.refl d)

/-! ## What visits begin -/

section

variable {l : Located} {rest : List Located}

/-- A suite without a request is counted, and nothing else becomes of it but failures. -/
theorem visit_skips (ht : d.todo = l :: rest) (h : batches d.cwd [l] = []) (now : Nat) :
    ∃ failures console log, d.visit now =
      { d with
        todo := children l ++ rest
        summary := { d.summary with
          testsRun := d.summary.testsRun + l.suite.cases.length
          failures }
        console
        log } := by
  cases hc : l.suite.cases.isEmpty with
  | true =>
    have hlen : l.suite.cases.length = 0 := by simpa using hc
    exact ⟨d.summary.failures, d.console, d.log, by rw [visit_empty now ht hc, hlen]; rfl⟩
  | false =>
    cases hd : describe d.cwd l.suite.cases with
    | error fault =>
      obtain ⟨console, log, he⟩ := visit_unsendable now ht hc hd
      exact ⟨_, console, log, he⟩
    | ok tests => simp [batches_of_ok hc hd] at h

/-- A suite has no request, or it has test cases that can be described. -/
theorem batches_singleton (cwd : Path) (l : Located) :
    batches cwd [l] = [] ∨ l.suite.cases.isEmpty = false ∧
      ∃ tests, describe cwd l.suite.cases = .ok tests ∧ batches cwd [l] = [(l, tests)] := by
  cases hc : l.suite.cases.isEmpty with
  | true => exact .inl (batches_of_empty hc)
  | false =>
    cases hd : describe cwd l.suite.cases with
    | error fault => exact .inl (batches_of_error hd)
    | ok tests => exact .inr ⟨rfl, tests, rfl, batches_of_ok hc hd⟩

end

/-- What a run that began with `d₀` has begun so far. -/
structure Ledger (d₀ : Dispatcher) (plan : List Located) (d : Dispatcher) (heard : Hearing) :
    Prop where
  course : Course d₀ plan d heard
  /-- The suites before those still to visit are counted and have their mailboxes. -/
  begun : ∃ seen, plan = seen ++ upcoming d.todo ∧
    d.summary.testsRun = d₀.summary.testsRun + caseCount seen ∧
    d.pending.boxes.length = d₀.pending.boxes.length + sentCount d₀.cwd seen
  ended : d.phase = .ended .completed → d.todo = []
  /-- A batch in flight lacks a result. -/
  owing : ∀ b, d.inFlight? = some b → d.pending.outstanding b.id ≠ 0

theorem ledger_start (h : d₀.pending.Quiet) (root : Suite) :
    Ledger d₀ (root.preorder "") (d₀.start root) [] where
  course := course_start h root
  begun := ⟨[], by simp [start, upcoming], rfl, rfl⟩
  ended h := by cases h
  owing b hb := by cases hb

theorem Ledger.visit (h : Ledger d₀ plan d heard) (hr : d.isReady = true) (now : Nat) :
    Ledger d₀ plan (d.visit now) heard := by
  obtain ⟨done, hbehind, hs⟩ := h.course
  have hphase := phase_of_isReady hr
  rw [hphase] at hs
  obtain ⟨hq, -, -, -⟩ := hs
  obtain ⟨seen, horder, hrun, hboxes⟩ := h.begun
  have hcourse := course_visit h.course hr now
  cases ht : d.todo with
  | nil =>
    rw [visit_nil now hq ht] at hcourse ⊢
    refine ⟨hcourse, ⟨seen, horder, hrun, hboxes⟩, fun _ => ht, fun b hb => ?_⟩
    simp [finish, inFlight?] at hb
  | cons l rest =>
    have horder' : plan = (seen ++ [l]) ++ upcoming (children l ++ rest) := by
      rw [horder, ht, Suite.upcoming_cons, List.append_assoc]
      rfl
    have hcount : d.summary.testsRun + l.suite.cases.length =
        d₀.summary.testsRun + caseCount (seen ++ [l]) := by
      rw [hrun, caseCount_append, Nat.add_assoc]
      simp [caseCount]
    rcases batches_singleton d.cwd l with hnone | ⟨hc, tests, hd, hone⟩
    · obtain ⟨failures, console, log, he⟩ := visit_skips ht hnone now
      rw [he] at hcourse ⊢
      refine ⟨hcourse, ⟨seen ++ [l], horder', hcount, ?_⟩, fun hended => ?_, fun b hb => ?_⟩
      · have hnew : sentCount d₀.cwd [l] = 0 := by
          rw [sentCount, ← hbehind.cwd, hnone]
          rfl
        rw [sentCount_append, hnew]
        exact hboxes
      · simp [hphase] at hended
      · simp [inFlight?, hphase] at hb
    · obtain ⟨frame, -, he⟩ := visit_opens now hq ht hc hd
      rw [he] at hcourse ⊢
      refine ⟨hcourse, ⟨seen ++ [l], horder', hcount, ?_⟩, fun hended => ?_, fun b hb => ?_⟩
      · have hnew : sentCount d₀.cwd [l] = l.suite.cases.length := by
          rw [sentCount, ← hbehind.cwd, hone]
          simp
        rw [sentCount_append, hnew, ← Nat.add_assoc, ← hboxes]
        simp [Pending.enroll]
      · cases hended
      · have h0 : d.pending.outstanding d.nextId = 0 :=
          hq.1.outstanding_eq_zero_iff.mpr (by simp [hq.2])
        obtain rfl := Option.some.inj hb
        simp only
        rw [d.pending.outstanding_enroll h0 _ _ hq.1, if_pos rfl]
        simpa using hc

/-- A batch that is concluded or given up is in flight no more, and one that is not still lacks a
result. -/
theorem owing_feed (h : ∀ b, d.inFlight? = some b → d.pending.outstanding b.id ≠ 0) (now : Nat)
    (i : Input) (b : Batch) (hb : (d.feed now i).inFlight? = some b) :
    (d.feed now i).pending.outstanding b.id ≠ 0 := by
  unfold feed at hb ⊢
  split at hb
  · next hp => exact h b (by simpa [inFlight?, hp] using hb)
  · cases hb
  · next b' text hp =>
    simp only [receive] at hb ⊢
    split at hb
    · cases hb
    · next hne =>
      obtain rfl := Option.some.inj hb
      rwa [if_neg hne]
  · cases hb
  · next b' hp =>
    simp only [timeOut] at hb
    split at hb <;> cases hb
  · exact h b hb

private theorem ended_feed (now : Nat) (i : Input) (h : (d.feed now i).phase = .ended .completed) :
    d.phase = .ended .completed := by
  unfold feed at h
  split at h
  · cases h
  · cases h
  · simp only [receive] at h
    split at h <;> cases h
  · cases h
  · simp only [timeOut] at h
    split at h <;> cases h
  · exact h

theorem Ledger.feed (h : Ledger d₀ plan d heard) (now : Nat) (i : Input) :
    Ledger d₀ plan (d.feed now i) (heard ++ d.hears i) := by
  have hcourse := course_feed h.course now i
  have howing := owing_feed h.owing now i
  obtain ⟨seen, horder, hrun, hboxes⟩ := h.begun
  rcases frame_feed d now i with ⟨b, frame, hp, rfl⟩ | hframe
  · rw [feed_accepted hp] at hcourse howing ⊢
    exact ⟨hcourse, ⟨seen, horder, hrun, hboxes⟩, nofun, howing⟩
  · refine ⟨hcourse, ⟨seen, ?_, ?_, ?_⟩, fun he => ?_, howing⟩
    · rw [hframe.todo, horder]
    · rw [hframe.testsRun, hrun]
    · rw [hframe.boxes, hboxes]
    · rw [hframe.todo]
      exact h.ended (ended_feed now i he)

/-- Visiting a suite sends nothing. -/
theorem Ledger.sent_visit (h : Ledger d₀ plan d heard) (hr : d.isReady = true) (now : Nat) :
    (d.visit now).sent = d.sent := by
  obtain ⟨done, -, hs⟩ := h.course
  rw [phase_of_isReady hr] at hs
  cases ht : d.todo with
  | nil =>
    rw [visit_nil now hs.1 ht]
    rfl
  | cons l rest =>
    rcases batches_singleton d.cwd l with hnone | ⟨hc, tests, hd, -⟩
    · obtain ⟨failures, console, log, he⟩ := visit_skips ht hnone now
      rw [he]
    · obtain ⟨frame, -, he⟩ := visit_opens now hs.1 ht hc hd
      rw [he]

theorem Ledger.sent_settle (h : Ledger d₀ plan d heard) (now : Nat) :
    (d.settle now).sent = d.sent := by
  have hkeep := settleFor_induction
    (P := fun d' => Ledger d₀ plan d' heard ∧ d'.sent = d.sent)
    (fun d' hr hd' => ⟨hd'.1.visit hr now, (hd'.1.sent_visit hr now).trans hd'.2⟩)
    (d.remaining + 1) d ⟨h, rfl⟩
  exact hkeep.2

theorem Ledger.settle (h : Ledger d₀ plan d heard) (now : Nat) :
    Ledger d₀ plan (d.settle now) heard :=
  settleFor_induction (P := (Ledger d₀ plan · heard)) (fun _ hr hd => hd.visit hr now) _ d h

theorem Ledger.step (h : Ledger d₀ plan d heard) (now : Nat) (i : Input) :
    Ledger d₀ plan (d.step now i) (heard ++ d.hears i) :=
  (h.feed now i).settle now

/-- What ends a run is noted in its summary only afterwards. -/
theorem Ledger.abortCause_visit (h : Ledger d₀ plan d heard) (hr : d.isReady = true) (now : Nat) :
    (d.visit now).summary.abortCause = d.summary.abortCause := by
  obtain ⟨done, -, hs⟩ := h.course
  rw [phase_of_isReady hr] at hs
  cases ht : d.todo with
  | nil =>
    rw [visit_nil now hs.1 ht]
    rfl
  | cons l rest =>
    rcases batches_singleton d.cwd l with hnone | ⟨hc, tests, hd, -⟩
    · obtain ⟨failures, console, log, he⟩ := visit_skips ht hnone now
      rw [he]
    · obtain ⟨frame, -, he⟩ := visit_opens now hs.1 ht hc hd
      rw [he]
      rfl

theorem abortCause_run (h : d₀.pending.Quiet) (now : Nat) (root : Suite)
    (inputs : List (Nat × Input)) :
    (d₀.run now root inputs).summary.abortCause = d₀.summary.abortCause := by
  have hkeep := run_induction
    (P := fun d heard => Ledger d₀ (root.preorder "") d heard ∧
      d.summary.abortCause = d₀.summary.abortCause)
    ⟨ledger_start h root, rfl⟩
    (fun d heard now hr hd => ⟨hd.1.visit hr now, (hd.1.abortCause_visit hr now).trans hd.2⟩)
    (fun d heard now i hd => by
      refine ⟨hd.1.feed now i, ?_⟩
      rcases frame_feed d now i with ⟨b, frame, hp, rfl⟩ | hframe
      · rw [feed_accepted hp]
        exact hd.2
      · exact hframe.abortCause.trans hd.2)
    now inputs
  exact hkeep.2

end Dispatcher

end SuiteRunner.Dispatch
