import Mathlib.Algebra.BigOperators.Group.List.Basic
import Mathlib.Algebra.Ring.Nat
import SuiteRunner.Proofs.Report.Numbering
import SuiteRunner.Proofs.Report.RoundTrip

/-! # What calls leave in a summary

A summary can be told from the calls that were made on it, in whatever order they came: it has all
counts, all failures, the first time that the clock was stopped and the last cause of an abort. -/
namespace SuiteRunner.Summary

namespace Operation

/-- How many tests a call counts. -/
def count : Operation → Nat
  | .recordRun count => count
  | .recordFailure _ _ | .finish _ | .abort _ _ => 0

def failure? : Operation → Option Failure
  | .recordFailure path message => some ⟨path, message⟩
  | .recordRun _ | .finish _ | .abort _ _ => none

def cause? : Operation → Option String
  | .abort _ cause => some cause
  | .recordRun _ | .recordFailure _ _ | .finish _ => none

end Operation

/-- What a call makes of a summary if the count of tests does not overflow: tests are counted,
failures added at the end, the clock stopped unless it was before, and a cause replaced. -/
def after (s : Summary) (op : Operation) : Summary where
  started := s.started
  testsRun := s.testsRun + op.count
  failures := s.failures ++ op.failure?.toList
  finished := s.finished.or (op.moment?.map fun now => ⟨now.date, now.since s.started⟩)
  abortCause := op.cause?.or s.abortCause

theorem finish_eq (s : Summary) (now : Moment) : s.finish now = s.after (.finish now) := by
  cases hfinished : s.finished <;>
    simp [finish, after, hfinished, Operation.count, Operation.failure?, Operation.cause?,
      Operation.moment?]

/-- Only a call that counts too many tests fails. -/
theorem step?_eq {s : Summary} (h : s.testsRun < word64) (op : Operation) :
    s.step? op = if s.testsRun + op.count < word64 then some (s.after op) else none := by
  cases op with
  | recordRun count =>
    simp [step?, recordRun?, recordRun, after, Operation.count, Operation.failure?,
      Operation.cause?, Operation.moment?]
  | recordFailure path message =>
    simp [step?, recordFailure, after, Operation.count, Operation.failure?,
      Operation.cause?, Operation.moment?, h]
  | finish now => rw [step?, finish_eq, Operation.count, Nat.add_zero, if_pos h]
  | abort now cause =>
    rw [step?, abort, finish_eq, Operation.count, Nat.add_zero, if_pos h]
    rfl

/-! ## Calls in sequence -/

/-- All tests that some calls count. -/
def counted (ops : List Operation) : Nat := (ops.map Operation.count).sum

/-- The summary that some calls tell, the first one of them first. -/
def told (begun : Moment) (ops : List Operation) : Summary where
  started := begun
  testsRun := counted ops
  failures := ops.filterMap Operation.failure?
  finished := (ops.findSome? Operation.moment?).map fun now => ⟨now.date, now.since begun⟩
  abortCause := (ops.filterMap Operation.cause?).getLast?

theorem counted_append (ops ops' : List Operation) :
    counted (ops ++ ops') = counted ops + counted ops' := by
  simp [counted]

theorem counted_concat (past : List Operation) (op : Operation) :
    counted (past ++ [op]) = counted past + op.count := by
  simp [counted]

private theorem told_concat (begun : Moment) (past : List Operation) (op : Operation) :
    told begun (past ++ [op]) = (told begun past).after op := by
  have hfailures : (past ++ [op]).filterMap Operation.failure? =
      past.filterMap Operation.failure? ++ op.failure?.toList := by
    cases hop : op.failure? <;> simp [hop, List.filterMap_append]
  have hmoment : (past ++ [op]).findSome? Operation.moment? =
      (past.findSome? Operation.moment?).or op.moment? := by
    cases hop : op.moment? <;> simp [hop, List.findSome?_append]
  have hcause : ((past ++ [op]).filterMap Operation.cause?).getLast? =
      op.cause?.or (past.filterMap Operation.cause?).getLast? := by
    cases hop : op.cause? <;> simp [hop, List.filterMap_append]
  rw [told, counted_concat, hfailures, hmoment, hcause, Option.map_or]
  rfl

/-- Calls fail exactly if together they count too many tests, and otherwise nothing is lost. -/
theorem replay?_told (begun : Moment) (past ops : List Operation) (h : counted past < word64) :
    (told begun past).replay? ops =
      if counted (past ++ ops) < word64 then some (told begun (past ++ ops)) else none := by
  induction ops generalizing past with
  | nil => simp [replay?, h]
  | cons op ops ih =>
    have hstep : (told begun past).step? op = _ := step?_eq h op
    rw [← told_concat] at hstep
    have hcounted : counted (past ++ op :: ops) = counted past + op.count + counted ops := by
      rw [List.append_cons, counted_append, counted_concat]
    rw [replay?, hstep]
    split
    · next hfits =>
      have hrest := ih (past ++ [op]) (counted_concat past op ▸ hfits)
      rw [← List.append_cons] at hrest
      exact hrest
    · next hover =>
      have hlarge : ¬ counted (past ++ op :: ops) < word64 := by
        rw [hcounted]
        exact fun hlt => hover (Nat.lt_of_le_of_lt (Nat.le_add_right _ _) hlt)
      rw [if_neg hlarge]
      rfl

/-! ## What stays -/

/-- What later calls cannot undo. -/
structure Later (s s' : Summary) : Prop where
  failures : s.failures <+: s'.failures
  /-- Once the clock is stopped, neither the date nor the elapsed time moves. -/
  finished : ∀ f ∈ s.finished, s'.finished = some f ∧ ∀ now, s'.elapsed now = f.elapsed
  abortCause : s.abortCause.isSome → s'.abortCause.isSome
  exitCode : s.exitCode = 1 → s'.exitCode = 1

private theorem exitCode_eq_one_iff (s : Summary) :
    s.exitCode = 1 ↔ s.failures ≠ [] ∨ s.abortCause.isSome := by
  cases hfailures : s.failures <;> cases hcause : s.abortCause <;>
    simp [exitCode, success, hfailures, hcause]

private theorem later_told (begun : Moment) (past future : List Operation) :
    Later (told begun past) (told begun (past ++ future)) := by
  have hfailures : (told begun past).failures <+: (told begun (past ++ future)).failures := by
    simp [told, List.filterMap_append]
  have hcause : (told begun past).abortCause.isSome →
      (told begun (past ++ future)).abortCause.isSome := by
    simp only [told, List.filterMap_append, List.getLast?_append, Option.isSome_or]
    exact fun h => by rw [h, Bool.or_true]
  refine ⟨hfailures, ?_, hcause, ?_⟩
  · intro f hf
    have hfinished : (told begun (past ++ future)).finished = some f := by
      obtain ⟨now, hnow, rfl⟩ := Option.map_eq_some_iff.mp hf
      simp [told, List.findSome?_append, hnow]
    exact ⟨hfinished, fun now => by rw [elapsed, hfinished]⟩
  · rw [exitCode_eq_one_iff, exitCode_eq_one_iff]
    rintro (hne | hsome)
    · exact .inl fun hnil => hne (List.prefix_nil.mp (hnil ▸ hfailures))
    · exact .inr (hcause hsome)

/-- The number of a failure is its place in the list, counted from one. -/
theorem failure_told (begun : Moment) (past future : List Operation) (path message : String) :
    ∃ i, ((told begun past).recordFailure path message).2 = i + 1 ∧
      (told begun (past ++ .recordFailure path message :: future)).failures[i]? =
        some ⟨path, message⟩ := by
  refine ⟨(told begun past).failures.length, ?_, ?_⟩
  · simp [recordFailure]
  · simp [told, List.filterMap_append, Operation.failure?]

private theorem exitCode_told_iff (begun : Moment) (ops : List Operation) :
    (told begun ops).exitCode = 0 ↔
      (∀ path message, .recordFailure path message ∉ ops) ∧ ∀ now cause, .abort now cause ∉ ops := by
  have hsuccess : (told begun ops).success = true ↔
      (∀ op ∈ ops, op.failure? = none) ∧ ∀ op ∈ ops, op.cause? = none := by
    simp only [success, told, Bool.and_eq_true, List.isEmpty_iff, Option.isNone_iff_eq_none,
      List.getLast?_eq_none_iff, List.filterMap_eq_nil_iff]
  rw [exitCode_eq_zero_iff, hsuccess]
  constructor
  · rintro ⟨hfailure, hcause⟩
    constructor
    · intro path message hmem
      cases hfailure _ hmem
    · intro now cause hmem
      cases hcause _ hmem
  · rintro ⟨hfailure, habort⟩
    constructor
    · intro op hop
      cases op with
      | recordFailure path message => exact absurd hop (hfailure path message)
      | recordRun | finish | abort => rfl
    · intro op hop
      cases op with
      | abort now cause => exact absurd hop (habort now cause)
      | recordRun | recordFailure | finish => rfl

/-- Whatever calls are made on a summary and in whatever order, as long as the count of tests does not
overflow: the summary is the one that the calls tell, before the last of them as well as after them.
What was there before stays: failures under their numbers, the end of the run, that there is a cause
to abort it, and a status other than zero, which there is once a failure was recorded or the run
aborted. -/
theorem calls_tell_summary (begun : Moment) (past future : List Operation)
    (hfits : counted (past ++ future) < word64) :
    (start begun).replay? past = some (told begun past) ∧
    (told begun past).replay? future = some (told begun (past ++ future)) ∧
    Later (told begun past) (told begun (past ++ future)) ∧
    (∀ path message rest, future = .recordFailure path message :: rest →
      ∃ i, ((told begun past).recordFailure path message).2 = i + 1 ∧
        (told begun (past ++ future)).failures[i]? = some ⟨path, message⟩) ∧
    ((told begun past).exitCode = 0 ↔
      (∀ path message, .recordFailure path message ∉ past) ∧ ∀ now cause, .abort now cause ∉ past) := by
  have hpast : counted past < word64 := by
    rw [counted_append] at hfits
    exact Nat.lt_of_le_of_lt (Nat.le_add_right _ _) hfits
  have hstart := replay?_told begun [] past (Nat.two_pow_pos 64)
  have hreplay := replay?_told begun past future hpast
  rw [List.nil_append, if_pos hpast] at hstart
  rw [if_pos hfits] at hreplay
  refine ⟨hstart, hreplay, later_told begun past future, ?_, exitCode_told_iff begun past⟩
  rintro path message rest rfl
  exact failure_told begun past rest path message

/-- A failure, two causes and a second end after the first one. -/
def lateCalls : List Operation :=
  [.recordFailure "a" "b", .abort Report.dawn "gone", .recordRun 1, .abort Report.dawn "lost",
    .finish Report.dawn]

theorem calls_tell_summary_late :
    ∃ s s', (start Report.dawn).replay? [.recordRun 2, .finish Report.dusk] = some s ∧
      s.replay? lateCalls = some s' ∧ s.exitCode = 0 ∧ s'.exitCode = 1 ∧ s'.testsRun = 3 ∧
      (∃ i, (s.recordFailure "a" "b").2 = i + 1 ∧ s'.failures[i]? = some ⟨"a", "b"⟩) ∧
      s.finished.isSome ∧ s'.finished = s.finished ∧ s'.abortCause = some "lost" := by
  obtain ⟨hpast, hfuture, hlater, hnumber, hcode⟩ :=
    calls_tell_summary Report.dawn [.recordRun 2, .finish Report.dusk] lateCalls (by decide)
  exact ⟨_, _, hpast, hfuture, hcode.mpr (by simp), rfl, rfl, hnumber "a" "b" _ rfl, rfl,
    (hlater.finished _ rfl).1, rfl⟩

end SuiteRunner.Summary
