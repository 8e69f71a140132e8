import SuiteRunner.Proofs.Dispatch.Course

/-! # The failures of a run

A test fails or not by the first result that came for it while its own batch was awaited. -/
namespace SuiteRunner.Dispatch

open Suite (Located)
open Wire (Response Verdict)

namespace Dispatcher

/-- A completed run has dealt with all suites of the tree. -/
theorem Course.behind_of_completed {d₀ d : Dispatcher} {plan : List Located} {heard : Hearing}
    (h : Course d₀ plan d heard) (he : d.ending? = some .completed) :
    Behind d₀ d heard plan ∧ Sent d₀ d plan := by
  obtain ⟨done, hb, hs⟩ := h
  rw [phase_of_ending? he] at hs
  obtain ⟨-, rfl, hsent⟩ := hs
  exact ⟨hb, hsent⟩

/-- The failures of a completed run are those of its suites in pre-order and, within a suite, of its
cases in order: a case fails with the message of its first result if that is a failure, with the
text for a silent worker if there is none, and with the fault of the suite if the suite cannot be
sent. Results are missing only where the run went on after the watchdog had expired. -/
theorem failures_of_completed (settings : DispatchSettings) (total : Nat) (begun : Moment)
    (cwd : Path) (now : Nat) (root : Suite) (inputs : List (Nat × Input))
    (h : ((fresh settings total begun cwd).run now root inputs).ending? = some .completed) :
    ((fresh settings total begun cwd).run now root inputs).summary.failures =
        failuresFrom cwd (timeoutMessage settings.batchSpan)
          (verdict? ((fresh settings total begun cwd).heard now root inputs)) 0
          (root.preorder "") ∧
      ∀ id b, (batches cwd (root.preorder ""))[id]? = some b → ∀ i < b.1.suite.cases.length,
        verdict? ((fresh settings total begun cwd).heard now root inputs) id i = none →
          settings.continueOnTimeout = true ∧
            (id, .expired) ∈ (fresh settings total begun cwd).heard now root inputs := by
  have hrun := course_fresh settings total begun cwd now root inputs
  obtain ⟨hb, -⟩ := hrun.behind_of_completed h
  refine ⟨hb.failures, ?_⟩
  intro id b hid i hi hnone
  have hsettled := hb.settled id b hid
  rw [show (fresh settings total begun cwd).nextId + id = id from Nat.zero_add id] at hsettled
  rcases hsettled with hall | hexpired
  · have hsome := hall i hi
    rw [hnone] at hsome
    cases hsome
  · exact hexpired

/-- Two suites, of which the first does not get all its results. -/
def slowTree : Suite :=
  .mk "" [] [.mk "slow" [⟨"s1", []⟩, ⟨"s2", []⟩] [], .mk "next" [⟨"n1", []⟩] []]

/-- A failure that is taken back at once, silence, then a result that comes too late. -/
def slowInputs : List (Nat × Input) :=
  [(0, .accepted), (5, .frame (Response.mk 0 1 (.failed (some "boom"))).encode),
    (6, .frame (Response.mk 0 1 .ok).encode), (506, .expired), (506, .accepted),
    (507, .frame (Response.mk 0 0 .ok).encode), (508, .frame (Response.mk 1 0 .ok).encode)]

theorem failures_of_completed_slow :
    ((fresh ⟨500, true⟩ 3 default ⟨[Path.slash]⟩).run 0 slowTree slowInputs).ending? =
        some .completed ∧
      ((fresh ⟨500, true⟩ 3 default ⟨[Path.slash]⟩).run 0 slowTree slowInputs).summary.failures =
        [⟨"/slow/s1", "No result received: worker inactive for 0.5 seconds"⟩,
          ⟨"/slow/s2", "boom"⟩] := by
  have h : ((fresh ⟨500, true⟩ 3 default ⟨[Path.slash]⟩).run 0 slowTree slowInputs).ending? =
      some .completed := by decide +kernel
  refine ⟨h, ?_⟩
  rw [(failures_of_completed _ _ _ _ _ _ _ h).1]
  decide +kernel

end Dispatcher

/-! ## Runs without a failure -/

/-- The first result for case `i` of suite `k` while its batch was in flight. There is none if the
suite could not be sent. -/
def firstResult? (cwd : Path) (plan : List Located) (heard : Hearing) (k i : Nat) :
    Option Verdict :=
  (plan[k]?.bind (batchOf? cwd)).bind fun _ => verdict? heard (batches cwd (plan.take k)).length i

/-- Every test case of some suites is answered `OK` first. -/
def AllPassed (cwd : Path) (plan : List Located) (heard : Hearing) : Prop :=
  ∀ k l, plan[k]? = some l → ∀ i < l.suite.cases.length,
    firstResult? cwd plan heard k i = some .ok

private theorem suiteFailures_eq_nil_iff {path absent : String} {cases : List TestCase}
    {results : Nat → Option Verdict} :
    suiteFailures path absent cases results = [] ↔ ∀ i < cases.length, results i = some .ok := by
  rw [suiteFailures, List.filterMap_eq_nil_iff]
  constructor
  · intro h i hi
    have hnone := h (cases[i], i) (List.mk_mem_zipIdx_iff_getElem?.mpr (by simp [hi]))
    cases hr : results i with
    | none => simp [hr, failureOf] at hnone
    | some v => cases v <;> simp_all [failureOf]
  · rintro h ⟨c, i⟩ hc
    simp [h i (List.snd_lt_of_mem_zipIdx hc), failureOf]

section

variable {cwd : Path} {absent : String} {heard : Hearing}

/-- A suite has no failure if it can be sent and all its tests are answered `OK` first. -/
theorem failuresFrom_singleton_eq_nil_iff {l : Located} {id : Nat} :
    failuresFrom cwd absent (verdict? heard) id [l] = [] ↔ ∀ i < l.suite.cases.length,
      (batchOf? cwd l).bind (fun _ => verdict? heard id i) = some .ok := by
  cases hc : l.suite.cases.isEmpty with
  | true =>
    have hnil : l.suite.cases = [] := by simpa using hc
    simp [failuresFrom, hnil]
  | false =>
    have hpos : 0 < l.suite.cases.length := List.length_pos_iff.mpr (by simpa using hc)
    cases hd : describe cwd l.suite.cases with
    | error fault =>
      have hnone : batchOf? cwd l = none := by simp [batchOf?, hd, Except.toOption]
      simp only [failuresFrom, hc, hd, hnone]
      simp only [Bool.false_eq_true, if_false, List.append_nil, List.map_eq_nil_iff,
        Option.bind_none, reduceCtorEq, imp_false]
      exact ⟨fun hnil => by simp [hnil] at hpos, fun h => absurd hpos (h 0)⟩
    | ok tests =>
      have hsome : batchOf? cwd l = some (l, tests) := by
        simp [batchOf?, hc, hd, Except.toOption]
      simp only [failuresFrom, hc, hd, hsome]
      simp only [Bool.false_eq_true, if_false, List.append_nil, Option.bind_some]
      exact suiteFailures_eq_nil_iff

private theorem failuresFrom_eq_nil_iff {id : Nat} {plan : List Located} :
    failuresFrom cwd absent (verdict? heard) id plan = [] ↔
      ∀ k l, plan[k]? = some l → ∀ i < l.suite.cases.length,
        (batchOf? cwd l).bind
          (fun _ => verdict? heard (id + (batches cwd (plan.take k)).length) i) = some .ok := by
  induction plan generalizing id with
  | nil => simp [failuresFrom]
  | cons l plan ih =>
    have hcons : failuresFrom cwd absent (verdict? heard) id (l :: plan) = [] ↔
        failuresFrom cwd absent (verdict? heard) id [l] = [] ∧
        failuresFrom cwd absent (verdict? heard) (id + (batches cwd [l]).length) plan = [] := by
      rw [← List.append_eq_nil_iff, ← failuresFrom_append]
      rfl
    have hbatches (k : Nat) : id + (batches cwd ((l :: plan).take (k + 1))).length =
        id + (batches cwd [l]).length + (batches cwd (plan.take k)).length := by
      rw [List.take_succ_cons, ← List.singleton_append, batches_append, List.length_append,
        Nat.add_assoc]
    rw [hcons, ih, failuresFrom_singleton_eq_nil_iff]
    constructor
    · rintro ⟨hfirst, hrest⟩ k l' hl' i hi
      cases k with
      | zero =>
        obtain rfl := Option.some.inj hl'
        simpa [batches] using hfirst i hi
      | succ k =>
        rw [hbatches]
        exact hrest k l' (by simpa using hl') i hi
    · intro h
      refine ⟨fun i hi => ?_, fun k l' hl' i hi => ?_⟩
      · simpa [batches] using h 0 l rfl i hi
      · rw [← hbatches]
        exact h (k + 1) l' (by simpa using hl') i hi

/-- A completed run has no failure exactly if every test case was answered `OK` first. -/
theorem Dispatcher.failures_eq_nil_iff (settings : DispatchSettings) (total : Nat) (begun : Moment)
    (cwd : Path) (now : Nat) (root : Suite) (inputs : List (Nat × Input))
    (h : ((fresh settings total begun cwd).run now root inputs).ending? = some .completed) :
    ((fresh settings total begun cwd).run now root inputs).summary.failures = [] ↔
      AllPassed cwd (root.preorder "") ((fresh settings total begun cwd).heard now root inputs) := by
  have hrun := course_fresh settings total begun cwd now root inputs
  obtain ⟨hb, -⟩ := hrun.behind_of_completed h
  have hfailures := hb.failures
  rw [show (fresh settings total begun cwd).summary.failures = [] from rfl, List.nil_append]
    at hfailures
  rw [hfailures, failuresFrom_eq_nil_iff]
  refine forall₃_congr fun k l hl => forall₂_congr fun i _ => ?_
  rw [firstResult?, hl, show (fresh settings total begun cwd).nextId = 0 from rfl, Nat.zero_add]
  rfl

end

end SuiteRunner.Dispatch
