import SuiteRunner.Coordinator
import SuiteRunner.Proofs.Dispatch.Accounts
import SuiteRunner.Report.Json
import SuiteRunner.Report.Text

/-! # The numbers of the failures

A failure gets its number when it is announced. The report for people and the report for programs,
which are made from the summary in the end, have the same failures under the same numbers. -/
namespace SuiteRunner.Dispatch

open Suite (Located)
open Wire (Response)
open Dispatcher (timeoutMessage)

/-! ## Reading the console -/

/-- A failure as it was announced, with the suite that was announced before it. -/
structure Announcement where
  number : Nat
  suite : String
  name : String
deriving DecidableEq, Repr

def Announcement.path (a : Announcement) : String := a.suite ++ "/" ++ a.name

/-- The failures that some lines announce; `suite` is the one that was announced before them. -/
def announcements (suite : String) : List Line → List Announcement
  | [] => []
  | .running path :: lines => announcements path lines
  | .failure name number :: lines => ⟨number, suite, name⟩ :: announcements suite lines
  | _ :: lines => announcements suite lines

def Line.isFailure : Line → Bool
  | .failure _ _ => true
  | _ => false

/-- Only the lines that tell of failures are read. -/
theorem text_announcements (suite : String) (lines : List Line) :
    (lines.filter Line.isFailure).map Line.text =
      (announcements suite lines).map fun a =>
        "  " ++ a.name ++ " failure (" ++ Text.decimal a.number ++ ")" := by
  induction lines generalizing suite with
  | nil => rfl
  | cons l lines ih =>
    cases l with
    | running path => exact ih path
    | failure name number =>
      rw [announcements, List.filter_cons_of_pos rfl, List.map_cons, List.map_cons, ih suite]
      rfl
    | timedOut missing total => exact ih suite
    | progress run failed elapsed percent => exact ih suite
    | blank => exact ih suite

private theorem announcements_untimed (suite : String) (lines : List Line) :
    announcements suite (lines.map Line.untimed) = announcements suite lines := by
  induction lines generalizing suite with
  | nil => rfl
  | cons l lines ih =>
    cases l with
    | failure name number => exact congrArg (_ :: ·) (ih suite)
    | running path => exact ih path
    | timedOut missing total => exact ih suite
    | progress run failed elapsed percent => exact ih suite
    | blank => exact ih suite

private theorem announcements_announce (suite : String) (number : Nat) (names : List String)
    (rest : List Line) : announcements suite (Dispatcher.announce number names ++ rest) =
      (names.zipIdx number).map (fun n => ⟨n.2, suite, n.1⟩) ++ announcements suite rest := by
  induction names generalizing number with
  | nil => rfl
  | cons name names ih => exact congrArg (_ :: ·) (ih (number + 1))

/-- A suite announces its own failures, whatever was announced before it. -/
theorem announcements_lines (suite : String) (number : Nat) (a : Account) (rest : List Line) :
    announcements suite (a.lines number ++ rest) =
      ((a.failed.map (·.1.name)).zipIdx number).map (fun n => ⟨n.2, a.suite.path, n.1⟩) ++
        announcements a.suite.path rest := by
  have hfailures := announcements_announce a.suite.path number (a.failed.map (·.1.name))
    ([.progress a.size a.failed.length default default, .blank] ++ rest)
  rw [← List.append_assoc] at hfailures
  rw [Account.lines, Account.outcome]
  cases a.lacking with
  | none => exact hfailures
  | some k => exact hfailures

/-- The failures of some suites by suite and name. -/
def named (as : List Account) : List (String × String) :=
  as.flatMap fun a => a.failed.map (a.suite.path, ·.1.name)

private theorem announcements_transcript (suite : String) (number : Nat) (as : List Account)
    (current : List Located) :
    announcements suite (transcript number as ++ current.map fun l => .running l.path) =
      ((named as).zipIdx number).map fun n => ⟨n.2, n.1.1, n.1.2⟩ := by
  induction as generalizing suite number with
  | nil =>
    induction current generalizing suite with
    | nil => rfl
    | cons l current ih => exact ih l.path
  | cons a as ih =>
    have hnamed : named (a :: as) = a.failed.map (a.suite.path, ·.1.name) ++ named as := rfl
    rw [transcript, List.append_assoc, announcements_lines, ih, hnamed, List.zipIdx_append,
      List.map_append, List.length_map, List.zipIdx_map, List.zipIdx_map]
    simp [Function.comp_def]

private theorem paths_named (absent : String) (as : List Account) :
    (named as).map (fun n => n.1 ++ "/" ++ n.2) = (as.flatMap (·.failures absent)).map (·.path) := by
  simp [named, Account.failures, failureFor, List.map_flatMap, Function.comp_def]

/-- Failures are announced in the order in which they are recorded, and numbered from one. -/
theorem Dispatcher.Told.announced {settings : DispatchSettings} {total : Nat} {begun : Moment}
    {cwd : Path} {d : Dispatcher} {heard : Hearing} {done current : List Located}
    (h : Told (fresh settings total begun cwd) d heard done current) :
    (announcements "" d.console).map (fun a => (a.number, a.path)) =
      (d.summary.failures.zipIdx 1).map fun f => (f.2, f.1.path) := by
  have hconsole : d.console.map Line.untimed = transcript 1 (accounts cwd heard 0 done) ++
      current.map fun l => .running l.path := h.console
  have hfailures : d.summary.failures =
      (accounts cwd heard 0 done).flatMap (·.failures (timeoutMessage settings.batchSpan)) :=
    h.failures
  have hpaths : (named (accounts cwd heard 0 done)).map (fun n => n.1 ++ "/" ++ n.2) =
      d.summary.failures.map (·.path) := by
    rw [hfailures, paths_named]
  calc (announcements "" d.console).map (fun a => (a.number, a.path))
      = (((named (accounts cwd heard 0 done)).map fun n => n.1 ++ "/" ++ n.2).zipIdx 1).map
          fun n => (n.2, n.1) := by
        rw [← announcements_untimed, hconsole, announcements_transcript, List.zipIdx_map]
        simp [Announcement.path, Function.comp_def]
    _ = ((d.summary.failures.map (·.path)).zipIdx 1).map fun n => (n.2, n.1) := by rw [hpaths]
    _ = (d.summary.failures.zipIdx 1).map fun f => (f.2, f.1.path) := by
        rw [List.zipIdx_map]
        simp [Function.comp_def]

end SuiteRunner.Dispatch

/-! ## Reports -/

namespace SuiteRunner

open Dispatch (Dispatcher Ending Input Line announcements)

theorem Summary.failureBlocks_eq (number : Nat) (fs : List Failure) :
    failureBlocks number fs = String.join ((fs.zipIdx number).map fun f => f.1.block f.2) := by
  induction fs generalizing number with
  | nil => rfl
  | cons f fs ih => simp [failureBlocks, ih]

theorem Summary.exitCode_eq_zero_iff (s : Summary) : s.exitCode = 0 ↔ s.success = true := by
  simp [exitCode]

/-- The end of a run adds no failure and drops none. -/
theorem Coordinator.failures_conclude (s : Summary) (now : Moment) (e : Ending) :
    (conclude s now e).failures = s.failures := by
  cases e <;> rfl

theorem Report.distinct_members (r : Report) :
    ∃ members, r.toJson = .object members ∧ (members.map (·.1)).Nodup ∧
      ("tests_failed", .nat r.testsFailed) ∈ members ∧ ("success", .bool r.success) ∈ members ∧
      ("failures", .array (r.failures.map failureJson)) ∈ members := by
  refine ⟨_, rfl, ?_, by simp, by simp, by simp⟩
  cases r.finishedAt <;> cases r.aborted <;> simp [optional]

theorem Report.aborted_mem {r : Report} {members : List (String × Json)} {cause : String}
    (hjson : r.toJson = .object members) (h : r.aborted = some cause) :
    ("aborted", .string cause) ∈ members := by
  obtain rfl := Json.object.inj hjson
  simp [optional, h]

/-- Console, report for people and report for programs agree on the failures of a summary. -/
structure Numbered (console : List Line) (s : Summary) (now : Moment) : Prop where
  /-- Failures are announced by number and name, and the numbers are one, two, three and so on. -/
  texts : (console.filter Line.isFailure).map Line.text =
    (announcements "" console).map fun a =>
      "  " ++ a.name ++ " failure (" ++ Text.decimal a.number ++ ")"
  numbers : (announcements "" console).map (·.number) = List.range' 1 s.failures.length
  /-- The failure that is announced with a number is the one that has this place in the summary. -/
  announced : (announcements "" console).map (fun a => (a.number, a.path)) =
    (s.failures.zipIdx 1).map fun f => (f.2, f.1.path)
  report : s.report now =
    String.join ((s.failures.zipIdx 1).map fun f =>
      "(" ++ Text.decimal f.2 ++ ") " ++ f.1.path ++ ":\n" ++ f.1.message ++ "\n\n") ++
    ("Tests run: " ++ Text.decimal s.testsRun ++ ", failed: " ++
      Text.decimal s.failures.length ++ ", elapsed " ++ Number.seconds (s.elapsed now).seconds ++
      " seconds\n") ++
    s.abortLines
  /-- The members of the report for programs have distinct names. -/
  json : ∃ members, (Report.ofSummary s now).toJson = .object members ∧
    (members.map (·.1)).Nodup ∧ ("tests_failed", .nat s.failures.length) ∈ members ∧
    ("success", .bool (s.exitCode = 0)) ∈ members ∧
    ("failures", .array (s.failures.map fun f =>
      .object [("path", .string f.path), ("message", .string f.message)])) ∈ members

/-- The failures of every run are announced as one, two, three and so on, and whatever way it ends
both reports have the failure that was announced with a number in that place. -/
theorem failure_numbers_agree (settings : DispatchSettings) (total : Nat) (begun : Moment)
    (cwd : Path) (start : Nat) (root : Suite) (inputs : List (Nat × Input)) (ended now : Moment)
    (e : Ending) :
    Numbered ((Dispatcher.fresh settings total begun cwd).run start root inputs).console
      (Coordinator.conclude
        ((Dispatcher.fresh settings total begun cwd).run start root inputs).summary ended e)
      now := by
  obtain ⟨done, current, -, -, htold⟩ :=
    (Dispatcher.chronicle_fresh settings total begun cwd start root inputs).told
  have hannounced := htold.announced
  generalize (Dispatcher.fresh settings total begun cwd).run start root inputs = d at hannounced ⊢
  rw [← Coordinator.failures_conclude d.summary ended e] at hannounced
  generalize Coordinator.conclude d.summary ended e = s at hannounced ⊢
  refine ⟨Dispatch.text_announcements "" _, ?_, hannounced, ?_, ?_⟩
  · have hnumbers := congrArg (List.map Prod.fst) hannounced
    rwa [List.map_map, List.map_map, show (Prod.fst ∘ fun f : Failure × Nat => (f.2, f.1.path)) =
      Prod.snd from rfl, List.zipIdx_map_snd] at hnumbers
  · rw [Summary.report, Summary.failureBlocks_eq]
    rfl
  · obtain ⟨members, hjson, hdistinct, hfailed, hsuccess, hfailures⟩ :=
      (Report.ofSummary s now).distinct_members
    refine ⟨members, hjson, hdistinct, hfailed, ?_, hfailures⟩
    have hcode : decide (s.exitCode = 0) = s.success := by
      rw [Bool.eq_iff_iff, decide_eq_true_iff, s.exitCode_eq_zero_iff]
    rw [hcode]
    exact hsuccess

end SuiteRunner
