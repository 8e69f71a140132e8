import SuiteRunner.Proofs.Causes
import SuiteRunner.Proofs.Discovery.Manifest
import SuiteRunner.Proofs.Dispatch.Scripted
import SuiteRunner.Proofs.FileSystem
import SuiteRunner.Proofs.Report.File
import SuiteRunner.Proofs.Report.Numbering
import SuiteRunner.Proofs.Resolution

/-! # The exit status

A command that was understood goes through its stages in order: settings, tests, listener, worker,
dispatch, reports. A stage that fails before dispatch ends it at once with the chain of causes. From
then on everything is part of the report, and the status is zero only if all tests were answered
`OK` first and the report could be written. A command whose dispatch never ends has no status; with
a worker that follows a script this happens only where a request waits for room for ever. -/
namespace SuiteRunner.Program

open Dispatch (AllPassed Behaviour Dispatcher Ending Hearing Input WorkerStep World)
open Discovery (Contribution)
open FileSystem (IsProper maxName maxPath)
open Text.Utf8 (decodeLossy encode)

/-- All stages before dispatch have succeeded, and tests are dispatched to a worker. -/
structure Underway (o : Options) (w : Surroundings) where
  config : Config
  manifest : Manifest
  worker : Behaviour
  accepted : o.check = .ok ()
  built : o.build w.files = .ok config
  valid : config.check = .ok ()
  found : Discovery.discover w.files config.discovery o.root = .ok manifest
  listening : w.listenFault = none
  connected : w.arrival = .worker worker

namespace Underway

variable {o : Options} {w : Surroundings} (r : Underway o w)

def outset : Dispatcher := Coordinator.dispatcher r.config w r.manifest

/-- What the dispatcher takes in, and when. -/
def inputs : List (Nat × Input) := r.worker r.outset r.manifest.root

/-- What the dispatcher has come to. -/
def dispatcher : Dispatcher := r.outset.run 0 r.manifest.root r.inputs

def heard : Hearing := r.outset.heard 0 r.manifest.root r.inputs

def elapsed : Nat := (r.inputs.getLast?.map (·.1)).getD 0

def now : Moment := w.start.after r.elapsed

/-- The summary of a run that has ended so. -/
def summary (e : Ending) : Summary := Coordinator.conclude r.dispatcher.summary r.now e

/-- What is printed before the report. -/
def printed : String :=
  "Searching tests\n" ++ Coordinator.foundLines r.manifest.total ++ "Server is listening on " ++
    r.config.server.bindAddress ++ "\n" ++ "Worker connected from: worker\n\n" ++
    Dispatch.consoleText r.dispatcher.console

/-- The report for programs is written without a fault if it is wanted at all. -/
def Saved (e : Ending) : Prop :=
  ∀ file, r.config.output.jsonOutput = some file →
    ((Report.ofSummary (r.summary e) r.now).save w.files w.room file).2 = .ok ()

end Underway

/-- A stage before dispatch fails, after some lines were printed. -/
inductive Halts (o : Options) (w : Surroundings) : Fault → String → Prop
  | options {cause : Options.Fault} (h : o.check = .error cause) : Halts o w (.options cause) ""
  | build {cause : Options.BuildFault} (h : o.check = .ok ())
      (hbuild : o.build w.files = .error cause) : Halts o w (.build cause) ""
  | invalid {c : Config} {cause : SettingFault} (h : o.check = .ok ())
      (hbuild : o.build w.files = .ok c) (hcheck : c.check = .error cause) :
      Halts o w (.run (.invalid cause)) ""
  | discovery {c : Config} {cause : DiscoveryFault} (h : o.check = .ok ())
      (hbuild : o.build w.files = .ok c) (hcheck : c.check = .ok ())
      (hfound : Discovery.discover w.files c.discovery o.root = .error cause) :
      Halts o w (.run (.discovery o.root cause)) "Searching tests\n"
  | listen {c : Config} {m : Manifest} {cause : ListenFault} (h : o.check = .ok ())
      (hbuild : o.build w.files = .ok c) (hcheck : c.check = .ok ())
      (hfound : Discovery.discover w.files c.discovery o.root = .ok m)
      (hlisten : w.listenFault = some cause) :
      Halts o w (.run (.listen c.server.bindAddress cause))
        ("Searching tests\n" ++ Coordinator.foundLines m.total)
  | accept {c : Config} {m : Manifest} {cause : Transport.Listener.AcceptFault}
      (h : o.check = .ok ()) (hbuild : o.build w.files = .ok c) (hcheck : c.check = .ok ())
      (hfound : Discovery.discover w.files c.discovery o.root = .ok m)
      (hlisten : w.listenFault = none)
      (harrival : w.arrival = .nobody ∧
          cause = .timedOut (.connectionTimeout c.server.connectSpan) ∨
        w.arrival = .stopped ∧ cause = .stopped) :
      Halts o w (.run (.accept cause))
        ("Searching tests\n" ++ Coordinator.foundLines m.total ++ "Server is listening on " ++
          c.server.bindAddress ++ "\n")

section

variable {o : Options} {w : Surroundings} {fault : Fault} {printed : String}

/-! ## Before dispatch -/

/-- A command that halts early sends nothing, writes nothing and tells why last. -/
theorem Halts.outcome (h : Halts o w fault printed) :
    (runOptions o w).exitCode = some 1 ∧ (runOptions o w).requests = [] ∧
      (runOptions o w).files = w.files ∧
      (runOptions o w).console = printed ++ errorLine fault := by
  cases h with
  | options h => simp [runOptions, configure, h]
  | build h hbuild => simp [runOptions, configure, h, hbuild]
  | invalid h hbuild hcheck => simp [runOptions, configure, h, hbuild, Coordinator.run, hcheck]
  | discovery h hbuild hcheck hfound =>
    simp [runOptions, configure, h, hbuild, Coordinator.run, hcheck, Coordinator.runChecked, hfound]
  | listen h hbuild hcheck hfound hlisten =>
    simp [runOptions, configure, h, hbuild, Coordinator.run, hcheck, Coordinator.runChecked, hfound,
      Coordinator.serve, hlisten]
  | accept h hbuild hcheck hfound hlisten harrival =>
    obtain ⟨harrival, rfl⟩ | ⟨harrival, rfl⟩ := harrival
    · simp [runOptions, configure, h, hbuild, Coordinator.run, hcheck, Coordinator.runChecked,
        hfound, Coordinator.serve, hlisten, harrival]
    · simp [runOptions, configure, h, hbuild, Coordinator.run, hcheck, Coordinator.runChecked,
        hfound, Coordinator.serve, hlisten, harrival]

theorem halts_or_underway (o : Options) (w : Surroundings) :
    (∃ fault printed, Halts o w fault printed) ∨ Nonempty (Underway o w) := by
  cases ho : o.check with
  | error cause => exact .inl ⟨_, _, .options ho⟩
  | ok _ =>
  cases hb : o.build w.files with
  | error cause => exact .inl ⟨_, _, .build ho hb⟩
  | ok c =>
  cases hc : c.check with
  | error cause => exact .inl ⟨_, _, .invalid ho hb hc⟩
  | ok _ =>
  cases hm : Discovery.discover w.files c.discovery o.root with
  | error cause => exact .inl ⟨_, _, .discovery ho hb hc hm⟩
  | ok m =>
  cases hl : w.listenFault with
  | some cause => exact .inl ⟨_, _, .listen ho hb hc hm hl⟩
  | none =>
  cases ha : w.arrival with
  | nobody => exact .inl ⟨_, _, .accept ho hb hc hm hl (.inl ⟨ha, rfl⟩)⟩
  | stopped => exact .inl ⟨_, _, .accept ho hb hc hm hl (.inr ⟨ha, rfl⟩)⟩
  | worker behaviour => exact .inr ⟨⟨c, m, behaviour, ho, hb, hc, hm, hl, ha⟩⟩

namespace Underway

variable (r : Underway o w) {e : Ending}

theorem run_eq : Coordinator.run r.config o.root w =
    { console := r.printed
      requests := r.dispatcher.sent
      elapsed := r.elapsed
      result := r.dispatcher.ending?.map fun e => .ok (r.summary e) } := by
  simp only [Coordinator.run, r.valid, Coordinator.runChecked, r.found, Coordinator.serve,
    r.listening, r.connected]
  rfl

theorem runOptions_of_none (h : r.dispatcher.ending? = none) :
    (runOptions o w).exitCode = none := by
  simp [runOptions, configure, r.accepted, r.built, r.run_eq, h]

theorem runOptions_of_some (h : r.dispatcher.ending? = some e) :
    runOptions o w = finish r.config (r.summary e) w
      { console := r.printed
        requests := r.dispatcher.sent
        elapsed := r.elapsed
        result := some (.ok (r.summary e)) } := by
  simp [runOptions, configure, r.accepted, r.built, r.run_eq, h]

end Underway

section

variable {c : Config} {s : Summary} {now : Moment}

private theorem saveReport_ok_iff : (∃ line, (saveReport c s w now).2 = .ok line) ↔
    ∀ file, c.output.jsonOutput = some file →
      ((Report.ofSummary s now).save w.files w.room file).2 = .ok () := by
  unfold saveReport
  cases hfile : c.output.jsonOutput with
  | none => simp
  | some file =>
    simp only [Option.some.injEq, forall_eq']
    cases (Report.ofSummary s now).save w.files w.room file with
    | mk files result => cases result <;> simp

theorem files_saveReport {file : Path} (h : c.output.jsonOutput = some file) :
    (saveReport c s w now).1 = ((Report.ofSummary s now).save w.files w.room file).1 := by
  unfold saveReport
  rw [h]
  simp only
  cases (Report.ofSummary s now).save w.files w.room file with
  | mk files result => cases result <;> rfl

/-- Whatever becomes of the report for programs, the one for people is printed first. -/
theorem finish_cases (out : Coordinator.Outcome) (hnow : now = w.start.after out.elapsed) :
    (finish c s w out).files = (saveReport c s w now).1 ∧
      (∃ tail, (finish c s w out).console = out.console ++ s.report now ++ tail) ∧
      ((∃ line, (saveReport c s w now).2 = .ok line) ∧
          (finish c s w out).exitCode = some s.exitCode ∨
        (¬ ∃ line, (saveReport c s w now).2 = .ok line) ∧
          (finish c s w out).exitCode = some 1) := by
  simp only [finish, ← hnow]
  cases saveReport c s w now with
  | mk files saved =>
    cases saved with
    | ok line => exact ⟨rfl, ⟨line, rfl⟩, .inl ⟨⟨line, rfl⟩, rfl⟩⟩
    | error fault => exact ⟨rfl, ⟨errorLine fault, rfl⟩, .inr ⟨by simp, rfl⟩⟩

end

namespace Underway

variable (r : Underway o w) {e : Ending}

theorem finish_eq (h : r.dispatcher.ending? = some e) :
    (runOptions o w).files = (saveReport r.config (r.summary e) w r.now).1 ∧
      (∃ tail, (runOptions o w).console = r.printed ++ (r.summary e).report r.now ++ tail) ∧
      (r.Saved e ∧ (runOptions o w).exitCode = some (r.summary e).exitCode ∨
        ¬ r.Saved e ∧ (runOptions o w).exitCode = some 1) := by
  have hsaved : (∃ line, (saveReport r.config (r.summary e) w r.now).2 = .ok line) ↔ r.Saved e :=
    saveReport_ok_iff
  rw [r.runOptions_of_some h, ← hsaved]
  exact finish_cases _ rfl

theorem ending_cases (h : r.dispatcher.ending? = some e) :
    e = .completed ∨ ∃ fault, e = .aborted fault :=
  (Dispatcher.course_fresh r.config.dispatch r.manifest.total w.start w.cwd 0 r.manifest.root
    r.inputs).ending_cases h

/-- A run is a success if it was completed and every test was answered `OK` first. -/
theorem exitCode_summary (h : r.dispatcher.ending? = some e) :
    (r.summary e).exitCode = 0 ↔
      e = .completed ∧ AllPassed w.cwd (r.manifest.root.preorder "") r.heard := by
  rw [Summary.exitCode_eq_zero_iff, Summary.success, Bool.and_eq_true, List.isEmpty_iff]
  obtain rfl | ⟨fault, rfl⟩ := r.ending_cases h
  · have hcause : r.dispatcher.summary.abortCause = none :=
      Dispatcher.abortCause_run Dispatch.Pending.quiet_empty 0 r.manifest.root r.inputs
    have hfailures := Dispatcher.failures_eq_nil_iff r.config.dispatch r.manifest.total w.start
      w.cwd 0 r.manifest.root r.inputs h
    simp only [summary, Coordinator.conclude, Coordinator.abortCause?, Summary.finish, hcause]
    exact ⟨fun hs => ⟨trivial, hfailures.mp hs.1⟩, fun hs => ⟨hfailures.mpr hs.2, rfl⟩⟩
  · simp [summary, Coordinator.conclude, Coordinator.abortCause?, Summary.abort, Summary.finish]

/-- What a run leaves behind that was given up. -/
structure Aborted (r : Underway o w) (fault : RunFault) (out : Outcome) : Prop where
  exitCode : out.exitCode = some 1
  /-- All failures so far are printed, then the counts, then the cause. -/
  console : ∃ tail, out.console = r.printed ++
    (String.join ((r.dispatcher.summary.failures.zipIdx 1).map fun f =>
      "(" ++ Text.decimal f.2 ++ ") " ++ f.1.path ++ ":\n" ++ f.1.message ++ "\n\n") ++
      (r.summary (.aborted fault)).summaryLine r.now ++
      ("\nRun aborted: " ++ fault.message ++ "\n")) ++ tail
  /-- The report for programs has them too, as far as there is room for it. -/
  file : ∀ file loc, r.config.output.jsonOutput = some file →
    w.files.fileLocation file = .ok loc →
    (w.files.entry? loc = none ∨ ∃ old, w.files.entry? loc = some (.file old)) →
    ∃ members, out.files.contentAt file =
        .ok (Sink.fits w.room (Text.Utf8.encode (Json.object members).renderPretty)) ∧
      (members.map (·.1)).Nodup ∧ ("success", .bool false) ∈ members ∧
      ("aborted", .string fault.message) ∈ members ∧
      ("failures", .array (r.dispatcher.summary.failures.map Report.failureJson)) ∈ members

private theorem success_aborted (fault : RunFault) :
    (r.summary (.aborted fault)).success = false := by
  simp [summary, Coordinator.conclude, Coordinator.abortCause?, Summary.abort, Summary.finish,
    Summary.success]

theorem aborted {fault : RunFault} (h : r.dispatcher.ending? = some (.aborted fault)) :
    Aborted r fault (runOptions o w) := by
  have hfailed := r.success_aborted fault
  obtain ⟨hfiles, ⟨tail, hconsole⟩, hcode⟩ := r.finish_eq h
  refine ⟨?_, ⟨tail, ?_⟩, ?_⟩
  · obtain ⟨-, hcode⟩ | ⟨-, hcode⟩ := hcode
    · simp [hcode, Summary.exitCode, hfailed]
    · exact hcode
  · rw [hconsole, Summary.report, Summary.failureBlocks_eq]
    rfl
  · intro file loc hfile hloc hplace
    obtain ⟨members, hjson, hdistinct, -, hsuccess, hfailures⟩ :=
      (Report.ofSummary (r.summary (.aborted fault)) r.now).distinct_members
    refine ⟨members, ?_, hdistinct, ?_, Report.aborted_mem hjson rfl, hfailures⟩
    · rw [hfiles, files_saveReport hfile, Report.save_of_fileLocation hloc,
        FileSystem.contentAt_fill hloc hplace, Report.text, hjson]
    · rw [← hfailed]
      exact hsuccess

end Underway

/-! ## The status -/

/-- The status of a command is settled by the stage that it got to. -/
theorem exitCode_cases (o : Options) (w : Surroundings) :
    (runOptions o w).exitCode = some 1 ∨
      ∃ r : Underway o w,
        r.dispatcher.ending? = none ∧ (runOptions o w).exitCode = none ∨
        ∃ e, r.dispatcher.ending? = some e ∧ r.Saved e ∧
          (runOptions o w).exitCode = some (r.summary e).exitCode := by
  rcases halts_or_underway o w with ⟨fault, printed, hhalts⟩ | ⟨⟨r⟩⟩
  · exact .inl hhalts.outcome.1
  · cases he : r.dispatcher.ending? with
    | none => exact .inr ⟨r, .inl ⟨he, r.runOptions_of_none he⟩⟩
    | some e =>
      obtain ⟨-, -, ⟨hsaved, hcode⟩ | ⟨-, hcode⟩⟩ := r.finish_eq he
      · exact .inr ⟨r, .inr ⟨e, he, hsaved, hcode⟩⟩
      · exact .inl hcode

theorem exitCode_eq_zero_iff (o : Options) (w : Surroundings) :
    (runOptions o w).exitCode = some 0 ↔ ∃ r : Underway o w,
      r.dispatcher.ending? = some .completed ∧
      AllPassed w.cwd (r.manifest.root.preorder "") r.heard ∧ r.Saved .completed := by
  constructor
  · intro h
    obtain hone | ⟨r, ⟨-, hnone⟩ | ⟨e, he, hsaved, hcode⟩⟩ := exitCode_cases o w
    · simp [h] at hone
    · simp [h] at hnone
    · rw [h] at hcode
      obtain ⟨rfl, hpassed⟩ := (r.exitCode_summary he).mp (Option.some.inj hcode).symm
      exact ⟨r, he, hpassed, hsaved⟩
  · rintro ⟨r, he, hpassed, hsaved⟩
    obtain ⟨-, -, ⟨-, hcode⟩ | ⟨hnot, -⟩⟩ := r.finish_eq he
    · rw [hcode, (r.exitCode_summary he).mpr ⟨rfl, hpassed⟩]
    · exact absurd hsaved hnot

namespace Underway

variable {script : List WorkerStep} (r : Underway o w)

end Underway

end

/-! ## A single test -/

/-- A directory with one test in it. -/
def loneTest : FileSystem where
  entries := [
    (["t"].map encode, .directory),
    (["t", "test.js"].map encode, .file []),
    (["t", "runtime.js"].map encode, .file [])]

private theorem sortedNames_loneTest : Discovery.sortedNames loneTest (.ofString "/t") =
    .ok (["runtime.js", "test.js"].map encode) := by
  have hlist : loneTest.list (.ofString "/t") = .ok (["test.js", "runtime.js"].map encode) := by
    decide +kernel
  have hle : decide (encode "test.js" ≤ encode "runtime.js") = false := by decide +kernel
  simp [Discovery.sortedNames, hlist, Discovery.sortNames, List.mergeSort,
    List.MergeSort.Internal.splitInTwo, hle]

def loneCase : TestCase := ⟨"root simple", [.ofString "/t/runtime.js", .ofString "/t/test.js"]⟩

private theorem discover_loneTest :
    Discovery.discover loneTest {} (.ofString "/t") = .ok ⟨.mk "root" [loneCase] [], 1⟩ := by
  have hleaf : Discovery.isLeaf {} (["runtime.js", "test.js"].map encode) = true := by
    decide +kernel
  have hcases : Discovery.leafCases {} (.ofString "/t") "root"
      (["runtime.js", "test.js"].map encode) = [loneCase] := by
    decide +kernel
  rw [Discovery.discover, Discovery.depthBound, Discovery.walk, sortedNames_loneTest]
  simp only [bind, Except.bind, hleaf, if_true, Discovery.rootName, hcases]
  rfl

/-- A worker connects that follows a script, and there is one test for it. -/
def attended (script : List WorkerStep) : Surroundings where
  files := loneTest
  arrival := .worker (.scripted script)

def loneOptions : Options where
  root := .ofString "/t"
  jsonOutput := some (.ofString "/r.json")

def attendedRun (script : List WorkerStep) : Underway loneOptions (attended script) where
  config := { output := { jsonOutput := some (.ofString "/r.json") } }
  manifest := ⟨.mk "root" [loneCase] [], 1⟩
  worker := .scripted script
  accepted := by decide +kernel
  built := rfl
  valid := by decide +kernel
  found := discover_loneTest
  listening := rfl
  connected := rfl

/-! ## The whole command -/

end SuiteRunner.Program
